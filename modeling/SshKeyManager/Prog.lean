import Mathlib.Data.List.Infix
import Mathlib.Data.Sigma.Basic

/-!
# Programs that wait on the outside world

An async function of the server is a `Prog`: it has either finished with a value, or it waits
at an `.await` on a call to the outside world (the store, the SSH library, a channel) and goes
on with the answer. `run` executes a program against an environment that answers each call
from the history of calls so far, so it may answer the same call differently each time.
`wp P Q` says that every call the program still makes satisfies `P` and its result satisfies
`Q`, whatever the answers; `wp_run` ties it to `run`, and `wp_call` to one answer at a time.
`lift` embeds a program into a wider set of calls and `subst` answers each call by a program,
which is how a middleware runs the service it wraps; `wp_lift` carries `wp` through a lift.
-/

namespace SshKeyManager

inductive Prog (Call : Type) (Answer : Call → Type) (α : Type) where
  | pure (a : α)
  | call (c : Call) (k : Answer c → Prog Call Answer α)

namespace Prog

variable {Call : Type} {Answer : Call → Type} {α β : Type}

def bind : Prog Call Answer α → (α → Prog Call Answer β) → Prog Call Answer β
  | pure a, f => f a
  | call c k, f => call c fun r => (k r).bind f

/-- `.await` on a single call. -/
def await (c : Call) : Prog Call Answer (Answer c) := call c pure

def map (p : Prog Call Answer α) (f : α → β) : Prog Call Answer β := p.bind fun a => pure (f a)

/-- The same program, its calls renamed by `f` and their answers read back by `g`. -/
def lift {Call' : Type} {Answer' : Call' → Type} (f : Call → Call')
    (g : ∀ c, Answer' (f c) → Answer c) : Prog Call Answer α → Prog Call' Answer' α
  | pure a => pure a
  | call c k => call (f c) fun r => (k (g c r)).lift f g

/-- The program with each of its calls answered by a program: how a middleware runs its service. -/
def subst {Call' : Type} {Answer' : Call' → Type} (h : (c : Call) → Prog Call' Answer' (Answer c)) :
    Prog Call Answer α → Prog Call' Answer' α
  | pure a => pure a
  | call c k => (h c).bind fun r => (k r).subst h

/-- Run against `env`, which answers each call from the history before it. -/
def run (env : List (Sigma Answer) → (c : Call) → Answer c) :
    Prog Call Answer α → List (Sigma Answer) → List (Sigma Answer) × α
  | pure a, tr => (tr, a)
  | call c k, tr => (k (env tr c)).run env (tr ++ [⟨c, env tr c⟩])

/-- Every call made after the history `tr` satisfies `P`, and the result `Q`, whatever the answers.
-/
def wp (P : List (Sigma Answer) → Call → Prop) (Q : List (Sigma Answer) → α → Prop) :
    Prog Call Answer α → List (Sigma Answer) → Prop
  | pure a, tr => Q tr a
  | call c k, tr => P tr c ∧ ∀ r, (k r).wp P Q (tr ++ [⟨c, r⟩])

inductive Past (P : List (Sigma Answer) → Call → Prop) : List (Sigma Answer) → Prop
  | nil : Past P []
  | snoc {tr : List (Sigma Answer)} {ev : Sigma Answer} : Past P tr → P tr ev.1 → Past P (tr ++ [ev])

/-! ## Running -/

@[simp] theorem bind_pure (a : α) (f : α → Prog Call Answer β) : (pure a).bind f = f a := rfl

@[simp] theorem bind_call (c : Call) (k : Answer c → Prog Call Answer α)
    (f : α → Prog Call Answer β) : (call c k).bind f = call c fun r => (k r).bind f := rfl

theorem bind_pure_right (p : Prog Call Answer α) : p.bind pure = p := by
  induction p with
  | pure a => rfl
  | call c k ih => exact congrArg (call c) (funext ih)

section
variable {Call' : Type} {Answer' : Call' → Type} (h : (c : Call) → Prog Call' Answer' (Answer c))

@[simp] theorem subst_pure (a : α) : (pure a : Prog Call Answer α).subst h = pure a := rfl

@[simp] theorem subst_call (c : Call) (k : Answer c → Prog Call Answer α) :
    (call c k).subst h = (h c).bind fun r => (k r).subst h := rfl

theorem subst_await (c : Call) : (await c).subst h = h c := bind_pure_right (h c)

end

@[simp] theorem run_pure (env : List (Sigma Answer) → (c : Call) → Answer c) (a : α) tr :
    (pure a : Prog Call Answer α).run env tr = (tr, a) := rfl

@[simp] theorem run_call (env : List (Sigma Answer) → (c : Call) → Answer c) (c : Call)
    (k : Answer c → Prog Call Answer α) tr :
    (call c k).run env tr = (k (env tr c)).run env (tr ++ [⟨c, env tr c⟩]) := rfl

theorem run_bind (env : List (Sigma Answer) → (c : Call) → Answer c) (p : Prog Call Answer α)
    (f : α → Prog Call Answer β) tr :
    (p.bind f).run env tr = (f (p.run env tr).2).run env (p.run env tr).1 := by
  induction p generalizing tr with
  | pure a => rfl
  | call c k ih => exact ih _ _

theorem run_map (env : List (Sigma Answer) → (c : Call) → Answer c) (p : Prog Call Answer α)
    (f : α → β) tr : (p.map f).run env tr = ((p.run env tr).1, f (p.run env tr).2) :=
  run_bind env p _ tr

theorem run_extends (env : List (Sigma Answer) → (c : Call) → Answer c) (p : Prog Call Answer α)
    tr : tr <+: (p.run env tr).1 := by
  induction p generalizing tr with
  | pure a => exact List.prefix_refl tr
  | call c k ih => exact (List.prefix_append tr _).trans (ih _ _)

theorem run_head? (env : List (Sigma Answer) → (c : Call) → Answer c) (p : Prog Call Answer α)
    (e : Sigma Answer) tr : (p.run env (e :: tr)).1.head? = some e := by
  obtain ⟨t, ht⟩ := run_extends env p (e :: tr)
  rw [← ht]
  rfl

/-! ## Weakest preconditions -/

theorem wp_bind (P : List (Sigma Answer) → Call → Prop) (Q : List (Sigma Answer) → β → Prop)
    (p : Prog Call Answer α) (f : α → Prog Call Answer β) tr :
    (p.bind f).wp P Q tr ↔ p.wp P (fun tr a => (f a).wp P Q tr) tr := by
  induction p generalizing tr with
  | pure a => rfl
  | call c k ih => simp only [bind, wp, ih]

theorem wp_map (P : List (Sigma Answer) → Call → Prop) (Q : List (Sigma Answer) → β → Prop)
    (p : Prog Call Answer α) (f : α → β) tr :
    (p.map f).wp P Q tr ↔ p.wp P (fun tr a => Q tr (f a)) tr :=
  wp_bind P Q p _ tr

theorem wp_mono {P P' : List (Sigma Answer) → Call → Prop} {Q Q' : List (Sigma Answer) → α → Prop}
    (hP : ∀ tr c, P tr c → P' tr c) (hQ : ∀ tr a, Q tr a → Q' tr a) {p : Prog Call Answer α} {tr}
    (h : p.wp P Q tr) : p.wp P' Q' tr := by
  induction p generalizing tr with
  | pure a => exact hQ _ _ h
  | call c k ih => exact ⟨hP _ _ h.1, fun r => ih r (h.2 r)⟩

theorem wp_of_forall {P : List (Sigma Answer) → Call → Prop} {Q : List (Sigma Answer) → α → Prop}
    {tr : List (Sigma Answer)} (hP : ∀ tr' c, tr <+: tr' → P tr' c) (hQ : ∀ tr' a, Q tr' a)
    (p : Prog Call Answer α) : p.wp P Q tr := by
  induction p generalizing tr with
  | pure a => exact hQ _ a
  | call c k ih =>
    exact ⟨hP tr c (List.prefix_refl tr),
      fun r => ih r fun tr' c' h => hP tr' c' ((List.prefix_append tr _).trans h)⟩

theorem wp_lift {Call' : Type} {Answer' : Call' → Type} {f : Call → Call'}
    {g : ∀ c, Answer' (f c) → Answer c} {R : List (Sigma Answer') → List (Sigma Answer) → Prop}
    (hR : ∀ tr' tr c r, R tr' tr → R (tr' ++ [⟨f c, r⟩]) (tr ++ [⟨c, g c r⟩]))
    {P : List (Sigma Answer) → Call → Prop} {Q : List (Sigma Answer) → α → Prop}
    {P' : List (Sigma Answer') → Call' → Prop} {Q' : List (Sigma Answer') → α → Prop}
    (hP : ∀ tr' tr c, R tr' tr → P tr c → P' tr' (f c)) (hQ : ∀ tr' tr a, R tr' tr → Q tr a → Q' tr' a)
    {p : Prog Call Answer α} {tr' : List (Sigma Answer')} {tr : List (Sigma Answer)}
    (h : p.wp P Q tr) (hr : R tr' tr) : (p.lift f g).wp P' Q' tr' := by
  induction p generalizing tr' tr with
  | pure a => exact hQ _ _ a hr h
  | call c k ih => exact ⟨hP _ _ c hr h.1, fun r => ih (g c r) (h.2 (g c r)) (hR _ _ c r hr)⟩

theorem wp_lift_of_forall {Call' : Type} {Answer' : Call' → Type} {f : Call → Call'}
    {g : ∀ c, Answer' (f c) → Answer c} {P : List (Sigma Answer') → Call' → Prop}
    {Q : List (Sigma Answer') → α → Prop} (hP : ∀ tr c, P tr (f c)) (hQ : ∀ tr a, Q tr a)
    (p : Prog Call Answer α) tr : (p.lift f g).wp P Q tr := by
  induction p generalizing tr with
  | pure a => exact hQ _ a
  | call c k ih => exact ⟨hP _ c, fun r => ih _ _⟩

theorem wp_call {P : List (Sigma Answer) → Call → Prop} {Q : List (Sigma Answer) → α → Prop}
    {c : Call} {k : Answer c → Prog Call Answer α} {tr} (h : (call c k).wp P Q tr)
    (hp : Past P tr) (r : Answer c) :
    (k r).wp P Q (tr ++ [⟨c, r⟩]) ∧ Past P (tr ++ [⟨c, r⟩]) :=
  ⟨h.2 r, .snoc hp h.1⟩

/-- Soundness of `wp`: a whole run makes only allowed calls and ends in `Q`. -/
theorem wp_run {P : List (Sigma Answer) → Call → Prop} {Q : List (Sigma Answer) → α → Prop}
    (env : List (Sigma Answer) → (c : Call) → Answer c) {p : Prog Call Answer α} {tr}
    (h : p.wp P Q tr) (hp : Past P tr) :
    Past P (p.run env tr).1 ∧ Q (p.run env tr).1 (p.run env tr).2 := by
  induction p generalizing tr with
  | pure a => exact ⟨hp, h⟩
  | call c k ih =>
    obtain ⟨h', hp'⟩ := wp_call h hp (env tr c)
    exact ih _ h' hp'

theorem Past.allowed {P : List (Sigma Answer) → Call → Prop} {tr : List (Sigma Answer)}
    (h : Past P tr) {pre : List (Sigma Answer)} {ev : Sigma Answer} (hp : pre ++ [ev] <+: tr) :
    P pre ev.1 := by
  induction h with
  | nil => simp at hp
  | @snoc tr ev' _ hP ih =>
    rcases List.prefix_concat_iff.mp hp with heq | hp
    · obtain ⟨rfl, h⟩ := List.append_inj' heq rfl
      exact List.singleton_inj.mp h ▸ hP
    · exact ih hp

theorem Past.mem {P : List (Sigma Answer) → Call → Prop} {tr : List (Sigma Answer)}
    (h : Past P tr) {ev : Sigma Answer} (hev : ev ∈ tr) : ∃ pre, pre ++ [ev] <+: tr ∧ P pre ev.1 := by
  obtain ⟨pre, post, rfl⟩ := List.append_of_mem hev
  have hp : pre ++ [ev] <+: pre ++ ev :: post := ⟨post, by simp⟩
  exact ⟨pre, hp, h.allowed hp⟩

end Prog

end SshKeyManager
