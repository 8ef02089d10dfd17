import SshKeyManager.Hosts
import Mathlib.Logic.Relation
import Mathlib.Data.List.Nodup

/-!
# Concurrent `add_host` requests

The server serves any number of `add_host` requests at once. A step accepts a new form, or
answers the pending call of one request: the hosts table answers lookups and inserts (each may
fail, or its blocking task be canceled), and the SSH side answers its calls in any way. Requests
interleave in every order. `addHost_wp` makes each request's calls `Authorized`, so every insert
is the persist of an authenticated form (`addHost_persists_authenticated`), the last call of its
request, and a request answered "Added host" finds its row in the table. Since a lookup only
returns a stored host, each step leaves the table alone or appends a row the registry admits,
the row a request has just inserted right after its own authenticated persist; so the table
stays a `Registry` (`server_refines_registry`), in which every jump host was stored before the
hosts that use it: the `jump_via` links are acyclic (`jumpVia_acyclic`).
-/

namespace SshKeyManager.Hosts

/-- A request being served: its form, its calls with their answers, and the rest of the handler. -/
structure Request where
  form : HostAddForm
  trace : List (Sigma Answer)
  rest : Prog Call Answer (Except BlockingError FormResponse)

/-- The hosts table in insertion order, and every request the server accepted. -/
structure Server where
  hosts : List Host
  requests : List Request

def Call.isStore : Call → Bool
  | .getHostId _ | .addHost _ => true
  | _ => false

section
variable (alloc : List Host → Int → Prop)

/-- How the hosts table answers a call and what it holds after; the SSH side may answer anything. -/
inductive Answers : List Host → (c : Call) → Answer c → List Host → Prop
  | lookup {hosts via} :
      Answers hosts (.getHostId via) (.ok (.ok (hosts.find? fun h => h.id == via))) hosts
  | lookupFails {hosts via msg} : Answers hosts (.getHostId via) (.ok (.error msg)) hosts
  | lookupCanceled {hosts via e} : Answers hosts (.getHostId via) (.error e) hosts
  | insert {hosts nh id} : alloc hosts id →
      Answers hosts (.addHost nh) (.ok (.ok ())) (hosts ++ [nh.toHost id])
  | insertFails {hosts nh msg} : Answers hosts (.addHost nh) (.ok (.error msg)) hosts
  | insertCanceled {hosts nh e} : Answers hosts (.addHost nh) (.error e) hosts
  | remote {hosts c a} : c.isStore = false → Answers hosts c a hosts

/-- One step of the server: accept a form, or answer one request's pending call. -/
inductive Step : Server → Server → Prop
  | accept {s : Server} (form : HostAddForm) :
      Step s ⟨s.hosts, s.requests ++ [⟨form, [], addHost form⟩]⟩
  | answer {hosts hosts' : List Host} {pre post : List Request} {form : HostAddForm}
      {tr : List (Sigma Answer)} {c : Call}
      {k : Answer c → Prog Call Answer (Except BlockingError FormResponse)} {a : Answer c} :
      Answers alloc hosts c a hosts' →
      Step ⟨hosts, pre ++ ⟨form, tr, .call c k⟩ :: post⟩ ⟨hosts', pre ++ ⟨form, tr ++ [⟨c, a⟩], k a⟩ :: post⟩

end

/-! ## The hosts table through one answer -/

section
variable {alloc : List Host → Int → Prop} {hosts hosts' : List Host} {c : Call} {a : Answer c}

theorem Answers.hosts_grow (h : Answers alloc hosts c a hosts') : hosts <+: hosts' := by
  cases h <;> first | exact List.prefix_refl _ | exact List.prefix_append _ _

theorem Answers.stored (h : Answers alloc hosts c a hosts') :
    hosts' = hosts ∨ ∃ nh id, alloc hosts id ∧ hosts' = hosts ++ [nh.toHost id] ∧
      (⟨c, a⟩ : Sigma Answer) = ⟨.addHost nh, .ok (.ok ())⟩ := by
  cases h with
  | insert hid => exact .inr ⟨_, _, hid, rfl, rfl⟩
  | _ => exact .inl rfl

theorem Answers.inserted (h : Answers alloc hosts c a hosts') {nh : NewHost}
    (he : (⟨c, a⟩ : Sigma Answer) = ⟨.addHost nh, .ok (.ok ())⟩) : ∃ id, nh.toHost id ∈ hosts' := by
  cases h with
  | insert => cases he; exact ⟨_, List.mem_append_right _ (.head _)⟩
  | remote hc => cases he; cases hc
  | _ => cases he

theorem Answers.lookedUp_mem (h : Answers alloc hosts c a hosts') {J : Host}
    (hJ : lookedUp ⟨c, a⟩ = some J) : J ∈ hosts := by
  cases h with
  | lookup => exact List.mem_of_find?_eq_some hJ
  | remote hc => cases c <;> simp only [Call.isStore, lookedUp, reduceCtorEq] at hc hJ
  | _ => cases hJ

end

/-! ## Requests through one step -/

def Request.Good (r : Request) : Prop :=
  r.rest.wp (Authorized r.form) (Responds r.form) r.trace ∧ Prog.Past (Authorized r.form) r.trace

/-- Some request made the call `e.1` and got the answer `e.2`. -/
def Happened (s : Server) (e : Sigma Answer) : Prop := ∃ r ∈ s.requests, e ∈ r.trace

theorem mem_update {α : Type} {pre post : List α} {x y z : α} (h : z ∈ pre ++ y :: post) :
    z = y ∨ z ∈ pre ++ x :: post := by
  simp only [List.mem_append, List.mem_cons] at h ⊢
  tauto

section
variable {alloc : List Host → Int → Prop} {s s' : Server}

theorem Step.good (h : Step alloc s s') (hs : ∀ r ∈ s.requests, r.Good) :
    ∀ r ∈ s'.requests, r.Good := by
  cases h with
  | accept form =>
    intro r hr
    rcases List.mem_append.mp hr with hr | hr
    · exact hs r hr
    · obtain rfl := List.mem_singleton.mp hr
      exact ⟨addHost_wp form, .nil⟩
  | answer _ =>
    intro r hr
    rcases mem_update hr with rfl | hr
    · have hr := hs _ (List.mem_append_right _ (.head _))
      exact Prog.wp_call hr.1 hr.2 _
    · exact hs r hr

theorem Step.happened_of (h : Step alloc s s') {e : Sigma Answer} (he : Happened s e) :
    Happened s' e := by
  obtain ⟨r, hr, he⟩ := he
  cases h with
  | accept form => exact ⟨r, List.mem_append_left _ hr, he⟩
  | answer _ =>
    rcases mem_update hr with rfl | hr
    · exact ⟨_, List.mem_append_right _ (.head _), List.mem_append_left _ he⟩
    · exact ⟨r, hr, he⟩

theorem Step.happened (h : Step alloc s s') {e : Sigma Answer} (he : Happened s' e) :
    Happened s e ∨ ∃ c a, Answers alloc s.hosts c a s'.hosts ∧ e = ⟨c, a⟩ := by
  obtain ⟨r, hr, he⟩ := he
  cases h with
  | accept form =>
    rcases List.mem_append.mp hr with hr | hr
    · exact .inl ⟨r, hr, he⟩
    · obtain rfl := List.mem_singleton.mp hr
      cases he
  | answer hans =>
    rcases mem_update hr with rfl | hr
    · rcases List.mem_append.mp he with he | he
      · exact .inl ⟨_, List.mem_append_right _ (.head _), he⟩
      · exact .inr ⟨_, _, hans, List.mem_singleton.mp he⟩
    · exact .inl ⟨r, hr, he⟩

theorem Step.hosts_grow (h : Step alloc s s') : s.hosts <+: s'.hosts := by
  cases h with
  | accept form => exact List.prefix_refl _
  | answer hans => exact hans.hosts_grow

theorem Step.hosts (h : Step alloc s s') (hs : ∀ r ∈ s.requests, r.Good) :
    s'.hosts = s.hosts ∨ ∃ nh id, alloc s.hosts id ∧ s'.hosts = s.hosts ++ [nh.toHost id] ∧
      ∃ r ∈ s.requests, Persists r.form r.trace nh ∧
        ∃ rest, (⟨r.form, r.trace ++ [⟨.addHost nh, .ok (.ok ())⟩], rest⟩ : Request) ∈ s'.requests := by
  cases h with
  | accept form => exact .inl rfl
  | @answer _ _ _ _ _ _ _ k a hans =>
    rcases hans.stored with heq | ⟨nh, id, hid, heq, hev⟩
    · exact .inl heq
    · obtain ⟨rfl, -⟩ := Sigma.mk.inj_iff.mp hev
      refine .inr ⟨nh, id, hid, heq, _, List.mem_append_right _ (.head _),
        (hs _ (List.mem_append_right _ (.head _))).1.1, k a, ?_⟩
      rw [← hev]
      exact List.mem_append_right _ (.head _)

end

theorem Step.answer_of {alloc : List Host → Int → Prop} {hosts hosts' : List Host}
    (pre post : List Request) {r : Request} {c : Call}
    {k : Answer c → Prog Call Answer (Except BlockingError FormResponse)}
    (hr : r.rest = .call c k) (a : Answer c) (h : Answers alloc hosts c a hosts') :
    Step alloc ⟨hosts, pre ++ r :: post⟩ ⟨hosts', pre ++ ⟨r.form, r.trace ++ [⟨c, a⟩], k a⟩ :: post⟩ := by
  obtain ⟨form, tr, rest⟩ := r
  subst hr
  exact .answer h

/-! ## A run: `web01` added directly, then `db01` through it -/

/-- A store that gives each new host an id no stored host has. -/
def freshId (hosts : List Host) (id : Int) : Prop := id ∉ hosts.map Host.id

def webForm : HostAddForm := ⟨"web01", "admin", "10.0.0.5", 22, none, some "SHA256:web01"⟩

def dbForm : HostAddForm := ⟨"db01", "root", "10.0.0.7", 22, some 1, some "SHA256:db01"⟩

def webHost : Host := (newHostOf webForm "SHA256:web01" none).toHost 1

def dbHost : Host := (newHostOf dbForm "SHA256:db01" (some webHost)).toHost 2

def webDb : Server :=
  let added : Prog Call Answer (Except BlockingError FormResponse) :=
    .pure (.ok (.created "Added host" ["reload-hosts"]))
  ⟨[webHost, dbHost],
    [⟨webForm, [⟨.tryAuthenticate ⟨"10.0.0.5", 22⟩ "SHA256:web01" "admin", .ok ()⟩,
        ⟨.addHost (newHostOf webForm "SHA256:web01" none), .ok (.ok ())⟩], added⟩,
      ⟨dbForm, [⟨.getHostId 1, .ok (.ok (some webHost))⟩,
        ⟨.tryAuthenticateVia webHost ⟨"10.0.0.7", 22⟩ "SHA256:db01" "root", .ok ()⟩,
        ⟨.addHost (newHostOf dbForm "SHA256:db01" (some webHost)), .ok (.ok ())⟩], added⟩]⟩

theorem webDb_reachable : Relation.ReflTransGen (Step freshId) ⟨[], []⟩ webDb := by
  refine .head (.accept webForm) ?_
  refine .head (Step.answer_of [] [] (by rfl) (Except.ok ()) (.remote (by rfl))) ?_
  refine .head (Step.answer_of [] [] (by rfl) _
    (.insert (show (1 : Int) ∉ ([] : List Host).map Host.id by decide))) ?_
  refine .head (.accept dbForm) ?_
  refine .head (Step.answer_of [_] [] (by rfl) _ .lookup) ?_
  refine .head (Step.answer_of [_] [] (by rfl) (Except.ok ()) (.remote (by rfl))) ?_
  refine .head (Step.answer_of [_] [] (by rfl) _
    (.insert (show (2 : Int) ∉ [webHost].map Host.id by decide))) ?_
  exact .refl

/-! ## What an authorized history of `add_host` looks like -/

/-- The request called `c` after the history `pre`, answered or still pending. -/
def Request.CalledAfter (r : Request) (pre : List (Sigma Answer)) (c : Call) : Prop :=
  (∃ a, pre ++ [⟨c, a⟩] <+: r.trace) ∨ (pre = r.trace ∧ ∃ k, r.rest = .call c k)

theorem Request.CalledAfter.le_trace {r : Request} {pre : List (Sigma Answer)} {c : Call}
    (h : r.CalledAfter pre c) : pre <+: r.trace := by
  rcases h with ⟨a, ha⟩ | ⟨rfl, -⟩
  · exact (List.prefix_append _ _).trans ha
  · exact List.prefix_refl _

theorem Request.Good.authorized {r : Request} (hr : r.Good) {pre : List (Sigma Answer)}
    {c : Call} (h : r.CalledAfter pre c) : Authorized r.form pre c := by
  rcases h with ⟨a, ha⟩ | ⟨rfl, k, hk⟩
  · exact hr.2.allowed ha
  · have h := hr.1
    rw [hk] at h
    exact h.1

/-! ## Every reachable server -/

/-- What every reachable server satisfies, from the hosts table `hosts₀`. -/
structure Inv (hosts₀ : List Host) (s : Server) : Prop where
  good : ∀ r ∈ s.requests, r.Good
  stored : ∀ h ∈ s.hosts,
    h ∈ hosts₀ ∨ ∃ nh, Happened s ⟨.addHost nh, .ok (.ok ())⟩ ∧ h = nh.toHost h.id
  looked : ∀ e J, Happened s e → lookedUp e = some J → J ∈ s.hosts
  inserted : ∀ nh, Happened s ⟨.addHost nh, .ok (.ok ())⟩ → ∃ id, nh.toHost id ∈ s.hosts

section
variable {alloc : List Host → Int → Prop} {hosts₀ : List Host} {s s' : Server}

theorem Inv.init : Inv hosts₀ ⟨hosts₀, []⟩ :=
  ⟨nofun, fun _ h => .inl h, fun _ _ ⟨_, h, _⟩ => (nomatch h), fun _ ⟨_, h, _⟩ => nomatch h⟩

theorem Inv.step (hinv : Inv hosts₀ s) (h : Step alloc s s') : Inv hosts₀ s' where
  good := h.good hinv.good
  stored := by
    rcases h.hosts hinv.good with heq | ⟨nh, id, -, heq, r, -, -, rest, hr⟩
    all_goals
      intro g hg
      rw [heq] at hg
    · exact (hinv.stored g hg).imp_right fun ⟨nh, he, hg⟩ => ⟨nh, h.happened_of he, hg⟩
    · rcases List.mem_append.mp hg with hg | hg
      · exact (hinv.stored g hg).imp_right fun ⟨nh, he, hg⟩ => ⟨nh, h.happened_of he, hg⟩
      · obtain rfl := List.mem_singleton.mp hg
        exact .inr ⟨nh, ⟨_, hr, List.mem_append_right _ (.head _)⟩, rfl⟩
  looked e J he hJ := by
    rcases h.happened he with he | ⟨c, a, hans, rfl⟩
    · exact h.hosts_grow.subset (hinv.looked e J he hJ)
    · exact h.hosts_grow.subset (hans.lookedUp_mem hJ)
  inserted nh he := by
    rcases h.happened he with he | ⟨c, a, hans, he⟩
    · exact (hinv.inserted nh he).imp fun _ hm => h.hosts_grow.subset hm
    · exact hans.inserted he.symm

theorem Inv.reachable (hs : Relation.ReflTransGen (Step alloc) ⟨hosts₀, []⟩ s) : Inv hosts₀ s := by
  induction hs with
  | refl => exact Inv.init
  | tail _ h ih => exact ih.step h

end

/-! ## Every insert is an authenticated persist -/

section
variable {alloc : List Host → Int → Prop}

/-- Every call to `Host::add_host` of every run, answered or pending, persists the row of an
authenticated form, and every host the run stored is such a row; a request without a
fingerprint, or whose authentication failed, never calls it. -/
theorem addHost_persists_authenticated (hosts₀ : List Host) {s : Server}
    (hs : Relation.ReflTransGen (Step alloc) ⟨hosts₀, []⟩ s) :
    (∀ r ∈ s.requests, ∀ pre nh, r.CalledAfter pre (.addHost nh) → Persists r.form pre nh) ∧
    (∀ r ∈ s.requests, (r.form.keyFingerprint = none ∨
        ∃ e ∈ r.trace, ∃ err, authResult e = some (.error err)) →
      ∀ pre nh, ¬ r.CalledAfter pre (.addHost nh)) ∧
    ∀ h ∈ s.hosts,
      h ∈ hosts₀ ∨ ∃ nh, Happened s ⟨.addHost nh, .ok (.ok ())⟩ ∧ h = nh.toHost h.id := by
  have hinv := Inv.reachable hs
  refine ⟨fun r hr _ _ hc => (hinv.good r hr).authorized hc, fun r hr hbad pre nh hc => ?_,
    hinv.stored⟩
  obtain ⟨⟨fp, hfp⟩, e, he, hok⟩ := ((hinv.good r hr).authorized hc).authenticated
  rcases hbad with hnone | ⟨e', he', err, herr⟩
  · rw [hnone] at hfp
    cases hfp
  · have heq : e = e' := Past.auth_unique (hinv.good r hr).2 (hc.le_trace.subset he) he'
      (by rw [hok]; nofun) (by rw [herr]; nofun)
    rw [heq, herr] at hok
    cases hok

theorem addHost_persists_authenticated_web_db :
    Relation.ReflTransGen (Step freshId) ⟨[], []⟩ webDb ∧
      (∀ r ∈ webDb.requests, ∀ pre nh, r.CalledAfter pre (.addHost nh) → Persists r.form pre nh) ∧
      (∀ r ∈ webDb.requests, (r.form.keyFingerprint = none ∨
          ∃ e ∈ r.trace, ∃ err, authResult e = some (.error err)) →
        ∀ pre nh, ¬ r.CalledAfter pre (.addHost nh)) ∧
      ∀ h ∈ webDb.hosts,
        h ∈ [] ∨ ∃ nh, Happened webDb ⟨.addHost nh, .ok (.ok ())⟩ ∧ h = nh.toHost h.id :=
  ⟨webDb_reachable, addHost_persists_authenticated [] webDb_reachable⟩

/-- A request's persist is its last call: nothing was answered after it, and it waits on
nothing. So a request stores at most one host. -/
theorem addHost_persist_last (hosts₀ : List Host) {s : Server}
    (hs : Relation.ReflTransGen (Step alloc) ⟨hosts₀, []⟩ s) :
    ∀ r ∈ s.requests, ∀ pre ev post nh, r.trace = pre ++ ev :: post → ev.1 = .addHost nh →
      post = [] ∧ ∀ c k, r.rest ≠ .call c k := by
  intro r hr pre ev post nh htr hev
  have hgood := (Inv.reachable hs).good r hr
  have hpre : pre ++ [ev] <+: r.trace := htr ▸ ⟨post, by simp⟩
  have hp : Persists r.form pre nh := by
    have h := hgood.2.allowed hpre
    rwa [hev] at h
  cases post with
  | cons x post =>
    have hx : pre ++ [ev] ++ [x] <+: r.trace := htr ▸ ⟨post, by simp⟩
    exact (hp.not_authorized_after hev (hgood.2.allowed hx)).elim
  | nil =>
    refine ⟨rfl, fun c k hk => ?_⟩
    have h : Authorized r.form r.trace c := hgood.authorized (.inr ⟨rfl, k, hk⟩)
    rw [htr] at h
    exact hp.not_authorized_after hev h

theorem addHost_persist_last_web_db :
    Relation.ReflTransGen (Step freshId) ⟨[], []⟩ webDb ∧
      ∀ r ∈ webDb.requests, ∀ pre ev post nh, r.trace = pre ++ ev :: post → ev.1 = .addHost nh →
        post = [] ∧ ∀ c k, r.rest ≠ .call c k :=
  ⟨webDb_reachable, addHost_persist_last [] webDb_reachable⟩

/-- A request answered "Added host" ends with the insert of the row of its authenticated form,
and that row is in the table. -/
theorem addHost_created_stored (hosts₀ : List Host) {s : Server}
    (hs : Relation.ReflTransGen (Step alloc) ⟨hosts₀, []⟩ s) :
    ∀ r ∈ s.requests, ∀ msg triggers, r.rest = .pure (.ok (.created msg triggers)) →
      ∃ pre nh id, r.trace = pre ++ [⟨.addHost nh, .ok (.ok ())⟩] ∧ Persists r.form pre nh ∧
        nh.toHost id ∈ s.hosts := by
  intro r hr msg triggers hrest
  have hinv := Inv.reachable hs
  have hgood := hinv.good r hr
  have hresp := hgood.1
  rw [hrest] at hresp
  obtain ⟨-, -, pre, nh, htr⟩ := hresp
  have hcall : r.CalledAfter pre (.addHost nh) := .inl ⟨.ok (.ok ()), by rw [htr]⟩
  have hev : Happened s ⟨.addHost nh, .ok (.ok ())⟩ :=
    ⟨r, hr, htr ▸ List.mem_append_right _ (.head _)⟩
  obtain ⟨id, hm⟩ := hinv.inserted nh hev
  exact ⟨pre, nh, id, htr, hgood.authorized hcall, hm⟩

theorem addHost_created_stored_web_db :
    Relation.ReflTransGen (Step freshId) ⟨[], []⟩ webDb ∧
      ∀ r ∈ webDb.requests, ∀ msg triggers, r.rest = .pure (.ok (.created msg triggers)) →
        ∃ pre nh id, r.trace = pre ++ [⟨.addHost nh, .ok (.ok ())⟩] ∧ Persists r.form pre nh ∧
          nh.toHost id ∈ webDb.hosts :=
  ⟨webDb_reachable, addHost_created_stored [] webDb_reachable⟩

end

/-! ## Jump hosts are stored before the hosts that use them -/

/-- A hosts table in which every host's jump host was stored before it. -/
inductive Ordered : List Host → Prop
  | nil : Ordered []
  | snoc {hosts : List Host} {h : Host} : Ordered hosts →
      (∀ j, h.jumpVia = some j → ∃ g ∈ hosts, g.id = j) → Ordered (hosts ++ [h])

/-- `a` connects through `b`: both are stored, and `a`'s `jump_via` is `b`'s id. -/
def JumpsVia (hosts : List Host) (a b : Host) : Prop :=
  a ∈ hosts ∧ b ∈ hosts ∧ a.jumpVia = some b.id

theorem Ordered.before {hosts : List Host} (ho : Ordered hosts) {pre post : List Host} {h : Host}
    (heq : hosts = pre ++ h :: post) {j : Int} (hj : h.jumpVia = some j) : ∃ g ∈ pre, g.id = j := by
  induction ho generalizing post with
  | nil => simp at heq
  | @snoc hosts h' _ hh ih =>
    rcases List.eq_nil_or_concat post with rfl | ⟨post, x, rfl⟩
    · obtain ⟨rfl, h⟩ := List.append_inj' heq rfl
      exact hh j (List.singleton_inj.mp h ▸ hj)
    · rw [List.concat_eq_append, ← List.cons_append, ← List.append_assoc] at heq
      exact ih (List.append_inj' heq rfl).1

/-! ## The table as the trust protocol means it -/

/-- An insert the registry admits: the jump host is stored and the id is fresh. -/
def Admits (hosts : List Host) (nh : NewHost) (id : Int) : Prop :=
  (∀ j, nh.jumpVia = some j → ∃ g ∈ hosts, g.id = j) ∧ id ∉ hosts.map Host.id

/-- A hosts table as the trust protocol means it: jump hosts come first and ids are unique. -/
structure Registry (hosts : List Host) : Prop where
  ordered : Ordered hosts
  nodup : (hosts.map Host.id).Nodup

theorem Registry.nil : Registry [] := ⟨.nil, List.nodup_nil⟩

theorem Registry.admit {hosts : List Host} {nh : NewHost} {id : Int} (hr : Registry hosts)
    (ha : Admits hosts nh id) : Registry (hosts ++ [nh.toHost id]) where
  ordered := hr.ordered.snoc ha.1
  nodup := by
    rw [List.map_append]
    exact hr.nodup.append (List.nodup_singleton _) (List.disjoint_singleton.mpr ha.2)

section
variable {alloc : List Host → Int → Prop} {hosts₀ : List Host} {s s' : Server}

theorem Step.refines (hfresh : ∀ hosts id, alloc hosts id → id ∉ hosts.map Host.id)
    (hinv : Inv hosts₀ s) (h : Step alloc s s') :
    s'.hosts = s.hosts ∨ ∃ nh id, Admits s.hosts nh id ∧ s'.hosts = s.hosts ++ [nh.toHost id] ∧
      ∃ r ∈ s'.requests, ∃ pre, r.trace = pre ++ [⟨.addHost nh, .ok (.ok ())⟩] ∧
        Persists r.form pre nh := by
  rcases h.hosts hinv.good with heq | ⟨nh, id, hid, heq, r, hr, hper, _, hr'⟩
  · exact .inl heq
  refine .inr ⟨nh, id, ⟨fun j hj => ?_, hfresh _ _ hid⟩, heq, _, hr', r.trace, rfl, hper⟩
  obtain ⟨e, he, J, hJ, rfl⟩ := hper.jumpVia hj
  exact ⟨J, hinv.looked e J ⟨r, hr, he⟩ hJ, rfl⟩

theorem Registry.reachable (hfresh : ∀ hosts id, alloc hosts id → id ∉ hosts.map Host.id)
    (h0 : Registry hosts₀) (hs : Relation.ReflTransGen (Step alloc) ⟨hosts₀, []⟩ s) :
    Registry s.hosts := by
  induction hs with
  | refl => exact h0
  | tail hs h ih =>
    rcases h.refines hfresh (Inv.reachable hs) with heq | ⟨nh, id, ha, heq, -⟩
    · exact heq ▸ ih
    · exact heq ▸ ih.admit ha

end

section
variable {hosts : List Host} (ho : Ordered hosts) (hn : (hosts.map Host.id).Nodup)
include ho hn

theorem Ordered.jump_lt {h : Host} (hh : h ∈ hosts) {j : Int} (hj : h.jumpVia = some j) :
    ∃ g ∈ hosts, g.id = j ∧ hosts.indexOf g < hosts.indexOf h := by
  obtain ⟨pre, post, rfl⟩ := List.append_of_mem hh
  obtain ⟨g, hg, rfl⟩ := ho.before rfl hj
  have hh' : h ∉ pre := fun hp =>
    (List.nodup_cons.mp (List.nodup_middle.mp (hn.of_map _))).1 (List.mem_append_left _ hp)
  refine ⟨g, List.mem_append_left _ hg, rfl, ?_⟩
  rw [List.indexOf_append_of_mem hg, List.indexOf_append_of_not_mem hh', List.indexOf_cons_self]
  exact List.indexOf_lt_length.mpr hg

theorem Ordered.jumpsVia_lt {a b : Host} (h : JumpsVia hosts a b) :
    hosts.indexOf b < hosts.indexOf a := by
  obtain ⟨ha, hb, hj⟩ := h
  obtain ⟨g, hg, hgb, hlt⟩ := ho.jump_lt hn ha hj
  rwa [List.inj_on_of_nodup_map hn hg hb hgb] at hlt

theorem Ordered.transGen_lt {a b : Host} (h : Relation.TransGen (JumpsVia hosts) a b) :
    hosts.indexOf b < hosts.indexOf a := by
  induction h with
  | single hab => exact ho.jumpsVia_lt hn hab
  | tail _ hbc ih => exact (ho.jumpsVia_lt hn hbc).trans ih

theorem Ordered.reaches_direct {h : Host} (hh : h ∈ hosts) :
    ∃ g ∈ hosts, Relation.ReflTransGen (JumpsVia hosts) h g ∧ g.jumpVia = none := by
  cases hj : h.jumpVia with
  | none => exact ⟨h, hh, .refl, hj⟩
  | some j =>
    obtain ⟨g, hg, rfl, hlt⟩ := ho.jump_lt hn hh hj
    obtain ⟨g', hg', hr, hnone⟩ := Ordered.reaches_direct hg
    exact ⟨g', hg', .head ⟨hh, hg, hj⟩ hr, hnone⟩
termination_by hosts.indexOf h

end

section
variable {alloc : List Host → Int → Prop}

/-- From an empty hosts table, and with a store that gives each new host an id no stored host
has, every stored host's jump host is the one host of that id, and was stored before it; so
the `jump_via` links have no cycle, and following them from any host ends at a host reached
directly. -/
theorem jumpVia_acyclic (hfresh : ∀ hosts id, alloc hosts id → id ∉ hosts.map Host.id)
    {s : Server} (hs : Relation.ReflTransGen (Step alloc) ⟨[], []⟩ s) :
    (s.hosts.map Host.id).Nodup ∧
      (∀ pre h post, s.hosts = pre ++ h :: post → ∀ j, h.jumpVia = some j → ∃ g ∈ pre, g.id = j) ∧
      (∀ h, ¬ Relation.TransGen (JumpsVia s.hosts) h h) ∧
      ∀ h ∈ s.hosts, ∃ g ∈ s.hosts, Relation.ReflTransGen (JumpsVia s.hosts) h g ∧ g.jumpVia = none := by
  obtain ⟨ho, hn⟩ := Registry.reachable hfresh .nil hs
  exact ⟨hn, fun _ _ _ heq _ hj => ho.before heq hj,
    fun _ hc => lt_irrefl _ (ho.transGen_lt hn hc), fun _ hh => ho.reaches_direct hn hh⟩

theorem jumpVia_acyclic_web_db :
    (∀ hosts id, freshId hosts id → id ∉ hosts.map Host.id) ∧
      Relation.ReflTransGen (Step freshId) ⟨[], []⟩ webDb ∧
      (webDb.hosts.map Host.id).Nodup ∧
      (∀ pre h post, webDb.hosts = pre ++ h :: post → ∀ j, h.jumpVia = some j →
        ∃ g ∈ pre, g.id = j) ∧
      (∀ h, ¬ Relation.TransGen (JumpsVia webDb.hosts) h h) ∧
      ∀ h ∈ webDb.hosts, ∃ g ∈ webDb.hosts,
        Relation.ReflTransGen (JumpsVia webDb.hosts) h g ∧ g.jumpVia = none :=
  ⟨fun _ _ h => h, webDb_reachable, jumpVia_acyclic (fun _ _ h => h) webDb_reachable⟩

end

end SshKeyManager.Hosts
