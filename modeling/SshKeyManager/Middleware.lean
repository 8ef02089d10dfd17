import SshKeyManager.Prog
import SshKeyManager.Text

/-!
# The authentication gate

`AuthMiddlewareService::call` hands a request to the inner service without an identity when
its path starts with `/auth/` or `/static/`, and also whenever the path merely ends in `.css` or
`.js`; every other request must first extract an identity. `call_forwards_iff` says exactly
which paths are forwarded without one.
-/

namespace SshKeyManager

namespace Middleware

/-- `actix_identity::Identity`; the gate only asks whether one can be extracted. -/
structure Identity

/-- `actix_web::Error`: the gate's own `ErrorUnauthorized`, or an error of the inner service. -/
inductive Error
  | unauthorized (msg : String)
  | inner (msg : String)
  deriving DecidableEq, Repr

/-- `ServiceResponse`, which the gate passes on unread. -/
structure ServiceResponse where
  status : Nat
  deriving DecidableEq, Repr

inductive Call
  | identityExtract
  | service (path : String)

@[reducible] def Answer : Call → Type
  | .identityExtract => Except Error Identity
  | .service _ => Except Error ServiceResponse

/-- `AuthMiddlewareService::call`, on the request's path. -/
def call (path : String) : Prog Call Answer (Except Error ServiceResponse) :=
  if Str.startsWith path.data "/auth/".data || Str.startsWith path.data "/static/".data ||
      Str.endsWith path.data ".css".data || Str.endsWith path.data ".js".data then
    .await (.service path)
  else
    .call .identityExtract fun
      | .ok _ => .await (.service path)
      | .error _ => .pure (.error (.unauthorized "Unauthorized"))

/-- The paths the gate lets through without an identity: the condition of `call`. -/
def Exempt (path : String) : Prop :=
  (Str.startsWith path.data "/auth/".data || Str.startsWith path.data "/static/".data ||
    Str.endsWith path.data ".css".data || Str.endsWith path.data ".js".data) = true

instance (path : String) : Decidable (Exempt path) := by
  unfold Exempt; infer_instance

/-- The request reached the inner service, and no identity was extracted for it. -/
def ForwardedWithoutIdentity (path : String) (tr : List (Sigma Answer)) : Prop :=
  (∃ a, (⟨.service path, a⟩ : Sigma Answer) ∈ tr) ∧
    ∀ i, (⟨.identityExtract, .ok i⟩ : Sigma Answer) ∉ tr

theorem call_exempt {path : String} (h : Exempt path) : call path = .await (.service path) :=
  if_pos h

theorem call_not_exempt {path : String} (h : ¬ Exempt path) :
    call path = .call .identityExtract fun
      | .ok _ => .await (.service path)
      | .error _ => .pure (.error (.unauthorized "Unauthorized")) :=
  if_neg h

theorem forwardedWithoutIdentity_of_exempt {path : String} (h : Exempt path)
    (env : List (Sigma Answer) → (c : Call) → Answer c) :
    ForwardedWithoutIdentity path ((call path).run env []).1 := by
  rw [call_exempt h]
  exact ⟨⟨_, .head _⟩, fun i hi => by cases List.mem_singleton.mp hi⟩

/-- The gate forwards a request without extracting an identity exactly when the path starts
with `/auth/` or `/static/` or ends with `.css` or `.js`, whatever the extractor and the inner
service answer. -/
theorem call_forwards_iff (path : String) (env : List (Sigma Answer) → (c : Call) → Answer c) :
    ForwardedWithoutIdentity path ((call path).run env []).1 ↔ Exempt path := by
  refine ⟨fun hf => ?_, fun h => forwardedWithoutIdentity_of_exempt h env⟩
  by_contra h
  obtain ⟨⟨a, ha⟩, hnone⟩ := hf
  rcases hx : env [] .identityExtract with e | i
  · simp only [call_not_exempt h, Prog.run_call, List.nil_append, hx, Prog.run_pure,
      List.mem_singleton, Sigma.mk.inj_iff] at ha
    exact nomatch ha.1
  · exact hnone i (by simp [call_not_exempt h, hx, Prog.await])

end Middleware

end SshKeyManager
