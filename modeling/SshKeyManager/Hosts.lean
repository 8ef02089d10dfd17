import SshKeyManager.Client

/-!
# Adding a host

`add_host` is the two-phase trust protocol. Without a fingerprint in the form it connects once
to fetch the server's key and hands it back in a dialog; with one, it authenticates against
exactly that fingerprint and, only when that succeeds, stores the host. A jump host named by a
non-negative id is looked up first, and the connections then go through the host the store
returned; when the store has no host of that id, or the id is negative, the handler carries
on as if the form named none. `Authorized` says what each call of the handler may be, given
the calls before it, `Responds` what each of its answers implies, and `addHost_wp` proves both
of every run.
-/

namespace SshKeyManager

/-- `HostAddForm`. -/
structure HostAddForm where
  name : String
  username : String
  hostname : String
  port : Int
  jumphost : Option Int
  keyFingerprint : Option String
  deriving DecidableEq, Repr

/-- `std::sync::mpsc::Receiver<String>`, on which a handshake delivers the server's key. -/
structure Receiver where
  channel : Nat
  deriving DecidableEq, Repr

/-- `std::sync::mpsc::RecvError`: the sender went away. -/
inductive RecvError
  | disconnected
  deriving DecidableEq, Repr

/-- `actix_web::error::BlockingError`: the task of a `web::block` did not complete. -/
inductive BlockingError
  | canceled
  deriving DecidableEq, Repr

/-- `HostkeyDialog`. -/
structure HostkeyDialog where
  name : String
  username : String
  hostname : String
  port : Int
  keyFingerprint : String
  jumphost : Option Int
  deriving DecidableEq, Repr

/-- `Modal`, with its template unrendered. -/
structure Modal where
  title : String
  requestTarget : String
  template : HostkeyDialog
  deriving DecidableEq, Repr

/-- The responses `add_host` builds with `FormResponseBuilder`. -/
inductive FormResponse
  | error (msg : String)
  | notFound (msg : String)
  | created (msg : String) (triggers : List String)
  | dialog (modal : Modal)
  deriving DecidableEq, Repr

namespace Hosts

/-- What `add_host` waits on: the hosts table, the SSH client's handshakes and their channel. -/
inductive Call
  | getHostId (id : Int)
  | getHostkey (address : ConnectionDetails)
  | getHostkeyVia (via : Host) (address : ConnectionDetails)
  | recv (receiver : Receiver)
  | tryAuthenticate (address : ConnectionDetails) (keyFingerprint username : String)
  | tryAuthenticateVia (via : Host) (address : ConnectionDetails) (keyFingerprint username : String)
  | addHost (newHost : NewHost)

@[reducible] def Answer : Call → Type
  | .getHostId _ => Except BlockingError (Except String (Option Host))
  | .getHostkey _ | .getHostkeyVia .. => Except SshClientError Receiver
  | .recv _ => Except BlockingError (Except RecvError String)
  | .tryAuthenticate .. | .tryAuthenticateVia .. => Except SshClientError Unit
  | .addHost _ => Except BlockingError (Except String Unit)

/-- The jump host lookup at the top of `add_host`; `k` is the rest of the handler. -/
def lookupJumphost (jumphost : Option Int)
    (k : Option Host → Prog Call Answer (Except BlockingError FormResponse)) :
    Prog Call Answer (Except BlockingError FormResponse) :=
  match jumphost with
  | some via =>
    if via < 0 then k none
    else
      .call (.getHostId via) fun
        | .error e => .pure (.error e)
        | .ok (.ok j) => k j
        | .ok (.error _) => .pure (.ok (.notFound "Couldn't find jump host"))
  | none => k none

def getHostkeyOf (maybeJumphost : Option Host) (address : ConnectionDetails) :
    Prog Call Answer (Except SshClientError Receiver) :=
  match maybeJumphost with
  | some via => .await (.getHostkeyVia via address)
  | none => .await (.getHostkey address)

def tryAuthenticateOf (maybeJumphost : Option Host) (address : ConnectionDetails)
    (keyFingerprint username : String) : Prog Call Answer (Except SshClientError Unit) :=
  match maybeJumphost with
  | some via => .await (.tryAuthenticateVia via address keyFingerprint username)
  | none => .await (.tryAuthenticate address keyFingerprint username)

def persistHost (newHost : NewHost) : Prog Call Answer (Except BlockingError FormResponse) :=
  .call (.addHost newHost) fun
    | .error e => .pure (.error e)
    | .ok (.ok ()) => .pure (.ok (.created "Added host" ["reload-hosts"]))
    | .ok (.error e) => .pure (.ok (.error e))

/-- `add_host`. -/
def addHost (form : HostAddForm) : Prog Call Answer (Except BlockingError FormResponse) :=
  lookupJumphost form.jumphost fun maybeJumphost =>
    match ConnectionDetails.newFromSigned form.hostname form.port with
    | .error _ => .pure (.ok (.error "Invalid port number"))
    | .ok address =>
      match form.keyFingerprint with
      | none =>
        (getHostkeyOf maybeJumphost address).bind fun
          | .error e => .pure (.ok (.error e.toString))
          | .ok keyReceiver =>
            .call (.recv keyReceiver) fun
              | .error e => .pure (.error e)
              | .ok (.error _) => .pure (.ok (.error "Connection timed out"))
              | .ok (.ok keyFingerprint) =>
                let template : HostkeyDialog :=
                  { name := form.name, username := form.username, hostname := form.hostname,
                    port := form.port, keyFingerprint := keyFingerprint,
                    jumphost := form.jumphost }
                .pure (.ok (.dialog
                  { title := "Please check the hostkey", requestTarget := "/hosts/add",
                    template := template }))
      | some keyFingerprint =>
        (tryAuthenticateOf maybeJumphost address keyFingerprint form.username).bind fun
          | .error error => .pure (.ok (.error error.toString))
          | .ok () =>
            persistHost
              { name := form.name, hostname := form.hostname, port := form.port,
                username := form.username, keyFingerprint := keyFingerprint,
                jumpVia := (maybeJumphost.map fun h => some h.id).getD none }

/-! ## What each call of `add_host` may be -/

def lookedUp : Sigma Answer → Option Host
  | ⟨.getHostId _, .ok (.ok j)⟩ => j
  | _ => none

def resolvedJump (tr : List (Sigma Answer)) : Option Host := tr.head?.bind lookedUp

def fetchResult : Sigma Answer → Option (Except SshClientError Receiver)
  | ⟨.getHostkey _, r⟩ => some r
  | ⟨.getHostkeyVia .., r⟩ => some r
  | _ => none

def authResult : Sigma Answer → Option (Except SshClientError Unit)
  | ⟨.tryAuthenticate .., r⟩ => some r
  | ⟨.tryAuthenticateVia .., r⟩ => some r
  | _ => none

def authCall : Option Host → ConnectionDetails → String → String → Call
  | some via, address, fp, username => .tryAuthenticateVia via address fp username
  | none, address, fp, username => .tryAuthenticate address fp username

/-- The row `add_host` stores for a form authenticated with `fp` through `maybeJumphost`. -/
def newHostOf (form : HostAddForm) (fp : String) (maybeJumphost : Option Host) : NewHost :=
  { name := form.name, hostname := form.hostname, port := form.port, username := form.username,
    keyFingerprint := fp, jumpVia := maybeJumphost.map Host.id }

def Fetches (form : HostAddForm) (tr : List (Sigma Answer)) (maybeJumphost : Option Host)
    (address : ConnectionDetails) : Prop :=
  form.keyFingerprint = none ∧ resolvedJump tr = maybeJumphost ∧
    ConnectionDetails.newFromSigned form.hostname form.port = .ok address

def Authenticates (form : HostAddForm) (tr : List (Sigma Answer)) (maybeJumphost : Option Host)
    (address : ConnectionDetails) (fp username : String) : Prop :=
  form.keyFingerprint = some fp ∧ username = form.username ∧ resolvedJump tr = maybeJumphost ∧
    ConnectionDetails.newFromSigned form.hostname form.port = .ok address ∧
    ∀ e ∈ tr, authResult e = none

/-- A persist: right after the request's one authentication, which succeeded, of the row it stores.
-/
def Persists (form : HostAddForm) (tr : List (Sigma Answer)) (nh : NewHost) : Prop :=
  ∃ pre ev fp address maybeJumphost, tr = pre ++ [ev] ∧
    ev.1 = authCall maybeJumphost address fp form.username ∧
    Authenticates form pre maybeJumphost address fp form.username ∧
    authResult ev = some (.ok ()) ∧ nh = newHostOf form fp maybeJumphost

/-- What each call of `add_host` may be, given the calls before it. -/
def Authorized (form : HostAddForm) (tr : List (Sigma Answer)) : Call → Prop
  | .getHostId via => tr = [] ∧ form.jumphost = some via ∧ 0 ≤ via
  | .getHostkey address => Fetches form tr none address
  | .getHostkeyVia via address => Fetches form tr (some via) address
  | .recv receiver => ∃ pre ev, tr = pre ++ [ev] ∧ fetchResult ev = some (.ok receiver)
  | .tryAuthenticate address fp username => Authenticates form tr none address fp username
  | .tryAuthenticateVia via address fp username =>
    Authenticates form tr (some via) address fp username
  | .addHost nh => Persists form tr nh

def dialogOf (form : HostAddForm) (keyFingerprint : String) : Modal :=
  let template : HostkeyDialog :=
    { name := form.name, username := form.username, hostname := form.hostname,
      port := form.port, keyFingerprint := keyFingerprint, jumphost := form.jumphost }
  { title := "Please check the hostkey", requestTarget := "/hosts/add", template := template }

/-- What an answer of `add_host` says about the history before it. -/
def Responds (form : HostAddForm) (tr : List (Sigma Answer)) :
    Except BlockingError FormResponse → Prop
  | .ok (.dialog modal) => form.keyFingerprint = none ∧
    ∃ pre receiver fp, tr = pre ++ [⟨.recv receiver, .ok (.ok fp)⟩] ∧ modal = dialogOf form fp
  | .ok (.created msg triggers) => msg = "Added host" ∧ triggers = ["reload-hosts"] ∧
    ∃ pre nh, tr = pre ++ [⟨.addHost nh, .ok (.ok ())⟩]
  | _ => True

theorem lookupJumphost_wp {form : HostAddForm}
    {k : Option Host → Prog Call Answer (Except BlockingError FormResponse)}
    (hk : ∀ tr, (∀ e ∈ tr, authResult e = none) →
      (k (resolvedJump tr)).wp (Authorized form) (Responds form) tr) :
    (lookupJumphost form.jumphost k).wp (Authorized form) (Responds form) [] := by
  unfold lookupJumphost
  split
  · rename_i via hj
    split
    · exact hk [] (by simp)
    · refine ⟨⟨rfl, hj, by omega⟩, fun r => ?_⟩
      rcases r with e | e | j
      · trivial
      · trivial
      · exact hk [⟨.getHostId via, .ok (.ok j)⟩] (by simp [authResult])
  · exact hk [] (by simp)

/-- Every call `add_host` makes is authorized, and every answer it gives is backed by its
history. -/
theorem addHost_wp (form : HostAddForm) :
    (addHost form).wp (Authorized form) (Responds form) [] := by
  refine lookupJumphost_wp fun tr htr => ?_
  split
  · trivial
  rename_i address ha
  split
  · rename_i hf
    cases hJ : resolvedJump tr <;>
    · refine ⟨⟨hf, hJ, ha⟩, fun r => ?_⟩
      rcases r with e | rcv
      · trivial
      · refine ⟨⟨tr, _, rfl, rfl⟩, fun r => ?_⟩
        rcases r with _ | _ | fp
        · trivial
        · trivial
        · exact ⟨hf, _, rcv, fp, rfl, rfl⟩
  · rename_i fp hf
    have persist : ∀ m : Option Host, resolvedJump tr = m → ∀ ev : Sigma Answer,
        ev.1 = authCall m address fp form.username → authResult ev = some (.ok ()) →
        (persistHost (newHostOf form fp m)).wp (Authorized form) (Responds form) (tr ++ [ev]) :=
      fun m hJ ev hev hok =>
        ⟨⟨tr, ev, fp, address, m, rfl, hev, ⟨hf, rfl, hJ, ha, htr⟩, hok, rfl⟩, fun r => by
          rcases r with _ | _ | ⟨⟩
          · trivial
          · trivial
          · exact ⟨rfl, rfl, _, _, rfl⟩⟩
    cases hJ : resolvedJump tr <;>
    · refine ⟨⟨hf, rfl, hJ, ha, htr⟩, fun r => ?_⟩
      rcases r with e | ⟨⟩
      · trivial
      · exact persist _ hJ _ rfl rfl

/-- When the store has no host with the jump host's id, `add_host` carries on as if the form
named no jump host: it authenticates directly and stores the host without a jump host. -/
theorem addHost_unknown_jumphost (form : HostAddForm) (via : Int) (fp : String)
    (address : ConnectionDetails) (env : List (Sigma Answer) → (c : Call) → Answer c)
    (hj : form.jumphost = some via) (hv : 0 ≤ via) (hfp : form.keyFingerprint = some fp)
    (ha : ConnectionDetails.newFromSigned form.hostname form.port = .ok address)
    (hl : env [] (.getHostId via) = .ok (.ok none))
    (hauth : env [⟨.getHostId via, .ok (.ok none)⟩] (.tryAuthenticate address fp form.username) =
      .ok ()) :
    (⟨.tryAuthenticate address fp form.username, .ok ()⟩ : Sigma Answer) ∈
        ((addHost form).run env []).1 ∧
      ∃ a, (⟨.addHost (newHostOf form fp none), a⟩ : Sigma Answer) ∈ ((addHost form).run env []).1 := by
  have hv' : ¬ via < 0 := by omega
  simp only [addHost, lookupJumphost, hj, if_neg hv', Prog.run_call, List.nil_append,
    hl, ha, hfp, tryAuthenticateOf, Prog.await, Prog.bind_call, Prog.bind_pure, hauth, persistHost]
  split <;> exact ⟨.tail _ (.head _), _, .tail _ (.tail _ (.head _))⟩

theorem addHost_unknown_jumphost_seven :
    let form : HostAddForm := ⟨"db01", "root", "10.0.0.7", 22, some 7, some "SHA256:db01"⟩
    let env : List (Sigma Answer) → (c : Call) → Answer c := fun _ c =>
      match c with
      | .getHostId _ => .ok (.ok none)
      | .getHostkey _ | .getHostkeyVia .. => .error .noSuchHost
      | .recv _ => .ok (.error .disconnected)
      | .tryAuthenticate .. | .tryAuthenticateVia .. => .ok ()
      | .addHost _ => .ok (.ok ())
    form.jumphost = some 7 ∧ (0 : Int) ≤ 7 ∧ form.keyFingerprint = some "SHA256:db01" ∧
      ConnectionDetails.newFromSigned form.hostname form.port = .ok ⟨"10.0.0.7", 22⟩ ∧
      env [] (.getHostId 7) = .ok (.ok none) ∧
      env [⟨.getHostId 7, .ok (.ok none)⟩] (.tryAuthenticate ⟨"10.0.0.7", 22⟩ "SHA256:db01" "root") =
        .ok () ∧
      (⟨.tryAuthenticate ⟨"10.0.0.7", 22⟩ "SHA256:db01" "root", .ok ()⟩ : Sigma Answer) ∈
        ((addHost form).run env []).1 ∧
      ∃ a, (⟨.addHost (newHostOf form "SHA256:db01" none), a⟩ : Sigma Answer) ∈
        ((addHost form).run env []).1 :=
  ⟨rfl, by decide, rfl, rfl, rfl, rfl,
    addHost_unknown_jumphost _ 7 "SHA256:db01" ⟨"10.0.0.7", 22⟩ _ rfl (by decide) rfl rfl rfl rfl⟩

/-! ## What an authorized history of `add_host` looks like -/

theorem Authorized.auth_first {form : HostAddForm} {tr : List (Sigma Answer)}
    {ev : Sigma Answer} (h : Authorized form tr ev.1) (hev : authResult ev ≠ none) :
    ∀ e ∈ tr, authResult e = none := by
  obtain ⟨c, a⟩ := ev
  cases c with
  | tryAuthenticate => exact h.2.2.2.2
  | tryAuthenticateVia => exact h.2.2.2.2
  | _ => exact absurd rfl hev

theorem Past.auth_unique {form : HostAddForm} {tr : List (Sigma Answer)}
    (h : Prog.Past (Authorized form) tr) {e₁ e₂ : Sigma Answer} (h₁ : e₁ ∈ tr) (h₂ : e₂ ∈ tr)
    (ha₁ : authResult e₁ ≠ none) (ha₂ : authResult e₂ ≠ none) : e₁ = e₂ := by
  induction h with
  | nil => cases h₁
  | @snoc tr ev _ hA ih =>
    simp only [List.mem_append, List.mem_singleton] at h₁ h₂
    rcases h₁ with h₁ | rfl <;> rcases h₂ with h₂ | rfl
    · exact ih h₁ h₂
    · exact absurd (hA.auth_first ha₂ e₁ h₁) ha₁
    · exact absurd (hA.auth_first ha₁ e₂ h₂) ha₂
    · rfl

theorem Persists.authenticated {form : HostAddForm} {tr : List (Sigma Answer)} {nh : NewHost}
    (h : Persists form tr nh) :
    (∃ fp, form.keyFingerprint = some fp) ∧ ∃ e ∈ tr, authResult e = some (.ok ()) := by
  obtain ⟨pre, ev, fp, address, m, rfl, -, hauth, hok, -⟩ := h
  exact ⟨⟨fp, hauth.1⟩, ev, List.mem_append_right _ (.head _), hok⟩

theorem Persists.jumpVia {form : HostAddForm} {tr : List (Sigma Answer)} {nh : NewHost}
    (h : Persists form tr nh) {j : Int} (hj : nh.jumpVia = some j) :
    ∃ e ∈ tr, ∃ J, lookedUp e = some J ∧ J.id = j := by
  obtain ⟨pre, ev, fp, address, m, rfl, -, hauth, -, rfl⟩ := h
  obtain ⟨J, rfl, rfl⟩ := Option.map_eq_some'.mp hj
  obtain ⟨e, he, hJ⟩ := Option.bind_eq_some.mp hauth.2.2.1
  exact ⟨e, List.mem_append_left _ (List.mem_of_mem_head? he), J, hJ, rfl⟩

/-! ## What `add_host` answers -/

/-- `add_host` shows the hostkey dialog only for a form without a fingerprint, right after the
server's key arrived and with that key, and answers "Added host" only right after the store
accepted the row. -/
theorem addHost_answers (form : HostAddForm) (env : List (Sigma Answer) → (c : Call) → Answer c) :
    (∀ modal, ((addHost form).run env []).2 = .ok (.dialog modal) →
      form.keyFingerprint = none ∧ ∃ pre receiver fp,
        ((addHost form).run env []).1 = pre ++ [⟨.recv receiver, .ok (.ok fp)⟩] ∧
        modal = dialogOf form fp) ∧
    ∀ msg triggers, ((addHost form).run env []).2 = .ok (.created msg triggers) →
      msg = "Added host" ∧ triggers = ["reload-hosts"] ∧
        ∃ pre nh, ((addHost form).run env []).1 = pre ++ [⟨.addHost nh, .ok (.ok ())⟩] := by
  have h := (Prog.wp_run env (addHost_wp form) .nil).2
  exact ⟨fun _ hm => by rw [hm] at h; exact h, fun _ _ hm => by rw [hm] at h; exact h⟩

theorem addHost_answers_dialog_web01 :
    let form : HostAddForm := ⟨"web01", "admin", "10.0.0.5", 22, none, none⟩
    let env : List (Sigma Answer) → (c : Call) → Answer c := fun _ c =>
      match c with
      | .getHostId _ => .ok (.ok none)
      | .getHostkey _ | .getHostkeyVia .. => .ok ⟨1⟩
      | .recv _ => .ok (.ok "SHA256:web01")
      | .tryAuthenticate .. | .tryAuthenticateVia .. => .ok ()
      | .addHost _ => .ok (.ok ())
    ((addHost form).run env []).2 = .ok (.dialog (dialogOf form "SHA256:web01")) ∧
      form.keyFingerprint = none ∧ ∃ pre receiver fp,
        ((addHost form).run env []).1 = pre ++ [⟨.recv receiver, .ok (.ok fp)⟩] ∧
        dialogOf form "SHA256:web01" = dialogOf form fp :=
  ⟨rfl, (addHost_answers _ _).1 _ rfl⟩

theorem results_of_addHost {ev : Sigma Answer} {nh : NewHost} (h : ev.1 = .addHost nh) :
    authResult ev = none ∧ fetchResult ev = none := by
  obtain ⟨c, a⟩ := ev
  dsimp only at h
  subst h
  exact ⟨rfl, rfl⟩

theorem Persists.not_authorized_after {form : HostAddForm} {pre : List (Sigma Answer)}
    {nh : NewHost} (hp : Persists form pre nh) {ev : Sigma Answer} (hev : ev.1 = .addHost nh)
    {c : Call} (h : Authorized form (pre ++ [ev]) c) : False := by
  obtain ⟨⟨fp, hfp⟩, e, he, hok⟩ := hp.authenticated
  have hauth : ∀ {m address fp username},
      ¬ Authenticates form (pre ++ [ev]) m address fp username := fun ha => by
    rw [ha.2.2.2.2 e (List.mem_append_left _ he)] at hok
    cases hok
  cases c with
  | getHostId => simp [Authorized] at h
  | getHostkey => rw [h.1] at hfp; cases hfp
  | getHostkeyVia => rw [h.1] at hfp; cases hfp
  | recv =>
    obtain ⟨pre', ev', heq, hf⟩ := h
    rw [← List.singleton_inj.mp (List.append_inj' heq rfl).2, (results_of_addHost hev).2] at hf
    cases hf
  | tryAuthenticate => exact hauth h
  | tryAuthenticateVia => exact hauth h
  | addHost =>
    obtain ⟨pre', ev', -, -, -, heq, -, -, hok', -⟩ := h
    rw [← List.singleton_inj.mp (List.append_inj' heq rfl).2, (results_of_addHost hev).1] at hok'
    cases hok'

/-! ## A stored jump host -/

/-- The jump host a connection goes through (`some none`: directly); `none` for other calls. -/
def Call.route : Call → Option (Option Host)
  | .getHostkey _ | .tryAuthenticate .. => some none
  | .getHostkeyVia via _ | .tryAuthenticateVia via .. => some (some via)
  | _ => none

theorem Authorized.route {form : HostAddForm} {tr : List (Sigma Answer)} {c : Call}
    (h : Authorized form tr c) {m : Option Host} (hm : c.route = some m) : resolvedJump tr = m := by
  cases c <;> cases hm
  · exact h.2.1
  · exact h.2.1
  · exact h.2.2.1
  · exact h.2.2.1

theorem resolvedJump_of_head {tr pre : List (Sigma Answer)} {e ev : Sigma Answer}
    (he : tr.head? = some e) (hp : pre ++ [ev] <+: tr) :
    (pre = [] ∧ ev = e) ∨ resolvedJump pre = lookedUp e := by
  obtain ⟨post, rfl⟩ := hp
  cases pre with
  | nil => exact .inl ⟨rfl, Option.some.inj he⟩
  | cons x pre => exact .inr (congrArg (·.bind lookedUp) he)

theorem authCall_route (m : Option Host) (address : ConnectionDetails) (fp username : String) :
    (authCall m address fp username).route = some m := by
  cases m <;> rfl

theorem Past.through {form : HostAddForm} {tr : List (Sigma Answer)}
    (hp : Prog.Past (Authorized form) tr) {m : Option Host}
    (hm : ∀ pre ev, pre ++ [ev] <+: tr → ev.1.route ≠ none → resolvedJump pre = m) :
    ∀ ev ∈ tr, (∀ m', ev.1.route = some m' → m' = m) ∧
      ∀ nh, ev.1 = .addHost nh → nh.jumpVia = m.map Host.id := by
  intro ev hev
  obtain ⟨pre, hpre, hauth⟩ := hp.mem hev
  refine ⟨fun m' hm' => (Authorized.route hauth hm').symm.trans (hm pre ev hpre (by simp [hm'])),
    fun nh hnh => ?_⟩
  rw [hnh] at hauth
  obtain ⟨pre', auth, fp, address, m', rfl, hcall, ⟨-, -, hJ, -⟩, -, rfl⟩ := hauth
  have hroute : auth.1.route = some m' := hcall ▸ authCall_route m' address fp form.username
  rw [newHostOf, ← hJ, hm pre' auth ((List.prefix_append _ _).trans hpre) (by simp [hroute])]

/-- When the store returns the jump host `J`, every connection `add_host` makes goes through
`J`, and the row it stores has `J`'s id as its `jump_via`. -/
theorem addHost_via_known_jumphost (form : HostAddForm) (via : Int) (J : Host)
    (env : List (Sigma Answer) → (c : Call) → Answer c)
    (hj : form.jumphost = some via) (hv : 0 ≤ via)
    (hl : env [] (.getHostId via) = .ok (.ok (some J))) :
    ∀ ev ∈ ((addHost form).run env []).1,
      (∀ m, ev.1.route = some m → m = some J) ∧ ∀ nh, ev.1 = .addHost nh → nh.jumpVia = some J.id := by
  have hv' : ¬ via < 0 := by omega
  have hhead : ((addHost form).run env []).1.head? = some ⟨.getHostId via, .ok (.ok (some J))⟩ := by
    simp only [addHost, lookupJumphost, hj, if_neg hv', Prog.run_call, List.nil_append, hl]
    exact Prog.run_head? env _ _ []
  refine Past.through (Prog.wp_run env (addHost_wp form) .nil).1 fun pre ev hpre hroute => ?_
  rcases resolvedJump_of_head hhead hpre with ⟨-, rfl⟩ | hJ
  · exact absurd rfl hroute
  · exact hJ

theorem addHost_via_known_jumphost_db01 :
    let form : HostAddForm := ⟨"db01", "root", "10.0.0.7", 22, some 1, some "SHA256:db01"⟩
    let J : Host := ⟨1, "web01", "admin", "10.0.0.5", 22, "SHA256:web01", none⟩
    let env : List (Sigma Answer) → (c : Call) → Answer c := fun _ c =>
      match c with
      | .getHostId _ => .ok (.ok (some J))
      | .getHostkey _ | .getHostkeyVia .. => .error .noSuchHost
      | .recv _ => .ok (.error .disconnected)
      | .tryAuthenticate .. | .tryAuthenticateVia .. => .ok ()
      | .addHost _ => .ok (.ok ())
    form.jumphost = some 1 ∧ (0 : Int) ≤ 1 ∧ env [] (.getHostId 1) = .ok (.ok (some J)) ∧
      ∀ ev ∈ ((addHost form).run env []).1,
        (∀ m, ev.1.route = some m → m = some J) ∧ ∀ nh, ev.1 = .addHost nh → nh.jumpVia = some J.id :=
  ⟨rfl, by decide, rfl, addHost_via_known_jumphost _ 1 _ _ rfl (by decide) rfl⟩

theorem lookedUp_eq_some {e : Sigma Answer} {J : Host} (h : lookedUp e = some J) :
    ∃ via, e.1 = .getHostId via := by
  obtain ⟨c, a⟩ := e
  cases c <;> first | exact ⟨_, rfl⟩ | cases h

/-! ## A negative jump host id -/

/-- An answer to the form without its jump host, as the answer to the form with `jumphost`. -/
def withJumphost (jumphost : Option Int) :
    Except BlockingError FormResponse → Except BlockingError FormResponse
  | .ok (.dialog modal) =>
    .ok (.dialog { modal with template := { modal.template with jumphost := jumphost } })
  | r => r

theorem persistHost_map_withJumphost (newHost : NewHost) (jumphost : Option Int) :
    (persistHost newHost).map (withJumphost jumphost) = persistHost newHost :=
  congrArg (Prog.call _) (funext fun r => by rcases r with e | e | ⟨⟩ <;> rfl)

theorem addHost_negative_eq (form : HostAddForm) {via : Int} (hj : form.jumphost = some via)
    (hv : via < 0) :
    addHost form = (addHost { form with jumphost := none }).map (withJumphost form.jumphost) := by
  obtain ⟨name, username, hostname, port, jumphost, fp⟩ := form
  subst hj
  simp only [addHost, lookupJumphost, if_pos hv]
  cases ConnectionDetails.newFromSigned hostname port with
  | error => rfl
  | ok address =>
    cases fp with
    | none =>
      refine congrArg (Prog.call _) (funext fun r => ?_)
      rcases r with e | receiver
      · rfl
      · exact congrArg (Prog.call _) (funext fun r => by rcases r with e | e | fp <;> rfl)
    | some fp =>
      refine congrArg (Prog.call _) (funext fun r => ?_)
      rcases r with e | ⟨⟩
      · rfl
      · exact (persistHost_map_withJumphost _ _).symm

/-- A negative jump host id is dropped without a word: `add_host` makes the calls of the same form
without a jump host and gives its answer, but for the hostkey dialog, which repeats the id. So
it looks nothing up, every connection it makes is direct, and the host it stores has no jump
host. -/
theorem addHost_negative_jumphost (form : HostAddForm) (via : Int)
    (env : List (Sigma Answer) → (c : Call) → Answer c)
    (hj : form.jumphost = some via) (hv : via < 0) :
    ((addHost form).run env []).1 = ((addHost { form with jumphost := none }).run env []).1 ∧
    ((addHost form).run env []).2 =
      withJumphost form.jumphost ((addHost { form with jumphost := none }).run env []).2 ∧
    ∀ ev ∈ ((addHost form).run env []).1, (∀ v, ev.1 ≠ .getHostId v) ∧
      (∀ m, ev.1.route = some m → m = none) ∧ ∀ nh, ev.1 = .addHost nh → nh.jumpVia = none := by
  rw [addHost_negative_eq form hj hv, Prog.run_map]
  have hpast := (Prog.wp_run env (addHost_wp { form with jumphost := none }) .nil).1
  have hlookup : ∀ ev ∈ ((addHost { form with jumphost := none }).run env []).1, ∀ v,
      ev.1 ≠ .getHostId v := fun ev hev v h => by
    obtain ⟨pre, -, hA⟩ := hpast.mem hev
    rw [h] at hA
    cases hA.2.1
  refine ⟨rfl, rfl, fun ev hev => ⟨hlookup ev hev, Past.through hpast (fun pre ev' hpre _ => ?_) ev hev⟩⟩
  rcases pre with _ | ⟨e, pre⟩
  · rfl
  · exact Option.eq_none_iff_forall_not_mem.mpr fun J hJ =>
      let ⟨v, hv'⟩ := lookedUp_eq_some hJ
      hlookup e (hpre.subset (.head _)) v hv'

theorem addHost_negative_jumphost_db01 :
    let form : HostAddForm := ⟨"db01", "root", "10.0.0.7", 22, some (-1), none⟩
    let env : List (Sigma Answer) → (c : Call) → Answer c := fun _ c =>
      match c with
      | .getHostId _ => .ok (.ok none)
      | .getHostkey _ | .getHostkeyVia .. => .ok ⟨1⟩
      | .recv _ => .ok (.ok "SHA256:db01")
      | .tryAuthenticate .. | .tryAuthenticateVia .. => .ok ()
      | .addHost _ => .ok (.ok ())
    form.jumphost = some (-1) ∧ (-1 : Int) < 0 ∧
      ((addHost form).run env []).1 = ((addHost { form with jumphost := none }).run env []).1 ∧
      ((addHost form).run env []).2 =
        withJumphost form.jumphost ((addHost { form with jumphost := none }).run env []).2 ∧
      ∀ ev ∈ ((addHost form).run env []).1, (∀ v, ev.1 ≠ .getHostId v) ∧
        (∀ m, ev.1.route = some m → m = none) ∧ ∀ nh, ev.1 = .addHost nh → nh.jumpVia = none :=
  ⟨rfl, by decide, addHost_negative_jumphost _ (-1) _ rfl (by decide)⟩

end Hosts

end SshKeyManager
