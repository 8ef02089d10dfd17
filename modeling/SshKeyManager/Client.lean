import SshKeyManager.Models
import SshKeyManager.Prog

/-!
# The SSH client

`SshClient::try_connect` reads the host's trusted keys from the store and tries one connection
per key, in order, each checking the server against that key, until one succeeds
(`tryConnect_attempts`). `get_authorized_keys` runs `cat ~/.ssh/authorized_keys` over that
session, parses the output as `from_lines` does, and writes the keys to the store once.
The store and the SSH library are the outside world: each of their answers is a call's answer,
and every answer is possible.
-/

namespace SshKeyManager

/-- `async_ssh2_tokio::ServerCheckMethod`: how a connection checks the server's key. -/
inductive ServerCheckMethod
  | noCheck
  | publicKey (key : String)
  | publicKeyFile (keyFilePath : String)
  | defaultKnownHostsFile
  | knownHostsFile (knownHostsPath : String)
  deriving DecidableEq, Repr

/-- `async_ssh2_tokio::Error`, by its message. -/
structure AsyncSshError where
  msg : String
  deriving DecidableEq, Repr

/-- A live `async_ssh2_tokio::Client` session; the SSH library names each one. -/
structure Client where
  session : Nat
  deriving DecidableEq, Repr

/-- `async_ssh2_tokio::CommandExecutedResult`. -/
structure CommandExecutedResult where
  stdout : String
  exitStatus : UInt32
  deriving DecidableEq, Repr

inductive SshClientError
  | databaseError (msg : String)
  | sshError (msg : String)
  | executionError (msg : String)
  | noSuchHost
  deriving DecidableEq, Repr

/-- `Display for SshClientError`. -/
def SshClientError.toString : SshClientError → String
  | .databaseError t | .sshError t | .executionError t => t
  | .noSuchHost => "The host doesn't exist in the database."

/-- `to_connection_err`. -/
def toConnectionErr (error : AsyncSshError) : SshClientError := .sshError error.msg

/-- `ConnectionDetails`: a host name and a port number. -/
structure ConnectionDetails where
  hostname : String
  port : UInt16
  deriving DecidableEq, Repr

/-- Modelled from the spec: `ConnectionDetails::new_from_signed` (not among the sources), which
refuses a port outside the range of port numbers. -/
def ConnectionDetails.newFromSigned (hostname : String) (port : Int) :
    Except Unit ConnectionDetails :=
  if 0 ≤ port ∧ port < 65536 then .ok ⟨hostname, port.toNat.toUInt16⟩ else .error ()

namespace SshClient

/-- What the client waits on: the store, behind a pooled connection, and the SSH library. -/
inductive Call
  | getHostkeys (host : Host)
  | connect (addr username : String) (hostKey : ServerCheckMethod)
  | execute (client : Client) (command : String)
  | disconnect (client : Client)
  | insertAuthorizedKeys (host : Host) (keys : List SshPublicKey)

@[reducible] def Answer : Call → Type
  | .getHostkeys _ => Except String (List PublicKey)
  | .connect .. => Except AsyncSshError Client
  | .execute .. => Except AsyncSshError CommandExecutedResult
  | .disconnect _ => Except AsyncSshError Unit
  | .insertAuthorizedKeys .. => Except String Unit

/-- `SshClient::run_command`. -/
def runCommand (client : Client) (command : String) :
    Prog Call Answer (Except SshClientError String) :=
  .call (.execute client command) fun
    | .error e => .pure (.error (.executionError e.msg))
    | .ok result =>
      if result.exitStatus ≠ 0 then
        .pure (.error (.executionError ("Command exited with code " ++ toString result.exitStatus)))
      else .pure (.ok result.stdout)

/-- `SshClient::connect`: `Client::connect` with the client's credential. -/
def connect (addr username : String) (hostKey : ServerCheckMethod) :
    Prog Call Answer (Except AsyncSshError Client) :=
  .await (.connect addr username hostKey)

/-- The `for key in host_keys` loop of `try_connect`. -/
def tryConnectLoop (host : Host) : List PublicKey → Prog Call Answer (Except SshClientError Client)
  | [] => .pure (.error (.sshError "Didn't find a matching host key"))
  | key :: hostKeys =>
    (connect host.getAddr host.username (.publicKey key.keyBase64)).bind fun
      | .ok conn => .pure (.ok conn)
      | .error _ => tryConnectLoop host hostKeys

/-- `SshClient::try_connect`. -/
def tryConnect (host : Host) : Prog Call Answer (Except SshClientError Client) :=
  .call (.getHostkeys host) fun
    | .error _ => .pure (.error (.databaseError "Failed to query host key from database."))
    | .ok hostKeys => tryConnectLoop host hostKeys

/-- `SshClient::get_hostkeys`: the server's own keys. -/
def getHostkeys (client : Client) : Prog Call Answer (Except SshClientError (List SshPublicKey)) :=
  (runCommand client "cat /etc/ssh/ssh_host_*_key.pub").bind fun
    | .error e => .pure (.error e)
    | .ok keys => .pure (.ok (SshPublicKey.fromLines keys))

/-- `SshClient::get_authorized_keys`. -/
def getAuthorizedKeys (host : Host) :
    Prog Call Answer (Except SshClientError (List SshPublicKey)) :=
  (tryConnect host).bind fun
    | .error e => .pure (.error e)
    | .ok client =>
      let commandStr := "cat ~/.ssh/authorized_keys"
      .call (.execute client commandStr) fun
        | .error e => .pure (.error (toConnectionErr e))
        | .ok command =>
          .call (.disconnect client) fun _ =>
            if command.exitStatus ≠ 0 then
              .pure (.error (.sshError "Command exited with non-zero exit code"))
            else
              let authorizedKeys := (Str.lines command.stdout.data).filterMap fun authLine =>
                if Str.startsWith authLine ['#'] then none
                else (SshPublicKey.tryFrom ⟨authLine⟩).toOption
              .call (.insertAuthorizedKeys host authorizedKeys) fun _ =>
                .pure (.ok authorizedKeys)

/-! ## What a run does -/

def Call.written : Call → Option (Host × List SshPublicKey)
  | .insertAuthorizedKeys host keys => some (host, keys)
  | _ => none

def Call.closed : Call → Option Client
  | .disconnect client => some client
  | _ => none

def storeWrites (tr : List (Sigma Answer)) : List (Host × List SshPublicKey) :=
  tr.filterMap fun ev => ev.1.written

def disconnects (tr : List (Sigma Answer)) : List Client :=
  tr.filterMap fun ev => ev.1.closed

@[simp] theorem storeWrites_append (tr tr' : List (Sigma Answer)) :
    storeWrites (tr ++ tr') = storeWrites tr ++ storeWrites tr' :=
  List.filterMap_append _ _ _

@[simp] theorem storeWrites_nil : storeWrites [] = [] := rfl

@[simp] theorem storeWrites_cons (ev : Sigma Answer) (tr : List (Sigma Answer)) :
    storeWrites (ev :: tr) = ev.1.written.toList ++ storeWrites tr := by
  simp only [storeWrites, List.filterMap_cons]
  cases ev.1.written <;> rfl

@[simp] theorem disconnects_append (tr tr' : List (Sigma Answer)) :
    disconnects (tr ++ tr') = disconnects tr ++ disconnects tr' :=
  List.filterMap_append _ _ _

@[simp] theorem disconnects_nil : disconnects [] = [] := rfl

@[simp] theorem disconnects_cons (ev : Sigma Answer) (tr : List (Sigma Answer)) :
    disconnects (ev :: tr) = ev.1.closed.toList ++ disconnects tr := by
  simp only [disconnects, List.filterMap_cons]
  cases ev.1.closed <;> rfl

/-- What `try_connect` does with the store's keys: one connection per key, up to the first that
succeeds. -/
inductive Attempts (addr username : String) :
    List PublicKey → List (Sigma Answer) → Except SshClientError Client → Prop
  | exhausted : Attempts addr username [] [] (.error (.sshError "Didn't find a matching host key"))
  | found {key : PublicKey} {keys : List PublicKey} (c : Client) :
      Attempts addr username (key :: keys)
        [⟨.connect addr username (.publicKey key.keyBase64), .ok c⟩] (.ok c)
  | failed {key : PublicKey} {keys : List PublicKey} {tr r} (e : AsyncSshError) :
      Attempts addr username keys tr r →
      Attempts addr username (key :: keys)
        (⟨.connect addr username (.publicKey key.keyBase64), .error e⟩ :: tr) r

theorem Attempts.connects {addr username : String} {keys tr r}
    (h : Attempts addr username keys tr r) : ∀ ev ∈ tr, ∃ m, ev.1 = .connect addr username m := by
  induction h with
  | exhausted => simp
  | found c => simp
  | failed e _ ih => simpa using ih

variable (env : List (Sigma Answer) → (c : Call) → Answer c)

theorem tryConnectLoop_run (host : Host) (keys : List PublicKey) (tr₀ : List (Sigma Answer)) :
    ∃ tr, ((tryConnectLoop host keys).run env tr₀).1 = tr₀ ++ tr ∧
      Attempts host.getAddr host.username keys tr ((tryConnectLoop host keys).run env tr₀).2 := by
  induction keys generalizing tr₀ with
  | nil => exact ⟨[], by simp [tryConnectLoop], .exhausted⟩
  | cons key keys ih =>
    simp only [tryConnectLoop, connect, Prog.await, Prog.bind_call, Prog.run_call, Prog.bind_pure]
    rcases env tr₀ (.connect host.getAddr host.username (.publicKey key.keyBase64)) with e | c
    · obtain ⟨tr, htr, hA⟩ :=
        ih (tr₀ ++ [⟨.connect host.getAddr host.username (.publicKey key.keyBase64), .error e⟩])
      exact ⟨_ :: tr, by simp [htr], .failed e hA⟩
    · exact ⟨_, rfl, .found c⟩

theorem tryConnect_attempts (host : Host) :
    (∃ e, ((tryConnect host).run env []).1 = [⟨.getHostkeys host, .error e⟩] ∧
      ((tryConnect host).run env []).2 =
        .error (.databaseError "Failed to query host key from database.")) ∨
    ∃ keys tr, ((tryConnect host).run env []).1 = ⟨.getHostkeys host, .ok keys⟩ :: tr ∧
      Attempts host.getAddr host.username keys tr ((tryConnect host).run env []).2 := by
  simp only [tryConnect, Prog.run_call, List.nil_append]
  rcases env [] (.getHostkeys host) with e | keys
  · exact .inl ⟨e, rfl, rfl⟩
  · obtain ⟨tr, htr, hA⟩ := tryConnectLoop_run env host keys [⟨.getHostkeys host, .ok keys⟩]
    exact .inr ⟨keys, tr, htr, hA⟩

theorem tryConnect_calls (host : Host) :
    ∀ ev ∈ ((tryConnect host).run env []).1,
      ev.1 = .getHostkeys host ∨ ∃ m, ev.1 = .connect host.getAddr host.username m := by
  simp only [tryConnect, Prog.run_call, List.nil_append]
  rcases env [] (.getHostkeys host) with e | keys
  · simp
  · obtain ⟨tr, htr, hA⟩ := tryConnectLoop_run env host keys [⟨.getHostkeys host, .ok keys⟩]
    rw [htr]
    rintro ev (_ | ⟨_, hev⟩)
    · exact .inl rfl
    · exact .inr (hA.connects ev hev)

theorem tryConnect_quiet (host : Host) :
    storeWrites ((tryConnect host).run env []).1 = [] ∧
    disconnects ((tryConnect host).run env []).1 = [] ∧
    ∀ c cmd (a : Answer (.execute c cmd)),
      (⟨.execute c cmd, a⟩ : Sigma Answer) ∉ ((tryConnect host).run env []).1 := by
  have h := tryConnect_calls env host
  refine ⟨List.filterMap_eq_nil_iff.mpr fun ev hev => ?_,
    List.filterMap_eq_nil_iff.mpr fun ev hev => ?_, fun c cmd a hev => ?_⟩
  all_goals rcases h _ hev with h | ⟨m, h⟩ <;> simp_all [Call.written, Call.closed]

theorem inlineParse_eq_fromLines (stdout : String) :
    ((Str.lines stdout.data).filterMap fun authLine =>
      if Str.startsWith authLine ['#'] then none else (SshPublicKey.tryFrom ⟨authLine⟩).toOption) =
    SshPublicKey.fromLines stdout := by
  rw [SshPublicKey.fromLines_eq]
  rfl

/-- `get_authorized_keys` returns keys exactly when `try_connect` gave a session, the command
then ran, and it exited with status 0: the keys are `from_lines` of its output. It writes the
store once, with those keys, on that path, and never on another, whatever the write answers. -/
theorem getAuthorizedKeys_ok_iff (host : Host) :
    (∀ ks, ((getAuthorizedKeys host).run env []).2 = .ok ks ↔
      ∃ c out, ((tryConnect host).run env []).2 = .ok c ∧
        env ((tryConnect host).run env []).1 (.execute c "cat ~/.ssh/authorized_keys") = .ok out ∧
        out.exitStatus = 0 ∧ ks = SshPublicKey.fromLines out.stdout) ∧
    storeWrites ((getAuthorizedKeys host).run env []).1 =
      match ((getAuthorizedKeys host).run env []).2 with
      | .ok ks => [(host, ks)]
      | .error _ => [] := by
  obtain ⟨hw, -, -⟩ := tryConnect_quiet env host
  rw [getAuthorizedKeys, Prog.run_bind]
  rcases ht : (tryConnect host).run env [] with ⟨tr₁, e | c⟩
  all_goals simp only [ht] at hw
  · simp [hw]
  simp only [Prog.run_call, Prog.run_pure]
  rcases hex : env tr₁ (.execute c "cat ~/.ssh/authorized_keys") with e | out
  · simp [hw, hex, Call.written]
  by_cases hz : out.exitStatus = 0
  · simp [hw, hex, hz, Call.written, inlineParse_eq_fromLines, Answer]
    exact fun _ => eq_comm
  · simp [hw, hex, hz, Call.written, Answer]

theorem getAuthorizedKeys_ok_iff_write_fails :
    let host : Host := ⟨1, "web01", "admin", "10.0.0.5", 22, "SHA256:web01", none⟩
    let env : List (Sigma Answer) → (c : Call) → Answer c := fun _ c =>
      match c with
      | .getHostkeys _ => .ok [⟨"ssh-ed25519", "AAAAC3NzaC1lZDI1NTE5", none, none, some 1⟩]
      | .connect .. => .ok ⟨7⟩
      | .execute .. => .ok ⟨"ssh-ed25519 AAAAC3Nz alice\n", 0⟩
      | .disconnect _ => .ok ()
      | .insertAuthorizedKeys .. => .error "disk full"
    ((getAuthorizedKeys host).run env []).2 =
      .ok (SshPublicKey.fromLines "ssh-ed25519 AAAAC3Nz alice\n") :=
  ((getAuthorizedKeys_ok_iff _ _).1 _).mpr ⟨⟨7⟩, _, rfl, rfl, rfl, rfl⟩

/-- When the command cannot be executed, `get_authorized_keys` returns with the session of
`try_connect` still open. -/
theorem getAuthorizedKeys_execute_error (host : Host) (c : Client) (e : AsyncSshError)
    (hc : ((tryConnect host).run env []).2 = .ok c)
    (he : env ((tryConnect host).run env []).1 (.execute c "cat ~/.ssh/authorized_keys") =
      .error e) :
    ((getAuthorizedKeys host).run env []).2 = .error (toConnectionErr e) ∧
      disconnects ((getAuthorizedKeys host).run env []).1 = [] := by
  obtain ⟨-, hd, -⟩ := tryConnect_quiet env host
  rw [getAuthorizedKeys, Prog.run_bind]
  rcases ht : (tryConnect host).run env [] with ⟨tr₁, r₁⟩
  simp only [ht] at hc he hd
  subst hc
  simp [he, hd, Call.closed]

/-- Once the command ran, whatever its exit status, `get_authorized_keys` disconnects the
session of `try_connect`, once. -/
theorem getAuthorizedKeys_disconnects (host : Host) (c : Client) (out : CommandExecutedResult)
    (hc : ((tryConnect host).run env []).2 = .ok c)
    (he : env ((tryConnect host).run env []).1 (.execute c "cat ~/.ssh/authorized_keys") =
      .ok out) :
    disconnects ((getAuthorizedKeys host).run env []).1 = [c] := by
  obtain ⟨-, hd, -⟩ := tryConnect_quiet env host
  rw [getAuthorizedKeys, Prog.run_bind]
  rcases ht : (tryConnect host).run env [] with ⟨tr₁, r₁⟩
  simp only [ht] at hc he hd
  subst hc
  simp only [Prog.run_call, Prog.run_pure, he]
  split <;> simp [hd, Call.closed]

theorem getAuthorizedKeys_disconnects_exit_one :
    let host : Host := ⟨1, "web01", "admin", "10.0.0.5", 22, "SHA256:web01", none⟩
    let env : List (Sigma Answer) → (c : Call) → Answer c := fun _ c =>
      match c with
      | .getHostkeys _ => .ok [⟨"ssh-ed25519", "AAAAC3NzaC1lZDI1NTE5", none, none, some 1⟩]
      | .connect .. => .ok ⟨7⟩
      | .execute .. => .ok ⟨"", 1⟩
      | .disconnect _ => .ok ()
      | .insertAuthorizedKeys .. => .ok ()
    ((tryConnect host).run env []).2 = .ok ⟨7⟩ ∧
      env ((tryConnect host).run env []).1 (.execute ⟨7⟩ "cat ~/.ssh/authorized_keys") =
        .ok ⟨"", 1⟩ ∧
      disconnects ((getAuthorizedKeys host).run env []).1 = [⟨7⟩] :=
  ⟨rfl, rfl, getAuthorizedKeys_disconnects _ _ ⟨7⟩ ⟨"", 1⟩ rfl rfl⟩

theorem getAuthorizedKeys_execute_error_leaks :
    let host : Host := ⟨1, "web01", "admin", "10.0.0.5", 22, "SHA256:web01", none⟩
    let env : List (Sigma Answer) → (c : Call) → Answer c := fun _ c =>
      match c with
      | .getHostkeys _ => .ok [⟨"ssh-ed25519", "AAAAC3NzaC1lZDI1NTE5", none, none, some 1⟩]
      | .connect .. => .ok ⟨7⟩
      | .execute .. => .error ⟨"channel closed"⟩
      | .disconnect _ => .ok ()
      | .insertAuthorizedKeys .. => .ok ()
    ((tryConnect host).run env []).2 = .ok ⟨7⟩ ∧
      env ((tryConnect host).run env []).1 (.execute ⟨7⟩ "cat ~/.ssh/authorized_keys") =
        .error ⟨"channel closed"⟩ ∧
      ((getAuthorizedKeys host).run env []).2 = .error (toConnectionErr ⟨"channel closed"⟩) ∧
      disconnects ((getAuthorizedKeys host).run env []).1 = [] :=
  ⟨rfl, rfl, getAuthorizedKeys_execute_error _ _ ⟨7⟩ ⟨"channel closed"⟩ rfl rfl⟩

end SshClient

end SshKeyManager
