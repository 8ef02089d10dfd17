import SshKeyManager.Server

/-!
# The host pages

`show_host` reads a host by name together with the name of its jump host, the users authorized
on it and the user list (`get_all_host_data`); `show_diff` and `render_diff` read the host by
name and answer an error page when there is none. The reads run in a `web::block`, whose task
may not complete: the handler then answers with the `BlockingError`. `show_host` and
`show_diff` only read the store (`showHost_reads`, `showDiff_reads`). Against a hosts table that the `add_host`
requests built, the host page always names the jump host of a host that has one
(`showHost_names_jumphost`): the lookup of `jump_via` never comes back empty, since every jump
host was stored before the hosts that use it.
-/

namespace SshKeyManager

namespace Pages

/-- `db::UserAndOptions`; the page shows it and nothing reads it. -/
structure UserAndOptions

/-- `models::User`; the page shows it and nothing reads it. -/
structure User

/-- `sshclient::HostDiff`, which `render_diff` shows. -/
structure HostDiff

/-- What the page handlers wait on: the store inside `web::block`, and the diff of a host. -/
inductive Call
  | getHostName (name : String)
  | getHostId (id : Int)
  | getAuthorizedUsers (host : Host)
  | getAllUsers
  | getHostDiff (host : Host)

@[reducible] def Answer : Call → Type
  | .getHostName _ | .getHostId _ => Except BlockingError (Except String (Option Host))
  | .getAuthorizedUsers _ => Except BlockingError (Except String (List UserAndOptions))
  | .getAllUsers => Except BlockingError (Except String (List User))
  | .getHostDiff _ => HostDiff

/-- The pages the handlers answer with, templates unrendered. -/
inductive Page
  | showHost (host : Host) (jumphost : Option String) (authorizedUsers : List UserAndOptions)
      (users : List User)
  | showDiff (host : Host)
  | renderDiff (diff : HostDiff)
  | error (error : String)
  | renderError (error : String)
  | form (response : FormResponse)

inductive HostDataError
  | hostNotFound
  | databaseError (msg : String)

/-- `HostData`. -/
structure HostData where
  host : Host
  jumphost : Option String
  authorizedUsers : List UserAndOptions
  users : List User

def hostUsers (host : Host) (jumphost : Option String) :
    Prog Call Answer (Except BlockingError (Except HostDataError HostData)) :=
  .call (.getAuthorizedUsers host) fun
    | .error e => .pure (.error e)
    | .ok (.error e) => .pure (.ok (.error (.databaseError e)))
    | .ok (.ok authorizedUsers) =>
      .call .getAllUsers fun
        | .error e => .pure (.error e)
        | .ok (.error e) => .pure (.ok (.error (.databaseError e)))
        | .ok (.ok userList) => .pure (.ok (.ok ⟨host, jumphost, authorizedUsers, userList⟩))

/-- `get_all_host_data`, in the `web::block` of `show_host`. -/
def getAllHostData (host : String) :
    Prog Call Answer (Except BlockingError (Except HostDataError HostData)) :=
  .call (.getHostName host) fun
    | .error e => .pure (.error e)
    | .ok (.error e) => .pure (.ok (.error (.databaseError e)))
    | .ok (.ok none) => .pure (.ok (.error .hostNotFound))
    | .ok (.ok (some host)) =>
      match host.jumpVia with
      | some id =>
        .call (.getHostId id) fun
          | .error e => .pure (.error e)
          | .ok (.error e) => .pure (.ok (.error (.databaseError e)))
          | .ok (.ok j) => hostUsers host (j.map fun h => h.name)
      | none => hostUsers host none

/-- `show_host`. -/
def showHost (host : String) : Prog Call Answer (Except BlockingError Page) :=
  (getAllHostData host).bind fun
    | .error e => .pure (.error e)
    | .ok (.ok ⟨host, jumphost, authorizedUsers, users⟩) =>
      .pure (.ok (.showHost host jumphost authorizedUsers users))
    | .ok (.error .hostNotFound) => .pure (.ok (.form (.notFound "Host not found")))
    | .ok (.error (.databaseError e)) => .pure (.ok (.form (.error e)))

/-- `show_diff`. -/
def showDiff (hostName : String) : Prog Call Answer (Except BlockingError Page) :=
  .call (.getHostName hostName) fun
    | .error e => .pure (.error e)
    | .ok (.ok (some host)) => .pure (.ok (.showDiff host))
    | .ok (.ok none) => .pure (.ok (.error "Host not found"))
    | .ok (.error error) => .pure (.ok (.error error))

/-- `render_diff`. -/
def renderDiff (hostName : String) : Prog Call Answer (Except BlockingError Page) :=
  .call (.getHostName hostName) fun
    | .error e => .pure (.error e)
    | .ok (.ok (some host)) => .call (.getHostDiff host) fun diff => .pure (.ok (.renderDiff diff))
    | .ok (.ok none) => .pure (.ok (.renderError "No such host."))
    | .ok (.error error) => .pure (.ok (.renderError error))

/-! ## What the pages read -/

/-- The store's reads, as against `get_host_diff`, which connects to the host. -/
def Call.IsRead : Call → Prop
  | .getHostDiff _ => False
  | _ => True

section
variable {Q : List (Sigma Answer) → Except BlockingError (Except HostDataError HostData) → Prop}
  (hQ : ∀ tr a, Q tr a)
include hQ

theorem hostUsers_reads (host : Host) (jumphost : Option String) tr :
    (hostUsers host jumphost).wp (fun _ c => c.IsRead) Q tr :=
  ⟨trivial, fun
    | .error _ | .ok (.error _) => hQ _ _
    | .ok (.ok _) => ⟨trivial, fun | .error _ | .ok (.error _) | .ok (.ok _) => hQ _ _⟩⟩

theorem getAllHostData_reads (name : String) tr :
    (getAllHostData name).wp (fun _ c => c.IsRead) Q tr := by
  refine ⟨trivial, fun r => ?_⟩
  rcases r with e | e | _ | host
  · exact hQ _ _
  · exact hQ _ _
  · exact hQ _ _
  · dsimp only
    cases host.jumpVia with
    | none => exact hostUsers_reads hQ _ _ _
    | some id =>
      exact ⟨trivial, fun | .error _ | .ok (.error _) => hQ _ _ | .ok (.ok _) => hostUsers_reads hQ _ _ _⟩

end

theorem showHost_reads (name : String) tr :
    (showHost name).wp (fun _ c => c.IsRead) (fun _ _ => True) tr :=
  (Prog.wp_bind _ _ _ _ _).mpr <| getAllHostData_reads (fun _ a => by
    rcases a with _ | (_ | _) | _ <;> trivial) name tr

theorem showDiff_reads (hostName : String) tr :
    (showDiff hostName).wp (fun _ c => c.IsRead) (fun _ _ => True) tr :=
  ⟨trivial, fun | .error _ | .ok (.ok (some _)) | .ok (.ok none) | .ok (.error _) => trivial⟩

/-! ## Reading a hosts table -/

/-- A store that reads hosts from the table `hosts` and answers the other reads as given. -/
def tableEnv (hosts : List Host) (authorized : Host → Except String (List UserAndOptions))
    (users : Except String (List User)) (diff : Host → HostDiff) :
    List (Sigma Answer) → (c : Call) → Answer c
  | _, .getHostName name => .ok (.ok (hosts.find? fun h => h.name == name))
  | _, .getHostId id => .ok (.ok (hosts.find? fun h => h.id == id))
  | _, .getAuthorizedUsers host => .ok (authorized host)
  | _, .getAllUsers => .ok users
  | _, .getHostDiff host => diff host

section
variable (hosts : List Host) (authorized : Host → Except String (List UserAndOptions))
  (users : Except String (List User)) (diff : Host → HostDiff)

theorem hostUsers_run (host : Host) (jumphost : Option String) tr :
    ((hostUsers host jumphost).run (tableEnv hosts authorized users diff) tr).2 =
      match authorized host, users with
      | .ok au, .ok us => .ok (.ok ⟨host, jumphost, au, us⟩)
      | .error e, _ | .ok _, .error e => .ok (.error (.databaseError e)) := by
  simp only [hostUsers, Prog.run_call, tableEnv]
  rcases authorized host with e | au
  · rfl
  · rcases users with e | us <;> rfl

theorem getAllHostData_run (name : String) :
    ((getAllHostData name).run (tableEnv hosts authorized users diff) []).2 =
      match hosts.find? fun h => h.name == name with
      | none => .ok (.error .hostNotFound)
      | some host =>
        match authorized host, users with
        | .ok au, .ok us => .ok (.ok ⟨host, (host.jumpVia.bind fun id =>
            hosts.find? fun h => h.id == id).map fun h => h.name, au, us⟩)
        | .error e, _ | .ok _, .error e => .ok (.error (.databaseError e)) := by
  simp only [getAllHostData, Prog.run_call, tableEnv]
  cases hosts.find? fun h => h.name == name with
  | none => rfl
  | some host =>
    dsimp only
    cases host.jumpVia
    · exact hostUsers_run hosts authorized users diff host none _
    · exact hostUsers_run hosts authorized users diff host _ _

end

/-! ## Against a table the `add_host` requests built -/

section
variable {alloc : List Host → Int → Prop}

/-- Against the table of a server the `add_host` requests built, `show_host` answers "Host not
found" exactly when no stored host has the name; the host it shows is the first stored host of
that name, and when that host has a jump host, the page names it. -/
theorem showHost_names_jumphost (hfresh : ∀ hosts id, alloc hosts id → id ∉ hosts.map Host.id)
    {s : Hosts.Server} (hs : Relation.ReflTransGen (Hosts.Step alloc) ⟨[], []⟩ s) (name : String)
    (authorized : Host → Except String (List UserAndOptions)) (users : Except String (List User))
    (diff : Host → HostDiff) :
    (((showHost name).run (tableEnv s.hosts authorized users diff) []).2 =
        .ok (.form (.notFound "Host not found")) ↔ ∀ h ∈ s.hosts, h.name ≠ name) ∧
      ∀ host jumphost au us,
        ((showHost name).run (tableEnv s.hosts authorized users diff) []).2 =
          .ok (.showHost host jumphost au us) →
        s.hosts.find? (fun h => h.name == name) = some host ∧
          ∀ id, host.jumpVia = some id → ∃ g ∈ s.hosts, g.id = id ∧ jumphost = some g.name := by
  obtain ⟨ho, hn⟩ := Hosts.Registry.reachable hfresh .nil hs
  simp only [showHost, Prog.run_bind, getAllHostData_run, List.find?_eq_none, beq_iff_eq]
  cases hf : s.hosts.find? fun h => h.name == name with
  | none =>
    simp only [List.find?_eq_none, beq_iff_eq] at hf
    exact ⟨iff_of_true rfl hf, by simp⟩
  | some host =>
    have hmem := List.mem_of_find?_eq_some hf
    have hname : host.name = name := by simpa using List.find?_some hf
    refine ⟨iff_of_false ?_ fun h => h host hmem hname, ?_⟩
    · cases ha : authorized host <;> cases users <;> simp [ha]
    intro host' jumphost au us hpage
    cases ha : authorized host <;> cases hu : users <;> simp only [ha, hu] at hpage <;> cases hpage
    refine ⟨rfl, fun id hid => ?_⟩
    obtain ⟨g, hg, rfl, -⟩ := ho.jump_lt hn hmem hid
    obtain ⟨g', hg'⟩ : ∃ g', s.hosts.find? (fun h => h.id == g.id) = some g' :=
      Option.isSome_iff_exists.mp (List.find?_isSome.mpr ⟨g, hg, by simp⟩)
    have hid' : g'.id = g.id := by simpa using List.find?_some hg'
    exact ⟨g', List.mem_of_find?_eq_some hg', hid', by simp [hid, hg']⟩

theorem showHost_names_jumphost_db01 :
    (∀ hosts id, Hosts.freshId hosts id → id ∉ hosts.map Host.id) ∧
      Relation.ReflTransGen (Hosts.Step Hosts.freshId) ⟨[], []⟩ Hosts.webDb ∧
      (((showHost "db01").run (tableEnv Hosts.webDb.hosts (fun _ => .ok []) (.ok []) fun _ => ⟨⟩)
          []).2 = .ok (.form (.notFound "Host not found")) ↔ ∀ h ∈ Hosts.webDb.hosts, h.name ≠ "db01") ∧
      ∀ host jumphost au us,
        ((showHost "db01").run (tableEnv Hosts.webDb.hosts (fun _ => .ok []) (.ok []) fun _ => ⟨⟩)
          []).2 = .ok (.showHost host jumphost au us) →
        Hosts.webDb.hosts.find? (fun h => h.name == "db01") = some host ∧
          ∀ id, host.jumpVia = some id → ∃ g ∈ Hosts.webDb.hosts, g.id = id ∧ jumphost = some g.name :=
  ⟨fun _ _ h => h, Hosts.webDb_reachable,
    showHost_names_jumphost (fun _ _ h => h) Hosts.webDb_reachable "db01" _ _ _⟩

end

end Pages

end SshKeyManager
