import SshKeyManager.Key

/-!
# Store records

The rows the handlers and the SSH client read and write. `models.rs` is not among the
sources: the records have the fields the sources read and set, with `i32` columns as
integers.
-/

namespace SshKeyManager

/-- `models::PublicKey`: a key row, owned by a user or by a host. -/
structure PublicKey where
  keyType : String
  keyBase64 : String
  comment : Option String
  userId : Option Int
  hostId : Option Int
  deriving DecidableEq, Repr

/-- `From<PublicKey> for SshPublicKey`: a user owner comes before a host owner. -/
def SshPublicKey.ofPublicKey (value : PublicKey) : SshPublicKey where
  keyType := value.keyType
  keyBase64 := value.keyBase64
  comment := value.comment
  owner :=
    match value.userId with
    | some user => .user user
    | none =>
      match value.hostId with
      | some hostId => .host hostId
      | none => .none

/-- `models::Host`. -/
structure Host where
  id : Int
  name : String
  username : String
  hostname : String
  port : Int
  keyFingerprint : String
  jumpVia : Option Int
  deriving DecidableEq, Repr

/-- `models::NewHost`: a host row before the store gives it an id. -/
structure NewHost where
  name : String
  hostname : String
  port : Int
  username : String
  keyFingerprint : String
  jumpVia : Option Int
  deriving DecidableEq, Repr

def NewHost.toHost (h : NewHost) (id : Int) : Host :=
  { id := id, name := h.name, username := h.username, hostname := h.hostname, port := h.port,
    keyFingerprint := h.keyFingerprint, jumpVia := h.jumpVia }

@[simp] theorem NewHost.toHost_id (h : NewHost) (id : Int) : (h.toHost id).id = id := rfl

@[simp] theorem NewHost.toHost_jumpVia (h : NewHost) (id : Int) :
    (h.toHost id).jumpVia = h.jumpVia := rfl

/-- Modelled from the spec: `Host::get_addr` (not among the sources), the address
`hostname:port` a direct connection dials. -/
def Host.getAddr (host : Host) : String := host.hostname ++ ":" ++ toString host.port

end SshKeyManager
