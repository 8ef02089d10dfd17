import SshKeyManager.Routes
import SshKeyManager.Pages

/-!
# The application behind the gate

`serve` runs the gate with its call of the inner service replaced by the routed handler, so
that one run of `serve` is all that one request does. The gate lets through without an identity
every path ending in `.js` or `.css`, and such a path is also the page of a host of that name:
`show_host` and `show_diff` serve it with no identity check (`hostPages_without_identity`).
Under any scopes outside the login and static areas, and whatever the method, path, body and
answers, that is all a request without an identity reaches: it only reads a host, its jump
host, its authorized users and the user list (`serve_calls_after_identity`). A `GET` request
stores no host, authorizes no user and removes no key; the one change it can make is
`get_host_diff`'s (`serve_get_changes_only_diff`). A key is removed only by a `POST` to
`remove_key` after an identity was extracted, from the host the path names and with the key the
form carries (`serve_removes_named_key`). A request stores a host only after an identity was
extracted, from its own form, and right after the form's fingerprint was authenticated
(`serve_stores_authenticated`).
-/

namespace SshKeyManager

namespace App

open Middleware (Exempt)
open Routes

/-- `RemoveKeyFromHostForm`. -/
structure RemoveKeyFromHostForm where
  keyBase64 : String

/-- `AuthorizeUserForm`. -/
structure AuthorizeUserForm where
  hostId : Int
  userId : Int
  options : Option String

/-- A request: method, path, and what each handler's form extractor makes of the body. -/
structure Request where
  method : Method
  path : String
  hostAddForm : Option HostAddForm
  removeKeyForm : Option RemoveKeyFromHostForm
  authorizeUserForm : Option AuthorizeUserForm
  key : Option SshPublicKey

/-- `AssignKeyDialog`, unrendered. -/
structure AssignKeyDialog where
  key : SshPublicKey
  users : List Pages.User

/-- What the handlers answer with, templates unrendered. -/
inductive Response
  | hosts
  | renderHosts (hosts : List Host)
  | renderError (error : String)
  | diffPage (hosts : List Host)
  | error (error : String)
  | page (page : Pages.Page)
  | form (response : FormResponse)
  | success (msg : String)
  | keyDialog (title requestTarget : String) (template : AssignKeyDialog)
  | badRequest
  | notFound

/-- What a request waits on: the identity extractor, the handlers' calls, and the store and SSH
client. -/
inductive Call
  | identityExtract
  | hosts (c : Hosts.Call)
  | pages (c : Pages.Call)
  | getAllHosts
  | getAllUsers
  | removeKey (hostName keyBase64 : String)
  | authorizeUser (hostId userId : Int) (options : Option String)

@[reducible] def Answer : Call → Type
  | .identityExtract => Except Middleware.Error Middleware.Identity
  | .hosts c => Hosts.Answer c
  | .pages c => Pages.Answer c
  | .getAllHosts => Except BlockingError (Except String (List Host))
  | .getAllUsers => Except BlockingError (Except String (List Pages.User))
  | .removeKey .. => Except SshClientError Unit
  | .authorizeUser .. => Except BlockingError (Except String Unit)

/-! ## The handlers -/

def page (p : Prog Pages.Call Pages.Answer (Except BlockingError Pages.Page)) :
    Prog Call Answer (Except BlockingError Response) :=
  (p.lift .pages fun _ a => a).map fun r => r.map .page

/-- `render_hosts`. -/
def renderHosts : Prog Call Answer (Except BlockingError Response) :=
  (Prog.await Call.getAllHosts).map fun
    | .error e => .error e
    | .ok (.ok allHosts) => .ok (.renderHosts allHosts)
    | .ok (.error error) => .ok (.renderError error)

/-- `remove_key_from_host`. -/
def removeKeyFromHost (hostName : String) (key : RemoveKeyFromHostForm) :
    Prog Call Answer (Except BlockingError Response) :=
  (Prog.await (Call.removeKey hostName key.keyBase64)).map fun
    | .ok () => .ok (.success "Removed key from host")
    | .error e => .ok (.form (.error e.toString))

/-- `authorize_user`. -/
def authorizeUser (form : AuthorizeUserForm) : Prog Call Answer (Except BlockingError Response) :=
  (Prog.await (Call.authorizeUser form.hostId form.userId form.options)).map fun
    | .error e => .error e
    | .ok (.ok ()) => .ok (.success "Authorized user")
    | .ok (.error e) => .ok (.form (.error e))

/-- `diff_page`. -/
def diffPage : Prog Call Answer (Except BlockingError Response) :=
  (Prog.await Call.getAllHosts).map fun
    | .error e => .error e
    | .ok (.ok hosts) => .ok (.diffPage hosts)
    | .ok (.error error) => .ok (.error error)

/-- `assign_key_dialog`. -/
def assignKeyDialog (key : SshPublicKey) : Prog Call Answer (Except BlockingError Response) :=
  (Prog.await Call.getAllUsers).map fun
    | .error e => .error e
    | .ok (.ok users) => .ok (.keyDialog "Assign this key to a user" "/users/assign_key" ⟨key, users⟩)
    | .ok (.error error) => .ok (.form (.error error))

/-- The handler a route names, on the captured `{name}`; a body its form extractor refuses is
answered first. -/
def handle (req : Request) : Handler → List Char → Prog Call Answer (Except BlockingError Response)
  | .hostsPage, _ => .pure (.ok .hosts)
  | .renderHosts, _ => renderHosts
  | .showHost, n => page (Pages.showHost ⟨n⟩)
  | .addHost, _ =>
    match req.hostAddForm with
    | some form => ((Hosts.addHost form).lift .hosts fun _ a => a).map fun r => r.map .form
    | none => .pure (.ok .badRequest)
  | .removeKeyFromHost, n =>
    match req.removeKeyForm with
    | some key => removeKeyFromHost ⟨n⟩ key
    | none => .pure (.ok .badRequest)
  | .authorizeUser, _ =>
    match req.authorizeUserForm with
    | some form => authorizeUser form
    | none => .pure (.ok .badRequest)
  | .diffPage, _ => diffPage
  | .renderDiff, n => page (Pages.renderDiff ⟨n⟩)
  | .showDiff, n => page (Pages.showDiff ⟨n⟩)
  | .assignKeyDialog, _ =>
    match req.key with
    | some key => assignKeyDialog key
    | none => .pure (.ok .badRequest)

/-! ## Serving a request -/

/-- The inner service: the routed handler, its result turned into a response by `render`. -/
def service (app : List (String × List Route))
    (render : Except BlockingError Response → Except Middleware.Error Middleware.ServiceResponse)
    (req : Request) : Prog Call Answer (Except Middleware.Error Middleware.ServiceResponse) :=
  match dispatch app req.method req.path.data with
  | some (h, n) => (handle req h n).map render
  | none => .pure (render (.ok .notFound))

/-- `AuthMiddlewareService::call`, its inner service answered by `service`. -/
def serve (app : List (String × List Route))
    (render : Except BlockingError Response → Except Middleware.Error Middleware.ServiceResponse)
    (req : Request) : Prog Call Answer (Except Middleware.Error Middleware.ServiceResponse) :=
  (Middleware.call req.path).subst fun
    | .identityExtract => .await .identityExtract
    | .service _ => service app render req

section
variable (app : List (String × List Route))
  (render : Except BlockingError Response → Except Middleware.Error Middleware.ServiceResponse)
  {req : Request}

theorem serve_exempt (he : Exempt req.path) : serve app render req = service app render req := by
  rw [serve, Middleware.call_exempt he, Prog.subst_await]

theorem serve_not_exempt (he : ¬ Exempt req.path) :
    serve app render req = .call .identityExtract fun
      | .ok _ => service app render req
      | .error _ => .pure (.error (.unauthorized "Unauthorized")) := by
  rw [serve, Middleware.call_not_exempt he, Prog.subst_call]
  refine congrArg (Prog.call _) (funext fun r => ?_)
  rcases r with e | i
  · rfl
  · exact Prog.subst_await _ _

theorem service_wp_of {P : List (Sigma Answer) → Call → Prop} {tr : List (Sigma Answer)}
    (h : ∀ hd n, dispatch app req.method req.path.data = some (hd, n) →
      (handle req hd n).wp P (fun _ _ => True) tr) :
    (service app render req).wp P (fun _ _ => True) tr := by
  unfold service
  split
  · exact (Prog.wp_map _ _ _ _ _).mpr (Prog.wp_mono (fun _ _ h => h) (fun _ _ _ => trivial) (h _ _ ‹_›))
  · trivial

theorem serve_wp_of {P : List (Sigma Answer) → Call → Prop} (hid : P [] .identityExtract)
    (hex : Exempt req.path → (service app render req).wp P (fun _ _ => True) [])
    (hin : ∀ i, (service app render req).wp P (fun _ _ => True) [⟨.identityExtract, .ok i⟩]) :
    (serve app render req).wp P (fun _ _ => True) [] := by
  by_cases he : Exempt req.path
  · rw [serve_exempt app render he]
    exact hex he
  · rw [serve_not_exempt app render he]
    exact ⟨hid, fun | .error _ => trivial | .ok i => hin i⟩

end

/-! ## Host pages without an identity -/

/-- The gate forwards a request without extracting an identity exactly when its path starts with
`/auth/` or `/static/` or ends with `.css` or `.js`, whatever the extractor and the inner service
answer. So, under any scope, a `GET` of the page of a host whose name (without `%`) ends in `.js`
or `.css` is served by `show_host` for that host, and of its diff page by `show_diff`, with no
identity check at all. -/
theorem hostPages_without_identity
    (render : Except BlockingError Response → Except Middleware.Error Middleware.ServiceResponse) :
    (∀ path env, Middleware.ForwardedWithoutIdentity path ((Middleware.call path).run env []).1 ↔
      Exempt path) ∧
    ∀ (scope : String) (n : List Char) (req : Request), req.method = .get →
      req.path.data = scope.data ++ '/' :: n → '%' ∉ req.path.data → Segment n →
      (Str.endsWith n ".js".data ∨ Str.endsWith n ".css".data) →
      serve [(scope, hostsConfig)] render req = (page (Pages.showHost ⟨n⟩)).map render ∧
        serve [(scope, diffConfig)] render req = (page (Pages.showDiff ⟨n⟩)).map render := by
  refine ⟨Middleware.call_forwards_iff, fun scope n req hget hpath _ hn hjs => ?_⟩
  have he : Exempt req.path := by
    have hsuf : n <:+ scope.data ++ '/' :: n := (List.suffix_cons _ _).trans (List.suffix_append _ _)
    simp only [Str.endsWith, List.isSuffixOf_iff_suffix] at hjs
    simp only [Exempt, hpath, Str.endsWith, Bool.or_eq_true, List.isSuffixOf_iff_suffix]
    exact hjs.elim (fun h => .inr (h.trans hsuf)) (fun h => .inl (.inr (h.trans hsuf)))
  obtain ⟨hh, hd⟩ := dispatch_asset_named scope hn hjs
  rw [serve_exempt _ _ he, serve_exempt _ _ he]
  simp only [service, hget, hpath, hh, hd]
  exact ⟨rfl, rfl⟩

theorem hostPages_without_identity_web01 :
    let req : Request := ⟨.get, "/hosts/web01.js", none, none, none, none⟩
    let render : Except BlockingError Response → Except Middleware.Error Middleware.ServiceResponse :=
      fun _ => .ok ⟨200⟩
    ¬ (Str.startsWith req.path.data "/auth/".data ∨ Str.startsWith req.path.data "/static/".data) ∧
      serve [("/hosts", hostsConfig)] render req = (page (Pages.showHost "web01.js")).map render :=
  ⟨by decide, ((hostPages_without_identity _).2 "/hosts" "web01.js".data _ rfl rfl (by decide)
    (by decide) (by decide)).1⟩

/-! ## A request without an identity -/

/-- The reads of the host pages. -/
def Call.PageRead : Call → Prop
  | .pages c => c.IsRead
  | _ => False

/-- A call allowed after `tr`: the identity check, a read of the host pages, or any call after an
identity. -/
def Allowed (tr : List (Sigma Answer)) (c : Call) : Prop :=
  c = .identityExtract ∨ c.PageRead ∨ ∃ i, (⟨.identityExtract, .ok i⟩ : Sigma Answer) ∈ tr

theorem page_reads {p : Prog Pages.Call Pages.Answer (Except BlockingError Pages.Page)}
    (hp : p.wp (fun _ c => c.IsRead) (fun _ _ => True) []) tr :
    (page p).wp (fun _ c => c.PageRead) (fun _ _ => True) tr :=
  (Prog.wp_map _ _ _ _ _).mpr <| Prog.wp_lift (f := Call.pages) (g := fun _ a => a)
    (R := fun _ _ => True) (fun _ _ _ _ _ => trivial) (fun _ _ _ _ h => h) (fun _ _ _ _ _ => trivial)
    hp trivial

section
variable {app : List (String × List Route)}
  (happ : ∀ scope routes, (scope, routes) ∈ app →
    PlainScope scope ∧ (routes = hostsConfig ∨ routes = diffConfig))
  (render : Except BlockingError Response → Except Middleware.Error Middleware.ServiceResponse)
include happ

theorem service_reads_of_exempt (req : Request) (he : Exempt req.path) :
    (service app render req).wp (fun _ c => c.PageRead) (fun _ _ => True) [] :=
  service_wp_of app render fun h n hd => by
    obtain ⟨scope, routes, rest, hmem, hrest, hres⟩ := dispatch_eq_some hd
    obtain ⟨hplain, hroutes⟩ := happ scope routes hmem
    obtain ⟨hpath, hr⟩ := scopeRest_eq_some hrest
    obtain ⟨q, rfl, hq⟩ := hplain.exempt hpath hr he
    rcases resolve_asset hroutes hq hres with rfl | rfl
    · exact page_reads (Pages.showHost_reads _ []) []
    · exact page_reads (Pages.showDiff_reads _ []) []

theorem serve_wp (req : Request) : (serve app render req).wp Allowed (fun _ _ => True) [] :=
  serve_wp_of app render (.inl rfl)
    (fun he => Prog.wp_mono (fun _ _ h => .inr (.inl h)) (fun _ _ h => h)
      (service_reads_of_exempt happ render req he))
    (fun i => Prog.wp_of_forall
      (fun _ _ h => .inr (.inr ⟨i, h.subset (List.mem_singleton_self _)⟩)) (fun _ _ => trivial) _)

/-- Every call a request makes is the identity check, a read of the host pages, or made after
an identity was extracted: a request without an identity never writes the store, never lists
the hosts and never reaches a host over SSH. -/
theorem serve_calls_after_identity (req : Request) (env : List (Sigma Answer) → (c : Call) → Answer c)
    {pre : List (Sigma Answer)} {e : Sigma Answer}
    (he : pre ++ [e] <+: ((serve app render req).run env []).1) :
    e.1 = .identityExtract ∨ e.1.PageRead ∨
      ∃ i, (⟨.identityExtract, .ok i⟩ : Sigma Answer) ∈ pre :=
  (Prog.wp_run env (serve_wp happ render req) .nil).1.allowed he

end

/-- `hosts_config` under `/hosts` and `diff_config` under `/diff`. -/
def mounted : List (String × List Route) := [("/hosts", hostsConfig), ("/diff", diffConfig)]

theorem mounted_plain : ∀ scope routes, (scope, routes) ∈ mounted →
    PlainScope scope ∧ (routes = hostsConfig ∨ routes = diffConfig) := by
  intro scope routes h
  simp only [mounted, List.mem_cons, List.mem_singleton, List.not_mem_nil, or_false,
    Prod.mk.injEq] at h
  rcases h with ⟨rfl, rfl⟩ | ⟨rfl, rfl⟩
  · exact ⟨⟨"hosts".data, rfl, by decide, by decide, by decide, rfl, rfl⟩, .inl rfl⟩
  · exact ⟨⟨"diff".data, rfl, by decide, by decide, by decide, rfl, rfl⟩, .inr rfl⟩

/-- A session, a store without hosts that accepts every write, and hosts that accept every login. -/
def emptyStoreAcceptAll : List (Sigma Answer) → (c : Call) → Answer c
  | _, .identityExtract => .ok ⟨⟩
  | _, .pages (.getHostName _) | _, .pages (.getHostId _) => .ok (.ok none)
  | _, .pages (.getAuthorizedUsers _) | _, .pages .getAllUsers => .ok (.ok [])
  | _, .pages (.getHostDiff _) => ⟨⟩
  | _, .hosts (.getHostId _) => .ok (.ok none)
  | _, .hosts (.getHostkey _) | _, .hosts (.getHostkeyVia ..) => .error .noSuchHost
  | _, .hosts (.recv _) => .error .canceled
  | _, .hosts (.tryAuthenticate ..) | _, .hosts (.tryAuthenticateVia ..) | _, .removeKey .. => .ok ()
  | _, .hosts (.addHost _) | _, .authorizeUser .. => .ok (.ok ())
  | _, .getAllHosts => .ok (.ok [])
  | _, .getAllUsers => .ok (.ok [])

theorem serve_calls_after_identity_web01 :
    let req : Request := ⟨.get, "/hosts/web01.js", none, none, none, none⟩
    let e : Sigma Answer := ⟨.pages (.getHostName "web01.js"), .ok (.ok none)⟩
    (∀ scope routes, (scope, routes) ∈ mounted →
        PlainScope scope ∧ (routes = hostsConfig ∨ routes = diffConfig)) ∧
      [] ++ [e] <+: ((serve mounted (fun _ => .ok ⟨200⟩) req).run emptyStoreAcceptAll []).1 ∧
      (e.1 = .identityExtract ∨ e.1.PageRead ∨
        ∃ i, (⟨.identityExtract, .ok i⟩ : Sigma Answer) ∈ ([] : List (Sigma Answer))) := by
  intro req e
  have he : [] ++ [e] <+: ((serve mounted (fun _ => .ok ⟨200⟩) req).run emptyStoreAcceptAll []).1 := ⟨[], rfl⟩
  exact ⟨mounted_plain, he, serve_calls_after_identity mounted_plain _ req emptyStoreAcceptAll he⟩

/-! ## GET requests -/

/-- The calls that change something: store writes, key removals, and `get_host_diff`, which stores
keys. -/
def Call.Writes : Call → Prop
  | .hosts (.addHost _) | .authorizeUser .. | .removeKey .. | .pages (.getHostDiff _) => True
  | _ => False

def Call.OnlyDiff (c : Call) : Prop := c.Writes → ∃ host, c = .pages (.getHostDiff host)

theorem page_onlyDiff (p : Prog Pages.Call Pages.Answer (Except BlockingError Pages.Page)) tr :
    (page p).wp (fun _ c => c.OnlyDiff) (fun _ _ => True) tr :=
  (Prog.wp_map _ _ _ _ _).mpr <| Prog.wp_lift_of_forall
    (fun _ c => by cases c <;> first | exact fun h => h.elim | exact fun _ => ⟨_, rfl⟩)
    (fun _ _ => trivial) p tr

theorem handle_onlyDiff_of_get (req : Request) {h : Handler} (hh : h ∈ getHandlers)
    (n : List Char) tr : (handle req h n).wp (fun _ c => c.OnlyDiff) (fun _ _ => True) tr := by
  simp only [getHandlers, List.mem_cons, List.mem_singleton, List.not_mem_nil, or_false] at hh
  rcases hh with rfl | rfl | rfl | rfl | rfl | rfl
  · trivial
  · exact ⟨False.elim, fun _ => trivial⟩
  · exact page_onlyDiff _ tr
  · exact ⟨False.elim, fun _ => trivial⟩
  · exact page_onlyDiff _ tr
  · exact page_onlyDiff _ tr

/-- A `GET` request never stores a host, authorizes a user or removes a key, with an identity or
without one, whatever the scopes and the answers: the one change it can make is `get_host_diff`,
which `render_diff` calls. -/
theorem serve_get_changes_only_diff {app : List (String × List Route)}
    (happ : ∀ scope routes, (scope, routes) ∈ app → routes = hostsConfig ∨ routes = diffConfig)
    (render : Except BlockingError Response → Except Middleware.Error Middleware.ServiceResponse)
    (req : Request) (env : List (Sigma Answer) → (c : Call) → Answer c) (hget : req.method = .get) :
    ∀ e ∈ ((serve app render req).run env []).1, e.1.Writes → ∃ host, e.1 = .pages (.getHostDiff host) := by
  have hservice : ∀ tr, (service app render req).wp (fun _ c => c.OnlyDiff) (fun _ _ => True) tr :=
    fun tr => service_wp_of app render fun h n hd => by
      obtain ⟨scope, routes, rest, hmem, -, hres⟩ := dispatch_eq_some hd
      rw [hget] at hres
      exact handle_onlyDiff_of_get req (resolve_get (happ _ _ hmem) hres) n tr
  have hwp := serve_wp_of app render (P := fun _ c => c.OnlyDiff) False.elim (fun _ => hservice [])
    (fun _ => hservice _)
  intro e he
  obtain ⟨pre, -, h⟩ := (Prog.wp_run env hwp .nil).1.mem he
  exact h

theorem serve_get_changes_only_diff_web01 :
    let req : Request := ⟨.get, "/diff/web01.htm", none, none, none, none⟩
    let web01 : Host := (Hosts.newHostOf Hosts.webForm "SHA256:web01" none).toHost 1
    let env : List (Sigma Answer) → (c : Call) → Answer c := fun tr c =>
      match c with
      | .pages (.getHostName _) => .ok (.ok (some web01))
      | c => emptyStoreAcceptAll tr c
    (∀ scope routes, (scope, routes) ∈ mounted → routes = hostsConfig ∨ routes = diffConfig) ∧
      req.method = .get ∧
      ((serve mounted (fun _ => .ok ⟨200⟩) req).run env []).1 = [⟨.identityExtract, .ok ⟨⟩⟩,
        ⟨.pages (.getHostName "web01"), .ok (.ok (some web01))⟩, ⟨.pages (.getHostDiff web01), ⟨⟩⟩] ∧
      ∀ e ∈ ((serve mounted (fun _ => .ok ⟨200⟩) req).run env []).1,
        e.1.Writes → ∃ host, e.1 = .pages (.getHostDiff host) :=
  ⟨fun _ _ h => (mounted_plain _ _ h).2, rfl, rfl,
    serve_get_changes_only_diff (fun _ _ h => (mounted_plain _ _ h).2) _ _ _ rfl⟩

/-! ## Removing a key -/

theorem handle_removeKey (req : Request) (h : Handler) (n : List Char) tr :
    (handle req h n).wp (fun _ c => ∀ hostName keyBase64, c = .removeKey hostName keyBase64 →
      h = .removeKeyFromHost ∧ hostName.data = n ∧ req.removeKeyForm = some ⟨keyBase64⟩)
      (fun _ _ => True) tr := by
  cases h with
  | removeKeyFromHost =>
    simp only [handle]
    cases hf : req.removeKeyForm with
    | none => trivial
    | some key => exact ⟨fun _ _ h => by cases h; simp [hf], fun _ => trivial⟩
  | showHost | renderDiff | showDiff =>
    exact (Prog.wp_map _ _ _ _ _).mpr
      (Prog.wp_lift_of_forall (fun _ _ _ _ h => nomatch h) (fun _ _ => trivial) _ tr)
  | addHost =>
    simp only [handle]
    split
    · exact (Prog.wp_map _ _ _ _ _).mpr
        (Prog.wp_lift_of_forall (fun _ _ _ _ h => nomatch h) (fun _ _ => trivial) _ tr)
    · trivial
  | hostsPage => trivial
  | renderHosts | diffPage => exact ⟨(fun _ _ h => nomatch h), fun _ => trivial⟩
  | authorizeUser | assignKeyDialog =>
    simp only [handle]
    split <;> first | trivial | exact ⟨(fun _ _ h => nomatch h), fun _ => trivial⟩

/-- A key is removed from a host only by a `POST` to `remove_key` under `hosts_config`, after an
identity was extracted, with the key the form carries, and, on a path without `%`, from the host
the path names. -/
theorem serve_removes_named_key {app : List (String × List Route)}
    (happ : ∀ scope routes, (scope, routes) ∈ app →
      PlainScope scope ∧ (routes = hostsConfig ∨ routes = diffConfig))
    (render : Except BlockingError Response → Except Middleware.Error Middleware.ServiceResponse)
    (req : Request) (env : List (Sigma Answer) → (c : Call) → Answer c)
    {pre : List (Sigma Answer)} {e : Sigma Answer} {hostName keyBase64 : String}
    (he : pre ++ [e] <+: ((serve app render req).run env []).1)
    (hc : e.1 = .removeKey hostName keyBase64) :
    (∃ i, (⟨.identityExtract, .ok i⟩ : Sigma Answer) ∈ pre) ∧ req.method = .post ∧
      req.removeKeyForm = some ⟨keyBase64⟩ ∧
      ('%' ∉ req.path.data → ∃ scope, (scope, hostsConfig) ∈ app ∧
        req.path.data = scope.data ++ '/' :: (hostName.data ++ "/remove_key".data)) := by
  have hservice : ∀ tr, (service app render req).wp (fun _ c => ∀ hostName keyBase64,
      c = .removeKey hostName keyBase64 → req.method = .post ∧
        req.removeKeyForm = some ⟨keyBase64⟩ ∧ ∃ scope, (scope, hostsConfig) ∈ app ∧
          req.path.data = scope.data ++ '/' :: (hostName.data ++ "/remove_key".data))
      (fun _ _ => True) tr := fun tr =>
    service_wp_of app render fun h n hd => by
      obtain ⟨scope, routes, rest, hmem, hrest, hres⟩ := dispatch_eq_some hd
      obtain ⟨hpath, hr⟩ := scopeRest_eq_some hrest
      refine Prog.wp_mono (fun _ c hc hn k hk => ?_) (fun _ _ h => h) (handle_removeKey req h n tr)
      obtain ⟨rfl, hname, hform⟩ := hc hn k hk
      obtain ⟨hpost, rfl, rfl⟩ := resolve_removeKey (happ _ _ hmem).2 hr hres
      exact ⟨hpost, hform, scope, hmem, by rw [hpath, hname]⟩
  have hremove := (Prog.wp_run env (serve_wp_of app render (fun _ _ h => nomatch h)
    (fun _ => hservice []) (fun _ => hservice _)) .nil).1.allowed he
  have hallowed := (Prog.wp_run env (serve_wp happ render req) .nil).1.allowed he
  rw [hc] at hallowed hremove
  obtain ⟨hm, hk, hp⟩ := hremove hostName keyBase64 rfl
  rcases hallowed with h | h | h
  · cases h
  · exact h.elim
  · exact ⟨h, hm, hk, fun _ => hp⟩

theorem serve_removes_named_key_web01 :
    let req : Request := ⟨.post, "/hosts/web01/remove_key", none, some ⟨"AAAAC3Nz"⟩, none, none⟩
    let pre : List (Sigma Answer) := [⟨.identityExtract, .ok ⟨⟩⟩]
    let e : Sigma Answer := ⟨.removeKey "web01" "AAAAC3Nz", .ok ()⟩
    (∀ scope routes, (scope, routes) ∈ mounted →
        PlainScope scope ∧ (routes = hostsConfig ∨ routes = diffConfig)) ∧
      pre ++ [e] <+: ((serve mounted (fun _ => .ok ⟨200⟩) req).run emptyStoreAcceptAll []).1 ∧
      e.1 = .removeKey "web01" "AAAAC3Nz" ∧
      (∃ i, (⟨.identityExtract, .ok i⟩ : Sigma Answer) ∈ pre) ∧ req.method = .post ∧
      req.removeKeyForm = some ⟨"AAAAC3Nz"⟩ ∧
      ('%' ∉ req.path.data → ∃ scope, (scope, hostsConfig) ∈ mounted ∧
        req.path.data = scope.data ++ '/' :: ("web01".data ++ "/remove_key".data)) := by
  intro req pre e
  have he : pre ++ [e] <+: ((serve mounted (fun _ => .ok ⟨200⟩) req).run emptyStoreAcceptAll []).1 :=
    ⟨[], rfl⟩
  exact ⟨mounted_plain, he, rfl, serve_removes_named_key mounted_plain _ req emptyStoreAcceptAll he rfl⟩

/-! ## Storing a host -/

def hostsEvent : Sigma Answer → Option (Sigma Hosts.Answer)
  | ⟨.hosts c, a⟩ => some ⟨c, a⟩
  | _ => none

/-- The calls of `add_host` within the application's history. -/
def hostsTrace (tr : List (Sigma Answer)) : List (Sigma Hosts.Answer) := tr.filterMap hostsEvent

theorem hostsTrace_hosts (tr : List (Sigma Answer)) (c : Hosts.Call) (r : Hosts.Answer c) :
    hostsTrace (tr ++ [⟨.hosts c, r⟩]) = hostsTrace tr ++ [⟨c, r⟩] := by
  simp [hostsTrace, hostsEvent]

/-- A host is stored only by `add_host` on the request's form, right after its authentication. -/
def Persisted (req : Request) (tr : List (Sigma Answer)) : Call → Prop
  | .hosts (.addHost nh) => ∃ form, req.hostAddForm = some form ∧ Hosts.Persists form (hostsTrace tr) nh
  | _ => True

section
variable (req : Request)

theorem page_persisted (p : Prog Pages.Call Pages.Answer (Except BlockingError Pages.Page)) tr :
    (page p).wp (Persisted req) (fun _ _ => True) tr :=
  (Prog.wp_map _ _ _ _ _).mpr <| Prog.wp_lift_of_forall (fun _ _ => trivial) (fun _ _ => trivial) p tr

theorem handle_persisted (h : Handler) (n : List Char) {tr : List (Sigma Answer)}
    (htr : hostsTrace tr = []) : (handle req h n).wp (Persisted req) (fun _ _ => True) tr := by
  cases h with
  | addHost =>
    unfold handle
    cases hf : req.hostAddForm with
    | none => trivial
    | some form =>
      refine (Prog.wp_map _ _ _ _ _).mpr <| Prog.wp_lift (R := fun tr' tr => hostsTrace tr' = tr)
        (fun _ _ c r h => (hostsTrace_hosts _ c r).trans (congrArg (· ++ _) h)) ?_
        (fun _ _ _ _ _ => trivial)
        (Hosts.addHost_wp form) htr
      rintro _ _ (_ | _ | _ | _ | _ | _ | nh) rfl hc
      all_goals first | trivial | exact ⟨form, hf, hc⟩
  | showHost | renderDiff | showDiff => exact page_persisted req _ tr
  | hostsPage => trivial
  | renderHosts | diffPage => exact ⟨trivial, fun _ => trivial⟩
  | removeKeyFromHost | authorizeUser | assignKeyDialog =>
    simp only [handle]
    split <;> first | trivial | exact ⟨trivial, fun _ => trivial⟩

theorem serve_persisted (app : List (String × List Route))
    (render : Except BlockingError Response → Except Middleware.Error Middleware.ServiceResponse) :
    (serve app render req).wp (Persisted req) (fun _ _ => True) [] :=
  serve_wp_of app render trivial
    (fun _ => service_wp_of app render fun h n _ => handle_persisted req h n rfl)
    (fun _ => service_wp_of app render fun h n _ => handle_persisted req h n rfl)

end

/-- A request stores a host only after an identity was extracted for it, through `add_host` on
the request's own form, and right after the form's host authenticated against the fingerprint
the form named: the row is the form's, with that fingerprint and the jump host the store
returned. -/
theorem serve_stores_authenticated {app : List (String × List Route)}
    (happ : ∀ scope routes, (scope, routes) ∈ app →
      PlainScope scope ∧ (routes = hostsConfig ∨ routes = diffConfig))
    (render : Except BlockingError Response → Except Middleware.Error Middleware.ServiceResponse)
    (req : Request) (env : List (Sigma Answer) → (c : Call) → Answer c)
    {pre : List (Sigma Answer)} {e : Sigma Answer} {nh : NewHost}
    (he : pre ++ [e] <+: ((serve app render req).run env []).1) (hc : e.1 = .hosts (.addHost nh)) :
    (∃ i, (⟨.identityExtract, .ok i⟩ : Sigma Answer) ∈ pre) ∧
      ∃ form, req.hostAddForm = some form ∧ Hosts.Persists form (hostsTrace pre) nh := by
  have hallowed := (Prog.wp_run env (serve_wp happ render req) .nil).1.allowed he
  have hpersisted := (Prog.wp_run env (serve_persisted req app render) .nil).1.allowed he
  rw [hc] at hallowed hpersisted
  rcases hallowed with h | h | h
  · cases h
  · exact h.elim
  · exact ⟨h, hpersisted⟩

theorem serve_stores_authenticated_web01 :
    let req : Request := ⟨.post, "/hosts/add", some Hosts.webForm, none, none, none⟩
    let pre : List (Sigma Answer) := [⟨.identityExtract, .ok ⟨⟩⟩,
      ⟨.hosts (.tryAuthenticate ⟨"10.0.0.5", 22⟩ "SHA256:web01" "admin"), .ok ()⟩]
    let nh := Hosts.newHostOf Hosts.webForm "SHA256:web01" none
    let e : Sigma Answer := ⟨.hosts (.addHost nh), .ok (.ok ())⟩
    (∀ scope routes, (scope, routes) ∈ mounted →
        PlainScope scope ∧ (routes = hostsConfig ∨ routes = diffConfig)) ∧
      pre ++ [e] <+: ((serve mounted (fun _ => .ok ⟨200⟩) req).run emptyStoreAcceptAll []).1 ∧ e.1 = .hosts (.addHost nh) ∧
      (∃ i, (⟨.identityExtract, .ok i⟩ : Sigma Answer) ∈ pre) ∧
        ∃ form, req.hostAddForm = some form ∧ Hosts.Persists form (hostsTrace pre) nh := by
  intro req pre nh e
  have he : pre ++ [e] <+: ((serve mounted (fun _ => .ok ⟨200⟩) req).run emptyStoreAcceptAll []).1 := ⟨[], rfl⟩
  exact ⟨mounted_plain, he, rfl, serve_stores_authenticated mounted_plain _ req emptyStoreAcceptAll he rfl⟩

end App

end SshKeyManager
