import SshKeyManager.Middleware

/-!
# Routing

The gate's inner service is actix's router: each of `hosts_config` and `diff_config` is mounted
under a scope, and a request goes to the first registered route whose method and pattern match
what the scope leaves of its path. actix matches the path after decoding its percent-escapes
(all but `%25`, `%2F` and `%2B`), and `Path<String>` decodes the captured name in full; on a path
without `%` both leave it as it is, and the model matches the path as it comes, so what is said
here of a name is said of names without `%`. The routes give no host page to a host named
`list.htm`, and send the diff page of a host named `x.htm` to the diff of `x`
(`resolve_host_pages`).
-/

namespace SshKeyManager

namespace Routes

open Middleware (Exempt)

inductive Method
  | get
  | post
  deriving DecidableEq, Repr

/-- A route attribute's path after the scope: a literal, `/{name}`, or `/{name}` with a literal
after or at its end. -/
inductive Pattern
  | lit (path : String)
  | name
  | nameThen (rest : String)
  | nameSuffix (suffix : String)

/-- A `{name}` segment: one or more characters other than '/'. -/
def Segment (n : List Char) : Prop := n ≠ [] ∧ '/' ∉ n

instance (n : List Char) : Decidable (Segment n) := by
  unfold Segment; infer_instance

def Pattern.capture : Pattern → List Char → Option (List Char)
  | .lit path, p => if p = path.data then some [] else none
  | .name, '/' :: n => if Segment n then some n else none
  | .nameThen rest, '/' :: q =>
    match Str.splitOnce '/' q with
    | some (n, r) => if n ≠ [] ∧ '/' :: r = rest.data then some n else none
    | none => none
  | .nameSuffix suffix, '/' :: q =>
    if '/' ∉ q ∧ suffix.data <:+ q ∧ suffix.length < q.length then
      some (q.take (q.length - suffix.length))
    else none
  | _, _ => none

/-- The handlers of `hosts_config` and `diff_config`. -/
inductive Handler
  | hostsPage | renderHosts | showHost | addHost | removeKeyFromHost | authorizeUser
  | diffPage | renderDiff | showDiff | assignKeyDialog
  deriving DecidableEq, Repr

structure Route where
  method : Method
  pattern : Pattern
  handler : Handler

/-- `hosts_config`, in the order it registers the services. -/
def hostsConfig : List Route :=
  [⟨.get, .lit "", .hostsPage⟩, ⟨.get, .lit "/list.htm", .renderHosts⟩, ⟨.get, .name, .showHost⟩,
    ⟨.post, .lit "/add", .addHost⟩, ⟨.post, .nameThen "/remove_key", .removeKeyFromHost⟩,
    ⟨.post, .lit "/user/authorize", .authorizeUser⟩]

/-- `diff_config`, in the order it registers the services. -/
def diffConfig : List Route :=
  [⟨.get, .lit "", .diffPage⟩, ⟨.get, .nameSuffix ".htm", .renderDiff⟩, ⟨.get, .name, .showDiff⟩,
    ⟨.post, .lit "/assign_key_dialog", .assignKeyDialog⟩]

/-- The first registered route whose method and pattern match, with what it captured. -/
def resolve (routes : List Route) (method : Method) (p : List Char) : Option (Handler × List Char) :=
  routes.findSome? fun r => if r.method = method then (r.pattern.capture p).map (r.handler, ·) else none

def scopeRest (scope : String) (path : List Char) : Option (List Char) :=
  if scope.data.isPrefixOf path then
    match path.drop scope.data.length with
    | [] => some []
    | '/' :: q => some ('/' :: q)
    | _ => none
  else none

/-- The route of a path: the first scope that matches it, then the first of its routes. -/
def dispatch (app : List (String × List Route)) (method : Method) (path : List Char) :
    Option (Handler × List Char) :=
  (app.findSome? fun (scope, routes) => (scopeRest scope path).map (routes, ·)).bind
    fun (routes, rest) => resolve routes method rest

/-! ## The route tables -/

theorem capture_lit {s : String} {p n : List Char} (h : (Pattern.lit s).capture p = some n) :
    p = s.data := by
  change (if p = s.data then some [] else none) = some n at h
  split at h
  · assumption
  · cases h

theorem capture_nameThen {rest : String} {q n : List Char}
    (h : (Pattern.nameThen rest).capture ('/' :: q) = some n) :
    ∃ r, q = n ++ '/' :: r ∧ '/' :: r = rest.data := by
  simp only [Pattern.capture] at h
  split at h
  · split at h
    · cases h
      obtain ⟨-, hq⟩ := Str.splitOnce_eq_some_iff.mp ‹_›
      exact ⟨_, hq, ‹_ ∧ _›.2⟩
    · cases h
  · cases h

theorem capture_nameSuffix {suffix : String} {q n : List Char}
    (h : (Pattern.nameSuffix suffix).capture ('/' :: q) = some n) : suffix.data <:+ q := by
  simp only [Pattern.capture] at h
  split at h
  · rename_i hc
    exact hc.2.1
  · cases h

theorem resolve_hostsConfig_get (n : List Char) :
    resolve hostsConfig .get ('/' :: n) =
      if n = "list.htm".data then some (.renderHosts, []) else if Segment n then some (.showHost, n) else none := by
  simp only [resolve, hostsConfig, List.findSome?_cons, List.findSome?_nil, Pattern.capture]
  by_cases h1 : n = "list.htm".data
  · subst h1; rfl
  · by_cases h2 : Segment n <;> simp [h1, h2]

theorem resolve_diffConfig_get (n : List Char) :
    resolve diffConfig .get ('/' :: n) =
      if '/' ∉ n ∧ ".htm".data <:+ n ∧ 4 < n.length then some (.renderDiff, n.take (n.length - 4))
      else if Segment n then some (.showDiff, n) else none := by
  have h4 : ".htm".length = 4 := rfl
  simp only [resolve, diffConfig, List.findSome?_cons, List.findSome?_nil, Pattern.capture, h4]
  by_cases h1 : '/' ∉ n ∧ ".htm".data <:+ n ∧ 4 < n.length
  · simp [h1]
  · by_cases h2 : Segment n <;> simp [h1, h2]

/-- The routes of the host pages, for names without `%`: `show_host` serves every one-segment
host name except `list.htm`, which `render_hosts` takes; `show_diff` serves every one-segment
name except those ending in `.htm` after at least one character, whose path `render_diff`
takes, for the host named without the `.htm`. -/
theorem resolve_host_pages (n : List Char) : '%' ∉ n →
    (resolve hostsConfig .get ('/' :: n) = some (.showHost, n) ↔ Segment n ∧ n ≠ "list.htm".data) ∧
      (resolve diffConfig .get ('/' :: n) = some (.showDiff, n) ↔
        Segment n ∧ ¬ (".htm".data <:+ n ∧ 4 < n.length)) ∧
      (Segment n → resolve diffConfig .get ('/' :: (n ++ ".htm".data)) = some (.renderDiff, n)) := by
  refine fun _ => ⟨?_, ?_, fun hs => ?_⟩
  · rw [resolve_hostsConfig_get]
    by_cases h1 : n = "list.htm".data
    · simp [h1]
    · by_cases h2 : Segment n <;> simp [h1, h2]
  · rw [resolve_diffConfig_get]
    by_cases h1 : '/' ∉ n ∧ ".htm".data <:+ n ∧ 4 < n.length
    · simp [h1]
    · by_cases h2 : Segment n
      · rw [if_neg h1, if_pos h2]
        exact iff_of_true rfl ⟨h2, fun h => h1 ⟨h2.2, h⟩⟩
      · simp [h1, h2]
  · have hlen : n.length ≠ 0 := by simpa using hs.1
    rw [resolve_diffConfig_get, if_pos ⟨by simpa using hs.2, List.suffix_append _ _, by simp; omega⟩]
    simp

theorem resolve_host_pages_list_htm :
    '%' ∉ "list.htm".data ∧ resolve hostsConfig .get ('/' :: "list.htm".data) ≠ some (.showHost, "list.htm".data) ∧
      resolve diffConfig .get ('/' :: ("web01".data ++ ".htm".data)) = some (.renderDiff, "web01".data) :=
  ⟨by decide, fun h => ((resolve_host_pages _ (by decide)).1.mp h).2 rfl,
    (resolve_host_pages "web01".data (by decide)).2.2 (by decide)⟩

def getHandlers : List Handler :=
  [.hostsPage, .renderHosts, .showHost, .diffPage, .renderDiff, .showDiff]

theorem resolve_get {routes : List Route} (hr : routes = hostsConfig ∨ routes = diffConfig)
    {p : List Char} {h : Handler} {n : List Char} (hres : resolve routes .get p = some (h, n)) :
    h ∈ getHandlers := by
  obtain ⟨r, hmem, hr'⟩ := List.exists_of_findSome?_eq_some hres
  split at hr'
  · obtain ⟨n', -, he⟩ := Option.map_eq_some'.mp hr'
    cases (Prod.mk.inj he).1
    rcases hr with rfl | rfl <;> simp only [hostsConfig, diffConfig, List.mem_cons,
      List.mem_singleton, List.not_mem_nil, or_false] at hmem <;>
      rcases hmem with rfl | rfl | rfl | rfl | rfl | rfl <;>
      first | decide | (exfalso; revert ‹_ = Method.get›; decide)
  · cases hr'

theorem resolve_removeKey {routes : List Route} (hr : routes = hostsConfig ∨ routes = diffConfig)
    {method : Method} {p n : List Char} (hp : p = [] ∨ ∃ q, p = '/' :: q)
    (hres : resolve routes method p = some (.removeKeyFromHost, n)) :
    method = .post ∧ routes = hostsConfig ∧ p = '/' :: (n ++ "/remove_key".data) := by
  obtain ⟨r, hmem, hr'⟩ := List.exists_of_findSome?_eq_some hres
  split at hr'
  · obtain ⟨n', hc, he⟩ := Option.map_eq_some'.mp hr'
    obtain ⟨hh, rfl⟩ := Prod.mk.inj he
    rcases hr with rfl | rfl <;> simp only [hostsConfig, diffConfig, List.mem_cons,
      List.mem_singleton, List.not_mem_nil, or_false] at hmem <;>
      rcases hmem with rfl | rfl | rfl | rfl | rfl | rfl <;> cases hh
    refine ⟨‹Method.post = method›.symm, rfl, ?_⟩
    rcases hp with rfl | ⟨q, rfl⟩
    · cases hc
    obtain ⟨r, rfl, hr⟩ := capture_nameThen hc
    rw [hr]
  · cases hr'

/-! ## Scopes -/

theorem scopeRest_eq_some {scope : String} {path rest : List Char}
    (h : scopeRest scope path = some rest) :
    path = scope.data ++ rest ∧ (rest = [] ∨ ∃ q, rest = '/' :: q) := by
  unfold scopeRest at h
  split at h
  · obtain ⟨t, rfl⟩ := List.isPrefixOf_iff_prefix.mp ‹_›
    rw [List.drop_left] at h
    split at h <;> cases h
    · exact ⟨rfl, .inl rfl⟩
    · exact ⟨rfl, .inr ⟨_, rfl⟩⟩
  · cases h

theorem scopeRest_slash (scope : String) (q : List Char) :
    scopeRest scope (scope.data ++ '/' :: q) = some ('/' :: q) := by
  simp [scopeRest, List.isPrefixOf_iff_prefix]

theorem dispatch_eq_some {app : List (String × List Route)} {method : Method} {path : List Char}
    {h : Handler} {n : List Char} (hd : dispatch app method path = some (h, n)) :
    ∃ scope routes rest, (scope, routes) ∈ app ∧ scopeRest scope path = some rest ∧
      resolve routes method rest = some (h, n) := by
  obtain ⟨⟨routes, rest⟩, hf, hr⟩ := Option.bind_eq_some.mp hd
  obtain ⟨⟨scope, routes'⟩, hmem, hs⟩ := List.exists_of_findSome?_eq_some hf
  obtain ⟨rest', hrest, heq⟩ := Option.map_eq_some'.mp hs
  cases heq
  exact ⟨scope, routes, rest, hmem, hrest, hr⟩

/-- A one-segment scope outside the login and static areas that does not end as an asset. -/
def PlainScope (scope : String) : Prop :=
  ∃ seg, scope.data = '/' :: seg ∧ Segment seg ∧ seg ≠ "auth".data ∧ seg ≠ "static".data ∧
    Str.endsWith seg ".js".data = false ∧ Str.endsWith seg ".css".data = false

theorem segment_eq_of_slash_after {a seg rest : List Char} (ha : '/' ∉ a) (hseg : '/' ∉ seg)
    (hr : rest = [] ∨ ∃ q, rest = '/' :: q) (h : a ++ ['/'] <+: seg ++ rest) : a = seg := by
  obtain ⟨z, hz⟩ := h
  rcases hr with rfl | ⟨q, rfl⟩
  · exact absurd (hz ▸ List.mem_append_left z (List.mem_append_right a (List.mem_singleton_self _)))
      (by simpa using hseg)
  · have h := congrArg (Str.splitOnce '/') hz
    rw [List.append_assoc, List.singleton_append, Str.splitOnce_append _ ha,
      Str.splitOnce_append _ hseg] at h
    exact (Prod.mk.inj (Option.some.inj h)).1

theorem suffix_of_slash {s x q : List Char} (hs : '/' ∉ s) (h : s <:+ x ++ '/' :: q) : s <:+ q := by
  rcases List.suffix_or_suffix_of_suffix h (List.suffix_append x _) with h | h
  · rcases List.suffix_cons_iff.mp h with rfl | h
    · exact absurd (List.mem_cons_self _ _) hs
    · exact h
  · exact absurd (h.subset (List.mem_cons_self _ _)) hs

theorem suffix_after_segment {s seg rest : List Char} (hs : '/' ∉ s) (hseg : ¬ s <:+ seg)
    (hr : rest = [] ∨ ∃ q, rest = '/' :: q) (h : s <:+ '/' :: (seg ++ rest)) :
    ∃ q, rest = '/' :: q ∧ s <:+ q := by
  rcases hr with rfl | ⟨q, rfl⟩
  · rw [List.append_nil] at h
    exact absurd (suffix_of_slash (x := []) hs h) hseg
  · exact ⟨q, rfl, suffix_of_slash (x := '/' :: seg) hs h⟩

theorem PlainScope.exempt {scope : String} (hs : PlainScope scope) {path : String}
    {rest : List Char} (hp : path.data = scope.data ++ rest) (hr : rest = [] ∨ ∃ q, rest = '/' :: q)
    (he : Exempt path) :
    ∃ q, rest = '/' :: q ∧ (Str.endsWith q ".js".data ∨ Str.endsWith q ".css".data) := by
  obtain ⟨seg, hsc, hseg, hauth, hstatic, hjs, hcss⟩ := hs
  simp only [Str.endsWith, List.isSuffixOf_iff_suffix]
  simp only [Middleware.Exempt, Str.startsWith, Str.endsWith, Bool.or_eq_true,
    List.isPrefixOf_iff_prefix, List.isSuffixOf_iff_suffix, hp, hsc, List.cons_append] at he
  rcases he with ((ha | ha) | he) | he
  · exact absurd (segment_eq_of_slash_after (by decide) hseg.2 hr (List.prefix_cons_inj _ |>.mp ha))
      (Ne.symm hauth)
  · exact absurd (segment_eq_of_slash_after (by decide) hseg.2 hr (List.prefix_cons_inj _ |>.mp ha))
      (Ne.symm hstatic)
  · obtain ⟨q, rfl, h⟩ := suffix_after_segment (by decide)
      (fun h => by simp [Str.endsWith, List.isSuffixOf_iff_suffix.mpr h] at hcss) hr he
    exact ⟨q, rfl, .inr h⟩
  · obtain ⟨q, rfl, h⟩ := suffix_after_segment (by decide)
      (fun h => by simp [Str.endsWith, List.isSuffixOf_iff_suffix.mpr h] at hjs) hr he
    exact ⟨q, rfl, .inl h⟩

/-! ## Paths that end as a stylesheet or a script -/

theorem not_suffix_htm {n : List Char} (hn : Str.endsWith n ".js".data ∨ Str.endsWith n ".css".data) :
    ¬ ".htm".data <:+ n := by
  intro hhtm
  simp only [Str.endsWith, List.isSuffixOf_iff_suffix] at hn
  rcases hn with hn | hn <;> rcases List.suffix_or_suffix_of_suffix hn hhtm with h | h <;>
    revert h <;> decide

theorem resolve_asset {routes : List Route} (hr : routes = hostsConfig ∨ routes = diffConfig)
    {method : Method} {q : List Char} (hq : Str.endsWith q ".js".data ∨ Str.endsWith q ".css".data)
    {h : Handler} {n : List Char} (hres : resolve routes method ('/' :: q) = some (h, n)) :
    h = .showHost ∨ h = .showDiff := by
  have hrest : Str.endsWith ('/' :: q) ".js".data ∨ Str.endsWith ('/' :: q) ".css".data := by
    simp only [Str.endsWith, List.isSuffixOf_iff_suffix] at hq ⊢
    exact hq.imp (·.trans (List.suffix_cons _ _)) (·.trans (List.suffix_cons _ _))
  obtain ⟨r, hmem, hr'⟩ := List.exists_of_findSome?_eq_some hres
  have hcap : ∃ n', r.pattern.capture ('/' :: q) = some n' ∧ r.handler = h := by
    split at hr'
    · obtain ⟨n', hc, he⟩ := Option.map_eq_some'.mp hr'
      exact ⟨n', hc, (Prod.mk.inj he).1⟩
    · cases hr'
  obtain ⟨n', hc, rfl⟩ := hcap
  rcases hr with rfl | rfl <;> simp only [hostsConfig, diffConfig, List.mem_cons,
    List.mem_singleton, List.not_mem_nil, or_false] at hmem <;>
    rcases hmem with rfl | rfl | rfl | rfl | rfl | rfl
  all_goals first
    | exact .inl rfl
    | exact .inr rfl
    | (rw [capture_lit hc] at hrest; revert hrest; decide)
    | exact absurd (capture_nameSuffix hc) (not_suffix_htm hq)
    | skip
  obtain ⟨r, rfl, hr⟩ := capture_nameThen hc
  have hr : '/' :: r = '/' :: "remove_key".data := hr
  cases (List.cons.inj hr).2
  simp only [Str.endsWith, List.isSuffixOf_iff_suffix] at hq
  rcases hq with hq | hq <;> revert hq <;> exact fun h => absurd (suffix_of_slash (by decide) h) (by decide)

theorem dispatch_asset_named (scope : String) {n : List Char} (hn : Segment n)
    (hjs : Str.endsWith n ".js".data ∨ Str.endsWith n ".css".data) :
    dispatch [(scope, hostsConfig)] .get (scope.data ++ '/' :: n) = some (.showHost, n) ∧
      dispatch [(scope, diffConfig)] .get (scope.data ++ '/' :: n) = some (.showDiff, n) := by
  have hlist : n ≠ "list.htm".data := by
    rintro rfl
    revert hjs
    decide
  have h4 : ¬ ('/' ∉ n ∧ ".htm".data <:+ n ∧ 4 < n.length) := fun h => not_suffix_htm hjs h.2.1
  simp only [dispatch, List.findSome?_cons, List.findSome?_nil, scopeRest_slash, Option.map_some',
    Option.some_bind, resolve_hostsConfig_get, resolve_diffConfig_get, if_neg hlist, if_neg h4,
    if_pos hn, and_self]

end Routes

end SshKeyManager
