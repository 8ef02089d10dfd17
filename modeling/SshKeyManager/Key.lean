import SshKeyManager.Text

/-!
# The key codec

`SshPublicKey::try_from` splits a line with `splitn(3, ' ')`: the first piece is the key
type, the second the base64 material, the third, if there is one, the comment. It accepts a
line exactly when the line holds a space, and the key it returns prints back to the line
(`tryFrom_eq_ok_iff`). `from_lines` reads a whole `authorized_keys` text: it drops `#` lines
and the lines `try_from` refuses, and keeps every other key in order.
-/

namespace SshKeyManager

/-- Owner of a key: a server, a user, or nobody yet. -/
inductive KeyOwner
  | host (id : Int)
  | user (id : Int)
  | none
  deriving DecidableEq, Repr

structure SshPublicKey where
  keyType : String
  keyBase64 : String
  comment : Option String
  owner : KeyOwner
  deriving DecidableEq, Repr

inductive KeyParseError
  | malformed
  deriving DecidableEq, Repr

/-- `Option::ok_or`. -/
def okOr {ε α : Type} : Option α → ε → Except ε α
  | some a, _ => .ok a
  | none, e => .error e

namespace SshPublicKey

/-- `TryFrom<&str> for SshPublicKey` (`TryFrom<String>` calls it on the string's slice). -/
def tryFrom (keyString : String) : Except KeyParseError SshPublicKey := do
  let parts := Str.splitn 3 ' ' keyString.data
  let keyTypeStr ← okOr parts[0]? .malformed
  let keyBase64 ← okOr parts[1]? .malformed
  pure { keyType := ⟨keyTypeStr⟩, keyBase64 := ⟨keyBase64⟩,
         comment := parts[2]?.map String.mk, owner := .none }

/-- `SshPublicKey::from_lines`. -/
def fromLines (lines : String) : List SshPublicKey :=
  ((Str.lines lines.data).filter fun line => !Str.startsWith line ['#']).filterMap fun line =>
    match tryFrom ⟨line⟩ with
    | .ok key => some key
    | .error _ => none

/-- The line of a key, `type base64[ comment]`: the format `try_from` reads. -/
def serialize (k : SshPublicKey) : String :=
  k.keyType ++ " " ++ k.keyBase64 ++
    match k.comment with
    | some c => " " ++ c
    | none => ""

/-! ## `try_from` -/

theorem tryFrom_eq (s : String) :
    tryFrom s =
      match Str.splitOnce ' ' s.data with
      | none => .error .malformed
      | some (t, r) =>
        match Str.splitOnce ' ' r with
        | none => .ok ⟨⟨t⟩, ⟨r⟩, none, .none⟩
        | some (b, c) => .ok ⟨⟨t⟩, ⟨b⟩, some ⟨c⟩, .none⟩ := by
  simp only [tryFrom, Str.splitn]
  rcases Str.splitOnce ' ' s.data with _ | ⟨t, r⟩
  · rfl
  · simp only
    rcases Str.splitOnce ' ' r with _ | ⟨b, c⟩ <;> rfl

theorem serialize_data (k : SshPublicKey) :
    k.serialize.data = k.keyType.data ++ ' ' :: (k.keyBase64.data ++
      match k.comment with
      | some c => ' ' :: c.data
      | none => []) := by
  rcases k with ⟨t, b, _ | c, o⟩ <;> simp [serialize]

theorem tryFrom_eq_error_iff {s : String} {e : KeyParseError} :
    tryFrom s = .error e ↔ ' ' ∉ s.data := by
  rw [tryFrom_eq, ← Str.splitOnce_eq_none_iff]
  cases e
  split
  · simp [*]
  · split <;> simp [*]

theorem tryFrom_eq_ok_iff {s : String} {k : SshPublicKey} :
    tryFrom s = .ok k ↔
      k.owner = .none ∧ ' ' ∉ k.keyType.data ∧ ' ' ∉ k.keyBase64.data ∧ k.serialize = s := by
  constructor
  · rw [tryFrom_eq]
    split
    · simp
    rename_i t r h₁
    obtain ⟨ht, hs⟩ := Str.splitOnce_eq_some_iff.mp h₁
    split
    · rename_i h₂
      rintro ⟨⟩
      refine ⟨rfl, ht, Str.splitOnce_eq_none_iff.mp h₂, String.ext ?_⟩
      simp [serialize_data, hs]
    · rename_i b c h₂
      obtain ⟨hb, rfl⟩ := Str.splitOnce_eq_some_iff.mp h₂
      rintro ⟨⟩
      exact ⟨rfl, ht, hb, String.ext (by simp [serialize_data, hs])⟩
  · rintro ⟨ho, ht, hb, rfl⟩
    rw [tryFrom_eq, serialize_data, Str.splitOnce_append _ ht]
    rcases k with ⟨⟨t⟩, ⟨b⟩, _ | ⟨c⟩, o⟩
    · simp only at ho ⊢
      rw [List.append_nil, (Str.splitOnce_eq_none_iff.mpr hb)]
      subst ho; rfl
    · simp only at ho ⊢
      rw [Str.splitOnce_append _ hb]
      subst ho; rfl

theorem tryFrom_roundtrip :
    (∀ (s : String) (k : SshPublicKey), tryFrom s = .ok k → k.serialize = s) ∧
    ∀ k : SshPublicKey, ' ' ∉ k.keyType.data → ' ' ∉ k.keyBase64.data →
      tryFrom k.serialize = .ok { k with owner := .none } :=
  ⟨fun _ _ h => (tryFrom_eq_ok_iff.mp h).2.2.2,
   fun _ ht hb => tryFrom_eq_ok_iff.mpr ⟨rfl, ht, hb, rfl⟩⟩

theorem tryFrom_roundtrip_user_key :
    let k : SshPublicKey := ⟨"ssh-ed25519", "AAAAC3Nz", some "alice laptop", .user 3⟩
    tryFrom k.serialize = .ok { k with owner := .none } ∧
      ({ k with owner := .none } : SshPublicKey).serialize = k.serialize :=
  ⟨tryFrom_roundtrip.2 _ (by decide) (by decide),
    tryFrom_roundtrip.1 _ _ (tryFrom_roundtrip.2 _ (by decide) (by decide))⟩

theorem tryFrom_accepts_iff (s : String) :
    ((∃ k, tryFrom s = .ok k) ↔ ' ' ∈ s.data) ∧
    ∀ k, tryFrom s = .ok k ↔
      k.owner = .none ∧ ' ' ∉ k.keyType.data ∧ ' ' ∉ k.keyBase64.data ∧ k.serialize = s := by
  refine ⟨⟨fun ⟨_, hk⟩ => ?_, fun hs => ?_⟩, fun _ => tryFrom_eq_ok_iff⟩
  · by_contra hs
    rw [(@tryFrom_eq_error_iff s .malformed).mpr hs] at hk
    cases hk
  · rcases h : tryFrom s with e | k
    · exact absurd hs (tryFrom_eq_error_iff.mp h)
    · exact ⟨k, rfl⟩

theorem tryFrom_indented_comment :
    tryFrom "  # note" = .ok ⟨"", "", some "# note", .none⟩ :=
  rfl

/-! ## `from_lines` -/

def readLine (line : List Char) : Option SshPublicKey :=
  if Str.startsWith line ['#'] then none else (tryFrom ⟨line⟩).toOption

theorem fromLines_eq (lines : String) :
    fromLines lines = (Str.lines lines.data).filterMap readLine := by
  rw [fromLines, List.filterMap_filter]
  congr 1
  funext line
  unfold readLine
  cases Str.startsWith line ['#'] <;> simp
  cases tryFrom ⟨line⟩ <;> rfl

/-- `from_lines` reads a text that ends with a line end on its own: the keys of two texts put
one after the other, as `cat` puts files, are the keys of the first and then those of the
second. -/
theorem fromLines_append (a b : String) (ha : a = "" ∨ a.data.getLast? = some '\n') :
    fromLines (a ++ b) = fromLines a ++ fromLines b := by
  have hdata : (a ++ b).data = a.data ++ b.data := rfl
  have ha' : a.data = [] ∨ a.data.getLast? = some '\n' := ha.imp_left (congrArg String.data)
  rw [fromLines_eq, fromLines_eq, fromLines_eq, hdata, Str.lines_append_of_getLast _ ha',
    List.filterMap_append]

theorem fromLines_append_host_keys :
    ("ssh-ed25519 AAAAC3 root@web01\n" = "" ∨ ("ssh-ed25519 AAAAC3 root@web01\n").data.getLast? = some '\n') ∧
      fromLines ("ssh-ed25519 AAAAC3 root@web01\n" ++ "ssh-rsa AAAAB3 root@web01\n") =
        fromLines "ssh-ed25519 AAAAC3 root@web01\n" ++ fromLines "ssh-rsa AAAAB3 root@web01\n" :=
  ⟨.inr rfl, fromLines_append _ _ (.inr rfl)⟩

theorem startsWith_hash {l : List Char} : Str.startsWith l ['#'] = true ↔ l.head? = some '#' := by
  cases l <;> simp [Str.startsWith, List.isPrefixOf, @eq_comm _ '#']

/-- A line end `str::lines` accepts: `\n` or `\r\n`. -/
inductive LineEnd
  | lf
  | crlf
  deriving DecidableEq, Repr

def LineEnd.chars : LineEnd → List Char
  | .lf => ['\n']
  | .crlf => ['\r', '\n']

/-- The text of the lines `ls`, each with its line end, and then of a last line `last`. -/
def render (ls : List (List Char × LineEnd)) (last : List Char) : String :=
  ⟨(ls.map fun l => l.1 ++ l.2.chars).flatten ++ last⟩

/-- A line `from_lines` skips: a `#` line, or a line with no space. -/
def Skipped (l : List Char) : Prop := '\n' ∉ l ∧ (l.head? = some '#' ∨ ' ' ∉ l)

/-- A key that stands on a line of its own and is read back from it. -/
def Printable (k : SshPublicKey) : Prop :=
  k.keyType.data.head? ≠ some '#' ∧
  (∀ ch ∈ [' ', '\n', '\r'], ch ∉ k.keyType.data ∧ ch ∉ k.keyBase64.data) ∧
  ∀ c, k.comment = some c → '\n' ∉ c.data ∧ '\r' ∉ c.data

/-- `ls` are the lines of the keys `ks` in order, with skipped lines anywhere among them. -/
inductive KeyLines : List (List Char) → List SshPublicKey → Prop
  | nil : KeyLines [] []
  | key {ls ks} (k : SshPublicKey) : KeyLines ls ks → KeyLines (k.serialize.data :: ls) (k :: ks)
  | skip {ls ks l} : Skipped l → KeyLines ls ks → KeyLines (l :: ls) ks

theorem Skipped.readLine {l : List Char} (h : Skipped l) : readLine l = none := by
  rcases h with ⟨-, h | h⟩
  · simp [SshPublicKey.readLine, startsWith_hash.mpr h]
  · have : tryFrom ⟨l⟩ = .error .malformed := tryFrom_eq_error_iff.mpr h
    simp [SshPublicKey.readLine, this, Except.toOption]

theorem Skipped.linesMap {l : List Char} (h : Skipped l) (e : LineEnd) :
    Skipped (Str.linesMap (l ++ e.chars)) := by
  cases e
  · rw [LineEnd.chars, Str.linesMap_concat_lf]
    rcases hs : Str.stripSuffix '\r' l with _ | l'
    · exact h
    obtain rfl := Str.stripSuffix_eq_some_iff.mp hs
    simp only [Option.getD_some]
    obtain ⟨hn, hh | hsp⟩ := h
    · refine ⟨fun h' => hn (by simp [h']), .inl ?_⟩
      cases l' <;> simp_all
    · exact ⟨fun h' => hn (by simp [h']), .inr fun h' => hsp (by simp [h'])⟩
  · rw [LineEnd.chars, Str.linesMap_crlf]; exact h

theorem Printable.not_mem_serialize {k : SshPublicKey} (hk : Printable k) {ch : Char}
    (hch : ch = '\n' ∨ ch = '\r') : ch ∉ k.serialize.data := by
  obtain ⟨-, hkb, hc⟩ := hk
  rw [serialize_data]
  rcases hch with rfl | rfl <;> rcases hk : k.comment with _ | c <;> simp_all

theorem Printable.linesMap {k : SshPublicKey} (hk : Printable k) (e : LineEnd) :
    Str.linesMap (k.serialize.data ++ e.chars) = k.serialize.data := by
  cases e
  · have : k.serialize.data.getLast? ≠ some '\r' := fun h =>
      hk.not_mem_serialize (.inr rfl) (List.mem_of_getLast?_eq_some h)
    rw [LineEnd.chars, Str.linesMap_concat_lf, Str.stripSuffix_eq_none this]
    rfl
  · exact Str.linesMap_crlf _

theorem Printable.readLine {k : SshPublicKey} (hk : Printable k) :
    readLine k.serialize.data = some { k with owner := .none } := by
  obtain ⟨hh, hkb, -⟩ := hk
  have hs : Str.startsWith k.serialize.data ['#'] = false := by
    rw [Bool.eq_false_iff, ne_eq, startsWith_hash, serialize_data]
    rcases ht : k.keyType.data with _ | ⟨x, t⟩ <;> simp_all
  have ht : ' ' ∉ k.keyType.data := (hkb ' ' (by simp)).1
  have hb : ' ' ∉ k.keyBase64.data := (hkb ' ' (by simp)).2
  have e : tryFrom ⟨k.serialize.data⟩ = .ok { k with owner := .none } :=
    tryFrom_eq_ok_iff.mpr ⟨rfl, ht, hb, rfl⟩
  simp [SshPublicKey.readLine, hs, e, Except.toOption]

theorem KeyLines.mem {L : List (List Char)} {ks : List SshPublicKey} (h : KeyLines L ks) :
    ∀ l ∈ L, Skipped l ∨ ∃ k ∈ ks, l = k.serialize.data := by
  induction h with
  | nil => simp
  | key k _ ih =>
    intro l hl
    rcases List.mem_cons.mp hl with rfl | hl
    · exact .inr ⟨k, List.mem_cons_self _ _, rfl⟩
    · exact (ih l hl).imp_right fun ⟨k', hk', e⟩ => ⟨k', List.mem_cons_of_mem _ hk', e⟩
  | skip hl' _ ih =>
    intro l hl
    rcases List.mem_cons.mp hl with rfl | hl
    · exact .inl hl'
    · exact ih l hl

theorem KeyLines.filterMap_readLine {L : List (List Char)} {ks : List SshPublicKey}
    (h : KeyLines L ks) (hks : ∀ k ∈ ks, Printable k) :
    L.filterMap readLine = ks.map fun k => { k with owner := .none } := by
  induction h with
  | nil => rfl
  | key k _ ih =>
    simp only [List.mem_cons, forall_eq_or_imp] at hks
    simp [List.filterMap_cons, hks.1.readLine, ih hks.2]
  | skip hl _ ih => simp [List.filterMap_cons, hl.readLine, ih hks]

theorem lines_render {ls : List (List Char × LineEnd)} {last : List Char}
    (hls : ∀ l ∈ ls, '\n' ∉ l.1) (hlast : '\n' ∉ last) :
    Str.lines (render ls last).data =
      ls.map (fun l => Str.linesMap (l.1 ++ l.2.chars)) ++ if last = [] then [] else [last] := by
  induction ls with
  | nil => simp [render, Str.lines_of_not_mem hlast]
  | cons l ls ih =>
    have he : l.2.chars = ['\n'] ∨ l.2.chars = ['\r', '\n'] := by cases l.2 <;> simp [LineEnd.chars]
    simp only [List.mem_cons, forall_eq_or_imp] at hls
    simp only [render, List.map_cons, List.flatten_cons, List.append_assoc] at ih ⊢
    rw [← List.append_assoc, Str.lines_append hls.1 he, ih hls.2]
    rfl

theorem fromLines_render {ks : List SshPublicKey} (hks : ∀ k ∈ ks, Printable k)
    {ls : List (List Char × LineEnd)} {last : List Char}
    (h : KeyLines (ls.map Prod.fst ++ [last]) ks) :
    fromLines (render ls last) = ks.map fun k => { k with owner := .none } := by
  have hL := h.mem
  have hlf : ∀ l ∈ ls.map Prod.fst ++ [last], '\n' ∉ l := fun l hl => by
    rcases hL l hl with hs | ⟨k, hk, rfl⟩
    · exact hs.1
    · exact (hks k hk).not_mem_serialize (.inl rfl)
  have hline : ∀ l ∈ ls, readLine (Str.linesMap (l.1 ++ l.2.chars)) = readLine l.1 := by
    intro l hl
    rcases hL l.1 (List.mem_append_left _ (List.mem_map.mpr ⟨_, hl, rfl⟩)) with hs | ⟨k, hk, e⟩
    · rw [hs.readLine, (hs.linesMap l.2).readLine]
    · rw [e, (hks k hk).linesMap]
  rw [← h.filterMap_readLine hks, fromLines_eq,
    lines_render (fun l hl => hlf l.1 (List.mem_append_left _ (List.mem_map.mpr ⟨_, hl, rfl⟩))) (hlf last (List.mem_append_right _ (List.mem_singleton_self _))),
    List.filterMap_append, List.filterMap_append, List.filterMap_map, List.filterMap_map]
  congr 1
  · exact List.filterMap_congr hline
  · split
    · subst_vars; rfl
    · rfl

theorem fromLines_render_three_lines :
    let k : SshPublicKey := ⟨"ssh-ed25519", "AAAAC3NzaC1lZDI1NTE5", some "alice@laptop", .user 3⟩
    (∀ k' ∈ [k], Printable k') ∧
      KeyLines ([("# keys".data, LineEnd.lf), ("garbage".data, LineEnd.crlf)].map Prod.fst ++ [k.serialize.data])
        [k] ∧
      fromLines (render [("# keys".data, LineEnd.lf), ("garbage".data, LineEnd.crlf)] k.serialize.data) =
        [{ k with owner := .none }] := by
  intro k
  have hk : ∀ k' ∈ [k], Printable k' := by
    simp only [List.mem_singleton, forall_eq]
    refine ⟨by decide, by decide, ?_⟩
    rintro c ⟨⟩
    decide
  have hl : KeyLines ([("# keys".data, LineEnd.lf), ("garbage".data, LineEnd.crlf)].map Prod.fst ++
      [k.serialize.data]) [k] :=
    .skip ⟨by decide, .inl rfl⟩ (.skip ⟨by decide, .inr (by decide)⟩ (.key k .nil))
  exact ⟨hk, hl, fromLines_render hk hl⟩

end SshPublicKey

end SshKeyManager
