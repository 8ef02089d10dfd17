import Mathlib.Data.List.Infix

/-!
# Rust string operations

The parts of `str` that the key codec and the middleware use, over the characters of a
string: `split_once`, `splitn`, `split_inclusive`, `strip_suffix`, `lines`, `starts_with`
and `ends_with`. `lines` is the standard library's `split_inclusive('\n')` followed by
stripping one `\n` and then one `\r` from each piece.
-/

namespace SshKeyManager.Str

/-- `str::split_once(c)`: the text before the first `c`, and the text after it. -/
def splitOnce (c : Char) : List Char → Option (List Char × List Char)
  | [] => none
  | x :: s => if x = c then some ([], s) else (splitOnce c s).map fun p => (x :: p.1, p.2)

/-- `str::splitn(n, c)`: at most `n` pieces, the last one holding the rest of the text. -/
def splitn : Nat → Char → List Char → List (List Char)
  | 0, _, _ => []
  | 1, _, s => [s]
  | n + 2, c, s =>
    match splitOnce c s with
    | none => [s]
    | some (a, b) => a :: splitn (n + 1) c b

/-- `str::split_inclusive(c)`. -/
def splitInclusive (c : Char) : List Char → List (List Char)
  | [] => []
  | x :: s =>
    if x = c then [x] :: splitInclusive c s
    else
      match splitInclusive c s with
      | [] => [[x]]
      | p :: ps => (x :: p) :: ps

/-- `str::strip_suffix(c)`. -/
def stripSuffix (c : Char) (s : List Char) : Option (List Char) :=
  if s.getLast? = some c then some s.dropLast else none

/-- The map `str::lines` applies to each piece of `split_inclusive('\n')`. -/
def linesMap (line : List Char) : List Char :=
  match stripSuffix '\n' line with
  | none => line
  | some line =>
    match stripSuffix '\r' line with
    | none => line
    | some line => line

/-- `str::lines`. -/
def lines (s : List Char) : List (List Char) := (splitInclusive '\n' s).map linesMap

/-- `str::starts_with`. -/
def startsWith (s pat : List Char) : Bool := pat.isPrefixOf s

/-- `str::ends_with`. -/
def endsWith (s pat : List Char) : Bool := pat.isSuffixOf s

/-! ## `split_once` -/

theorem splitOnce_eq_none_iff {c : Char} {s : List Char} : splitOnce c s = none ↔ c ∉ s := by
  induction s with
  | nil => simp [splitOnce]
  | cons x s ih =>
    by_cases hx : x = c
    · simp [splitOnce, hx]
    · simp [splitOnce, hx, ih, Ne.symm hx]

theorem splitOnce_append {c : Char} {a : List Char} (b : List Char) (ha : c ∉ a) :
    splitOnce c (a ++ c :: b) = some (a, b) := by
  induction a with
  | nil => simp [splitOnce]
  | cons x a ih =>
    have hx : x ≠ c := fun h => ha (h ▸ List.mem_cons_self x a)
    simp [splitOnce, hx, ih (fun h => ha (List.mem_cons_of_mem x h))]

theorem splitOnce_eq_some_iff {c : Char} {s a b : List Char} :
    splitOnce c s = some (a, b) ↔ c ∉ a ∧ s = a ++ c :: b := by
  constructor
  · induction s generalizing a with
    | nil => simp [splitOnce]
    | cons x s ih =>
      by_cases hx : x = c
      · simp only [splitOnce, hx, if_true, Option.some.injEq, Prod.mk.injEq]
        rintro ⟨rfl, rfl⟩
        simp
      · simp only [splitOnce, hx, if_false, Option.map_eq_some', Prod.mk.injEq]
        rintro ⟨⟨a', b'⟩, h, rfl, rfl⟩
        obtain ⟨ha', rfl⟩ := ih h
        simp [ha', Ne.symm hx]
  · rintro ⟨ha, rfl⟩
    exact splitOnce_append b ha

/-! ## `split_inclusive` and `lines` -/

theorem splitInclusive_cons_of_ne {c x : Char} {s p : List Char} {ps : List (List Char)}
    (hx : x ≠ c) (h : splitInclusive c s = p :: ps) :
    splitInclusive c (x :: s) = (x :: p) :: ps := by
  simp [splitInclusive, hx, h]

theorem splitInclusive_of_not_mem {c : Char} {s : List Char} (hs : s ≠ []) (hc : c ∉ s) :
    splitInclusive c s = [s] := by
  induction s with
  | nil => exact absurd rfl hs
  | cons x s ih =>
    have hx : x ≠ c := fun h => hc (h ▸ List.mem_cons_self x s)
    rcases s with _ | ⟨y, s⟩
    · simp [splitInclusive, hx]
    · exact splitInclusive_cons_of_ne hx
        (ih (List.cons_ne_nil y s) (fun h => hc (List.mem_cons_of_mem x h)))

theorem splitInclusive_append {c : Char} {a : List Char} (b : List Char) (ha : c ∉ a) :
    splitInclusive c (a ++ c :: b) = (a ++ [c]) :: splitInclusive c b := by
  induction a with
  | nil => simp [splitInclusive]
  | cons x a ih =>
    have hx : x ≠ c := fun h => ha (h ▸ List.mem_cons_self x a)
    simp [splitInclusive, hx, ih (fun h => ha (List.mem_cons_of_mem x h))]

theorem splitInclusive_ne_nil {c : Char} {s : List Char} (hs : s ≠ []) : splitInclusive c s ≠ [] := by
  cases s with
  | nil => exact absurd rfl hs
  | cons x s =>
    unfold splitInclusive
    split
    · simp
    · split <;> simp

theorem splitInclusive_append_of_getLast {c : Char} {s : List Char} (t : List Char)
    (hs : s = [] ∨ s.getLast? = some c) :
    splitInclusive c (s ++ t) = splitInclusive c s ++ splitInclusive c t := by
  induction s with
  | nil => rfl
  | cons x s ih =>
    have hs' : s = [] ∨ s.getLast? = some c := by
      rcases s with _ | ⟨y, s⟩
      · exact .inl rfl
      · simpa using hs
    by_cases hx : x = c
    · simp [splitInclusive, hx, ih hs']
    · have hne : s ≠ [] := by
        rintro rfl
        simp_all
      obtain ⟨p, ps, hp⟩ := List.exists_cons_of_ne_nil (splitInclusive_ne_nil (c := c) hne)
      rw [List.cons_append, splitInclusive_cons_of_ne hx (by rw [ih hs', hp]; rfl),
        splitInclusive_cons_of_ne hx hp]
      rfl

theorem stripSuffix_concat (c : Char) (s : List Char) : stripSuffix c (s ++ [c]) = some s := by
  simp [stripSuffix]

theorem stripSuffix_eq_some_iff {c : Char} {s t : List Char} :
    stripSuffix c s = some t ↔ s = t ++ [c] := by
  unfold stripSuffix
  split
  · rename_i h
    obtain ⟨ys, rfl⟩ := List.getLast?_eq_some_iff.mp h
    simp [eq_comm]
  · rename_i h
    simp only [reduceCtorEq, false_iff]
    rintro rfl
    simp at h

theorem stripSuffix_eq_none {c : Char} {s : List Char} (h : s.getLast? ≠ some c) :
    stripSuffix c s = none := by
  simp [stripSuffix, h]

theorem linesMap_concat_lf (s : List Char) :
    linesMap (s ++ ['\n']) = (stripSuffix '\r' s).getD s := by
  simp only [linesMap, stripSuffix_concat]
  cases stripSuffix '\r' s <;> rfl

theorem linesMap_crlf (s : List Char) : linesMap (s ++ ['\r', '\n']) = s := by
  have : s ++ ['\r', '\n'] = (s ++ ['\r']) ++ ['\n'] := by simp
  rw [this, linesMap_concat_lf, stripSuffix_concat]
  rfl

theorem linesMap_of_not_mem {s : List Char} (h : '\n' ∉ s) : linesMap s = s := by
  have : s.getLast? ≠ some '\n' := fun hl => h (List.mem_of_getLast?_eq_some hl)
  simp [linesMap, stripSuffix_eq_none this]

theorem lines_append {l e rest : List Char} (hl : '\n' ∉ l) (he : e = ['\n'] ∨ e = ['\r', '\n']) :
    lines (l ++ e ++ rest) = linesMap (l ++ e) :: lines rest := by
  rcases he with rfl | rfl
  · simp [lines, splitInclusive_append rest hl]
  · have h : '\n' ∉ l ++ ['\r'] := by simp [hl]
    have : l ++ ['\r', '\n'] ++ rest = (l ++ ['\r']) ++ '\n' :: rest := by simp
    rw [this, lines, splitInclusive_append rest h]
    simp [lines]

theorem lines_of_not_mem {s : List Char} (h : '\n' ∉ s) :
    lines s = if s = [] then [] else [s] := by
  split
  · subst_vars; rfl
  · simp [lines, splitInclusive_of_not_mem ‹_› h, linesMap_of_not_mem h]

theorem lines_append_of_getLast {s : List Char} (t : List Char)
    (hs : s = [] ∨ s.getLast? = some '\n') : lines (s ++ t) = lines s ++ lines t := by
  simp [lines, splitInclusive_append_of_getLast t hs]

end SshKeyManager.Str
