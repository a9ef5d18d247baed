import MultiCaret.Document.Flat

/-!
# Places and offsets

The places of a document are the offsets of its flat text: a place in the lines has an offset in the flat text
(`InBounds.offset_le`), places are ordered as their offsets are (`offset_lt_iff`), every offset is that of a place
(`exists_offset_eq`), and the place is read off the flat text in front of it (`advance_take_offset`).  So two
documents whose flat texts begin alike have the same places there (`inBounds_of_take_eq`).
-/

namespace MultiCaret

/-- The lines of some text: there is one, and no newline stands in a line. -/
structure WellFormed (lines : List Text) : Prop where
  ne_nil : lines ≠ []
  no_newline : ∀ l ∈ lines, '\n' ∉ l

theorem wellFormed_splitLines (t : Text) : WellFormed (splitLines t) :=
  ⟨splitOn_ne_nil t, fun _ hl => not_mem_of_mem_splitOn hl⟩

theorem WellFormed.splitLines_joinLines {lines : List Text} (h : WellFormed lines) :
    splitLines (joinLines lines) = lines :=
  splitOn_joinWith h.ne_nil h.no_newline

theorem WellFormed.lineOf {lines : List Text} (h : WellFormed lines) (n : Int) : '\n' ∉ lineOf lines n := by
  unfold MultiCaret.lineOf
  split
  · exact List.not_mem_nil
  · cases hl : lines[n.toNat]? with
    | none => exact List.not_mem_nil
    | some l => exact h.no_newline l (List.mem_of_getElem? hl)

/-- The place behind a text that begins at a place. -/
def Position.advance (p : Position) (t : Text) : Position :=
  t.foldl (fun p c => if c = '\n' then ⟨p.line + 1, 0⟩ else ⟨p.line, p.column + 1⟩) p

theorem Position.advance_append (p : Position) (s t : Text) : p.advance (s ++ t) = (p.advance s).advance t :=
  List.foldl_append

/-- A text is as many lines further as it holds newlines; the column starts anew behind the last one. -/
theorem Position.advance_eq (p : Position) (t : Text) :
    p.advance t = ⟨p.line + (splitLines t).length - 1,
      (if (splitLines t).length = 1 then p.column else 0) + ((splitLines t).getLast?.getD []).length⟩ := by
  induction t generalizing p with
  | nil => simp [advance, splitOn]
  | cons c cs ih =>
    have hcons : p.advance (c :: cs) =
        (if c = '\n' then ⟨p.line + 1, 0⟩ else ⟨p.line, p.column + 1⟩ : Position).advance cs := rfl
    obtain ⟨l, ls, hl⟩ := List.exists_cons_of_ne_nil (wellFormed_splitLines cs).ne_nil
    rw [hcons, ih]
    -- a newline begins a line of its own, any other character goes in front of the first line
    by_cases hc : c = '\n'
    · simp only [splitLines, splitOn, hc, if_true, hl, List.length_cons, List.getLast?_cons_cons, Position.mk.injEq]
      constructor
      · omega
      · split <;> simp
    · cases ls with
      | nil => simp [splitLines, splitOn, hc, hl, consFirst]; omega
      | cons m ms => simp [splitLines, splitOn, hc, hl, consFirst]

/-- Behind a text without newlines the line is the same. -/
theorem Position.advance_of_not_mem (p : Position) {t : Text} (h : '\n' ∉ t) :
    p.advance t = ⟨p.line, p.column + t.length⟩ := by
  have hsplit : splitLines t = [t] := splitOn_of_not_mem h
  rw [advance_eq, hsplit, Position.mk.injEq]
  simp only [List.length_singleton, List.getLast?_singleton, Option.getD_some, if_true, and_true]
  omega

/-- Behind a newline and such a text it is the next one. -/
theorem Position.advance_newline (p : Position) {t : Text} (h : '\n' ∉ t) :
    p.advance ('\n' :: t) = ⟨p.line + 1, t.length⟩ := by
  have hcons : p.advance ('\n' :: t) = (⟨p.line + 1, 0⟩ : Position).advance t := rfl
  rw [hcons, advance_of_not_mem _ h, Int.zero_add]

/-- Behind some lines the last of which is not ended. -/
private theorem advance_joinLines {ls : List Text} {m : Text} (h : WellFormed (ls ++ [m])) :
    origin.advance (joinLines (ls ++ [m])) = ⟨ls.length, m.length⟩ := by
  rw [Position.advance_eq, h.splitLines_joinLines]
  simp only [origin, List.length_append, List.length_singleton, List.getLast?_concat, Option.getD_some,
    Position.mk.injEq]
  constructor
  · omega
  · split <;> omega

/-! ### Lines in front of a line and below it -/

theorem take_cut {α : Type} (A : List α) (a : α) (B : List α) : (A ++ a :: B).take (A.length + 1) = A ++ [a] := by
  rw [List.take_length_add_append]
  rfl

theorem drop_cut {α : Type} (A : List α) (a : α) (B : List α) : (A ++ a :: B).drop (A.length + 1) = B := by
  rw [List.drop_length_add_append]
  rfl

theorem set_cut {α : Type} (A : List α) (a b : α) (B : List α) : (A ++ a :: B).set A.length b = A ++ b :: B := by
  rw [List.set_append_right _ _ (Nat.le_refl _), Nat.sub_self, List.set_cons_zero]

theorem hasLine_cut (A B : List Text) (l : Text) : HasLine (A ++ l :: B) A.length := by
  refine ⟨Int.natCast_nonneg _, ?_⟩
  rw [List.length_append, List.length_cons]
  omega

theorem lineOf_cut (A B : List Text) (l : Text) : lineOf (A ++ l :: B) A.length = l := by
  rw [lineOf, if_neg (by omega), Int.toNat_natCast, List.getElem?_append_right (Nat.le_refl _), Nat.sub_self]
  rfl

/-- A line of the document cuts it. -/
theorem HasLine.cut {lines : List Text} {n : Int} (h : HasLine lines n) :
    ∃ A l B, lines = A ++ l :: B ∧ n = A.length ∧ lineOf lines n = l := by
  obtain ⟨h₀, h₁⟩ := h
  obtain ⟨k, rfl⟩ := Int.eq_ofNat_of_zero_le h₀
  have hlt : k < lines.length := by omega
  have hlen : (lines.take k).length = k := by rw [List.length_take, Nat.min_eq_left (Nat.le_of_lt hlt)]
  have hlines : lines = lines.take k ++ lines[k] :: lines.drop (k + 1) := by
    rw [← List.drop_eq_getElem_cons hlt, List.take_append_drop]
  refine ⟨lines.take k, lines[k], lines.drop (k + 1), hlines, by rw [hlen], ?_⟩
  have hline := lineOf_cut (lines.take k) (lines.drop (k + 1)) lines[k]
  rwa [← hlines, hlen] at hline

/-! ### Places in the lines -/

theorem inBounds_iff {lines : List Text} {p : Position} :
    InBounds lines p ↔ ∃ (n k : Nat) (l : Text), p = ⟨n, k⟩ ∧ lines[n]? = some l ∧ k ≤ l.length := by
  obtain ⟨line, column⟩ := p
  constructor
  · rintro ⟨⟨h₀, h₁⟩, h₂, h₃⟩
    simp only at h₀ h₁ h₂ h₃
    have hlt : line.toNat < lines.length := by omega
    rw [lineOf, if_neg (by omega), List.getElem?_eq_getElem hlt, Option.getD_some] at h₃
    refine ⟨line.toNat, column.toNat, lines[line.toNat], ?_, List.getElem?_eq_getElem hlt, by omega⟩
    simp only [Position.mk.injEq]
    omega
  · rintro ⟨n, k, l, hp, hl, hk⟩
    obtain ⟨rfl, rfl⟩ := Position.mk.inj hp
    obtain ⟨hn, rfl⟩ := List.getElem?_eq_some_iff.1 hl
    refine ⟨⟨by simp, by simpa using hn⟩, by simp, ?_⟩
    simp only [lineOf, if_neg (show ¬ (n : Int) < 0 by omega), Int.toNat_natCast, hl, Option.getD_some]
    omega

@[simp] theorem offset_mk (lines : List Text) (n k : Nat) : offset lines ⟨n, k⟩ = lineOffset lines n + k := rfl

theorem InBounds.offset_le {lines : List Text} {p : Position} (h : InBounds lines p) :
    offset lines p ≤ (joinLines lines).length := by
  obtain ⟨n, k, l, rfl, hl, hk⟩ := inBounds_iff.1 h
  exact MultiCaret.offset_le hl hk

theorem WellFormed.inBounds_origin {lines : List Text} (h : WellFormed lines) : InBounds lines origin := by
  obtain ⟨l, ls, rfl⟩ := List.exists_cons_of_ne_nil h.ne_nil
  exact inBounds_iff.2 ⟨0, 0, l, rfl, rfl, Nat.zero_le _⟩

theorem origin_le {lines : List Text} {p : Position} (h : InBounds lines p) : origin ≤ p := by
  obtain ⟨⟨h₀, -⟩, h₁, -⟩ := h
  rw [Position.le_def]
  simp only [origin]
  omega

/-- A line begins behind the newline that ends the line above it. -/
theorem lineOffset_succ_of_getElem? {lines : List Text} {n : Nat} {l : Text} (h : lines[n]? = some l) :
    lineOffset lines (n + 1) = lineOffset lines n + l.length + 1 := by
  induction n generalizing lines with
  | zero =>
    cases lines with
    | nil => simp at h
    | cons l' ls =>
      obtain rfl : l' = l := by simpa using h
      rw [lineOffset_succ, lineOffset_zero, lineOffset_zero]
      omega
  | succ n ih =>
    cases lines with
    | nil => simp at h
    | cons l' ls =>
      rw [List.getElem?_cons_succ] at h
      rw [lineOffset_succ, lineOffset_succ, ih h]
      omega

/-- A line begins behind all of every line above it. -/
private theorem lineOffset_lt {lines : List Text} {n m : Nat} {l : Text} (h : n < m) (hl : lines[n]? = some l)
    (hm : m < lines.length) : lineOffset lines n + l.length < lineOffset lines m := by
  induction n generalizing lines m with
  | zero =>
    obtain ⟨m, rfl⟩ := Nat.exists_eq_succ_of_ne_zero (show m ≠ 0 by omega)
    cases lines with
    | nil => simp at hl
    | cons l' ls =>
      obtain rfl : l' = l := by simpa using hl
      rw [lineOffset_zero, lineOffset_succ]
      omega
  | succ n ih =>
    obtain ⟨m, rfl⟩ := Nat.exists_eq_succ_of_ne_zero (show m ≠ 0 by omega)
    cases lines with
    | nil => simp at hl
    | cons l' ls =>
      rw [List.getElem?_cons_succ] at hl
      have := ih (show n < m by omega) hl (by simpa using hm)
      rw [lineOffset_succ, lineOffset_succ]
      omega

private theorem offset_lt_of_lt {lines : List Text} {p q : Position} (hp : InBounds lines p) (hq : InBounds lines q)
    (h : p < q) : offset lines p < offset lines q := by
  obtain ⟨n, k, l, rfl, hl, hk⟩ := inBounds_iff.1 hp
  obtain ⟨m, j, l', rfl, hl', hj⟩ := inBounds_iff.1 hq
  simp only [Position.lt_def, Int.ofNat_lt, Int.ofNat_inj] at h
  rw [offset_mk, offset_mk]
  rcases h with h | ⟨rfl, h⟩
  · have := lineOffset_lt h hl (List.getElem?_eq_some_iff.1 hl').1
    omega
  · omega

/-- Places are ordered as their offsets. -/
theorem offset_lt_iff {lines : List Text} {p q : Position} (hp : InBounds lines p) (hq : InBounds lines q) :
    offset lines p < offset lines q ↔ p < q := by
  constructor
  · intro h
    by_cases hqp : q ≤ p
    · by_cases hpq : p ≤ q
      · rw [Position.le_antisymm hpq hqp] at h
        omega
      · have := offset_lt_of_lt hq hp (Position.not_le.1 hpq)
        omega
    · exact Position.not_le.1 hqp
  · exact offset_lt_of_lt hp hq

theorem offset_le_iff {lines : List Text} {p q : Position} (hp : InBounds lines p) (hq : InBounds lines q) :
    offset lines p ≤ offset lines q ↔ p ≤ q := by
  rw [← Nat.not_lt, ← Position.not_lt, offset_lt_iff hq hp]

/-- A place is determined by its offset. -/
theorem offset_inj {lines : List Text} {p q : Position} (hp : InBounds lines p) (hq : InBounds lines q) :
    offset lines p = offset lines q ↔ p = q := by
  constructor
  · intro h
    exact Position.le_antisymm ((offset_le_iff hp hq).1 (by omega)) ((offset_le_iff hq hp).1 (by omega))
  · rintro rfl
    rfl

/-- Every offset in the flat text is the offset of a place. -/
theorem exists_offset_eq {lines : List Text} (hne : lines ≠ []) {k : Nat} (hk : k ≤ (joinLines lines).length) :
    ∃ p, InBounds lines p ∧ offset lines p = k := by
  induction lines generalizing k with
  | nil => exact absurd rfl hne
  | cons l ls ih =>
    by_cases hkl : k ≤ l.length
    · refine ⟨⟨(0 : Nat), k⟩, inBounds_iff.2 ⟨0, k, l, rfl, rfl, hkl⟩, ?_⟩
      rw [offset_mk, lineOffset_zero, Nat.zero_add]
    · -- behind the first line and its newline the offset is one of the lines below
      have hls : ls ≠ [] := by
        rintro rfl
        exact hkl hk
      rw [joinLines_cons hls, List.length_append, List.length_cons] at hk
      obtain ⟨p, hp, ho⟩ := ih hls (show k - l.length - 1 ≤ _ by omega)
      obtain ⟨n, j, m, rfl, hm, hj⟩ := inBounds_iff.1 hp
      refine ⟨⟨(n + 1 : Nat), j⟩, inBounds_iff.2 ⟨n + 1, j, m, rfl, by simpa using hm, hj⟩, ?_⟩
      rw [offset_mk] at ho ⊢
      rw [lineOffset_succ]
      omega

/-- A place is where the flat text in front of it leads to. -/
theorem advance_take_offset {lines : List Text} (h : WellFormed lines) {p : Position} (hp : InBounds lines p) :
    origin.advance ((joinLines lines).take (offset lines p)) = p := by
  obtain ⟨n, k, l, rfl, hl, hk⟩ := inBounds_iff.1 hp
  have hn := (List.getElem?_eq_some_iff.1 hl).1
  have hwf : WellFormed (lines.take n ++ [l.take k]) := by
    refine ⟨by simp, ?_⟩
    intro m hm
    rcases List.mem_append.1 hm with hm | hm
    · exact h.no_newline m (List.mem_of_mem_take hm)
    · rw [List.mem_singleton.1 hm]
      exact fun hc => h.no_newline l (List.mem_of_getElem? hl) (List.mem_of_mem_take hc)
  rw [offset_mk, (joinLines_split_at hl hk).1, advance_joinLines hwf, List.length_take, List.length_take,
    Nat.min_eq_left (Nat.le_of_lt hn), Nat.min_eq_left hk]

/-- Where two flat texts begin alike, their documents have the same places at the same offsets. -/
theorem inBounds_of_take_eq {lines lines' : List Text} (h : WellFormed lines) (h' : WellFormed lines') {k : Nat}
    (htake : (joinLines lines).take k = (joinLines lines').take k) {p : Position} (hp : InBounds lines p)
    (hk : offset lines p ≤ k) : InBounds lines' p ∧ offset lines' p = offset lines p := by
  have hpre : (joinLines lines).take (offset lines p) = (joinLines lines').take (offset lines p) := by
    have := congrArg (List.take (offset lines p)) htake
    rwa [List.take_take, List.take_take, Nat.min_eq_left hk] at this
  have hlen := congrArg List.length hpre
  rw [List.length_take, List.length_take, Nat.min_eq_left hp.offset_le] at hlen
  obtain ⟨q, hq, ho⟩ := exists_offset_eq h'.ne_nil (show offset lines p ≤ (joinLines lines').length by omega)
  -- both places are read off the same text
  have hpq : q = p := by
    rw [← advance_take_offset h' hq, ho, ← hpre, advance_take_offset h hp]
  rw [← hpq] at ho ⊢
  rw [hpq] at ho
  exact ⟨hq, by rw [hpq, ho]⟩

end MultiCaret
