import MultiCaret.Proofs.Braces.Scan
import MultiCaret.Proofs.Document.Places

/-!
# Which braces stay open

A place in a line cuts the characters of a document into those in front of it and those behind it
(`located_cut`), and the scan into what the text in front of it leaves open and what the text behind it makes of this.
So an opening brace stays open if and only if no stretch of text right behind it holds more closing braces than opening
ones (`isUnmatched_iff`), and it needs a closer if and only if the scan leaves some brace open up to its place
(`needsCloser_iff`).  For the latter both sides come down to the same comparison of two numbers: the strays behind the
brace do not use up the brace and all that is open in front of it (`needsCloser_cut_iff`).
-/

namespace MultiCaret

/-- An opening brace stands at the position. -/
def OpensAt (lines : List Text) (p : Position) : Prop :=
  HasLine lines p.line ∧ 0 ≤ p.column ∧ (lineOf lines p.line)[p.column.toNat]? = some '\x7b'

/-- The characters from a place on, when `y` is the rest of its line and `B` are the lines below. -/
def locatedOnward (p : Position) (y : Text) (B : List Text) : List (Position × Char) :=
  locatedFrom p.line p.column y ++ locatedLines (p.line + 1) B

/-! ### Places cut the characters -/

theorem locatedFrom_append (line column : Int) (s t : Text) :
    locatedFrom line column (s ++ t) = locatedFrom line column s ++ locatedFrom line (column + s.length) t := by
  induction s generalizing column with
  | nil => simp [locatedFrom]
  | cons c s ih =>
    simp only [List.cons_append, locatedFrom, ih, List.length_cons]
    rw [show column + 1 + s.length = column + (s.length + 1 : Nat) by omega]

private theorem locatedLines_append (line : Int) (ls ms : List Text) :
    locatedLines line (ls ++ ms) = locatedLines line ls ++ locatedLines (line + ls.length) ms := by
  induction ls generalizing line with
  | nil => simp [locatedLines]
  | cons l ls ih =>
    simp only [List.cons_append, locatedLines, ih, List.length_cons, List.append_assoc]
    rw [show line + 1 + ls.length = line + (ls.length + 1 : Nat) by omega]

theorem located_cut (A B : List Text) (x y : Text) :
    located (A ++ (x ++ y) :: B) = located (A ++ [x]) ++ locatedOnward ⟨A.length, x.length⟩ y B := by
  simp [located, locatedOnward, locatedLines_append, locatedLines, locatedFrom_append]

private theorem locatedOnward_cons (p : Position) (c : Char) (y : Text) (B : List Text) :
    locatedOnward p (c :: y) B = (p, c) :: locatedOnward ⟨p.line, p.column + 1⟩ y B := rfl

theorem map_snd_locatedFrom (line column : Int) (t : Text) : (locatedFrom line column t).map Prod.snd = t := by
  induction t generalizing column with
  | nil => rfl
  | cons c t ih => rw [locatedFrom, List.map_cons, ih]

private theorem map_snd_locatedLines (line : Int) (ls : List Text) :
    (locatedLines line ls).map Prod.snd = ls.flatten := by
  induction ls generalizing line with
  | nil => rfl
  | cons l ls ih => rw [locatedLines, List.map_append, map_snd_locatedFrom, ih, List.flatten_cons]

private theorem map_snd_locatedOnward (p : Position) (y : Text) (B : List Text) :
    (locatedOnward p y B).map Prod.snd = y ++ B.flatten := by
  rw [locatedOnward, List.map_append, map_snd_locatedFrom, map_snd_locatedLines]

theorem mem_locatedFrom {line column : Int} {t : Text} {q : Position × Char} (h : q ∈ locatedFrom line column t) :
    ∃ x y, t = x ++ q.2 :: y ∧ q.1 = ⟨line, column + x.length⟩ := by
  induction t generalizing column with
  | nil => cases h
  | cons c t ih =>
    rcases List.mem_cons.1 h with rfl | h
    · exact ⟨[], t, rfl, by simp⟩
    · obtain ⟨x, y, rfl, hq⟩ := ih h
      refine ⟨c :: x, y, rfl, ?_⟩
      rw [hq, List.length_cons, Position.mk.injEq]
      omega

private theorem mem_locatedLines {line : Int} {ls : List Text} {q : Position × Char} (h : q ∈ locatedLines line ls) :
    ∃ A x y B, ls = A ++ (x ++ q.2 :: y) :: B ∧ q.1 = ⟨line + A.length, x.length⟩ := by
  induction ls generalizing line with
  | nil => cases h
  | cons l ls ih =>
    rcases List.mem_append.1 h with h | h
    · obtain ⟨x, y, rfl, hq⟩ := mem_locatedFrom h
      exact ⟨[], x, y, ls, rfl, by simpa using hq⟩
    · obtain ⟨A, x, y, B, rfl, hq⟩ := ih h
      refine ⟨l :: A, x, y, B, rfl, ?_⟩
      rw [hq, List.length_cons, Position.mk.injEq]
      omega

private theorem lt_of_mem_front {A : List Text} {x : Text} {q : Position × Char} (h : q ∈ located (A ++ [x])) :
    q.1 < ⟨A.length, x.length⟩ := by
  rw [located, locatedLines_append, List.mem_append] at h
  rw [Position.lt_def]
  rcases h with h | h
  · obtain ⟨A, x, y, B, rfl, hq⟩ := mem_locatedLines h
    simp only [hq, List.length_append, List.length_cons]
    omega
  · rw [locatedLines, locatedLines, List.append_nil] at h
    obtain ⟨x, y, rfl, hq⟩ := mem_locatedFrom h
    simp only [hq, List.length_append, List.length_cons]
    omega

private theorem le_of_mem_locatedOnward {p : Position} {y : Text} {B : List Text} {q : Position × Char}
    (h : q ∈ locatedOnward p y B) : p ≤ q.1 := by
  rw [Position.le_def]
  rcases List.mem_append.1 h with h | h
  · obtain ⟨x, y, -, hq⟩ := mem_locatedFrom h
    rw [hq]
    exact Or.inr ⟨rfl, Int.le_add_of_nonneg_right (Int.natCast_nonneg _)⟩
  · obtain ⟨A, x, y, B, -, hq⟩ := mem_locatedLines h
    simp only [hq]
    omega

/-- An opening brace cuts the lines. -/
private theorem opensAt_iff {lines : List Text} {p : Position} :
    OpensAt lines p ↔ ∃ A x y B, lines = A ++ (x ++ '\x7b' :: y) :: B ∧ p = ⟨A.length, x.length⟩ := by
  constructor
  · rintro ⟨hline, hcol, hc⟩
    obtain ⟨n, hn⟩ := Int.eq_ofNat_of_zero_le hline.1
    obtain ⟨k, hk⟩ := Int.eq_ofNat_of_zero_le hcol
    have hlt : n < lines.length := by
      have := hline.2
      omega
    rw [lineOf, if_neg (by omega), hn, hk, Int.toNat_natCast, Int.toNat_natCast, List.getElem?_eq_getElem hlt,
      Option.getD_some] at hc
    obtain ⟨hlt', hc⟩ := List.getElem?_eq_some_iff.1 hc
    refine ⟨lines.take n, lines[n].take k, lines[n].drop (k + 1), lines.drop (n + 1), ?_, ?_⟩
    · rw [← hc, ← List.drop_eq_getElem_cons hlt', List.take_append_drop, ← List.drop_eq_getElem_cons hlt,
        List.take_append_drop]
    · rw [List.length_take, List.length_take, Nat.min_eq_left (Nat.le_of_lt hlt), Nat.min_eq_left (Nat.le_of_lt hlt'),
        ← hn, ← hk]
  · rintro ⟨A, x, y, B, rfl, rfl⟩
    refine ⟨hasLine_cut A B _, Int.natCast_nonneg _, ?_⟩
    simp only [lineOf_cut]
    simp

/-- Only opening braces stay open. -/
theorem opensAt_of_mem_unmatchedBraces {lines : List Text} {p : Position} (h : p ∈ unmatchedBraces lines) :
    OpensAt lines p := by
  rcases mem_openAfter h with h | h
  · cases h
  · obtain ⟨A, x, y, B, hlines, hp⟩ := mem_locatedLines h
    exact opensAt_iff.2 ⟨A, x, y, B, hlines, by simpa using hp⟩

theorem OpensAt.inBounds {lines : List Text} {p : Position} (h : OpensAt lines p) : InBounds lines p := by
  obtain ⟨hline, hcol, hc⟩ := h
  obtain ⟨hlt, -⟩ := List.getElem?_eq_some_iff.1 hc
  exact ⟨hline, hcol, by omega⟩

/-! ### One opening brace -/

theorem flatten_cut (A B : List Text) (x y : Text) :
    (A ++ (x ++ y) :: B).flatten = (A.flatten ++ x) ++ (y ++ B.flatten) := by
  rw [List.flatten_append, List.flatten_cons, List.append_assoc, List.append_assoc]

private theorem modify_cut {α : Type} (f : α → α) (A : List α) (a : α) (B : List α) :
    (A ++ a :: B).modify A.length f = A ++ f a :: B := by
  rw [List.modify_eq_take_cons_drop (by simp), drop_cut]
  simp

theorem countUnmatched_eq (lines : List Text) : countUnmatched lines = depthAfter 0 lines.flatten := by
  rw [countUnmatched, unmatchedBraces, length_openAfter, located, map_snd_locatedLines, List.length_nil]

/-- What the scan leaves open when an opening brace cuts the lines: what it leaves open behind the brace, and of the
brace and those in front of it the ones that the strays behind it do not reach. -/
theorem unmatchedBraces_at (A B : List Text) (x y : Text) :
    ∃ inner outer, unmatchedBraces (A ++ (x ++ '\x7b' :: y) :: B) =
        inner ++ (⟨A.length, x.length⟩ :: outer).drop (strays (y ++ B.flatten)) ∧
      (∀ q ∈ inner, (⟨A.length, x.length⟩ : Position) < q) ∧ (∀ q ∈ outer, q < (⟨A.length, x.length⟩ : Position)) ∧
      outer.length = depthAfter 0 (A.flatten ++ x) := by
  refine ⟨openAfter [] (locatedOnward ⟨A.length, x.length + 1⟩ y B), openAfter [] (located (A ++ [x])), ?_, ?_, ?_, ?_⟩
  · rw [unmatchedBraces, located_cut, locatedOnward_cons, openAfter_append, openAfter, if_pos rfl, openAfter_eq,
      map_snd_locatedOnward]
  · intro q hq
    rcases mem_openAfter hq with hq | hq
    · cases hq
    · have := Position.le_def.1 (le_of_mem_locatedOnward hq)
      rw [Position.lt_def]
      simp only at this ⊢
      omega
  · intro q hq
    rcases mem_openAfter hq with hq | hq
    · cases hq
    · exact lt_of_mem_front hq
  · rw [length_openAfter, located, map_snd_locatedLines, List.length_nil]
    simp

/-- The scan keeps an opening brace if and only if nothing strays from the text behind it. -/
private theorem mem_unmatchedBraces_cut_iff (A B : List Text) (x y : Text) :
    (⟨A.length, x.length⟩ : Position) ∈ unmatchedBraces (A ++ (x ++ '\x7b' :: y) :: B) ↔
      strays (y ++ B.flatten) = 0 := by
  obtain ⟨inner, outer, h, hinner, houter, -⟩ := unmatchedBraces_at A B x y
  have irrefl : ¬ (⟨A.length, x.length⟩ : Position) < ⟨A.length, x.length⟩ := Position.not_lt.2 (Position.le_refl _)
  rw [h, List.mem_append]
  constructor
  · rintro (hmem | hmem)
    · exact absurd (hinner _ hmem) irrefl
    · cases hk : strays (y ++ B.flatten) with
      | zero => rfl
      | succ k =>
        rw [hk, List.drop_succ_cons] at hmem
        exact absurd (houter _ (List.mem_of_mem_drop hmem)) irrefl
  · intro hk
    rw [hk]
    exact Or.inr List.mem_cons_self

/-- Some brace stays open up to an opening brace if and only if the strays behind it do not use up it and all that is
open in front of it. -/
private theorem exists_unmatchedBraces_le_iff (A B : List Text) (x y : Text) :
    (∃ q ∈ unmatchedBraces (A ++ (x ++ '\x7b' :: y) :: B), q ≤ ⟨A.length, x.length⟩) ↔
      strays (y ++ B.flatten) ≤ depthAfter 0 (A.flatten ++ x) := by
  obtain ⟨inner, outer, h, hinner, houter, hlen⟩ := unmatchedBraces_at A B x y
  rw [h, ← hlen]
  constructor
  · rintro ⟨q, hq, hle⟩
    rcases List.mem_append.1 hq with hq | hq
    · exact absurd (hinner q hq) (Position.not_lt.2 hle)
    · have hpos := List.length_pos_of_mem hq
      rw [List.length_drop, List.length_cons] at hpos
      omega
  · intro hk
    have hne : (⟨A.length, x.length⟩ :: outer : List Position).drop (strays (y ++ B.flatten)) ≠ [] := by
      rw [Ne, List.drop_eq_nil_iff, List.length_cons]
      omega
    obtain ⟨q, hq⟩ := List.exists_mem_of_ne_nil _ hne
    refine ⟨q, List.mem_append_right _ hq, ?_⟩
    rcases List.mem_cons.1 (List.mem_of_mem_drop hq) with rfl | hq
    · exact Position.le_refl _
    · exact Position.le_of_lt (houter q hq)

/-- Of the braces of the first lines, those stay open that the strays of the other lines do not reach. -/
theorem countP_unmatchedBraces_append (A B : List Text) :
    ((unmatchedBraces (A ++ B)).countP fun q => decide (q.line < (A.length : Int))) =
      depthAfter 0 A.flatten - strays B.flatten := by
  have hsplit : unmatchedBraces (A ++ B) =
      openAfter [] (locatedLines A.length B) ++ (openAfter [] (located A)).drop (strays B.flatten) := by
    rw [unmatchedBraces, located, locatedLines_append, openAfter_append, openAfter_eq, map_snd_locatedLines, Int.zero_add]
    rfl
  have hbelow : ((openAfter [] (locatedLines A.length B)).countP fun q => decide (q.line < (A.length : Int))) = 0 := by
    rw [List.countP_eq_zero]
    intro q hq
    rcases mem_openAfter hq with hq | hq
    · cases hq
    · obtain ⟨C, x, y, D, -, hline⟩ := mem_locatedLines hq
      have := congrArg Position.line hline
      simp only at this
      simp only [decide_eq_true_eq]
      omega
  have habove : ∀ q ∈ (openAfter [] (located A)).drop (strays B.flatten), decide (q.line < (A.length : Int)) = true := by
    intro q hq
    rcases mem_openAfter (List.mem_of_mem_drop hq) with hq | hq
    · cases hq
    · obtain ⟨C, x, y, D, rfl, hline⟩ := mem_locatedLines hq
      have := congrArg Position.line hline
      simp only at this
      simp only [decide_eq_true_eq, List.length_append, List.length_cons]
      omega
  rw [hsplit, List.countP_append, hbelow, List.countP_eq_length.2 habove, List.length_drop, length_openAfter, located,
    map_snd_locatedLines, List.length_nil, Nat.zero_add]

theorem opensAt_of_needsCloser {lines : List Text} {p : Position} (h : needsCloser lines p = true) : OpensAt lines p := by
  rw [needsCloser, Bool.and_eq_true, beq_iff_eq, charAt?] at h
  split at h
  · next hp => exact ⟨hp.1, hp.2, h.1⟩
  · cases h.1

/-- An opening brace needs a closer under the same condition: where the strays use up all, the scan without the brace
leaves as many open as with it. -/
theorem needsCloser_cut_iff (A B : List Text) (x y : Text) :
    needsCloser (A ++ (x ++ '\x7b' :: y) :: B) ⟨A.length, x.length⟩ = true ↔
      strays (y ++ B.flatten) ≤ depthAfter 0 (A.flatten ++ x) := by
  have hchar : charAt? (A ++ (x ++ '\x7b' :: y) :: B) ⟨A.length, x.length⟩ = some '\x7b' := by
    obtain ⟨hline, hcol, hc⟩ := opensAt_iff.2 ⟨A, x, y, B, rfl, rfl⟩
    rw [charAt?, if_pos ⟨hline, hcol⟩, hc]
  have herase : eraseChar (A ++ (x ++ '\x7b' :: y) :: B) ⟨A.length, x.length⟩ = A ++ (x ++ y) :: B := by
    rw [eraseChar, Int.toNat_natCast, Int.toNat_natCast, modify_cut,
      List.eraseIdx_append_of_length_le (Nat.le_refl _)]
    simp
  have hwith : countUnmatched (A ++ (x ++ '\x7b' :: y) :: B) =
      depthAfter 0 (y ++ B.flatten) + (depthAfter 0 (A.flatten ++ x) + 1 - strays (y ++ B.flatten)) := by
    rw [countUnmatched_eq, flatten_cut, depthAfter_append, List.cons_append, depthAfter, if_pos rfl, depthAfter_eq]
  have hwithout : countUnmatched (A ++ (x ++ y) :: B) =
      depthAfter 0 (y ++ B.flatten) + (depthAfter 0 (A.flatten ++ x) - strays (y ++ B.flatten)) := by
    rw [countUnmatched_eq, flatten_cut, depthAfter_append, depthAfter_eq]
  rw [needsCloser, hchar, herase, isUnmatched, Bool.and_eq_true, Bool.or_eq_true, List.contains_iff_mem,
    mem_unmatchedBraces_cut_iff, decide_eq_true_eq, hwith, hwithout]
  simp only [beq_self_eq_true, true_and]
  omega

/-- What the flat text holds behind a character. -/
private theorem drop_joinLines_cut (A B : List Text) (x y : Text) (c : Char) :
    (joinLines (A ++ (x ++ c :: y) :: B)).drop (offset (A ++ (x ++ c :: y) :: B) ⟨A.length, x.length⟩ + 1) =
      joinLines (y :: B) := by
  have hline : (A ++ (x ++ c :: y) :: B)[A.length]? = some (x ++ c :: y) := by simp
  have hlen : x.length + 1 ≤ (x ++ c :: y).length := by simp
  rw [offset, Int.toNat_natCast, Int.toNat_natCast, Nat.add_assoc, (joinLines_split_at hline hlen).2, drop_cut,
    drop_cut]

/-! ### The two tests -/

/-- A brace is reported as open if and only if it is an opening brace and no stretch of the text right behind it, over
as many lines as one likes, holds more closing braces than opening ones. -/
theorem isUnmatched_iff (lines : List Text) (p : Position) :
    isUnmatched lines p = true ↔
      OpensAt lines p ∧
        ∀ s, s <+: (joinLines lines).drop (offset lines p + 1) → s.count '\x7d' ≤ s.count '\x7b' := by
  rw [isUnmatched, List.contains_iff_mem]
  have hiff : OpensAt lines p → (p ∈ unmatchedBraces lines ↔
      ∀ s, s <+: (joinLines lines).drop (offset lines p + 1) → s.count '\x7d' ≤ s.count '\x7b') := by
    intro h
    obtain ⟨A, x, y, B, rfl, rfl⟩ := opensAt_iff.1 h
    rw [mem_unmatchedBraces_cut_iff, drop_joinLines_cut, ← List.flatten_cons, ← strays_congr (braces_joinLines (y :: B))]
    have := strays_le_iff (t := joinLines (y :: B)) (k := 0)
    simpa using this
  constructor
  · intro hp
    have h := opensAt_of_mem_unmatchedBraces hp
    exact ⟨h, (hiff h).1 hp⟩
  · rintro ⟨h, hs⟩
    exact (hiff h).2 hs

/-- A brace needs a closer if and only if it is an opening brace and the scan leaves some brace open up to its place. -/
theorem needsCloser_iff (lines : List Text) (p : Position) :
    needsCloser lines p = true ↔ OpensAt lines p ∧ ∃ q ∈ unmatchedBraces lines, q ≤ p := by
  have hiff : OpensAt lines p → (needsCloser lines p = true ↔ ∃ q ∈ unmatchedBraces lines, q ≤ p) := by
    intro h
    obtain ⟨A, x, y, B, rfl, rfl⟩ := opensAt_iff.1 h
    rw [needsCloser_cut_iff, exists_unmatchedBraces_le_iff]
  constructor
  · intro h
    have hopens := opensAt_of_needsCloser h
    exact ⟨hopens, (hiff hopens).1 h⟩
  · rintro ⟨h, hq⟩
    exact (hiff h).2 hq

-- the second brace takes the closer of the first one
example : isUnmatched [['\x7b'], ['\x7b'], ['\x7d']] ⟨1, 0⟩ = false ∧
    needsCloser [['\x7b'], ['\x7b'], ['\x7d']] ⟨1, 0⟩ = true := by decide

end MultiCaret
