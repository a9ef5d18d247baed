import MultiCaret.Proofs.Document.NonBlanks
import MultiCaret.Proofs.EditPlan

/-!
# The text behind a carried place

A place behind an edit is carried (`Position.after`) to a place of the document after the edit, in front of the same
text as before, and places that differ are carried to places in the same order (`textFrom_after_applyEdits`).  The
columns on the last line of the edit and on the lines below it need no cases of their own here: they are in
`Position.after_splice`, which says where the place is in the flat text.
-/

namespace MultiCaret

variable {lines : List Text}

/-- The text from a place of the lines on is the flat text behind its offset. -/
private theorem textFrom_of_inBounds {p : Position} (hp : InBounds lines p) :
    textFrom lines p = (joinLines lines).drop (offset lines p) := by
  have hcolumn : min p.column (lineOf lines p.line).length = p.column := Int.min_eq_left hp.2.2
  rw [textFrom, hcolumn]

/-- An edit leaves the flat text behind its range as it is, further on by what the edit adds. -/
private theorem drop_joinLines_splice {e : Edit} (he : e.InRange lines) (k : Nat) :
    (joinLines (splice e lines)).drop (offset lines e.start + e.text.length + k) =
      (joinLines lines).drop (offset lines e.stop + k) := by
  have hlen : ((joinLines lines).take (offset lines e.start) ++ e.text).length =
      offset lines e.start + e.text.length := by
    rw [List.length_append, List.length_take, Nat.min_eq_left he.start.offset_le]
  rw [joinLines_splice he, ← hlen, List.drop_length_add_append, List.drop_drop]

/-- A place behind an edit stays in front of its text. -/
private theorem textFrom_after (h : WellFormed lines) {e : Edit} (he : e.InRange lines) {p : Position}
    (hp : InBounds lines p) (hle : e.stop ≤ p) : textFrom (splice e lines) (p.after e) = textFrom lines p := by
  obtain ⟨hq, ho⟩ := Position.after_splice h he hp hle
  have hstop := (offset_le_iff he.stop hp).2 hle
  obtain ⟨k, hk⟩ := Nat.exists_eq_add_of_le hstop
  have hoffset : offset (splice e lines) (p.after e) = offset lines e.start + e.text.length + k := by
    have := he.offset_le
    rw [Edit.shift] at ho
    omega
  rw [textFrom_of_inBounds hq, textFrom_of_inBounds hp, hoffset, drop_joinLines_splice he, hk]

/-- Places behind an edit keep their order. -/
private theorem after_lt_after (h : WellFormed lines) {e : Edit} (he : e.InRange lines) {p q : Position}
    (hp : InBounds lines p) (hq : InBounds lines q) (hle : e.stop ≤ p) (hlt : p < q) : p.after e < q.after e := by
  obtain ⟨hp', hop⟩ := Position.after_splice h he hp hle
  obtain ⟨hq', hoq⟩ := Position.after_splice h he hq (Position.le_trans hle (Position.le_of_lt hlt))
  have hoffset := (offset_lt_iff hp hq).2 hlt
  rw [← offset_lt_iff hp' hq']
  omega

/-- An edit in the range of the document is accepted.  After it, the places at its end and behind are carried to places
of the document in front of the same text, and their order is kept. -/
theorem textFrom_after_applyEdits {d : Document} (h : WellFormed d.lines) {e : Edit} (he : e.InRange d.lines) :
    ∃ d', d.applyEdits [e] = .ok d' ∧
      (∀ p, InBounds d.lines p → e.stop ≤ p →
        InBounds d'.lines (p.after e) ∧ textFrom d'.lines (p.after e) = textFrom d.lines p) ∧
      ∀ p q, InBounds d.lines p → InBounds d.lines q → e.stop ≤ p → p < q → p.after e < q.after e := by
  have hlines : (d.afterBatch [e]).lines = splice e d.lines := d.lines_afterBatch [e]
  refine ⟨d.afterBatch [e], applyEdits_eq_ok_iff.2 ⟨batchFits_singleton he, rfl⟩, ?_, ?_⟩
  · intro p hp hle
    rw [hlines]
    exact ⟨(Position.after_splice h he hp hle).1, textFrom_after h he hp hle⟩
  · intro p q hp hq hle hlt
    exact after_lt_after h he hp hq hle hlt

/-- An edit over three lines that puts two in, with a place behind it on its last line and one below. -/
theorem textFrom_after_applyEdits_threeLines :
    WellFormed [['a', 'b'], ['c'], ['d', 'e', 'f'], ['g']] ∧
      Edit.InRange [['a', 'b'], ['c'], ['d', 'e', 'f'], ['g']] ⟨⟨0, 1⟩, ⟨2, 1⟩, ['x', '\n', 'y', 'z']⟩ ∧
      ∃ d', (⟨[['a', 'b'], ['c'], ['d', 'e', 'f'], ['g']], "", [], 0⟩ : Document).applyEdits
          [⟨⟨0, 1⟩, ⟨2, 1⟩, ['x', '\n', 'y', 'z']⟩] = .ok d' ∧
        textFrom d'.lines ⟨1, 3⟩ = ['f', '\n', 'g'] ∧ InBounds d'.lines ⟨2, 1⟩ ∧ (⟨1, 3⟩ : Position) < ⟨2, 1⟩ := by
  have hwf : WellFormed [['a', 'b'], ['c'], ['d', 'e', 'f'], ['g']] := ⟨by decide, by decide⟩
  have hrange : Edit.InRange [['a', 'b'], ['c'], ['d', 'e', 'f'], ['g']] ⟨⟨0, 1⟩, ⟨2, 1⟩, ['x', '\n', 'y', 'z']⟩ := by
    decide
  obtain ⟨d', hd, hplaces, horder⟩ :=
    textFrom_after_applyEdits (d := ⟨[['a', 'b'], ['c'], ['d', 'e', 'f'], ['g']], "", [], 0⟩) hwf hrange
  have hlast := (hplaces ⟨2, 2⟩ (by decide) (by decide)).2
  have hbelow := (hplaces ⟨3, 1⟩ (by decide) (by decide)).1
  have hlt := horder ⟨2, 2⟩ ⟨3, 1⟩ (by decide) (by decide) (by decide) (by decide)
  exact ⟨hwf, hrange, d', hd, hlast, hbelow, hlt⟩

end MultiCaret
