/-!
# Positions

A place in a document: a line and a column, both counted from zero.  Positions are ordered as they are read, first by
line and then by column, and this order is linear (`Position.le_total`, `Position.le_antisymm`, `Position.le_trans`).
Lines and columns are integers, so that a place outside every document can be named and refused.
-/

namespace MultiCaret

/-- A line and a column, counted from zero. -/
structure Position where
  line : Int
  column : Int
deriving DecidableEq

namespace Position

/-- Reading order. -/
instance : LE Position where
  le p q := p.line < q.line ∨ p.line = q.line ∧ p.column ≤ q.column

instance : LT Position where
  lt p q := p.line < q.line ∨ p.line = q.line ∧ p.column < q.column

theorem le_def {p q : Position} : p ≤ q ↔ p.line < q.line ∨ p.line = q.line ∧ p.column ≤ q.column :=
  Iff.rfl

theorem lt_def {p q : Position} : p < q ↔ p.line < q.line ∨ p.line = q.line ∧ p.column < q.column :=
  Iff.rfl

instance (p q : Position) : Decidable (p ≤ q) :=
  inferInstanceAs (Decidable (p.line < q.line ∨ p.line = q.line ∧ p.column ≤ q.column))

instance (p q : Position) : Decidable (p < q) :=
  inferInstanceAs (Decidable (p.line < q.line ∨ p.line = q.line ∧ p.column < q.column))

theorem le_refl (p : Position) : p ≤ p := by
  rw [le_def]; omega

theorem le_trans {p q r : Position} (h₁ : p ≤ q) (h₂ : q ≤ r) : p ≤ r := by
  rw [le_def] at *; omega

theorem le_total (p q : Position) : p ≤ q ∨ q ≤ p := by
  rw [le_def, le_def]; omega

theorem le_antisymm {p q : Position} (h₁ : p ≤ q) (h₂ : q ≤ p) : p = q := by
  obtain ⟨a, b⟩ := p
  obtain ⟨c, d⟩ := q
  simp only [le_def, Position.mk.injEq] at *
  omega

theorem not_le {p q : Position} : ¬ p ≤ q ↔ q < p := by
  rw [le_def, lt_def]; omega

theorem not_lt {p q : Position} : ¬ p < q ↔ q ≤ p := by
  rw [le_def, lt_def]; omega

theorem le_of_lt {p q : Position} (h : p < q) : p ≤ q := by
  rw [lt_def] at h
  rw [le_def]; omega

/-- The earlier of two positions. -/
def earlier (p q : Position) : Position :=
  if q < p then q else p

/-- The later of two positions. -/
def later (p q : Position) : Position :=
  if p < q then q else p

end Position

/-- The beginning of every document. -/
def origin : Position :=
  ⟨0, 0⟩

end MultiCaret
