/-!
# Stable sorting

Insertion sort by an arbitrary comparison.  Elements that compare equal keep their order, because an element is put
in front of the first one that it may precede and the list is worked off from its end.  The key facts are `sortBy_perm`,
that sorting keeps every element with its multiplicity, `sortBy_pairwise`, that it puts them in order, and
`filter_sortBy`, that elements which may all precede one another keep their order.
-/

namespace MultiCaret

/-- Puts an element in front of the first one that it may precede. -/
def insertBy {α : Type} (le : α → α → Bool) (x : α) : List α → List α
  | [] => [x]
  | y :: ys => if le x y then x :: y :: ys else y :: insertBy le x ys

/-- The list in ascending order of `le`, equal elements in their old order. -/
def sortBy {α : Type} (le : α → α → Bool) : List α → List α
  | [] => []
  | x :: xs => insertBy le x (sortBy le xs)

private theorem insertBy_perm {α : Type} (le : α → α → Bool) (x : α) (l : List α) :
    (insertBy le x l).Perm (x :: l) := by
  induction l with
  | nil => exact List.Perm.refl _
  | cons y ys ih =>
    unfold insertBy
    split
    · exact List.Perm.refl _
    · exact (ih.cons y).trans (List.Perm.swap x y ys)

theorem sortBy_perm {α : Type} (le : α → α → Bool) (l : List α) : (sortBy le l).Perm l := by
  induction l with
  | nil => exact List.Perm.refl _
  | cons x xs ih => exact (insertBy_perm le x _).trans (ih.cons x)

theorem mem_sortBy {α : Type} {le : α → α → Bool} {x : α} {l : List α} : x ∈ sortBy le l ↔ x ∈ l :=
  (sortBy_perm le l).mem_iff

/-- Putting an element into a list in order keeps it in order. -/
private theorem insertBy_pairwise {α : Type} {le : α → α → Bool} (trans : ∀ a b c, le a b → le b c → le a c)
    (total : ∀ a b, le a b ∨ le b a) (x : α) {l : List α} (h : l.Pairwise fun a b => le a b) :
    (insertBy le x l).Pairwise fun a b => le a b := by
  induction l with
  | nil => exact List.pairwise_singleton _ _
  | cons y ys ih =>
    obtain ⟨hy, hys⟩ := List.pairwise_cons.1 h
    unfold insertBy
    split
    · next hxy =>
      refine List.pairwise_cons.2 ⟨?_, h⟩
      intro z hz
      rcases List.mem_cons.1 hz with rfl | hz
      · exact hxy
      · exact trans x y z hxy (hy z hz)
    · next hxy =>
      refine List.pairwise_cons.2 ⟨?_, ih hys⟩
      intro z hz
      rcases List.mem_cons.1 ((insertBy_perm le x ys).mem_iff.1 hz) with rfl | hz
      · exact (total y z).resolve_right hxy
      · exact hy z hz

theorem sortBy_pairwise {α : Type} {le : α → α → Bool} (trans : ∀ a b c, le a b → le b c → le a c)
    (total : ∀ a b, le a b ∨ le b a) (l : List α) : (sortBy le l).Pairwise fun a b => le a b := by
  induction l with
  | nil => exact List.Pairwise.nil
  | cons x xs ih => exact insertBy_pairwise trans total x ih

private theorem filter_insertBy {α : Type} {le : α → α → Bool} {P : α → Bool} (x : α) (l : List α)
    (h : ∀ y, P x → P y → le x y) : (insertBy le x l).filter P = (x :: l).filter P := by
  induction l with
  | nil => rfl
  | cons y ys ih =>
    unfold insertBy
    split
    · rfl
    · next hxy =>
      rw [List.filter_cons, ih]
      by_cases hx : P x
      · have hy : ¬ P y := fun hy => hxy (h y hx hy)
        simp [hx, hy]
      · simp [hx, List.filter_cons]

/-- Sorting keeps the order of elements that may all precede one another. -/
theorem filter_sortBy {α : Type} {le : α → α → Bool} {P : α → Bool} (h : ∀ x y, P x → P y → le x y) (l : List α) :
    (sortBy le l).filter P = l.filter P := by
  induction l with
  | nil => rfl
  | cons x xs ih =>
    rw [sortBy, filter_insertBy x _ (h x), List.filter_cons, List.filter_cons, ih]

end MultiCaret
