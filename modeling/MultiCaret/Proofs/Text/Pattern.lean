import Mathlib.Computability.Language
import MultiCaret.Text.Pattern

/-!
# What a pattern finds

The pieces that a pattern cuts off are exactly the beginnings of the text that are in its language (`mem_cuts`), so the
order in which they are tried decides nothing but which of them comes first.  A search finds the first column from which
the text can be cut up to its end (`search?_eq_some_iff`).
-/

namespace MultiCaret

open Computability

namespace Pattern

/-- The texts that a pattern describes. -/
def language : Pattern → Language Char
  | one kind => {t | ∃ c, t = [c] ∧ kind c = true}
  | andThen p q => p.language * q.language
  | many p => p.language∗

variable {kind : Char → Bool} {p q : Pattern} {t : Text}

theorem mem_language_one : t ∈ (one kind).language ↔ ∃ c, t = [c] ∧ kind c = true :=
  Iff.rfl

theorem mem_language_andThen :
    t ∈ (andThen p q).language ↔ ∃ x ∈ p.language, ∃ y ∈ q.language, x ++ y = t :=
  Language.mem_mul

theorem mem_language_many : t ∈ (many p).language ↔ ∃ xs : List Text, t = xs.flatten ∧ ∀ x ∈ xs, x ∈ p.language :=
  Language.mem_kstar

/-- Any number of characters of a kind. -/
theorem mem_language_many_one : t ∈ (many (one kind)).language ↔ ∀ c ∈ t, kind c = true := by
  rw [mem_language_many]
  constructor
  · rintro ⟨xs, rfl, h⟩ c hc
    obtain ⟨x, hx, hcx⟩ := List.mem_flatten.1 hc
    obtain ⟨d, rfl, hd⟩ := h x hx
    rwa [List.mem_singleton.1 hcx]
  · intro h
    refine ⟨t.map fun c => [c], by rw [← List.flatMap_def, List.flatMap_singleton'], ?_⟩
    intro x hx
    obtain ⟨c, hc, rfl⟩ := List.mem_map.1 hx
    exact ⟨c, rfl, h c hc⟩

theorem mem_language_oneOrMore_one :
    t ∈ (oneOrMore (one kind)).language ↔ t ≠ [] ∧ ∀ c ∈ t, kind c = true := by
  rw [oneOrMore, mem_language_andThen]
  constructor
  · rintro ⟨x, ⟨c, rfl, hc⟩, y, hy, rfl⟩
    exact ⟨List.cons_ne_nil _ _, List.forall_mem_cons.2 ⟨hc, mem_language_many_one.1 hy⟩⟩
  · rintro ⟨hne, h⟩
    cases t with
    | nil => exact absurd rfl hne
    | cons c cs =>
      obtain ⟨hc, hcs⟩ := List.forall_mem_cons.1 h
      exact ⟨[c], ⟨c, rfl, hc⟩, cs, mem_language_many_one.2 hcs, rfl⟩

end Pattern

/-- Cutting off again and again gives the beginnings that are made of such pieces. -/
private theorem mem_cutsAgain {cuts : Text → List (Text × Text)} {l : Language Char}
    (hcuts : ∀ t x u, (x, u) ∈ cuts t ↔ t = x ++ u ∧ x ∈ l) {t x u : Text} :
    (x, u) ∈ cutsAgain cuts t ↔ t = x ++ u ∧ x ∈ l∗ := by
  induction h : t.length using Nat.strong_induction_on generalizing t x with
  | _ n ih =>
    subst h
    rw [cutsAgain, List.mem_append, List.mem_flatMap]
    constructor
    · rintro (⟨⟨y, v⟩, hy, hrest⟩ | hstop)
      · split at hrest
        · next hlt =>
          obtain ⟨⟨z, w⟩, hz, heq⟩ := List.mem_map.1 hrest
          obtain ⟨rfl, rfl⟩ := Prod.mk.inj heq
          obtain ⟨rfl, hyl⟩ := (hcuts t y v).1 hy
          obtain ⟨rfl, S, rfl, hS⟩ := (ih _ hlt rfl).1 hz
          exact ⟨(List.append_assoc y _ _).symm, y :: S, rfl, List.forall_mem_cons.2 ⟨hyl, hS⟩⟩
        · exact absurd hrest List.not_mem_nil
      · obtain ⟨rfl, rfl⟩ := Prod.mk.inj (List.mem_singleton.1 hstop)
        exact ⟨rfl, Language.nil_mem_kstar l⟩
    · rintro ⟨rfl, hx⟩
      -- the pieces may be taken as not empty, so the text gets shorter with the first of them
      rw [Language.kstar_def_nonempty] at hx
      obtain ⟨S, rfl, hS⟩ := hx
      cases S with
      | nil => exact Or.inr List.mem_cons_self
      | cons y S =>
        obtain ⟨⟨hyl, hne⟩, hS'⟩ := List.forall_mem_cons.1 hS
        have hlt : (S.flatten ++ u).length < ((y :: S).flatten ++ u).length := by
          have := List.length_pos_iff.2 hne
          simp only [List.flatten_cons, List.length_append]
          omega
        refine Or.inl ⟨(y, S.flatten ++ u), (hcuts _ _ _).2 ⟨?_, hyl⟩, ?_⟩
        · rw [List.flatten_cons, List.append_assoc]
        · rw [if_pos hlt, List.mem_map]
          exact ⟨(S.flatten, u), (ih _ hlt rfl).2 ⟨rfl, S, rfl, fun z hz => (hS' z hz).1⟩, rfl⟩

/-- A pattern cuts off the beginnings of a text that are in its language. -/
theorem mem_cuts {p : Pattern} {t x u : Text} : (x, u) ∈ p.cuts t ↔ t = x ++ u ∧ x ∈ p.language := by
  induction p generalizing t x u with
  | one kind =>
    cases t with
    | nil =>
      simp only [Pattern.cuts, List.not_mem_nil, false_iff, Pattern.mem_language_one]
      rintro ⟨heq, c, rfl, -⟩
      cases heq
    | cons c cs =>
      simp only [Pattern.cuts, Pattern.mem_language_one]
      split
      · next hc =>
        rw [List.mem_singleton, Prod.mk.injEq]
        constructor
        · rintro ⟨rfl, rfl⟩
          exact ⟨rfl, c, rfl, hc⟩
        · rintro ⟨heq, d, rfl, -⟩
          obtain ⟨rfl, rfl⟩ := List.cons.inj heq
          exact ⟨rfl, rfl⟩
      · next hc =>
        simp only [List.not_mem_nil, false_iff]
        rintro ⟨heq, d, rfl, hd⟩
        obtain ⟨rfl, -⟩ := List.cons.inj heq
        exact hc hd
  | andThen p q ihp ihq =>
    rw [Pattern.cuts, List.mem_flatMap, Pattern.mem_language_andThen]
    constructor
    · rintro ⟨⟨y, v⟩, hy, hrest⟩
      obtain ⟨⟨z, w⟩, hz, heq⟩ := List.mem_map.1 hrest
      obtain ⟨rfl, rfl⟩ := Prod.mk.inj heq
      obtain ⟨rfl, hyl⟩ := ihp.1 hy
      obtain ⟨rfl, hzl⟩ := ihq.1 hz
      exact ⟨(List.append_assoc y z w).symm, y, hyl, z, hzl, rfl⟩
    · rintro ⟨rfl, y, hy, z, hz, rfl⟩
      refine ⟨(y, z ++ u), ihp.2 ⟨List.append_assoc y z u, hy⟩, List.mem_map.2 ?_⟩
      exact ⟨(z, u), ihq.2 ⟨rfl, hz⟩, rfl⟩
  | many p ih => exact mem_cutsAgain fun _ _ _ => ih

/-- The pieces of a text without newlines, one in the language of each pattern. -/
theorem mem_cutsToEnd {ps : List Pattern} {t : Text} (ht : '\n' ∉ t) {xs : List Text} :
    xs ∈ cutsToEnd ps t ↔ t = xs.flatten ∧ List.Forall₂ (fun p x => x ∈ p.language) ps xs := by
  induction ps generalizing t xs with
  | nil =>
    have hnewline : t ≠ ['\n'] := by
      rintro rfl
      exact ht List.mem_cons_self
    rw [cutsToEnd, List.forall₂_nil_left_iff]
    constructor
    · intro hxs
      split at hxs
      · next hend =>
        obtain rfl := hend.resolve_right hnewline
        rw [List.mem_singleton.1 hxs]
        exact ⟨rfl, rfl⟩
      · exact absurd hxs List.not_mem_nil
    · rintro ⟨rfl, rfl⟩
      exact List.mem_cons_self
  | cons p ps ih =>
    rw [cutsToEnd, List.mem_flatMap]
    constructor
    · rintro ⟨⟨x, u⟩, hx, hrest⟩
      obtain ⟨ys, hys, rfl⟩ := List.mem_map.1 hrest
      obtain ⟨rfl, hxl⟩ := mem_cuts.1 hx
      obtain ⟨rfl, hall⟩ := (ih fun h => ht (List.mem_append_right x h)).1 hys
      exact ⟨rfl, List.Forall₂.cons hxl hall⟩
    · rintro ⟨rfl, hall⟩
      obtain ⟨x, ys, hxl, hall', rfl⟩ := List.forall₂_cons_left_iff.1 hall
      refine ⟨(x, ys.flatten), mem_cuts.2 ⟨rfl, hxl⟩, List.mem_map.2 ⟨ys, ?_, rfl⟩⟩
      exact (ih fun h => ht (List.mem_append_right x h)).2 ⟨rfl, hall'⟩

/-- A search finds the first column from which the text can be cut up. -/
theorem search?_eq_some_iff {ps : List Pattern} {t : Text} {k : Nat} {xs : List Text} :
    search? ps t = some (k, xs) ↔
      k ≤ t.length ∧ (cutsToEnd ps (t.drop k)).head? = some xs ∧ ∀ j < k, cutsToEnd ps (t.drop j) = [] := by
  induction t generalizing k with
  | nil =>
    rw [search?, Option.map_eq_some_iff]
    constructor
    · rintro ⟨ys, hys, heq⟩
      obtain ⟨rfl, rfl⟩ := Prod.mk.inj heq
      exact ⟨Nat.le_refl 0, hys, fun j hj => absurd hj (Nat.not_lt_zero j)⟩
    · rintro ⟨hk, hys, -⟩
      obtain rfl : k = 0 := Nat.le_zero.1 hk
      exact ⟨xs, hys, rfl⟩
  | cons c cs ih =>
    rw [search?]
    cases hhead : (cutsToEnd ps (c :: cs)).head? with
    | some ys =>
      simp only [Option.some.injEq, Prod.mk.injEq]
      constructor
      · rintro ⟨rfl, rfl⟩
        exact ⟨Nat.zero_le _, hhead, fun j hj => absurd hj (Nat.not_lt_zero j)⟩
      · rintro ⟨-, hys, hfirst⟩
        cases k with
        | zero => exact ⟨rfl, Option.some.inj (hhead.symm.trans hys)⟩
        | succ k =>
          rw [← List.drop_zero (l := c :: cs), hfirst 0 (Nat.succ_pos k)] at hhead
          cases hhead
    | none =>
      have hnone : cutsToEnd ps (c :: cs) = [] := List.head?_eq_none_iff.1 hhead
      simp only [Option.map_eq_some_iff, Prod.exists, Prod.mk.injEq]
      constructor
      · rintro ⟨k, xs, hsearch, rfl, rfl⟩
        obtain ⟨hk, hys, hfirst⟩ := ih.1 hsearch
        refine ⟨Nat.succ_le_succ hk, hys, fun j hj => ?_⟩
        cases j with
        | zero => exact hnone
        | succ j => exact hfirst j (Nat.lt_of_succ_lt_succ hj)
      · rintro ⟨hk, hys, hfirst⟩
        cases k with
        | zero =>
          rw [List.drop_zero, hhead] at hys
          cases hys
        | succ k =>
          refine ⟨k, xs, ih.2 ⟨Nat.le_of_succ_le_succ hk, hys, fun j hj => ?_⟩, rfl, rfl⟩
          exact hfirst (j + 1) (Nat.succ_lt_succ hj)

end MultiCaret
