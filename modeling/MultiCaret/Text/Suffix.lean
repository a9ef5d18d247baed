import MultiCaret.Text.Split

/-!
# Ends of a text

`suffixes` lists the ends of a text from the whole text down to the empty one, so that the first of them with a
property is the longest.
-/

namespace MultiCaret

/-- All ends of a text, the longest first. -/
def suffixes : Text → List Text
  | [] => [[]]
  | c :: cs => (c :: cs) :: suffixes cs

theorem mem_suffixes {s t : Text} : s ∈ suffixes t ↔ s <:+ t := by
  induction t with
  | nil => simp [suffixes]
  | cons c cs ih => simp only [suffixes, List.mem_cons, ih, List.suffix_cons_iff]

/-- The longest end of a text with a property. -/
structure LongestEnd (p : Text → Prop) (t s : Text) : Prop where
  suffix : s <:+ t
  holds : p s
  longest : ∀ r, r <:+ t → p r → r.length ≤ s.length

theorem LongestEnd.unique {p : Text → Prop} {t s r : Text} (hs : LongestEnd p t s) (hr : LongestEnd p t r) : s = r := by
  have hlen : s.length = r.length :=
    Nat.le_antisymm (hr.longest s hs.suffix hs.holds) (hs.longest r hr.suffix hr.holds)
  exact (List.suffix_of_suffix_length_le hs.suffix hr.suffix (Nat.le_of_eq hlen)).eq_of_length hlen

/-- The first end with a property is the longest one. -/
theorem find?_suffixes {p : Text → Bool} {t s : Text} :
    (suffixes t).find? p = some s ↔ LongestEnd (fun r => p r = true) t s := by
  have hforth : ∀ s, (suffixes t).find? p = some s → LongestEnd (fun r => p r = true) t s := by
    intro s hs
    refine ⟨mem_suffixes.1 (List.mem_of_find?_eq_some hs), List.find?_some hs, ?_⟩
    induction t with
    | nil =>
      intro r hr _
      simp [List.suffix_nil.1 hr]
    | cons c cs ih =>
      intro r hr hp
      rw [suffixes, List.find?_cons] at hs
      split at hs
      · obtain rfl := Option.some.inj hs
        exact hr.length_le
      · next hfirst =>
        obtain rfl | hr := List.suffix_cons_iff.1 hr
        · rw [hp] at hfirst
          cases hfirst
        · exact ih hs r hr hp
  constructor
  · exact hforth s
  · intro h
    cases hfind : (suffixes t).find? p with
    | none => exact absurd h.holds (List.find?_eq_none.1 hfind s (mem_suffixes.2 h.suffix))
    | some r => rw [(hforth r hfind).unique h]

end MultiCaret
