import MultiCaret.Proofs.Text.Utf8

/-!
# Line ends of a text

Writing every line end as a newline leaves no carriage return (`return_not_mem_universalNewlines`), so it leaves a text as
it is exactly if there is none in it (`universalNewlines_eq_self_iff`).  The same holds of the bytes of the text
(`encode_universalNewlines_eq_iff`).
-/

namespace MultiCaret

theorem return_not_mem_universalNewlines (t : Text) : '\r' ∉ universalNewlines t := by
  induction t using universalNewlines.induct with
  | case1 => exact List.not_mem_nil
  | case2 cs ih =>
    rw [universalNewlines, List.mem_cons, not_or]
    exact ⟨by decide, ih⟩
  | case3 c cs hpair ih =>
    rw [universalNewlines.eq_3 c cs hpair, List.mem_cons, not_or]
    refine ⟨?_, ih⟩
    split
    · decide
    · next hc => exact Ne.symm hc

theorem universalNewlines_of_not_mem {t : Text} (h : '\r' ∉ t) : universalNewlines t = t := by
  induction t using universalNewlines.induct with
  | case1 => rfl
  | case2 cs ih => exact absurd List.mem_cons_self h
  | case3 c cs hpair ih =>
    rw [List.mem_cons, not_or] at h
    rw [universalNewlines.eq_3 c cs hpair, if_neg (Ne.symm h.1), ih h.2]

/-- The line ends of a text are newlines already exactly if it holds no carriage return. -/
theorem universalNewlines_eq_self_iff {t : Text} : universalNewlines t = t ↔ '\r' ∉ t := by
  constructor
  · intro h
    rw [← h]
    exact return_not_mem_universalNewlines t
  · exact universalNewlines_of_not_mem

theorem Utf8.encode_inj {s t : Text} (h : encode s = encode t) : s = t := by
  have hs := (decode_eq_ok_iff (encode s) s).2 rfl
  rw [h, (decode_eq_ok_iff (encode t) t).2 rfl] at hs
  exact (Except.ok.inj hs).symm

theorem encode_universalNewlines_eq_iff {t : Text} :
    Utf8.encode (universalNewlines t) = Utf8.encode t ↔ '\r' ∉ t := by
  rw [← universalNewlines_eq_self_iff]
  exact ⟨Utf8.encode_inj, congrArg Utf8.encode⟩

end MultiCaret
