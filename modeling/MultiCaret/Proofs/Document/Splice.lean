import MultiCaret.Proofs.Document.Places

/-!
# One edit on the flat text

An edit whose range is a range of the lines replaces, in the flat text, what stands between the offsets of its ends
(`joinLines_splice`).  The lines that it leaves are the lines of a text again (`WellFormed.splice`), and there are as
many more of them as the edit says (`length_splice`).  Places up to its start keep their offsets
(`inBounds_splice_of_le`).
-/

namespace MultiCaret

/-- The range of the edit is a range of the lines. -/
structure Edit.InRange (lines : List Text) (e : Edit) : Prop where
  ordered : e.start ≤ e.stop
  start : InBounds lines e.start
  stop : InBounds lines e.stop

instance (lines : List Text) (e : Edit) : Decidable (e.InRange lines) :=
  decidable_of_iff (e.start ≤ e.stop ∧ InBounds lines e.start ∧ InBounds lines e.stop)
    ⟨fun h => ⟨h.1, h.2.1, h.2.2⟩, fun h => ⟨h.ordered, h.start, h.stop⟩⟩

theorem Edit.InRange.offset_le {lines : List Text} {e : Edit} (h : e.InRange lines) :
    offset lines e.start ≤ offset lines e.stop :=
  (offset_le_iff h.start h.stop).2 h.ordered

/-! ### Joining pieces -/

private theorem joinLines_append_left (s y : Text) (B : List Text) :
    joinLines ((s ++ y) :: B) = s ++ joinLines (y :: B) := by
  cases B with
  | nil => rfl
  | cons m ms => simp [joinWith]

/-- What stands in the middle of a line stands in the middle of the text. -/
private theorem joinLines_middle (A B : List Text) (x s y : Text) :
    joinLines (A ++ (x ++ s ++ y) :: B) = joinLines (A ++ [x]) ++ s ++ joinLines (y :: B) := by
  induction A with
  | nil => simp only [List.nil_append, List.append_assoc, joinLines_append_left]; rfl
  | cons a A ih =>
    rw [List.cons_append, List.cons_append, joinLines_cons (by simp), joinLines_cons (by simp), ih]
    simp

/-- Some lines in front of others may be joined to one. -/
private theorem joinLines_joinLines_cons {ls : List Text} (h : ls ≠ []) (B : List Text) :
    joinLines (joinLines ls :: B) = joinLines (ls ++ B) := by
  induction ls with
  | nil => exact absurd rfl h
  | cons l ls ih =>
    cases ls with
    | nil => rfl
    | cons m ms =>
      have e : joinLines (l :: m :: ms) = (l ++ ['\n']) ++ joinLines (m :: ms) := by simp [joinWith]
      rw [e, joinLines_append_left, ih (by simp), List.append_assoc]
      rfl

/-- A line may be cut at the newlines that it holds. -/
private theorem joinLines_splitLines (A B : List Text) (s : Text) :
    joinLines (A ++ splitLines s ++ B) = joinLines (A ++ s :: B) := by
  induction A with
  | nil =>
    have hs : joinLines (splitLines s) = s := joinWith_splitOn s
    rw [List.nil_append, List.nil_append, ← joinLines_joinLines_cons (splitOn_ne_nil s), hs]
  | cons a A ih =>
    have hne : A ++ splitLines s ++ B ≠ [] := by simp [splitOn_ne_nil]
    rw [List.cons_append, List.cons_append, List.cons_append, joinLines_cons hne, joinLines_cons (by simp), ih]

/-! ### The edit -/

variable {lines : List Text} {e : Edit}

/-- In the flat text an edit replaces what stands between the offsets of its ends. -/
theorem joinLines_splice (he : e.InRange lines) :
    joinLines (splice e lines) =
      (joinLines lines).take (offset lines e.start) ++ e.text ++ (joinLines lines).drop (offset lines e.stop) := by
  obtain ⟨n, k, l, hs, hl, hk⟩ := inBounds_iff.1 he.start
  obtain ⟨m, j, l', ht, hl', hj⟩ := inBounds_iff.1 he.stop
  have h0 : ∀ i : Nat, ¬ (i : Int) < 0 := fun i => by omega
  simp only [splice, hs, ht, lineOf, if_neg (h0 _), Int.toNat_natCast, hl, hl', Option.getD_some, offset_mk]
  rw [joinLines_splitLines, joinLines_middle, (joinLines_split_at hl hk).1, (joinLines_split_at hl' hj).2]

theorem WellFormed.splice (h : WellFormed lines) (e : Edit) : WellFormed (splice e lines) := by
  refine ⟨by simp [MultiCaret.splice, splitOn_ne_nil], ?_⟩
  intro l hl
  simp only [MultiCaret.splice, List.mem_append] at hl
  rcases hl with (hl | hl) | hl
  · exact h.no_newline l (List.mem_of_mem_take hl)
  · exact not_mem_of_mem_splitOn hl
  · exact h.no_newline l (List.mem_of_mem_drop hl)

/-- An edit adds as many lines as it says. -/
theorem length_splice (h : WellFormed lines) (he : e.InRange lines) :
    ((splice e lines).length : Int) = lines.length + e.growth := by
  obtain ⟨⟨h₁, h₂⟩, -⟩ := he.start
  obtain ⟨⟨h₃, h₄⟩, -⟩ := he.stop
  have hle : e.start.line ≤ e.stop.line := by
    have := Position.le_def.1 he.ordered
    omega
  have hs : ((lineOf lines e.start.line).take e.start.column.toNat).count '\n' = 0 :=
    List.count_eq_zero.2 fun hm => h.lineOf _ (List.mem_of_mem_take hm)
  have ht : ((lineOf lines e.stop.line).drop e.stop.column.toNat).count '\n' = 0 :=
    List.count_eq_zero.2 fun hm => h.lineOf _ (List.mem_of_mem_drop hm)
  simp only [splice, List.length_append, List.length_take, List.length_drop, length_splitOn, List.count_append, hs, ht,
    Edit.growth]
  omega

/-- Up to the end of its text, what an edit makes depends on the text in front of it only. -/
theorem take_joinLines_splice (he : e.InRange lines) :
    (joinLines (splice e lines)).take (offset lines e.start + e.text.length) =
      (joinLines lines).take (offset lines e.start) ++ e.text := by
  have hlen : ((joinLines lines).take (offset lines e.start) ++ e.text).length =
      offset lines e.start + e.text.length := by
    rw [List.length_append, List.length_take, Nat.min_eq_left he.start.offset_le]
  rw [joinLines_splice he, ← hlen, List.take_left]

/-- What begins the text that an edit puts in ends where it advances to. -/
theorem advance_prefix_splice (h : WellFormed lines) (he : e.InRange lines) {u v : Text} (ht : e.text = u ++ v) :
    InBounds (splice e lines) (e.start.advance u) ∧
      offset (splice e lines) (e.start.advance u) = offset lines e.start + u.length := by
  have hlen : ((joinLines lines).take (offset lines e.start) ++ u).length = offset lines e.start + u.length := by
    rw [List.length_append, List.length_take, Nat.min_eq_left he.start.offset_le]
  have htake : (joinLines (splice e lines)).take (offset lines e.start + u.length) =
      (joinLines lines).take (offset lines e.start) ++ u := by
    rw [joinLines_splice he, ht, ← List.append_assoc, List.append_assoc, ← hlen, List.take_left]
  have hk := congrArg List.length htake
  rw [List.length_take, hlen] at hk
  obtain ⟨q, hq, ho⟩ := exists_offset_eq (h.splice e).ne_nil
    (show offset lines e.start + u.length ≤ (joinLines (splice e lines)).length by omega)
  have hpq : e.start.advance u = q := by
    rw [← advance_take_offset (h.splice e) hq, ho, htake, Position.advance_append, advance_take_offset h he.start]
  rw [hpq]
  exact ⟨hq, ho⟩

/-- Places up to the start of an edit stay where they are. -/
theorem inBounds_splice_of_le (h : WellFormed lines) (he : e.InRange lines) {p : Position} (hp : InBounds lines p)
    (hle : p ≤ e.start) : InBounds (splice e lines) p ∧ offset (splice e lines) p = offset lines p := by
  have htake := congrArg (List.take (offset lines e.start)) (take_joinLines_splice he)
  rw [List.take_take, Nat.min_eq_left (Nat.le_add_right _ _), List.take_append_of_le_length, List.take_take,
    Nat.min_self] at htake
  · exact inBounds_of_take_eq h (h.splice e) htake.symm hp ((offset_le_iff hp he.start).2 hle)
  · have hlen : ((joinLines lines).take (offset lines e.start)).length = offset lines e.start := by
      rw [List.length_take, Nat.min_eq_left he.start.offset_le]
    exact Nat.le_of_eq hlen.symm

end MultiCaret
