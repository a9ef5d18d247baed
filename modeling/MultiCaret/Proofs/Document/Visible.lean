import MultiCaret.Proofs.EditPlan

/-!
# Batches that can be seen

A batch that does something to the text may still leave it as it is: erasing a letter and putting the same one in again
is no change.  Three things rule this out.  The flat text and the lines become as many more as the edits say
(`length_joinLines_spliceAll`, `length_afterBatch`), so the lines change unless these numbers add up to zero; and edits
of one line each do not meddle with one another, so that every line becomes what its own edit makes of it
(`lineOf_spliceAll`).
-/

namespace MultiCaret

variable {lines : List Text}

/-! ### Sums -/

/-- What holds of all of some numbers, and of the sum of any two, holds of their sum. -/
private theorem total_of_forall {P : Int → Prop} (hadd : ∀ m n, P m → P n → P (m + n)) {ns : List Int} (hne : ns ≠ [])
    (h : ∀ n ∈ ns, P n) : P (total ns) := by
  induction ns with
  | nil => exact absurd rfl hne
  | cons n ns ih =>
    have hn := h n List.mem_cons_self
    rw [total_cons]
    by_cases hnil : ns = []
    · rw [hnil]
      simpa [total] using hn
    · exact hadd n _ hn (ih hnil fun m hm => h m (List.mem_cons_of_mem n hm))

theorem total_pos {ns : List Int} (hne : ns ≠ []) (h : ∀ n ∈ ns, 0 < n) : 0 < total ns :=
  total_of_forall (P := fun n => 0 < n) (fun _ _ => Int.add_pos) hne h

theorem total_neg {ns : List Int} (hne : ns ≠ []) (h : ∀ n ∈ ns, n < 0) : total ns < 0 :=
  total_of_forall (P := fun n => n < 0) (fun _ _ => Int.add_neg) hne h

/-! ### Counting characters and lines -/

/-- The flat text becomes as much longer as the edits say. -/
theorem length_joinLines_spliceAll (h : WellFormed lines) {laid : List Edit} (hr : ∀ e ∈ laid, e.InRange lines)
    (hord : laid.Pairwise fun a b => a.stop ≤ b.start) :
    ((joinLines (spliceAll laid lines)).length : Int) =
      (joinLines lines).length + total (laid.map (Edit.shift lines)) := by
  induction laid with
  | nil => simp [spliceAll, total]
  | cons e es ih =>
    obtain ⟨hnext, hes⟩ := List.pairwise_cons.1 hord
    have he := hr e List.mem_cons_self
    have hres := fun e' he' => hr e' (List.mem_cons_of_mem e he')
    have ih' := ih hres hes
    -- the ends of `e` are still where they were
    obtain ⟨hs, ho₁⟩ := inBounds_spliceAll_of_le h hres hes he.start fun e' he' =>
      Position.le_trans he.ordered (hnext e' he')
    obtain ⟨ht, ho₂⟩ := inBounds_spliceAll_of_le h hres hes he.stop hnext
    have he' : e.InRange (spliceAll es lines) := ⟨he.ordered, hs, ht⟩
    have hcons : spliceAll (e :: es) lines = splice e (spliceAll es lines) := rfl
    have hle := he'.offset_le
    have hstart := hs.offset_le
    have hstop := ht.offset_le
    rw [hcons, joinLines_splice he', List.map_cons, total_cons, Edit.shift, ← ho₁, ← ho₂]
    simp only [List.length_append, List.length_take, List.length_drop]
    omega

/-- After the batch the lines are others. -/
def BatchShows (lines : List Text) (es : List Edit) : Prop :=
  spliceAll (sortBy Edit.precedes es) lines ≠ lines

variable {es : List Edit}

theorem BatchShows.lines_afterBatch_ne {d : Document} (h : BatchShows d.lines es) :
    (d.afterBatch es).lines ≠ d.lines := by
  rw [Document.lines_afterBatch]
  exact h

theorem batchShows_of_shift (h : WellFormed lines) (hfit : BatchFits lines es)
    (hne : total (es.map (Edit.shift lines)) ≠ 0) : BatchShows lines es := by
  intro hlines
  have hlaid := hfit.laidOut
  have hlen := length_joinLines_spliceAll h (hfit.perm hlaid.perm.symm).inRange hlaid.inOrder
  rw [hlines, total_perm (hlaid.perm.map _)] at hlen
  omega

theorem batchShows_of_growth (h : WellFormed lines) (hfit : BatchFits lines es)
    (hne : total (es.map Edit.growth) ≠ 0) : BatchShows lines es := by
  intro hlines
  have hlaid := hfit.laidOut
  have hlen := (joinLines_spliceAll h (hfit.perm hlaid.perm.symm).inRange hlaid.inOrder).2.2
  rw [hlines, total_perm (hlaid.perm.map _)] at hlen
  omega

/-! ### Edits of one line each -/

/-- The edit replaces a stretch of one line by a text without newlines. -/
structure Edit.OneLine (lines : List Text) (e : Edit) : Prop where
  inRange : e.InRange lines
  sameLine : e.stop.line = e.start.line
  no_newline : '\n' ∉ e.text

/-- What the edit makes of its line. -/
def Edit.within (e : Edit) (l : Text) : Text :=
  l.take e.start.column.toNat ++ e.text ++ l.drop e.stop.column.toNat

private theorem splice_oneLine (h : WellFormed lines) {e : Edit} (he : e.OneLine lines) :
    splice e lines = lines.set e.start.line.toNat (e.within (lineOf lines e.start.line)) := by
  have hno : '\n' ∉ e.within (lineOf lines e.start.line) := by
    simp only [Edit.within, List.mem_append, not_or]
    exact ⟨⟨fun hm => h.lineOf _ (List.mem_of_mem_take hm), he.no_newline⟩,
      fun hm => h.lineOf _ (List.mem_of_mem_drop hm)⟩
  have hsplit : splitLines (e.within (lineOf lines e.start.line)) = [e.within (lineOf lines e.start.line)] :=
    splitOn_of_not_mem hno
  have hlt : e.start.line.toNat < lines.length := by
    have := he.inRange.start.1.1
    have := he.inRange.start.1.2
    omega
  simp only [splice, he.sameLine]
  rw [← Edit.within, hsplit, List.set_eq_take_append_cons_drop, if_pos hlt, List.append_assoc]
  rfl

theorem lineOf_set_self {n : Int} (h : HasLine lines n) (l : Text) : lineOf (lines.set n.toNat l) n = l := by
  obtain ⟨h₀, h₁⟩ := h
  have hlt : n.toNat < lines.length := by omega
  rw [lineOf, if_neg (by omega), List.getElem?_set_self hlt]
  rfl

theorem lineOf_set_of_ne {n m : Int} (hn : 0 ≤ n) (hne : m ≠ n) (l : Text) :
    lineOf (lines.set n.toNat l) m = lineOf lines m := by
  unfold lineOf
  split
  · rfl
  · rw [List.getElem?_set_ne (by omega)]

/-- After edits of one line each, at most one on a line, every line is what its edit makes of it, and the others are as
they were. -/
theorem lineOf_spliceAll (h : WellFormed lines) (hes : ∀ e ∈ es, e.OneLine lines)
    (hnodup : (es.map fun e => e.start.line).Nodup) :
    (WellFormed (spliceAll es lines) ∧ (spliceAll es lines).length = lines.length) ∧
      (∀ e ∈ es, lineOf (spliceAll es lines) e.start.line = e.within (lineOf lines e.start.line)) ∧
      ∀ n, (∀ e ∈ es, e.start.line ≠ n) → lineOf (spliceAll es lines) n = lineOf lines n := by
  induction es with
  | nil =>
    refine ⟨⟨h, rfl⟩, ?_, fun _ _ => rfl⟩
    intro e he
    cases he
  | cons e es ih =>
    obtain ⟨hnot, hnodup'⟩ := List.nodup_cons.1 hnodup
    have hes' := fun e' he' => hes e' (List.mem_cons_of_mem e he')
    obtain ⟨⟨hwf, hlen⟩, hmem, hrest⟩ := ih hes' hnodup'
    have hother : ∀ e' ∈ es, e'.start.line ≠ e.start.line := fun e' he' heq =>
      hnot (List.mem_map.2 ⟨e', he', heq⟩)
    have he := hes e List.mem_cons_self
    -- the line of `e` has not been touched yet
    have hline : lineOf (spliceAll es lines) e.start.line = lineOf lines e.start.line := hrest _ hother
    have hhas : HasLine (spliceAll es lines) e.start.line := by
      rw [HasLine, hlen]
      exact he.inRange.start.1
    have he' : e.OneLine (spliceAll es lines) := by
      refine ⟨⟨he.inRange.ordered, ⟨hhas, he.inRange.start.2.1, ?_⟩, ⟨he.sameLine ▸ hhas, he.inRange.stop.2.1, ?_⟩⟩,
        he.sameLine, he.no_newline⟩
      · rw [hline]
        exact he.inRange.start.2.2
      · rw [he.sameLine, hline, ← he.sameLine]
        exact he.inRange.stop.2.2
    have hcons : spliceAll (e :: es) lines =
        (spliceAll es lines).set e.start.line.toNat (e.within (lineOf lines e.start.line)) := by
      rw [← hline]
      exact splice_oneLine hwf he'
    refine ⟨⟨hwf.splice e, ?_⟩, ?_, ?_⟩
    · rw [hcons, List.length_set, hlen]
    · intro e' hmem'
      rw [hcons]
      rcases List.mem_cons.1 hmem' with rfl | hin
      · exact lineOf_set_self hhas _
      · rw [lineOf_set_of_ne hhas.1 (hother e' hin)]
        exact hmem e' hin
    · intro n hn
      rw [hcons, lineOf_set_of_ne hhas.1 (Ne.symm (hn e List.mem_cons_self))]
      exact hrest n fun e' he' => hn e' (List.mem_cons_of_mem e he')

/-- One edit that makes another line of its line is enough. -/
theorem batchShows_of_within (h : WellFormed lines) (hes : ∀ e ∈ es, e.OneLine lines)
    (hnodup : (es.map fun e => e.start.line).Nodup) {e : Edit} (he : e ∈ es)
    (hne : e.within (lineOf lines e.start.line) ≠ lineOf lines e.start.line) : BatchShows lines es := by
  intro hlines
  have hp : (sortBy Edit.precedes es).Perm es := sortBy_perm _ _
  have hsorted := lineOf_spliceAll h (fun e' he' => hes e' (hp.mem_iff.1 he')) ((hp.map _).nodup_iff.2 hnodup)
  have hline := hsorted.2.1 e (hp.mem_iff.2 he)
  rw [hlines] at hline
  exact hne hline.symm

/-- What a batch of one edit of one line makes of a document. -/
theorem lines_afterBatch_oneLine {d : Document} (h : WellFormed d.lines) {e : Edit} (he : e.OneLine d.lines) :
    (d.afterBatch [e]).lines = d.lines.set e.start.line.toNat (e.within (lineOf d.lines e.start.line)) := by
  rw [Document.lines_afterBatch]
  exact splice_oneLine h he

end MultiCaret
