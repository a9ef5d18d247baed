import MultiCaret.Proofs.EditPlan

/-!
# Cursors on lines of their own

Edits that start and end on lines of their own, different ones, can be planned in both ways: by adding up the lines that
the edits above a cursor add, or by carrying the cursor through these edits.  The plans are the same
(`planByLine_eq_planByCursor`).  The edits that a cursor is carried through are those on the lines above its own
(`editsBefore_perm`), and a cursor below the ends of some edits that remove no line stays below them all the way up, so
that each of them moves it by the lines that it adds and none touches its column (`foldr_after_below`).
-/

namespace MultiCaret

/-- The edit of the cursor starts and ends on the line of the cursor, and the cursor does not go above this line. -/
structure EditsOwnLine (c : Position × PlannedEdit) : Prop where
  start : c.2.edit.start.line = c.1.line
  stop : c.2.edit.stop.line = c.1.line
  below : c.1.line ≤ c.2.cursor.line

/-! ### Edits above a cursor -/

/-- A place below some edits that do not remove lines is carried down by the lines that they add. -/
theorem foldr_after_below {A : List Edit} {p : Position} (h : ∀ e ∈ A, e.stop.line < p.line ∧ 0 ≤ e.growth) :
    0 ≤ total (A.map Edit.growth) ∧
      A.foldr (fun e p => p.after e) p = ⟨p.line + total (A.map Edit.growth), p.column⟩ := by
  induction A with
  | nil => exact ⟨Int.le_refl 0, by simp [total]⟩
  | cons e A ih =>
    obtain ⟨hpos, hfold⟩ := ih fun x hx => h x (List.mem_cons_of_mem e hx)
    obtain ⟨hbelow, hgrowth⟩ := h e List.mem_cons_self
    rw [List.map_cons, total_cons, List.foldr_cons, hfold]
    refine ⟨by omega, ?_⟩
    have hline : e.stop.line < (⟨p.line + total (A.map Edit.growth), p.column⟩ : Position).line := by
      simp only
      omega
    rw [Position.after, if_neg (Position.not_lt.2 (Or.inl hline)), if_pos hline, Position.mk.injEq]
    exact ⟨by simp only; omega, rfl⟩

/-- A line moves by what is added above it. -/
theorem lineShift_eq (cursors : List (Position × PlannedEdit)) (n : Int) :
    lineShift (cursors.map fun c => (c.2.edit.start, c.2.edit.growth)) n =
      total (((cursors.map fun c => c.2.edit).filter fun e => decide (e.start.line < n)).map Edit.growth) := by
  rw [lineShift, total, List.foldr_map, List.filter_map, List.foldr_map, List.filter_map, List.foldr_map]
  rfl

/-- The edits that end before one of them begins are those on the lines above it. -/
theorem editsBefore_perm {planned : List PlannedEdit} {i : Nat} {p : PlannedEdit} (hp : planned[i]? = some p)
    (hone : ∀ q ∈ planned, q.edit.stop.line = q.edit.start.line)
    (hnodup : (planned.map fun q => q.edit.start.line).Nodup) :
    (editsBefore planned i p.edit).Perm
      ((planned.map PlannedEdit.edit).filter fun e => decide (e.start.line < p.edit.start.line)) := by
  obtain ⟨hi, rfl⟩ := List.getElem?_eq_some_iff.1 hp
  have hperm := List.getElem_cons_eraseIdx_perm hi
  have hother : ∀ q ∈ planned.eraseIdx i, q.edit.start.line ≠ planned[i].edit.start.line := by
    rw [← (hperm.map _).nodup_iff, List.map_cons, List.nodup_cons] at hnodup
    intro q hq hline
    exact hnodup.1 (List.mem_map.2 ⟨q, hq, hline⟩)
  have hiff : ∀ e ∈ (planned.eraseIdx i).map PlannedEdit.edit,
      decide (e.stop ≤ planned[i].edit.start) = decide (e.start.line < planned[i].edit.start.line) := by
    intro e he
    obtain ⟨q, hq, rfl⟩ := List.mem_map.1 he
    have hline := hone q (List.mem_of_mem_eraseIdx hq)
    have hne := hother q hq
    rw [decide_eq_decide, Position.le_def]
    omega
  have hall := (hperm.map PlannedEdit.edit).filter fun e => decide (e.start.line < planned[i].edit.start.line)
  rw [List.map_cons, List.filter_cons_of_neg (by simp)] at hall
  refine (sortBy_perm _ _).trans ?_
  rw [List.filter_congr hiff]
  exact hall

/-! ### The plans -/

/-- A cursor that is carried moves by the lines that the edits above it add. -/
private theorem foldl_editsBefore {planned : List PlannedEdit} {i : Nat} {p : PlannedEdit} (hp : planned[i]? = some p)
    (hone : ∀ q ∈ planned, q.edit.stop.line = q.edit.start.line)
    (hnodup : (planned.map fun q => q.edit.start.line).Nodup) (hbelow : p.edit.start.line ≤ p.cursor.line) :
    (editsBefore planned i p.edit).foldl Position.after p.cursor =
      ⟨p.cursor.line + total (((planned.map PlannedEdit.edit).filter fun e =>
        decide (e.start.line < p.edit.start.line)).map Edit.growth), p.cursor.column⟩ := by
  have hperm := editsBefore_perm hp hone hnodup
  have habove : ∀ e ∈ (editsBefore planned i p.edit).reverse, e.stop.line < p.cursor.line ∧ 0 ≤ e.growth := by
    intro e he
    obtain ⟨hmem, hlt⟩ := List.mem_filter.1 (hperm.mem_iff.1 (List.mem_reverse.1 he))
    obtain ⟨q, hq, rfl⟩ := List.mem_map.1 hmem
    have hline := hone q hq
    have hlt := of_decide_eq_true hlt
    rw [Edit.growth]
    omega
  have hfold := (foldr_after_below habove).2
  rw [List.foldr_reverse] at hfold
  rw [hfold, total_perm (((List.reverse_perm _).trans hperm).map Edit.growth)]

/-- Both ways of planning for cursors on different lines come to the same. -/
theorem EditPlan.byLine_eq_byCursor {cursors : List (Position × PlannedEdit)} (hown : ∀ c ∈ cursors, EditsOwnLine c)
    (hnodup : ((cursors.map Prod.fst).map Position.line).Nodup) :
    EditPlan.byLine cursors = EditPlan.byCursor cursors := by
  have hlines : ((cursors.map Prod.snd).map fun q => q.edit.start.line).Nodup := by
    rw [List.map_map] at hnodup ⊢
    exact (List.map_congr_left fun c hc => (hown c hc).start).symm ▸ hnodup
  have hone : ∀ q ∈ cursors.map Prod.snd, q.edit.stop.line = q.edit.start.line := by
    intro q hq
    obtain ⟨c, hc, rfl⟩ := List.mem_map.1 hq
    exact (hown c hc).stop.trans (hown c hc).start.symm
  have hedits : cursors.map (fun c => c.2.edit) = (cursors.map Prod.snd).map PlannedEdit.edit := by
    rw [List.map_map]
    rfl
  rw [EditPlan.byLine, EditPlan.byCursor, EditPlan.mk.injEq]
  refine ⟨rfl, List.ext_getElem? fun i => ?_⟩
  rw [List.getElem?_map, List.getElem?_map, carriedCursors, List.getElem?_map, List.getElem?_zipIdx]
  cases hc : cursors[i]? with
  | none => simp [hc]
  | some c =>
    have hp : (cursors.map Prod.snd)[i]? = some c.2 := by rw [List.getElem?_map, hc, Option.map_some]
    have hc' := hown c (List.mem_of_getElem? hc)
    have hbelow : c.2.edit.start.line ≤ c.2.cursor.line := hc'.start.symm ▸ hc'.below
    simp only [hp, Option.map_some, Nat.zero_add]
    rw [foldl_editsBefore hp hone hlines hbelow, lineShift_eq, hedits, hc'.start]

/-- For cursors on different lines whose edits start and end on the lines of their cursors, both plans are there and they
are the same one: the same edits in the same order, and the same selections. -/
theorem planByLine_eq_planByCursor {origins : List Position} {planned : List PlannedEdit}
    (hpaired : origins.length = planned.length) (hnodup : (origins.map Position.line).Nodup)
    (hown : ∀ c ∈ origins.zip planned, EditsOwnLine c) :
    ∃ plan, planByLine origins planned = .ok plan ∧ planByCursor origins planned = .ok plan := by
  have hfst : (origins.zip planned).map Prod.fst = origins := List.map_fst_zip (Nat.le_of_eq hpaired)
  have hsnd : (origins.zip planned).map Prod.snd = planned := List.map_snd_zip (Nat.le_of_eq hpaired.symm)
  refine ⟨EditPlan.byLine (origins.zip planned), ?_, ?_⟩
  · rw [planByLine, if_pos hpaired]
  · rw [planByCursor, if_neg (Nat.not_lt.2 (Nat.le_of_eq hpaired)),
      EditPlan.byLine_eq_byCursor hown (by rw [hfst]; exact hnodup), EditPlan.byCursor, hsnd]

/-- A replacement by three lines, an insertion, and an erasure, on lines that do not follow one another. -/
def plansOnLines : List PlannedEdit :=
  [⟨.insert ⟨4, 1⟩ ['x'], ⟨4, 2⟩⟩, ⟨⟨⟨0, 2⟩, ⟨0, 5⟩, ['\n', 'y', '\n']⟩, ⟨1, 1⟩⟩, ⟨.erase ⟨2, 0⟩ ⟨2, 3⟩, ⟨2, 0⟩⟩]

theorem planByLine_eq_planByCursor_plansOnLines :
    (([⟨4, 1⟩, ⟨0, 4⟩, ⟨2, 3⟩] : List Position).map Position.line).Nodup ∧
      (∀ c ∈ ([⟨4, 1⟩, ⟨0, 4⟩, ⟨2, 3⟩] : List Position).zip plansOnLines, EditsOwnLine c) ∧
      ∃ plan, planByLine [⟨4, 1⟩, ⟨0, 4⟩, ⟨2, 3⟩] plansOnLines = .ok plan ∧
        planByCursor [⟨4, 1⟩, ⟨0, 4⟩, ⟨2, 3⟩] plansOnLines = .ok plan ∧
        plan.selections = [.caret ⟨6, 2⟩, .caret ⟨1, 1⟩, .caret ⟨4, 0⟩] := by
  have hnodup : (([⟨4, 1⟩, ⟨0, 4⟩, ⟨2, 3⟩] : List Position).map Position.line).Nodup := by decide
  have hown : ∀ c ∈ ([⟨4, 1⟩, ⟨0, 4⟩, ⟨2, 3⟩] : List Position).zip plansOnLines, EditsOwnLine c := by
    intro c hc
    simp only [plansOnLines, List.zip_cons_cons, List.zip_nil_right, List.mem_cons, List.not_mem_nil, or_false] at hc
    rcases hc with rfl | rfl | rfl
    · exact ⟨rfl, rfl, by decide⟩
    · exact ⟨rfl, rfl, by decide⟩
    · exact ⟨rfl, rfl, by decide⟩
  obtain ⟨plan, hline, hcursor⟩ := planByLine_eq_planByCursor
    (show ([⟨4, 1⟩, ⟨0, 4⟩, ⟨2, 3⟩] : List Position).length = plansOnLines.length from rfl) hnodup hown
  refine ⟨hnodup, hown, plan, hline, hcursor, ?_⟩
  rw [← Except.ok.inj hline]
  decide

end MultiCaret
