import MultiCaret.Proofs.Document.Refusal
import MultiCaret.Proofs.Editor.Deleting

/-!
# The plain keystrokes on any cursors

With carets at different places every keystroke goes through, and its selections are the images of the carets
(`press_images`).  They keep the order of the cursors, so the primary cursor stays the first one, except that deleting
puts a cursor at the origin behind the others.

Selections that are no carets may share their active ends, where the keystrokes act.  Only deleting does not get over
this: it is refused exactly if two selections have one character to remove (`press_setSelections_error_iff`).
-/

namespace MultiCaret

/-- By how many characters a keystroke takes a cursor further in the flat text. -/
def Keystroke.shift (lines : List Text) (cs : List Position) : Keystroke → Position → Int
  | .literal t, c => insertedUpTo cs (fun _ => t) c
  | .newline, c => insertedUpTo cs (Editor.brokenLine lines) c
  | .delete, c => -(deletedUpTo cs c : Int)
  | .lineEnd, c => (lineOf lines c.line).length - c.column

/-- The order in which a keystroke leaves the cursors. -/
def Keystroke.order (cs : List Position) : Keystroke → List Position
  | .delete => Editor.originLast cs
  | _ => cs

namespace Editor

variable {e e' : Editor}

/-! ### The order of the cursors -/

private theorem lineEnd_eq (hin : ∀ s ∈ e.selections, InBounds e.lines s.active) :
    e.lineEnd = .ok (e.setSelections (e.selections.map fun s =>
      .caret ⟨s.active.line, (lineOf e.lines s.active.line).length⟩)).revealCursor := by
  have hcarets : (e.selections.mapM fun s =>
        ((lineFor e.lines s.active.line).map fun l => (⟨s.active.line, l.length⟩ : Position)).map Selection.caret) =
      .ok (e.selections.map fun s => .caret ⟨s.active.line, (lineOf e.lines s.active.line).length⟩) := by
    refine mapM_eq_ok fun s hs => ?_
    rw [lineFor_of_hasLine (hin s hs).1]
    rfl
  rw [lineEnd, moveCursors, hcarets]

private theorem lineEnd_images {cs : List Position} (hcs : CursorsAt e cs) :
    ∃ e', e.lineEnd = .ok e' ∧ Images e e' cs fun c => (lineOf e.lines c.line).length - c.column := by
  have htargets : (e.selections.map fun s => Selection.caret ⟨s.active.line, (lineOf e.lines s.active.line).length⟩) =
      (cs.map fun c => ⟨c.line, (lineOf e.lines c.line).length⟩).map Selection.caret := by
    rw [hcs.selections, List.map_map, List.map_map]
    rfl
  rw [lineEnd_eq hcs.inBounds_active, htargets]
  refine ⟨_, rfl, (images_setSelections hcs.ne_nil ?_).2⟩
  refine List.forall₂_map_right_iff.2 (List.forall₂_same.2 fun c hc => ?_)
  obtain ⟨hline, h₀, h₁⟩ := hcs.inBounds c hc
  refine ⟨⟨hline, by simp only; omega, Int.le_refl _⟩, ?_⟩
  simp only [offset]
  omega

/-- Every keystroke goes through with carets at different places, and takes each of them to its image. -/
theorem press_images (h : WellFormed e.lines) {cs : List Position} (hcs : CursorsAt e cs) (k : Keystroke) :
    ∃ e', e.press k = .ok e' ∧ Images e e' (k.order cs) (k.shift e.lines cs) := by
  cases k with
  | literal t =>
    obtain ⟨e', -, hcommit, -, -, himages⟩ := commit_inserts_images h hcs fun _ => t
    exact ⟨e', (typeText_eq_commit t).trans hcommit, himages⟩
  | newline =>
    obtain ⟨e', -, hcommit, -, -, himages⟩ := commit_inserts_images h hcs (brokenLine e.lines)
    exact ⟨e', (newline_eq_commit h hcs.inBounds_active).trans hcommit, himages⟩
  | delete =>
    obtain ⟨e', -, hdelete, -, -, himages⟩ := delete_images h hcs
    exact ⟨e', hdelete, himages⟩
  | lineEnd => exact lineEnd_images hcs

/-- The primary cursor at the origin and another one at the end of the line. -/
def originFirst : Editor :=
  (ofDocument (.ofText "abc".toList "doc" "plaintext".toList) {} {}).setSelections [.caret ⟨0, 0⟩, .caret ⟨0, 3⟩]

theorem press_images_originFirst :
    WellFormed originFirst.lines ∧ CursorsAt originFirst [⟨0, 0⟩, ⟨0, 3⟩] ∧
      ∃ e', originFirst.press .delete = .ok e' ∧
        Images originFirst e' [⟨0, 3⟩, ⟨0, 0⟩] (Keystroke.delete.shift originFirst.lines [⟨0, 0⟩, ⟨0, 3⟩]) := by
  have h : WellFormed originFirst.lines := wellFormed_splitLines _
  have hcs : CursorsAt originFirst [⟨0, 0⟩, ⟨0, 3⟩] := ⟨by decide +kernel, by decide, by decide, by decide +kernel⟩
  exact ⟨h, hcs, press_images h hcs .delete⟩

/-- Deleting does not keep the primary cursor: the other cursor comes first afterwards. -/
theorem not_images_in_order :
    ¬ ∀ (e : Editor) (cs : List Position), WellFormed e.lines → CursorsAt e cs → ∀ k : Keystroke, ∀ e',
      e.press k = .ok e' → Images e e' cs (k.shift e.lines cs) := by
  intro hall
  have h : WellFormed originFirst.lines := wellFormed_splitLines _
  have hcs : CursorsAt originFirst [⟨0, 0⟩, ⟨0, 3⟩] := ⟨by decide +kernel, by decide, by decide, by decide +kernel⟩
  obtain ⟨e', -, hdelete, -, -, himages⟩ := delete_images h hcs
  obtain ⟨-, hfirst⟩ := (hall originFirst _ h hcs .delete e' hdelete).cursor
  obtain ⟨-, hlast⟩ := himages.cursor
  -- the first selection would be the image of both cursors
  rw [hlast] at hfirst
  exact absurd hfirst (by decide +kernel)

/-! ### Selections that share their active ends -/

/-- More than one selection has its active end at the place, and there is a character in front of it. -/
def Crowded (e : Editor) (c : Position) : Prop :=
  c ≠ origin ∧ 1 < (e.selections.map Selection.active).count c

private theorem commit_eq_error {cursors : List (Position × PlannedEdit)} {untouched : List Selection} {f : EditorFault}
    (h : e.commit cursors untouched = .error f) :
    ∃ g, f = .refused g ∧ e.document.applyEdits (editsBottomUp cursors) = .error g := by
  unfold commit at h
  split at h
  · cases h
  · unfold applyEdits at h
    cases ha : e.document.applyEdits (EditPlan.byCursor cursors).edits with
    | ok d =>
      simp only [ha, Except.map, reduceCtorEq] at h
    | error g =>
      simp only [ha, Except.map] at h
      exact ⟨g, (Except.error.inj h).symm, ha⟩

/-- Wherever the active ends are, the keystrokes other than deleting go through. -/
private theorem press_ok (h : WellFormed e.lines) (hin : ∀ s ∈ e.selections, InBounds e.lines s.active) {k : Keystroke}
    (hk : k ≠ .delete) : ∃ e', e.press k = .ok e' := by
  cases k with
  | literal t =>
    rw [press, typeText_eq_commit]
    exact commit_ok_iff.2 (batchFits_insertions hin fun _ => t)
  | newline =>
    rw [press, newline_eq_commit h hin]
    exact commit_ok_iff.2 (batchFits_insertions hin (brokenLine e.lines))
  | delete => exact absurd rfl hk
  | lineEnd => exact ⟨_, lineEnd_eq hin⟩

/-- The active ends that have a character in front of them. -/
def removalPlaces (e : Editor) : List Position :=
  (e.selections.map Selection.active).filter fun c => decide (c ≠ origin)

private theorem mem_removalPlaces (hin : ∀ s ∈ e.selections, InBounds e.lines s.active) :
    ∀ c ∈ e.removalPlaces, InBounds e.lines c ∧ c ≠ origin := by
  intro c hc
  obtain ⟨hmem, hne⟩ := mem_filter_ne_origin.1 hc
  obtain ⟨s, hs, rfl⟩ := List.mem_map.1 hmem
  exact ⟨hin s hs, hne⟩

private theorem crowded_iff {c : Position} : Crowded e c ↔ c ≠ origin ∧ 1 < e.removalPlaces.count c := by
  refine and_congr_right fun hne => ?_
  have hcount : e.removalPlaces.count c = (e.selections.map Selection.active).count c :=
    List.count_filter (decide_eq_true hne)
  rw [hcount]

private theorem edits_delete :
    (((e.selections.filter fun s => decide (s.active ≠ origin)).map fun s => (s.active, erasure e.lines s.active)).map
      fun c => c.2.edit) = e.removalPlaces.map fun c => (erasure e.lines c).edit := by
  rw [removalPlaces, List.filter_map, List.map_map, List.map_map]
  rfl

/-- Deleting is refused if two selections share an active end that has a character in front of it. -/
private theorem delete_error_of_crowded (hin : ∀ s ∈ e.selections, InBounds e.lines s.active) {c : Position}
    (hc : Crowded e c) : ∃ f, e.delete = .error f := by
  cases h : e.delete with
  | error f => exact ⟨f, rfl⟩
  | ok e' =>
    rw [delete_eq_commit hin] at h
    have hapart := (commit_ok_iff.1 ⟨e', h⟩).apart
    rw [edits_delete, List.pairwise_map] at hapart
    -- of two removals at one place each begins before the other ends
    have hnodup : e.removalPlaces.Nodup := by
      refine hapart.imp_of_mem fun {a b} ha _ hab => ?_
      rintro rfl
      obtain ⟨hb, hne⟩ := mem_removalPlaces hin a ha
      have hlt := Position.not_le.2 (placeBefore_lt hb hne)
      exact hab.elim hlt hlt
    exact absurd (crowded_iff.1 hc).2 (Nat.not_lt.2 (List.nodup_iff_count_le_one.1 hnodup c))

private theorem le_of_precedes {lines : List Text} {p q : Position} (hp : InBounds lines p ∧ p ≠ origin)
    (hq : InBounds lines q ∧ q ≠ origin) (h : (erasure lines p).edit.precedes (erasure lines q).edit = true) : p ≤ q := by
  refine Position.not_lt.1 fun hlt => ?_
  have hstart := (placeBefore_lt_iff hq.1 hq.2 hp.1 hp.2).2 hlt
  rcases Edit.precedes_iff.1 h with hlt' | ⟨heq, -⟩
  · exact Position.not_le.2 hlt' (Position.le_of_lt hstart)
  · have heq' : placeBefore lines p = placeBefore lines q := heq
    rw [heq'] at hstart
    exact Position.not_le.2 hstart (Position.le_refl _)

/-- When places are gone through along the text, the first one whose removal overlaps one in front of it is the first
one that occurs twice. -/
private theorem first_twice {lines : List Text} {as bs : List Position} {c : Position}
    (hin : ∀ p ∈ as ++ c :: bs, InBounds lines p ∧ p ≠ origin)
    (hprec : (as ++ c :: bs).Pairwise fun p q => (erasure lines p).edit.precedes (erasure lines q).edit)
    (has : as.Pairwise fun p q => p ≤ placeBefore lines q) (hover : ∃ p ∈ as, placeBefore lines c < p) :
    1 < (as ++ c :: bs).count c ∧ ∀ d, 1 < (as ++ c :: bs).count d → c ≤ d := by
  obtain ⟨-, hprecB, hprecA⟩ := List.pairwise_append.1 hprec
  obtain ⟨hbehind, -⟩ := List.pairwise_cons.1 hprecB
  have hc := hin c (by simp)
  constructor
  · obtain ⟨p, hp, hlt⟩ := hover
    have hp' := hin p (List.mem_append_left _ hp)
    have hpc : p = c := by
      refine Position.le_antisymm (le_of_precedes hp' hc (hprecA p hp c List.mem_cons_self)) ?_
      exact Position.not_lt.1 fun hless => Position.not_le.2 hlt (le_placeBefore hp'.1 hc.1 hless)
    have hone := List.count_pos_iff.2 (hpc ▸ hp)
    rw [List.count_append, List.count_cons_self]
    omega
  · -- what is in front of `c` has been gone through, so nothing occurs there twice
    intro d hd
    refine Position.not_lt.1 fun hlt => ?_
    have hnot : d ∉ c :: bs := by
      intro hmem
      rcases List.mem_cons.1 hmem with rfl | hmem
      · exact Position.not_le.2 hlt (Position.le_refl _)
      · exact Position.not_le.2 hlt (le_of_precedes hc (hin d (by simp [hmem])) (hbehind d hmem))
    have hnodup : as.Nodup := by
      refine has.imp_of_mem fun {p q} _ hq hpq => ?_
      rintro rfl
      have hq' := hin p (List.mem_append_left _ hq)
      exact Position.not_le.2 (placeBefore_lt hq'.1 hq'.2) hpq
    have hle := List.nodup_iff_count_le_one.1 hnodup d
    rw [List.count_append, List.count_eq_zero.2 hnot] at hd
    omega

/-- If deleting is refused, then for the first of the shared active ends. -/
private theorem delete_eq_error (hin : ∀ s ∈ e.selections, InBounds e.lines s.active) {f : EditorFault}
    (h : e.delete = .error f) :
    ∃ c, Crowded e c ∧ (∀ d, Crowded e d → c ≤ d) ∧ f = .refused (.overlapping (placeBefore e.lines c)) := by
  rw [delete_eq_commit hin] at h
  obtain ⟨g, rfl, hg⟩ := commit_eq_error h
  have hperm := editsBottomUp_perm
    ((e.selections.filter fun s => decide (s.active ≠ origin)).map fun s => (s.active, erasure e.lines s.active))
  rw [edits_delete] at hperm
  have hplaces := mem_removalPlaces hin
  have hr : ∀ x ∈ e.removalPlaces.map fun c => (erasure e.lines c).edit, x.InRange e.lines := by
    intro x hx
    obtain ⟨c, hc, rfl⟩ := List.mem_map.1 hx
    exact inRange_erasure (hplaces c hc).1 (hplaces c hc).2
  obtain ⟨A, b, B, hlaid, hprec, hA, ⟨a, ha, hover⟩, rfl⟩ :=
    applyEdits_eq_error (fun x hx => hr x (hperm.mem_iff.1 hx)) hg
  have hremoval : ∀ x ∈ A ++ b :: B, x = (erasure e.lines x.stop).edit := by
    intro x hx
    obtain ⟨c, -, rfl⟩ := List.mem_map.1 ((hlaid.trans hperm).mem_iff.1 hx)
    rfl
  -- the places of the removals, in the order in which they are checked
  have hstops : (A.map Edit.stop ++ b.stop :: B.map Edit.stop).Perm e.removalPlaces := by
    have hids : (e.removalPlaces.map fun c => (erasure e.lines c).edit).map Edit.stop = e.removalPlaces := by
      rw [List.map_map]
      exact List.map_id _
    rw [← List.map_cons, ← List.map_append]
    exact hids ▸ (hlaid.trans hperm).map Edit.stop
  have hprec' : (A.map Edit.stop ++ b.stop :: B.map Edit.stop).Pairwise fun p q =>
      (erasure e.lines p).edit.precedes (erasure e.lines q).edit := by
    rw [← List.map_cons, ← List.map_append, List.pairwise_map]
    refine hprec.imp_of_mem fun {x y} hx hy hxy => ?_
    rw [← hremoval x hx, ← hremoval y hy]
    exact hxy
  have hA' : (A.map Edit.stop).Pairwise fun p q => p ≤ placeBefore e.lines q := by
    rw [List.pairwise_map]
    refine hA.imp_of_mem fun {x y} _ hy hxy => ?_
    rw [hremoval y (List.mem_append_left _ hy)] at hxy
    exact hxy
  have hstart : b.start = placeBefore e.lines b.stop := congrArg Edit.start (hremoval b (by simp))
  obtain ⟨htwice, hfirst⟩ := first_twice (fun p hp => hplaces p (hstops.mem_iff.1 hp)) hprec' hA'
    ⟨a.stop, List.mem_map_of_mem ha, hstart ▸ hover⟩
  simp only [hstops.count_eq] at htwice hfirst
  exact ⟨b.stop, crowded_iff.2 ⟨(hplaces _ (hstops.mem_iff.1 (by simp))).2, htwice⟩,
    fun d hd => hfirst d (crowded_iff.1 hd).2, by rw [hstart]⟩

/-- Whatever selections are set, a keystroke fails exactly if it is to delete and two selections share an active end
that has a character in front of it; then the batch is refused at the first of these characters. -/
theorem press_setSelections_error_iff (h : WellFormed e.lines) (ss : List Selection) (k : Keystroke)
    (f : EditorFault) :
    (e.setSelections ss).press k = .error f ↔
      k = .delete ∧ ∃ c, Crowded (e.setSelections ss) c ∧ (∀ d, Crowded (e.setSelections ss) d → c ≤ d) ∧
        f = .refused (.overlapping (placeBefore e.lines c)) := by
  have hin : ∀ s ∈ (e.setSelections ss).selections, InBounds (e.setSelections ss).lines s.active := fun s hs =>
    ((settled_setSelections h ss).inBounds s hs).2
  constructor
  · intro hf
    by_cases hk : k = .delete
    · subst hk
      exact ⟨rfl, delete_eq_error hin hf⟩
    · obtain ⟨e', he'⟩ := press_ok (e := e.setSelections ss) h hin hk
      rw [he'] at hf
      cases hf
  · rintro ⟨rfl, c, hc, hleast, rfl⟩
    obtain ⟨f, hf⟩ := delete_error_of_crowded hin hc
    obtain ⟨c', hc', hleast', rfl⟩ := delete_eq_error hin hf
    rw [Position.le_antisymm (hleast c' hc') (hleast' c hc)]
    exact hf

/-- An editor on one line. -/
def oneLine : Editor :=
  ofDocument (.ofText "abc".toList "doc" "plaintext".toList) {} {}

/-- Two selections from different places to the same one. -/
def sharedEnd : List Selection :=
  [⟨⟨0, 0⟩, ⟨0, 2⟩⟩, ⟨⟨0, 1⟩, ⟨0, 2⟩⟩]

theorem press_setSelections_error_iff_sharedEnd :
    WellFormed oneLine.lines ∧ ∃ c, Crowded (oneLine.setSelections sharedEnd) c ∧
      (∀ d, Crowded (oneLine.setSelections sharedEnd) d → c ≤ d) ∧ ⟨0, 1⟩ = placeBefore oneLine.lines c := by
  have h : WellFormed oneLine.lines := wellFormed_splitLines _
  have hf : (oneLine.setSelections sharedEnd).press .delete = .error (.refused (.overlapping ⟨0, 1⟩)) := by rfl
  obtain ⟨-, c, hc, hleast, heq⟩ := (press_setSelections_error_iff h sharedEnd .delete _).1 hf
  exact ⟨h, c, hc, hleast, EditError.overlapping.inj (EditorFault.refused.inj heq)⟩

/-- Deleting fails on selections that the editor accepts. -/
theorem press_sharedEnd : (oneLine.setSelections sharedEnd).press .delete = .error (.refused (.overlapping ⟨0, 1⟩)) := by
  rfl

end Editor

end MultiCaret
