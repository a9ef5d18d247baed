import Mathlib.Data.List.Forall2
import MultiCaret.Proofs.EditPlan
import MultiCaret.Proofs.Editor.Steps

/-!
# Where a keystroke takes its cursors

A keystroke whose cursors plan edits that fit goes through, and its edits are done as one batch (`commit_eq`).  When the
edits begin at different places and every cursor stays in the text that its own edit puts in (`PlansApart`), the
selections afterwards are the images of the cursors, in the order in which the keystroke has them, with the cursors
behind the others that had nothing to do (`commit_images`).  Images may meet; only the first of equal ones is kept then.
-/

namespace MultiCaret

theorem Selection.caret_inj {p q : Position} (h : Selection.caret p = .caret q) : p = q :=
  (Selection.mk.inj h).1

/-- In two lists related element by element, each element of one has a partner in the other. -/
theorem exists_mem_of_forall₂ {α β : Type} {R : α → β → Prop} {as : List α} {bs : List β} (h : List.Forall₂ R as bs) :
    (∀ a ∈ as, ∃ b ∈ bs, R a b) ∧ ∀ b ∈ bs, ∃ a ∈ as, R a b := by
  induction h with
  | nil => simp
  | cons hab _ ih =>
    simp only [List.mem_cons, forall_eq_or_imp, exists_eq_or_imp]
    exact ⟨⟨Or.inl hab, fun a ha => Or.inr (ih.1 a ha)⟩, Or.inl hab, fun b hb => Or.inr (ih.2 b hb)⟩

/-- Edits planned at some places fit, begin at different places, and each keeps its cursor in its own text. -/
structure PlansApart (lines : List Text) (cs : List Position) (plan : Position → PlannedEdit) : Prop where
  fits : BatchFits lines (cs.map fun c => (plan c).edit)
  starts : (cs.map fun c => (plan c).edit.start).Nodup
  own : ∀ c ∈ cs, (plan c).OnOwnText lines

/-- The number of characters by which a cursor moves in the flat text: with its own edit alone, and by what the edits
add that begin before this one. -/
def plannedShift (lines : List Text) (cs : List Position) (plan : Position → PlannedEdit) (c : Position) : Int :=
  offset (splice (plan c).edit lines) (plan c).cursor - offset lines c +
    total ((cs.filter fun d => decide ((plan d).edit.start < (plan c).edit.start)).map fun d =>
      (plan d).edit.shift lines)

namespace Editor

variable {e e' : Editor}

/-- The selections are carets at the images of some places, in the order of the places and each only once.  An image is
so many characters further in the flat text as `shift` says. -/
def Images (e e' : Editor) (places : List Position) (shift : Position → Int) : Prop :=
  ∃ images, List.Forall₂
      (fun c q => InBounds e'.lines q ∧ (offset e'.lines q : Int) = offset e.lines c + shift c) places images ∧
    e'.selections = images.eraseDups.map Selection.caret

/-- The first selection is the image of the first place. -/
theorem Images.cursor {c : Position} {places : List Position} {shift : Position → Int}
    (h : Images e e' (c :: places) shift) :
    InBounds e'.lines e'.cursor ∧ (offset e'.lines e'.cursor : Int) = offset e.lines c + shift c := by
  obtain ⟨images, himages, hsel⟩ := h
  obtain ⟨q, rest, hq, -, rfl⟩ := List.forall₂_cons_left_iff.1 himages
  have hcursor : e'.cursor = q := by
    rw [Editor.cursor, hsel, List.eraseDups_cons]
    rfl
  rw [hcursor]
  exact hq

/-- A keystroke whose edits fit goes through. -/
theorem commit_eq {cursors : List (Position × PlannedEdit)} (hne : cursors ≠ [])
    (hfit : BatchFits e.lines (cursors.map fun c => c.2.edit)) (untouched : List Selection) :
    ∃ t, e.commit cursors untouched =
      .ok (({ e with document := e.document.afterBatch (editsBottomUp cursors), tracker := t } : Editor).setSelections
        ((EditPlan.byCursor cursors).selections ++ untouched)).revealCursor := by
  obtain ⟨t, ht⟩ := e.updateDocument_eq (e.document.afterBatch (editsBottomUp cursors))
  have happly : e.applyEdits (EditPlan.byCursor cursors).edits =
      .ok { e with document := e.document.afterBatch (editsBottomUp cursors), tracker := t } :=
    applyEdits_eq_ok_iff.2 ⟨hfit.perm (editsBottomUp_perm cursors).symm, ht.symm⟩
  have hempty : cursors.isEmpty = false := by
    cases cursors with
    | nil => exact absurd rfl hne
    | cons _ _ => rfl
  refine ⟨t, ?_⟩
  rw [commit, hempty]
  simp only [happly, Except.map]
  rfl

/-- A keystroke goes through exactly if its edits fit. -/
theorem commit_ok_iff {cursors : List (Position × PlannedEdit)} {untouched : List Selection} :
    (∃ e', e.commit cursors untouched = .ok e') ↔ BatchFits e.lines (cursors.map fun c => c.2.edit) := by
  by_cases hne : cursors = []
  · rw [hne]
    exact ⟨fun _ => ⟨fun x hx => absurd hx List.not_mem_nil, List.Pairwise.nil⟩, fun _ => ⟨e, rfl⟩⟩
  · constructor
    · rintro ⟨e', he'⟩
      unfold commit at he'
      split at he'
      · next hempty => exact absurd (List.isEmpty_iff.1 hempty) hne
      · cases ha : e.applyEdits (EditPlan.byCursor cursors).edits with
        | ok e₁ => exact (applyEdits_eq_ok_iff.1 ha).1.perm (editsBottomUp_perm cursors)
        | error g => simp only [ha, Except.map, reduceCtorEq] at he'
    · intro hfit
      obtain ⟨t, ht⟩ := commit_eq hne hfit untouched
      exact ⟨_, ht⟩

/-- The cursors of a plan are carried to their images. -/
private theorem forall₂_carriedCursors {lines : List Text} (h : WellFormed lines) {cs : List Position}
    {plan : Position → PlannedEdit} (hplan : PlansApart lines cs plan) {laid : List Edit}
    (hlaid : LaidOut (cs.map fun c => (plan c).edit) laid) :
    List.Forall₂ (fun c q => InBounds (spliceAll laid lines) q ∧
        (offset (spliceAll laid lines) q : Int) = offset lines c + plannedShift lines cs plan c)
      cs (carriedCursors (cs.map plan)) := by
  have hedits : (cs.map plan).map PlannedEdit.edit = cs.map fun c => (plan c).edit := by
    rw [List.map_map]
    rfl
  have hstarts : ((cs.map plan).map fun p => p.edit.start) = cs.map fun c => (plan c).edit.start := by
    rw [List.map_map]
    rfl
  have hlen : cs.length = (carriedCursors (cs.map plan)).length := by
    rw [carriedCursors, List.length_map, List.length_zipIdx, List.length_map]
  refine List.forall₂_iff_get.2 ⟨hlen, fun i hi hi' => ?_⟩
  have hp : (cs.map plan)[i]? = some (plan cs[i]) := by
    rw [List.getElem?_map, List.getElem?_eq_getElem hi, Option.map_some]
  obtain ⟨q, hq, hb, ho⟩ := carriedCursors_spec h (hedits ▸ hplan.fits) (hedits ▸ hlaid) (hstarts ▸ hplan.starts) hp
    (hplan.own _ (List.getElem_mem hi))
  rw [List.getElem?_eq_getElem hi', Option.some.injEq] at hq
  have hfilter : (((cs.map plan).map PlannedEdit.edit).filter fun e => decide (e.start < (plan cs[i]).edit.start)) =
      (cs.filter fun d => decide ((plan d).edit.start < (plan cs[i]).edit.start)).map fun d => (plan d).edit := by
    rw [hedits, List.filter_map]
    rfl
  simp only [List.get_eq_getElem, hq]
  refine ⟨hb, ?_⟩
  rw [ho, hfilter, List.map_map, plannedShift]
  have hcomp : (Edit.shift lines ∘ fun d => (plan d).edit) = fun d => (plan d).edit.shift lines := rfl
  rw [hcomp]
  omega

/-- The cursors of a plan are carried to their images, and the places in front of all edits stay where they are. -/
private theorem forall₂_images {lines : List Text} (h : WellFormed lines) {cs still : List Position}
    {plan : Position → PlannedEdit} (hplan : PlansApart lines cs plan)
    (hstill : ∀ p ∈ still, InBounds lines p ∧ ∀ c ∈ cs, p ≤ (plan c).edit.start) {shift : Position → Int}
    (hcs : ∀ c ∈ cs, shift c = plannedShift lines cs plan c) (hzero : ∀ p ∈ still, shift p = 0) {laid : List Edit}
    (hlaid : LaidOut (cs.map fun c => (plan c).edit) laid) :
    List.Forall₂ (fun c q => InBounds (spliceAll laid lines) q ∧
        (offset (spliceAll laid lines) q : Int) = offset lines c + shift c)
      (cs ++ still) (carriedCursors (cs.map plan) ++ still) := by
  refine List.rel_append ?_ (List.forall₂_same.2 fun p hp => ?_)
  · obtain ⟨hlen, hget⟩ := List.forall₂_iff_get.1 (forall₂_carriedCursors h hplan hlaid)
    refine List.forall₂_iff_get.2 ⟨hlen, fun i hi hi' => ?_⟩
    rw [hcs _ (List.get_mem cs ⟨i, hi⟩)]
    exact hget i hi hi'
  · obtain ⟨hb, hle⟩ := hstill p hp
    have hfront : ∀ d ∈ laid, p ≤ d.start := by
      intro d hd
      obtain ⟨c, hc, rfl⟩ := List.mem_map.1 (hlaid.perm.mem_iff.1 hd)
      exact hle c hc
    obtain ⟨hb', ho⟩ := inBounds_spliceAll_of_le h (hplan.fits.perm hlaid.perm.symm).inRange hlaid.inOrder hb hfront
    rw [hzero p hp, ho]
    exact ⟨hb', by omega⟩

/-- Setting carets at the images of some places. -/
theorem images_setSelections {e₁ : Editor} {places images : List Position} {shift : Position → Int}
    (hne : places ≠ [])
    (himages : List.Forall₂
      (fun c q => InBounds e₁.lines q ∧ (offset e₁.lines q : Int) = offset e.lines c + shift c) places images) :
    (e₁.setSelections (images.map Selection.caret)).revealCursor.lines = e₁.lines ∧
      Images e (e₁.setSelections (images.map Selection.caret)).revealCursor places shift := by
  have hselections : (e₁.setSelections (images.map Selection.caret)).selections =
      images.eraseDups.map Selection.caret := by
    rw [selections_setSelections_of_inBounds, eraseDups_map fun _ _ _ _ => Selection.caret_inj]
    · intro hnil
      rw [List.map_eq_nil_iff.1 hnil] at himages
      exact hne (List.forall₂_nil_right_iff.1 himages)
    · intro s hs
      obtain ⟨q, hq, rfl⟩ := List.mem_map.1 hs
      obtain ⟨c, -, hb, -⟩ := (exists_mem_of_forall₂ himages).2 q hq
      exact ⟨hb, hb⟩
  obtain ⟨k, hk, -⟩ := reveal_eq (e₁.setSelections (images.map Selection.caret))
    (e₁.setSelections (images.map Selection.caret)).cursor
  rw [revealCursor, hk]
  exact ⟨rfl, images, himages, hselections⟩

/-- A keystroke for which some cursors have edits planned, and the others stand in front of all of these. -/
theorem commit_images (h : WellFormed e.lines) {cs : List Position} (hne : cs ≠ []) {plan : Position → PlannedEdit}
    (hplan : PlansApart e.lines cs plan) {still : List Position}
    (hstill : ∀ p ∈ still, InBounds e.lines p ∧ ∀ c ∈ cs, p ≤ (plan c).edit.start) {shift : Position → Int}
    (hcs : ∀ c ∈ cs, shift c = plannedShift e.lines cs plan c) (hzero : ∀ p ∈ still, shift p = 0) :
    ∃ e' laid, e.commit (cs.map fun c => (c, plan c)) (still.map Selection.caret) = .ok e' ∧
      LaidOut (cs.map fun c => (plan c).edit) laid ∧ e'.lines = spliceAll laid e.lines ∧
      Images e e' (cs ++ still) shift := by
  obtain ⟨cursors, hcursors⟩ : ∃ cursors : List (Position × PlannedEdit), cursors = cs.map fun c => (c, plan c) :=
    ⟨_, rfl⟩
  have hedits : (cursors.map fun c => c.2.edit) = cs.map fun c => (plan c).edit := by
    rw [hcursors, List.map_map]
    rfl
  have hselections : (EditPlan.byCursor cursors).selections ++ still.map Selection.caret =
      (carriedCursors (cs.map plan) ++ still).map Selection.caret := by
    rw [EditPlan.byCursor, hcursors, List.map_map, List.map_append]
    rfl
  have hstarts : ((cs.map fun c => (plan c).edit).map Edit.start).Nodup := by
    rw [List.map_map]
    exact hplan.starts
  -- the plan has its edits from the end of the text, which does not matter for how they are laid out
  have hlaid : LaidOut (cs.map fun c => (plan c).edit) (sortBy Edit.precedes (editsBottomUp cursors)) :=
    hplan.fits.laidOut_of_perm (hedits ▸ editsBottomUp_perm cursors) hstarts
  obtain ⟨laid, hlaid_eq⟩ : ∃ laid, laid = sortBy Edit.precedes (editsBottomUp cursors) := ⟨_, rfl⟩
  rw [← hlaid_eq] at hlaid
  have himages := forall₂_images h hplan hstill hcs hzero hlaid
  obtain ⟨t, hcommit⟩ := commit_eq (show cursors ≠ [] by simpa [hcursors] using hne) (hedits ▸ hplan.fits)
    (still.map Selection.caret)
  have hlines : ({ e with document := e.document.afterBatch (editsBottomUp cursors), tracker := t } : Editor).lines =
      spliceAll laid e.lines := by
    rw [hlaid_eq]
    exact e.document.lines_afterBatch _
  rw [← hlines] at himages
  obtain ⟨hsame, hplaces⟩ := images_setSelections (by simp [hne]) himages
  rw [← hcursors, hcommit, hselections]
  exact ⟨_, laid, rfl, hlaid, hsame.trans hlines, hplaces⟩

end Editor

end MultiCaret
