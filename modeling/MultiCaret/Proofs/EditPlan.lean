import Mathlib.Data.List.Nodup
import Mathlib.Data.List.Perm.Basic
import MultiCaret.EditPlan
import MultiCaret.Proofs.Document.Batch

/-!
# Cursors carried through a batch

A place behind an edit is carried to the place in front of the same text (`Position.after_splice`), because it is the
end of the edit with some text advanced, and the edit puts its own text in place of its range
(`Position.after_advance`).  Carrying a place through all edits in front of it, from the last one to the first one,
keeps up with working off the batch (`carry_spliceAll`).  So in a plan for edits that begin at different places every
cursor goes to the place that its own edit gives it, moved by the text that the edits in front of it add
(`carriedCursors_spec`), and such a plan can always be made and applied (`planByCursor_places`).
-/

namespace MultiCaret

/-- The number of characters that the edit adds to the flat text, negative when it removes some. -/
def Edit.shift (lines : List Text) (e : Edit) : Int :=
  e.text.length - (offset lines e.stop - offset lines e.start)

variable {lines : List Text}

/-! ### One edit -/

private theorem Position.le_advance (p : Position) (t : Text) : p ≤ p.advance t := by
  have h := List.length_pos_iff.2 (wellFormed_splitLines t).ne_nil
  rw [advance_eq, le_def]
  split <;> simp only <;> omega

/-- Behind the range of an edit a text advances from the end of the text that the edit puts in. -/
theorem Position.after_advance (e : Edit) (t : Text) :
    (e.stop.advance t).after e = (e.start.advance e.text).advance t := by
  have h := List.length_pos_iff.2 (wellFormed_splitLines t).ne_nil
  have hlen : (splitLines e.text).length = e.text.count '\n' + 1 := length_splitOn e.text
  rw [after, if_neg (not_lt.2 (le_advance e.stop t)), advance_eq e.stop, advance_eq e.start, advance_eq _ t]
  by_cases ht : (splitLines t).length = 1
  · simp only [ht, if_true, if_neg (show ¬ e.stop.line < e.stop.line + ((1 : Nat) : Int) - 1 by omega),
      Position.mk.injEq]
    constructor
    · omega
    · split <;> omega
  · simp only [if_neg ht, if_pos (show e.stop.line < e.stop.line + ((splitLines t).length : Int) - 1 by omega),
      Edit.growth, Position.mk.injEq]
    constructor
    · omega
    · trivial

/-- A place behind an edit is carried to the place in front of the same text. -/
theorem Position.after_splice (h : WellFormed lines) {e : Edit} (he : e.InRange lines) {p : Position}
    (hp : InBounds lines p) (hle : e.stop ≤ p) :
    InBounds (splice e lines) (p.after e) ∧
      (offset (splice e lines) (p.after e) : Int) = offset lines p + e.shift lines := by
  have hso := he.offset_le
  have hop := (offset_le_iff he.stop hp).2 hle
  have hpl := hp.offset_le
  obtain ⟨k, hk⟩ : ∃ k, k = offset lines e.start + e.text.length + (offset lines p - offset lines e.stop) := ⟨_, rfl⟩
  have hflat := joinLines_splice he
  have hlen := congrArg List.length hflat
  simp only [List.length_append, List.length_take, List.length_drop, Nat.min_eq_left he.start.offset_le] at hlen
  obtain ⟨q, hq, ho⟩ := exists_offset_eq (h.splice e).ne_nil (show k ≤ (joinLines (splice e lines)).length by omega)
  -- the text between the end of the edit and the place
  obtain ⟨mid, hmid⟩ : ∃ mid, mid = ((joinLines lines).drop (offset lines e.stop)).take
      (offset lines p - offset lines e.stop) := ⟨_, rfl⟩
  have hold : (joinLines lines).take (offset lines p) = (joinLines lines).take (offset lines e.stop) ++ mid := by
    rw [hmid, ← List.take_add, Nat.add_sub_cancel' hop]
  have hnew : (joinLines (splice e lines)).take k =
      (joinLines lines).take (offset lines e.start) ++ e.text ++ mid := by
    have hpre : ((joinLines lines).take (offset lines e.start) ++ e.text).length =
        offset lines e.start + e.text.length := by
      rw [List.length_append, List.length_take, Nat.min_eq_left he.start.offset_le]
    rw [hflat, hk, ← hpre, List.take_length_add_append, hmid]
  have hpq : p.after e = q := by
    rw [← advance_take_offset (h.splice e) hq, ho, hnew, advance_append, advance_append,
      advance_take_offset h he.start, ← after_advance, ← advance_take_offset h he.stop, ← advance_append, ← hold,
      advance_take_offset h hp]
  rw [hpq]
  refine ⟨hq, ?_⟩
  rw [ho, hk, Edit.shift]
  omega

/-- The text that an edit puts in ends where it advances to. -/
theorem advance_splice (h : WellFormed lines) {e : Edit} (he : e.InRange lines) :
    InBounds (splice e lines) (e.start.advance e.text) ∧
      offset (splice e lines) (e.start.advance e.text) = offset lines e.start + e.text.length :=
  advance_prefix_splice h he (List.append_nil _).symm

/-! ### A batch -/

/-- Carrying a place through the edits of a batch that end before it keeps up with working off the batch; it stays
behind everything that is in front of the batch. -/
theorem carry_spliceAll (h : WellFormed lines) {laid : List Edit} (hr : ∀ e ∈ laid, e.InRange lines)
    (hord : laid.Pairwise fun a b => a.stop ≤ b.start) {p : Position} (hp : InBounds lines p)
    (hle : ∀ e ∈ laid, e.stop ≤ p) :
    InBounds (spliceAll laid lines) (laid.foldr (fun e p => p.after e) p) ∧
      (offset (spliceAll laid lines) (laid.foldr (fun e p => p.after e) p) : Int) =
        offset lines p + total (laid.map (Edit.shift lines)) ∧
      ∀ b, InBounds lines b → b ≤ p → (∀ e ∈ laid, b ≤ e.start) →
        offset lines b ≤ offset (spliceAll laid lines) (laid.foldr (fun e p => p.after e) p) := by
  induction laid with
  | nil =>
    refine ⟨hp, by simp [spliceAll, total], ?_⟩
    intro b hb hbp _
    exact (offset_le_iff hb hp).2 hbp
  | cons e es ih =>
    obtain ⟨hnext, hes⟩ := List.pairwise_cons.1 hord
    have he := hr e List.mem_cons_self
    have hres := fun e' he' => hr e' (List.mem_cons_of_mem e he')
    obtain ⟨hq, ho, hbehind⟩ := ih hres hes fun e' he' => hle e' (List.mem_cons_of_mem e he')
    have hwf := (joinLines_spliceAll h hres hes).2.1
    obtain ⟨hs, ho₁⟩ := inBounds_spliceAll_of_le h hres hes he.start fun e' he' =>
      Position.le_trans he.ordered (hnext e' he')
    obtain ⟨ht, ho₂⟩ := inBounds_spliceAll_of_le h hres hes he.stop hnext
    have he' : e.InRange (spliceAll es lines) := ⟨he.ordered, hs, ht⟩
    have hstop := hbehind e.stop he.stop (hle e List.mem_cons_self) hnext
    rw [← ho₂, offset_le_iff ht hq] at hstop
    obtain ⟨hq', ho'⟩ := Position.after_splice hwf he' hq hstop
    have hcons : spliceAll (e :: es) lines = splice e (spliceAll es lines) := rfl
    rw [hcons, List.foldr_cons]
    refine ⟨hq', ?_, ?_⟩
    · rw [ho', ho, List.map_cons, total_cons, Edit.shift, Edit.shift, ho₁, ho₂]
      omega
    · intro b hb _ hbs
      have h₁ := (offset_le_iff hb he.start).2 (hbs e List.mem_cons_self)
      have h₂ := (offset_le_iff ht hq).2 hstop
      rw [Edit.shift, ho₁, ho₂] at ho'
      omega

/-- A place in the text that one edit of a batch puts in is carried through the edits in front of it. -/
theorem carry_own (h : WellFormed lines) {A B : List Edit} {own : Edit}
    (hr : ∀ e ∈ A ++ own :: B, e.InRange lines) (hord : (A ++ own :: B).Pairwise fun a b => a.stop ≤ b.start)
    {c : Position} (hc : InBounds (splice own lines) c) (hlo : offset lines own.start ≤ offset (splice own lines) c)
    (hhi : offset (splice own lines) c ≤ offset lines own.start + own.text.length) :
    InBounds (spliceAll (A ++ own :: B) lines) (A.foldr (fun e p => p.after e) c) ∧
      (offset (spliceAll (A ++ own :: B) lines) (A.foldr (fun e p => p.after e) c) : Int) =
        offset (splice own lines) c + total (A.map (Edit.shift lines)) := by
  obtain ⟨hordA, hordB, hAB⟩ := List.pairwise_append.1 hord
  obtain ⟨hnext, hordB'⟩ := List.pairwise_cons.1 hordB
  have hrA : ∀ e ∈ A, e.InRange lines := fun e he => hr e (List.mem_append_left _ he)
  have hrB : ∀ e ∈ own :: B, e.InRange lines := fun e he => hr e (List.mem_append_right _ he)
  have hrB' : ∀ e ∈ B, e.InRange lines := fun e he => hrB e (List.mem_cons_of_mem _ he)
  have hown := hrB own List.mem_cons_self
  obtain ⟨-, hwf, -⟩ := joinLines_spliceAll h hrB hordB
  have hbefore : ∀ b, InBounds lines b → b ≤ own.start →
      InBounds (spliceAll (own :: B) lines) b ∧ offset (spliceAll (own :: B) lines) b = offset lines b := by
    intro b hb hle
    refine inBounds_spliceAll_of_le h hrB hordB hb ?_
    intro e he
    rcases List.mem_cons.1 he with rfl | he
    · exact hle
    · exact Position.le_trans hle (Position.le_trans hown.ordered (hnext e he))
  -- up to the end of its text, the edit does the same alone and after the edits behind it
  have hc' : InBounds (spliceAll (own :: B) lines) c ∧
      offset (spliceAll (own :: B) lines) c = offset (splice own lines) c := by
    have hstart : ∀ e ∈ B, own.start ≤ e.start := fun e he => Position.le_trans hown.ordered (hnext e he)
    obtain ⟨hs, ho₁⟩ := inBounds_spliceAll_of_le h hrB' hordB' hown.start hstart
    obtain ⟨ht, -⟩ := inBounds_spliceAll_of_le h hrB' hordB' hown.stop hnext
    have hown' : own.InRange (spliceAll B lines) := ⟨hown.ordered, hs, ht⟩
    have htake : (joinLines (splice own lines)).take (offset lines own.start + own.text.length) =
        (joinLines (splice own (spliceAll B lines))).take (offset lines own.start + own.text.length) := by
      have hnew := take_joinLines_splice hown'
      rw [ho₁, take_joinLines_spliceAll h hrB' hordB' hown.start hstart] at hnew
      rw [take_joinLines_splice hown, hnew]
    exact inBounds_of_take_eq (h.splice own) hwf htake hc hhi
  obtain ⟨hcM, hoM⟩ := hc'
  have hrange : ∀ e ∈ A, e.InRange (spliceAll (own :: B) lines) ∧
      offset (spliceAll (own :: B) lines) e.start = offset lines e.start ∧
      offset (spliceAll (own :: B) lines) e.stop = offset lines e.stop := by
    intro e he
    have hle := hAB e he own List.mem_cons_self
    obtain ⟨hs, ho₁⟩ := hbefore _ (hrA e he).start (Position.le_trans (hrA e he).ordered hle)
    obtain ⟨ht, ho₂⟩ := hbefore _ (hrA e he).stop hle
    exact ⟨⟨(hrA e he).ordered, hs, ht⟩, ho₁, ho₂⟩
  have hle : ∀ e ∈ A, e.stop ≤ c := by
    intro e he
    obtain ⟨hre, -, ho⟩ := hrange e he
    have := (offset_le_iff (hrA e he).stop hown.start).2 (hAB e he own List.mem_cons_self)
    rw [← offset_le_iff hre.stop hcM]
    omega
  obtain ⟨hb, ho, -⟩ := carry_spliceAll hwf (fun e he => (hrange e he).1) hordA hcM hle
  have hshift : A.map (Edit.shift (spliceAll (own :: B) lines)) = A.map (Edit.shift lines) := by
    refine List.map_congr_left ?_
    intro e he
    rw [Edit.shift, Edit.shift, (hrange e he).2.1, (hrange e he).2.2]
  have happ : spliceAll (A ++ own :: B) lines = spliceAll A (spliceAll (own :: B) lines) := List.foldr_append
  rw [happ]
  exact ⟨hb, by rw [ho, hoM, hshift]⟩

/-! ### A plan -/

/-- Edits that begin at different places are laid out alike whatever their order. -/
theorem LaidOut.of_perm {es es' laid : List Edit} (h : LaidOut es laid) (hp : es.Perm es')
    (hne : (es'.map Edit.start).Nodup) : LaidOut es' laid := by
  refine ⟨h.perm.trans hp, h.inOrder, ?_⟩
  intro p
  rw [h.inserts p]
  have hinj : ∀ a ∈ es.filter (Edit.insertsAt p), ∀ b ∈ es'.filter (Edit.insertsAt p), a = b := by
    intro a ha b hb
    simp only [List.mem_filter, Edit.insertsAt, Bool.and_eq_true, beq_iff_eq] at ha hb
    exact List.inj_on_of_nodup_map hne (hp.mem_iff.1 ha.1) hb.1 (ha.2.1.trans hb.2.1.symm)
  have hall : ∀ l : List Edit, l.Pairwise fun _ _ => True := fun l => List.pairwise_of_forall fun _ _ => trivial
  exact List.Perm.eq_of_pairwise (fun a b ha hb _ _ => hinj a ha b hb) (hall _) (hall _) (hp.filter _)

theorem BatchFits.laidOut_of_perm {es es' : List Edit} (h : BatchFits lines es) (hp : es'.Perm es)
    (hne : (es.map Edit.start).Nodup) : LaidOut es (sortBy Edit.precedes es') :=
  (h.perm hp.symm).laidOut.of_perm hp hne

theorem editsBottomUp_perm (cursors : List (Position × PlannedEdit)) :
    (editsBottomUp cursors).Perm (cursors.map fun c => c.2.edit) :=
  (sortBy_perm _ _).map _

/-- In a batch that is laid out along the text and whose edits begin at different places, the edits in front of one of
them begin before it and those behind it begin later. -/
private theorem start_lt_of_inOrder {A B : List Edit} {own : Edit}
    (hord : (A ++ own :: B).Pairwise fun a b => a.stop ≤ b.start) (hse : ∀ e ∈ A ++ own :: B, e.start ≤ e.stop)
    (hne : ((A ++ own :: B).map Edit.start).Nodup) :
    (∀ e ∈ A, e.stop ≤ own.start ∧ e.start < own.start) ∧ ∀ e ∈ B, own.start < e.start := by
  obtain ⟨-, hordB, hAB⟩ := List.pairwise_append.1 hord
  obtain ⟨hnext, -⟩ := List.pairwise_cons.1 hordB
  rw [List.map_append, List.map_cons, List.nodup_append, List.nodup_cons] at hne
  obtain ⟨-, ⟨hB, -⟩, hA⟩ := hne
  constructor
  · intro e he
    have hle := hAB e he own List.mem_cons_self
    refine ⟨hle, Position.not_le.1 fun h => ?_⟩
    have hes := Position.le_trans (hse e (List.mem_append_left _ he)) hle
    exact hA _ (List.mem_map_of_mem he) _ List.mem_cons_self (Position.le_antisymm hes h)
  · intro e he
    have hle := Position.le_trans (hse own (by simp)) (hnext e he)
    refine Position.not_le.1 fun h => hB ?_
    rw [Position.le_antisymm hle h]
    exact List.mem_map_of_mem he

/-- The edits that a cursor is carried through are those in front of its own edit, the last one first. -/
private theorem editsBefore_eq {planned : List PlannedEdit} {A B : List Edit} {i : Nat} {p : PlannedEdit}
    (hp : planned[i]? = some p) (hperm : (A ++ p.edit :: B).Perm (planned.map PlannedEdit.edit))
    (hord : (A ++ p.edit :: B).Pairwise fun a b => a.stop ≤ b.start)
    (hse : ∀ e ∈ A ++ p.edit :: B, e.start ≤ e.stop) (hne : ((A ++ p.edit :: B).map Edit.start).Nodup) :
    editsBefore planned i p.edit = A.reverse := by
  obtain ⟨hi, rfl⟩ := List.getElem?_eq_some_iff.1 hp
  obtain ⟨hA, hB⟩ := start_lt_of_inOrder hord hse hne
  obtain ⟨hordA, -, -⟩ := List.pairwise_append.1 hord
  have hrest : (A ++ B).Perm ((planned.eraseIdx i).map PlannedEdit.edit) := by
    have h₁ : (planned[i].edit :: (planned.eraseIdx i).map PlannedEdit.edit).Perm (planned.map PlannedEdit.edit) :=
      (List.getElem_cons_eraseIdx_perm hi).map PlannedEdit.edit
    exact (List.perm_middle.symm.trans (hperm.trans h₁.symm)).cons_inv
  have hfilter : ((A ++ B).filter fun q => decide (q.stop ≤ planned[i].edit.start)) = A := by
    rw [List.filter_append, List.filter_eq_self.2, List.filter_eq_nil_iff.2, List.append_nil]
    · intro e he hle
      have := Position.le_trans (hse e (by simp [he])) (of_decide_eq_true hle)
      exact Position.not_le.2 (hB e he) this
    · intro e he
      exact decide_eq_true (hA e he).1
  have hpermA : (editsBefore planned i planned[i].edit).Perm A := by
    refine (sortBy_perm _ _).trans ?_
    rw [← hfilter]
    exact (hrest.filter _).symm
  -- both lists run from the end of the text to its beginning
  have hdown : (editsBefore planned i planned[i].edit).Pairwise fun a b => decide (b.start ≤ a.start) = true := by
    refine sortBy_pairwise ?_ ?_ _
    · intro a b c hab hbc
      simp only [decide_eq_true_eq] at *
      exact Position.le_trans hbc hab
    · intro a b
      simp only [decide_eq_true_eq]
      exact Position.le_total b.start a.start
  have hdown' : A.reverse.Pairwise fun a b => decide (b.start ≤ a.start) = true := by
    rw [List.pairwise_reverse]
    refine hordA.imp_of_mem fun {a b} ha _ hab => decide_eq_true ?_
    exact Position.le_trans (hse a (List.mem_append_left _ ha)) hab
  refine List.Perm.eq_of_pairwise ?_ hdown hdown' (hpermA.trans (List.reverse_perm A).symm)
  intro a b ha hb hab hba
  have hinj : ∀ e ∈ A, ∀ e' ∈ A, e.start = e'.start → e = e' := by
    rw [List.map_append, List.nodup_append] at hne
    exact fun e he e' he' => List.inj_on_of_nodup_map hne.1 he he'
  exact hinj a (hpermA.mem_iff.1 ha) b (List.mem_reverse.1 hb)
    (Position.le_antisymm (of_decide_eq_true hba) (of_decide_eq_true hab))

/-- With this edit alone, the cursor is in the text that the edit puts in. -/
structure PlannedEdit.OnOwnText (lines : List Text) (p : PlannedEdit) : Prop where
  inBounds : InBounds (splice p.edit lines) p.cursor
  start_le : offset lines p.edit.start ≤ offset (splice p.edit lines) p.cursor
  le_end : offset (splice p.edit lines) p.cursor ≤ offset lines p.edit.start + p.edit.text.length

/-- A cursor behind some of the text, from its beginning on. -/
theorem PlannedEdit.onOwnText_advance (h : WellFormed lines) {e : Edit} (he : e.InRange lines) {u v : Text}
    (ht : e.text = u ++ v) : (⟨e, e.start.advance u⟩ : PlannedEdit).OnOwnText lines := by
  obtain ⟨hb, ho⟩ := advance_prefix_splice h he ht
  have hu : u.length ≤ e.text.length := by
    rw [ht, List.length_append]
    exact Nat.le_add_right _ _
  refine ⟨hb, ?_, ?_⟩
  · rw [ho]
    exact Nat.le_add_right _ _
  · rw [ho]
    exact Nat.add_le_add_left hu _

/-- A cursor that its own edit puts in the text of this edit goes, in the plan, to the same place moved by what the
edits in front of it add. -/
theorem carriedCursors_spec (h : WellFormed lines) {planned : List PlannedEdit} {laid : List Edit}
    (hfit : BatchFits lines (planned.map PlannedEdit.edit)) (hlaid : LaidOut (planned.map PlannedEdit.edit) laid)
    (hne : (planned.map fun p => p.edit.start).Nodup) {i : Nat} {p : PlannedEdit} (hp : planned[i]? = some p)
    (hown : p.OnOwnText lines) :
    ∃ q, (carriedCursors planned)[i]? = some q ∧ InBounds (spliceAll laid lines) q ∧
      (offset (spliceAll laid lines) q : Int) = offset (splice p.edit lines) p.cursor +
        total (((planned.map PlannedEdit.edit).filter fun e => decide (e.start < p.edit.start)).map
          (Edit.shift lines)) := by
  have hmem : p.edit ∈ laid := hlaid.perm.mem_iff.2 (List.mem_map_of_mem (List.mem_of_getElem? hp))
  -- `A` are the edits in front of the own one along the text, `B` those behind it
  obtain ⟨A, B, rfl⟩ := List.append_of_mem hmem
  have hr := (hfit.perm hlaid.perm.symm).inRange
  have hse : ∀ e ∈ A ++ p.edit :: B, e.start ≤ e.stop := fun e he => (hr e he).ordered
  have hne' : ((A ++ p.edit :: B).map Edit.start).Nodup := by
    rw [(hlaid.perm.map Edit.start).nodup_iff, List.map_map]
    exact hne
  have hcarried : (carriedCursors planned)[i]? = some (A.foldr (fun e p => p.after e) p.cursor) := by
    rw [carriedCursors, List.getElem?_map, List.getElem?_zipIdx, hp]
    simp only [Option.map_some, Nat.zero_add, editsBefore_eq hp hlaid.perm hlaid.inOrder hse hne', List.foldl_reverse]
  have hfront : (A ++ p.edit :: B).filter (fun e => decide (e.start < p.edit.start)) = A := by
    obtain ⟨hA, hB⟩ := start_lt_of_inOrder hlaid.inOrder hse hne'
    rw [List.filter_append, List.filter_eq_self.2, List.filter_eq_nil_iff.2, List.append_nil]
    · intro e he
      rw [decide_eq_true_eq, Position.not_lt]
      rcases List.mem_cons.1 he with rfl | he
      · exact Position.le_refl _
      · exact Position.le_of_lt (hB e he)
    · intro e he
      exact decide_eq_true (hA e he).2
  obtain ⟨hb, ho⟩ := carry_own h hr hlaid.inOrder hown.inBounds hown.start_le hown.le_end
  refine ⟨_, hcarried, hb, ?_⟩
  rw [ho, total_perm ((hlaid.perm.symm.filter _).map _), hfront]

/-- Edits that fit and begin at different places can be planned whatever their order and applied as one batch, and then
every selection of the plan is a caret at the place where its own edit alone puts the cursor, moved by what the edits
that begin before it add. -/
theorem planByCursor_places {d : Document} (h : WellFormed d.lines) {origins : List Position}
    {planned : List PlannedEdit} (hpaired : origins.length = planned.length)
    (hfit : BatchFits d.lines (planned.map PlannedEdit.edit)) (hne : (planned.map fun p => p.edit.start).Nodup)
    (hown : ∀ p ∈ planned, p.OnOwnText d.lines) :
    ∃ plan d', planByCursor origins planned = .ok plan ∧ plan.edits.Perm (planned.map PlannedEdit.edit) ∧
      d.applyEdits plan.edits = .ok d' ∧ plan.selections.length = planned.length ∧
      ∀ (i : Nat) (p : PlannedEdit), planned[i]? = some p →
        ∃ q, plan.selections[i]? = some (.caret q) ∧ InBounds d'.lines q ∧
          (offset d'.lines q : Int) = offset (splice p.edit d.lines) p.cursor +
            total (((planned.map PlannedEdit.edit).filter fun e => decide (e.start < p.edit.start)).map
              (Edit.shift d.lines)) := by
  have hplan : planByCursor origins planned =
      .ok ⟨editsBottomUp (origins.zip planned), (carriedCursors planned).map Selection.caret⟩ := by
    rw [planByCursor, if_neg (Nat.not_lt.2 (Nat.le_of_eq hpaired))]
  have hperm : (editsBottomUp (origins.zip planned)).Perm (planned.map PlannedEdit.edit) := by
    have hzip : (origins.zip planned).map Prod.snd = planned := List.map_snd_zip (Nat.le_of_eq hpaired.symm)
    have hedits : ((origins.zip planned).map fun c => c.2.edit) = planned.map PlannedEdit.edit := by
      conv_rhs => rw [← hzip, List.map_map]
      rfl
    exact hedits ▸ editsBottomUp_perm (origins.zip planned)
  have hstarts : ((planned.map PlannedEdit.edit).map Edit.start).Nodup := by
    rw [List.map_map]
    exact hne
  have hlaid := hfit.laidOut_of_perm hperm hstarts
  refine ⟨_, _, hplan, hperm, applyEdits_eq_ok_iff.2 ⟨hfit.perm hperm.symm, rfl⟩, ?_, ?_⟩
  · rw [List.length_map, carriedCursors, List.length_map, List.length_zipIdx]
  · intro i p hp
    obtain ⟨q, hq, hb, ho⟩ := carriedCursors_spec h hfit hlaid hne hp (hown p (List.mem_of_getElem? hp))
    refine ⟨q, ?_, ?_, ?_⟩
    · rw [List.getElem?_map, hq, Option.map_some]
    · rw [Document.lines_afterBatch]
      exact hb
    · rw [Document.lines_afterBatch]
      exact ho

/-- The document `abc`, `de`. -/
def twoLines : Document :=
  ⟨[['a', 'b', 'c'], ['d', 'e']], "", [], 0⟩

/-- An insertion over two lines, the removal of a line end and a replacement, which follow one another from the end of
the text. -/
def threePlans : List PlannedEdit :=
  [⟨.insert ⟨1, 1⟩ ['x', '\n', 'y'], ⟨2, 1⟩⟩, ⟨.erase ⟨0, 2⟩ ⟨1, 0⟩, ⟨0, 2⟩⟩, ⟨⟨⟨0, 0⟩, ⟨0, 1⟩, ['Q', '\n']⟩, ⟨1, 0⟩⟩]

theorem planByCursor_places_threePlans :
    WellFormed twoLines.lines ∧ BatchFits twoLines.lines (threePlans.map PlannedEdit.edit) ∧
      (threePlans.map fun p => p.edit.start).Nodup ∧ (∀ p ∈ threePlans, p.OnOwnText twoLines.lines) ∧
      ∃ plan d' q, planByCursor [⟨1, 1⟩, ⟨1, 0⟩, ⟨0, 1⟩] threePlans = .ok plan ∧
        twoLines.applyEdits plan.edits = .ok d' ∧ plan.selections[0]? = some (.caret q) ∧ InBounds d'.lines q ∧
        (offset d'.lines q : Int) = 8 - 2 + 1 := by
  have hwf : WellFormed twoLines.lines := ⟨by decide, by decide⟩
  have hfit : BatchFits twoLines.lines (threePlans.map PlannedEdit.edit) := ⟨by decide, by decide⟩
  have hne : (threePlans.map fun p => p.edit.start).Nodup := by decide
  have hown : ∀ p ∈ threePlans, p.OnOwnText twoLines.lines := by
    intro p hp
    simp only [threePlans, List.mem_cons, List.not_mem_nil, or_false] at hp
    rcases hp with rfl | rfl | rfl
    · exact ⟨by decide, by decide, by decide⟩
    · exact ⟨by decide, by decide, by decide⟩
    · exact ⟨by decide, by decide, by decide⟩
  obtain ⟨plan, d', hplan, -, hd, -, hplaces⟩ := planByCursor_places (d := twoLines) hwf
    (show [⟨1, 1⟩, ⟨1, 0⟩, ⟨0, 1⟩].length = threePlans.length from rfl) hfit hne hown
  obtain ⟨q, hq, hb, ho⟩ := hplaces 0 _ rfl
  exact ⟨hwf, hfit, hne, hown, plan, d', q, hplan, hd, hq, hb, ho⟩

end MultiCaret
