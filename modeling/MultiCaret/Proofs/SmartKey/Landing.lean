import MultiCaret.Proofs.EditPlan.Agreement
import MultiCaret.Proofs.SmartKey.Recording
import MultiCaret.Proofs.SmartKey.Visible

/-!
# Where smart keys put the cursors

A smart key says where the cursors are to go before its edits are done, and the recording host takes its word.  All these
places are places of the lines that the edits leave (`react_lands`), though the host does not clamp them.  A single
cursor mostly goes behind some of the text that its edit puts in (`PlannedEdit.onOwnText_advance`).  Several cursors
that press End go to ends of lines, each of which is what its own edit makes of it (`lineOf_endEdits`); several that
press Enter are moved by the lines of the blocks above them, as the text is (`inBounds_byLine`).
-/

namespace MultiCaret

variable {lines : List Text}

/-- Every place that the action sets or shows is a place of the lines after its edits. -/
structure Action.Lands (lines : List Text) (a : Action) : Prop where
  selections : ∀ s ∈ a.selections, InBounds (spliceAll (sortBy Edit.precedes a.edits) lines) s.anchor ∧
    InBounds (spliceAll (sortBy Edit.precedes a.edits) lines) s.active
  reveal : ∀ p ∈ a.reveal, InBounds (spliceAll (sortBy Edit.precedes a.edits) lines) p

/-- If the reaction asks for something, then for places of the lines after its edits. -/
def Reaction.Lands (lines : List Text) : Reaction → Prop
  | .decline .. => True
  | .act a => a.Lands lines

private theorem lands_of_carets {a : Action} (hreveal : a.reveal = a.selections.head?.map Selection.active)
    (h : ∀ s ∈ a.selections, s.isEmpty = true ∧ InBounds (spliceAll (sortBy Edit.precedes a.edits) lines) s.active) :
    a.Lands lines := by
  refine ⟨fun s hs => ?_, fun p hp => ?_⟩
  · obtain ⟨hempty, hb⟩ := h s hs
    rw [Selection.isEmpty_iff.1 hempty]
    exact ⟨hb, hb⟩
  · rw [hreveal] at hp
    obtain ⟨s, hs, rfl⟩ := Option.map_eq_some_iff.1 hp
    exact (h s (List.mem_of_head? hs)).2

private theorem lands_caretAt {p : Position} {es : List Edit}
    (h : InBounds (spliceAll (sortBy Edit.precedes es) lines) p)
    (c : ToggleChange) : (Action.caretAt p es c).Lands lines := by
  refine lands_of_carets rfl fun s hs => ?_
  rw [List.mem_singleton.1 hs]
  exact ⟨Selection.isEmpty_caret p, h⟩

private theorem lands_single {p : Position} {e : Edit} (h : InBounds (splice e lines) p) (c : ToggleChange) :
    (Action.caretAt p [e] c).Lands lines := by
  refine lands_caretAt ?_ c
  exact h

/-- A caret behind some of the text that an edit puts in, from its beginning on. -/
private theorem lands_advance (h : WellFormed lines) {e : Edit} (he : e.InRange lines) {u v : Text}
    (ht : e.text = u ++ v)
    {p : Position} (hp : e.start.advance u = p) (c : ToggleChange) : (Action.caretAt p [e] c).Lands lines :=
  lands_single (hp ▸ (PlannedEdit.onOwnText_advance h he ht).inBounds) c

/-! ### Plans for cursors on lines of their own -/

/-- The cursor has an edit on its line that removes no line, and goes below it in the text that this edit puts in. -/
structure OnOwnLine (lines : List Text) (c : Position × PlannedEdit) : Prop where
  start : c.2.edit.start.line = c.1.line
  stop : c.2.edit.stop.line = c.1.line
  below : c.1.line < c.2.cursor.line
  growth : 0 ≤ c.2.edit.growth
  own : c.2.OnOwnText lines

/-- In a batch laid out along the text with one edit at most on a line, a cursor below its own edit is carried down by
the lines that the edits above it add. -/
private theorem inBounds_below (h : WellFormed lines) {laid : List Edit} (hr : ∀ e ∈ laid, e.InRange lines)
    (hord : laid.Pairwise fun a b => a.stop ≤ b.start)
    (hedit : ∀ e ∈ laid, e.stop.line = e.start.line ∧ 0 ≤ e.growth) (hlines : (laid.map fun e => e.start.line).Nodup)
    {p : PlannedEdit} (hp : p.edit ∈ laid) (hown : p.OnOwnText lines) (hbelow : p.edit.start.line < p.cursor.line) :
    InBounds (spliceAll laid lines)
      ⟨p.cursor.line + total ((laid.filter fun e => decide (e.start.line < p.edit.start.line)).map Edit.growth),
        p.cursor.column⟩ := by
  -- `A` are the edits on the lines above, `B` those on the lines below
  obtain ⟨A, B, rfl⟩ := List.append_of_mem hp
  obtain ⟨-, hordB, hAB⟩ := List.pairwise_append.1 hord
  obtain ⟨hnext, -⟩ := List.pairwise_cons.1 hordB
  have habove : ∀ e ∈ A, e.start.line < p.edit.start.line := by
    intro e he
    have hle := Position.le_def.1 (hAB e he _ List.mem_cons_self)
    have hline := (hedit e (List.mem_append_left _ he)).1
    rw [List.map_append, List.nodup_append] at hlines
    have hne : e.start.line ≠ p.edit.start.line := hlines.2.2 _ (List.mem_map_of_mem he) _ List.mem_cons_self
    omega
  have hbeneath : ∀ e ∈ p.edit :: B, p.edit.start.line ≤ e.start.line := by
    intro e he
    rcases List.mem_cons.1 he with rfl | heB
    · exact Int.le_refl _
    · have hle := Position.le_def.1 (hnext e heB)
      have hline := (hedit p.edit hp).1
      omega
  have hfront : (A ++ p.edit :: B).filter (fun e => decide (e.start.line < p.edit.start.line)) = A := by
    rw [List.filter_append, List.filter_eq_self.2, List.filter_eq_nil_iff.2, List.append_nil]
    · exact fun e he hlt => Int.not_lt.2 (hbeneath e he) (of_decide_eq_true hlt)
    · exact fun e he => decide_eq_true (habove e he)
  obtain ⟨-, hfold⟩ := foldr_after_below (A := A) (p := p.cursor) fun e he => by
    obtain ⟨hline, hgrowth⟩ := hedit e (List.mem_append_left _ he)
    have := habove e he
    exact ⟨by omega, hgrowth⟩
  obtain ⟨hb, -⟩ := carry_own h hr hord hown.inBounds hown.start_le hown.le_end
  rw [hfold] at hb
  rw [hfront]
  exact hb

/-- In a plan for cursors on lines of their own, every cursor goes to a place of the lines after the batch. -/
theorem inBounds_byLine (h : WellFormed lines) {cursors : List (Position × PlannedEdit)}
    (hfit : BatchFits lines (cursors.map fun c => c.2.edit)) (hcursors : ∀ c ∈ cursors, OnOwnLine lines c)
    (hnodup : ((cursors.map Prod.fst).map Position.line).Nodup) {s : Selection}
    (hs : s ∈ (EditPlan.byLine cursors).selections) :
    s.isEmpty = true ∧ InBounds (spliceAll (sortBy Edit.precedes (EditPlan.byLine cursors).edits) lines) s.active := by
  obtain ⟨c, hc, rfl⟩ := List.mem_map.1 hs
  have hperm := (sortBy_perm Edit.precedes (EditPlan.byLine cursors).edits).trans (editsBottomUp_perm cursors)
  have hedit : ∀ e ∈ sortBy Edit.precedes (EditPlan.byLine cursors).edits,
      e.stop.line = e.start.line ∧ 0 ≤ e.growth := by
    intro e he
    obtain ⟨d, hd, rfl⟩ := List.mem_map.1 (hperm.mem_iff.1 he)
    exact ⟨(hcursors d hd).stop.trans (hcursors d hd).start.symm, (hcursors d hd).growth⟩
  have hlines : ((sortBy Edit.precedes (EditPlan.byLine cursors).edits).map fun e => e.start.line).Nodup := by
    rw [(hperm.map _).nodup_iff, List.map_map]
    rw [List.map_map] at hnodup
    exact (List.map_congr_left fun d hd => (hcursors d hd).start).symm ▸ hnodup
  have hb := inBounds_below h (hfit.perm hperm.symm).inRange (hfit.perm (editsBottomUp_perm cursors).symm).sorted hedit
    hlines (hperm.mem_iff.2 (List.mem_map_of_mem hc)) (hcursors c hc).own
    (by rw [(hcursors c hc).start]; exact (hcursors c hc).below)
  rw [(hcursors c hc).start, total_perm ((hperm.filter _).map _), ← lineShift_eq] at hb
  exact ⟨Selection.isEmpty_caret _, hb⟩

namespace SmartKey

variable {s : Scene} {a : Action}

/-! ### The End key -/

private theorem reindent_eq_some {n : Int} {old indent : Text} {e : Edit} (h : reindent? n old indent = some e) :
    e = ⟨⟨n, 0⟩, ⟨n, old.length⟩, indent⟩ := by
  unfold reindent? at h
  split at h
  · cases h
  · exact (Option.some.inj h).symm

private theorem indentBlank_lands (hwf : WellFormed s.lines) {n : Int} (h : HasLine s.lines n) :
    (indentBlank s n).Lands s.lines := by
  have hindent := newline_not_mem_indentFor hwf n s.indent
  unfold indentBlank
  simp only
  cases he : reindent? n (lineOf s.lines n) (indentFor s.lines n s.indent) with
  | none =>
    refine lands_caretAt ?_ _
    rw [← reindent_eq_none he]
    exact inBounds_onLine h (Nat.le_refl _)
  | some e =>
    have hr := (inRange_reindent h he).1
    obtain rfl := reindent_eq_some he
    refine lands_advance hwf hr (List.append_nil _).symm ?_ _
    rw [Position.advance_of_not_mem _ hindent, Int.zero_add]

private theorem goToEnd_lands {n : Int} (h : HasLine s.lines n) (trimmed : Bool) :
    (goToEnd s.lines n trimmed).Lands s.lines := by
  have hcolumn : (if trimmed = true then (trimEnd (lineOf s.lines n)).length else (lineOf s.lines n).length) ≤
      (lineOf s.lines n).length := by
    split
    · exact length_trimEnd_le _
    · exact Nat.le_refl _
  refine lands_caretAt ?_ _
  exact inBounds_onLine h hcolumn

/-- What an indented line becomes. -/
private theorem endEdit_within (hwf : WellFormed s.lines) {n : Int} {e : Edit} (h : endEdit? s n = some e) :
    (HasLine s.lines n ∧ isBlankText (lineOf s.lines n) = true ∧ s.settings.endIndentsEmptyLine = true) ∧
      e.OneLine s.lines ∧ e.start.line = n ∧ e.within (lineOf s.lines n) = indentFor s.lines n s.indent := by
  unfold endEdit? at h
  simp only at h
  split at h
  · next hcond =>
    obtain ⟨hone, hstart, hwithin, -⟩ := reindent_spec hcond.1 (newline_not_mem_indentFor hwf n s.indent) h
    exact ⟨hcond, hone, hstart, hwithin⟩
  · cases h

/-- After several lines have been indented, the blank ones have their indentation and the others are as they were. -/
theorem lineOf_endEdits (hwf : WellFormed s.lines) {ns : List Int} (hnodup : ns.Nodup) :
    (spliceAll (sortBy Edit.precedes (ns.filterMap (endEdit? s))) s.lines).length = s.lines.length ∧
      (∀ n ∈ ns, HasLine s.lines n →
        lineOf (spliceAll (sortBy Edit.precedes (ns.filterMap (endEdit? s))) s.lines) n =
          if isBlankText (lineOf s.lines n) ∧ s.settings.endIndentsEmptyLine then indentFor s.lines n s.indent
          else lineOf s.lines n) ∧
      ∀ n, n ∉ ns →
        lineOf (spliceAll (sortBy Edit.precedes (ns.filterMap (endEdit? s))) s.lines) n = lineOf s.lines n := by
  have hperm := sortBy_perm Edit.precedes (ns.filterMap (endEdit? s))
  have hmem : ∀ e ∈ sortBy Edit.precedes (ns.filterMap (endEdit? s)), ∃ n ∈ ns, endEdit? s n = some e := fun e he =>
    List.mem_filterMap.1 (hperm.mem_iff.1 he)
  have hone : ∀ e ∈ sortBy Edit.precedes (ns.filterMap (endEdit? s)), e.OneLine s.lines := by
    intro e he
    obtain ⟨n, -, hn⟩ := hmem e he
    exact (endEdit_within hwf hn).2.1
  obtain ⟨⟨-, hlen⟩, hown, hother⟩ :=
    lineOf_spliceAll hwf hone ((hperm.map _).nodup_iff.2 (nodup_endEdits ns hnodup))
  refine ⟨hlen, fun n hn hline => ?_, fun n hn => ?_⟩
  · cases he : endEdit? s n with
    | some e =>
      obtain ⟨⟨-, hcond⟩, -, hstart, hwithin⟩ := endEdit_within hwf he
      have hset := hown e (hperm.mem_iff.2 (List.mem_filterMap.2 ⟨n, hn, he⟩))
      rw [hstart, hwithin] at hset
      rw [hset, if_pos hcond]
    | none =>
      rw [hother n]
      · -- a blank line that is not changed has its indentation already
        split
        · next hcond =>
          unfold endEdit? at he
          simp only [if_pos (And.intro hline hcond)] at he
          exact reindent_eq_none he
        · rfl
      · intro e hmem' hstart
        obtain ⟨m, -, hm⟩ := hmem e hmem'
        obtain ⟨-, -, hstart', -⟩ := endEdit_within hwf hm
        rw [← hstart', hstart, he] at hm
        cases hm
  · refine hother n fun e he hstart => hn ?_
    obtain ⟨m, hm, hme⟩ := hmem e he
    obtain ⟨-, -, hstart', -⟩ := endEdit_within hwf hme
    rw [← hstart, hstart']
    exact hm

private theorem endEach_lands (hwf : WellFormed s.lines)
    (hlines : ∀ sel ∈ s.selections, HasLine s.lines sel.active.line) : (endEach s).Lands s.lines := by
  refine lands_of_carets rfl fun sel hsel => ?_
  obtain ⟨old, hold, rfl⟩ := List.mem_map.1 hsel
  have hline := hlines old hold
  obtain ⟨hlen, hnew, -⟩ := lineOf_endEdits hwf (nodup_eraseDups (s.selections.map fun sel => sel.active.line))
  have hnew' := hnew old.active.line (List.mem_eraseDups.2 (List.mem_map_of_mem (f := fun sel => sel.active.line) hold))
    hline
  have hline' : HasLine (spliceAll (sortBy Edit.precedes (endEach s).edits) s.lines) old.active.line :=
    ⟨hline.1, by rw [endEach, hlen]; exact hline.2⟩
  unfold endCaret
  simp only [if_pos hline]
  split
  · next hcond =>
    rw [if_pos hcond] at hnew'
    exact ⟨Selection.isEmpty_caret _, inBounds_onLine hline' (Nat.le_of_eq (congrArg List.length hnew').symm)⟩
  · next hcond =>
    rw [if_neg hcond] at hnew'
    have hle := Nat.le_of_eq (congrArg List.length hnew').symm
    split
    · exact ⟨Selection.isEmpty_caret _, inBounds_onLine hline' (Nat.le_trans (length_trimEnd_le _) hle)⟩
    · exact ⟨Selection.isEmpty_caret _, inBounds_onLine hline' hle⟩

private theorem endKey_lands (hwf : WellFormed s.lines) (hlines : ∀ sel ∈ s.selections, HasLine s.lines sel.active.line)
    (h : endKey s = .act a) : a.Lands s.lines := by
  rcases endKey_act h with ⟨n, hn, rfl⟩ | ⟨n, trimmed, hn, rfl⟩ | ⟨-, rfl⟩
  · exact indentBlank_lands hwf hn
  · exact goToEnd_lands hn trimmed
  · exact endEach_lands hwf hlines

/-! ### The Backspace key -/

private theorem backspaceKey_lands (hwf : WellFormed s.lines) (h : backspaceKey s = .act a) : a.Lands s.lines := by
  obtain ⟨A, above, l, B, kept, x, y, column, -, -, hw⟩ := backspaceKey_act hwf h
  refine lands_of_carets ?_ fun sel hsel => ?_
  · rw [hw.reveal, hw.selections]
    rfl
  · rw [hw.selections] at hsel
    rw [List.mem_singleton.1 hsel]
    exact ⟨Selection.isEmpty_caret _, hw.inBounds⟩

/-! ### The Enter key -/

/-- The cursor of a block stands in the text of the block. -/
private theorem onOwnText_block (hwf : WellFormed s.lines) {e : Edit} (he : e.InRange s.lines) {l unit : Text} {b : Nat}
    (hl : '\n' ∉ l) (hunit : '\n' ∉ unit) (ht : e.text = blockText l b unit) :
    (⟨e, ⟨e.start.line + 1, (leadingBlanks l).length + unit.length⟩⟩ : PlannedEdit).OnOwnText s.lines := by
  obtain ⟨rest, hrest⟩ : ∃ rest, e.text = ('\n' :: (leadingBlanks l ++ unit)) ++ rest := by
    rw [ht, blockText]
    simp only [List.cons_append, List.append_assoc]
    exact ⟨_, rfl⟩
  have hindent : '\n' ∉ leadingBlanks l ++ unit := by
    rw [List.mem_append]
    exact fun hm => hm.elim (fun h => hl (mem_of_mem_leadingBlanks h)) hunit
  have hown := PlannedEdit.onOwnText_advance hwf he hrest
  rw [Position.advance_newline _ hindent, List.length_append, Int.natCast_add] at hown
  exact hown

private theorem block_lands (hwf : WellFormed s.lines) {n column : Int} {l : Text} (hl : '\n' ∉ l) {p : PlannedEdit}
    (hp : block? s n l column = some p) {e : Edit} (he : e.InRange s.lines) (hstart : e.start = p.edit.start)
    (ht : e.text = p.edit.text) : (Reaction.act (.caretAt p.cursor [e] .keep)).Lands s.lines := by
  unfold block? at hp
  split at hp
  · obtain ⟨b, -, hedit, -⟩ := expandBrace_spec hp
    rw [hedit] at hstart ht
    have hown := onOwnText_block hwf he hl (newline_not_mem_unit s.indent) ht
    rw [hstart, ← expandBrace_cursor hp] at hown
    exact lands_single hown.inBounds _
  · cases hp

private theorem enterOnLine_lands (hwf : WellFormed s.lines) {n column : Int} (h : HasLine s.lines n) (h₀ : 0 ≤ column)
    (hcolumn : column ≤ (lineOf s.lines n).length) : (enterOnLine s n column (lineOf s.lines n)).Lands s.lines := by
  have hl := hwf.lineOf n
  unfold enterOnLine
  split
  · split
    · next p hp =>
      obtain ⟨b, hb, hedit, -⟩ := block_spec hp
      refine block_lands hwf hl hp ?_ rfl rfl
      rw [hedit]
      exact inRange_onLine h (length_braceBefore_le hb) (Nat.le_refl _) _
    · trivial
  · next k hk =>
    have hk' := missingTerminator_eq hk
    simp only
    split
    · next p hp =>
      obtain ⟨b, hb, hedit, -⟩ := block_spec hp
      refine block_lands hwf (newline_not_mem_comma hl k) hp ?_ rfl rfl
      rw [hk'] at hb
      rw [hedit]
      exact inRange_onLine h (Nat.le_trans (length_braceBefore_comma_le hb) (length_trimEnd_le _)) (Nat.le_refl _) _
    · -- the comma makes its line one character longer, and moves the cursor only if it is put in in front of it
      have hle : k ≤ (lineOf s.lines n).length := hk' ▸ length_trimEnd_le _
      have hone : ∀ e ∈ [Edit.insert ⟨n, k⟩ [',']], e.OneLine s.lines :=
        List.forall_mem_singleton.2 ⟨inRange_onLine h (Nat.le_refl k) hle _, rfl, show '\n' ∉ [','] by decide⟩
      obtain ⟨⟨-, hlen⟩, hline, -⟩ := lineOf_spliceAll hwf hone (List.nodup_singleton _)
      have hnew := congrArg List.length (hline _ (List.mem_singleton.2 rfl))
      simp only [Edit.insert, Edit.within, Int.toNat_natCast, List.length_append, List.length_take, List.length_drop,
        List.length_singleton] at hlen hnew
      have hb : InBounds (spliceAll [Edit.mk ⟨n, k⟩ ⟨n, k⟩ [',']] s.lines)
          ⟨n, if k ≤ column then column + 1 else column⟩ := by
        refine ⟨⟨h.1, hlen ▸ h.2⟩, ?_, ?_⟩
        · simp only
          split <;> omega
        · simp only [hnew]
          split <;> omega
      refine ⟨fun sel hsel => ?_, fun p hp => by cases hp⟩
      rw [List.mem_singleton.1 hsel]
      exact ⟨hb, hb⟩

private theorem onOwnLine_blockAt (hwf : WellFormed s.lines) {c : Position × PlannedEdit}
    (h : blockAt? s c.1 = some c.2) : OnOwnLine s.lines c := by
  obtain ⟨-, hr, hstart, hstop, hcursor⟩ := blockAt_spec h
  refine ⟨hstart, hstop, by omega, ?_, ?_⟩
  · simp only [Edit.growth]
    omega
  · unfold blockAt? at h
    simp only at h
    split at h
    · obtain ⟨b, -, hedit, -⟩ := expandBrace_spec h
      have hown := onOwnText_block hwf hr (hwf.lineOf c.1.line) (newline_not_mem_unit s.indent)
        (congrArg Edit.text hedit)
      rw [hstart, ← expandBrace_cursor h] at hown
      exact hown
    · cases h

private theorem enterMany_lands (hwf : WellFormed s.lines) : (enterMany s).Lands s.lines := by
  unfold enterMany
  simp only
  split
  · next hcond =>
    split
    · trivial
    · next planned hplanned =>
      obtain ⟨hblock, hfst⟩ := mapM_zip hplanned
      have hnodup := hfst.symm ▸ hcond.2
      exact lands_of_carets rfl fun sel hsel => inBounds_byLine hwf (batchFits_blocks hblock hnodup)
        (fun c hc => onOwnLine_blockAt hwf (hblock c hc)) hnodup hsel
  · trivial

private theorem enterKey_lands (hwf : WellFormed s.lines) (hcolumns : ∀ sel ∈ s.selections, 0 ≤ sel.active.column) :
    (enterKey s).Lands s.lines := by
  unfold enterKey
  split
  · split
    · next sel hsel =>
      have hcol := hcolumns sel (hsel ▸ List.mem_singleton.2 rfl)
      simp only
      split
      · next hline => exact enterOnLine_lands hwf hline (by omega) (by omega)
      · trivial
    · exact enterMany_lands hwf
  · trivial

/-! ### The separator key -/

private theorem separatorKey_lands (hwf : WellFormed s.lines) (hcolumns : ∀ sel ∈ s.selections, 0 ≤ sel.active.column)
    (h : separatorKey s = .act a) : a.Lands s.lines := by
  obtain ⟨p, name, hcompletes, rfl⟩ := separatorKey_eq h
  have hcol : 0 ≤ p.column := hcolumns (.caret p) (hcompletes.selections ▸ List.mem_singleton.2 rfl)
  have hone := oneLine_completingEdit hwf hcompletes hcol
  refine lands_advance hwf hone.inRange (List.append_nil _).symm ?_ _
  exact Position.advance_of_not_mem _ hone.no_newline

end SmartKey

/-- With the cursors on lines of the document and not in front of them, a smart key asks for places of the lines after
its edits. -/
theorem react_lands (key : SmartKeyName) {s : Scene} (hwf : WellFormed s.lines)
    (hsel : ∀ sel ∈ s.selections, HasLine s.lines sel.active.line ∧ 0 ≤ sel.active.column) {a : Action}
    (h : key.react s = .act a) : a.Lands s.lines := by
  cases key with
  | lineEnd => exact SmartKey.endKey_lands hwf (fun sel hs => (hsel sel hs).1) h
  | backspace => exact SmartKey.backspaceKey_lands hwf h
  | enter =>
    have hlands := SmartKey.enterKey_lands hwf fun sel hs => (hsel sel hs).2
    rw [show SmartKey.enterKey s = .act a from h] at hlands
    exact hlands
  | separator => exact SmartKey.separatorKey_lands hwf (fun sel hs => (hsel sel hs).2) h

/-- With the cursors not in front of their lines, the edits of a smart key fit. -/
private theorem react_batchFits_of_columns {key : SmartKeyName} {s : Scene}
    (hcolumns : ∀ sel ∈ s.selections, 0 ≤ sel.active.column)
    {a : Action} (h : key.react s = .act a) : BatchFits s.lines a.edits := by
  by_cases hkey : key = .separator
  · subst hkey
    obtain ⟨p, name, hcompletes, rfl⟩ := SmartKey.separatorKey_eq h
    exact batchFits_singleton (Recorder.inRange_completingEdit hcompletes
      (hcolumns (.caret p) (hcompletes.selections ▸ List.mem_singleton.2 rfl)))
  · exact react_batchFits hkey h

namespace Recorder

variable {r r' : Recorder}

/-- With the cursors on lines of the document, behind their ends or not, a press goes through; and if the key acts, every
selection that it sets and every position that it shows is a place of the document after its edits, though nobody
clamps them. -/
theorem press_lands (hwf : WellFormed r.document.lines)
    (hsel : ∀ sel ∈ r.selections, HasLine r.document.lines sel.active.line ∧ 0 ≤ sel.active.column)
    (key : SmartKeyName) :
    ∃ r' handled, r.press key = .ok (r', handled) ∧ (handled = true →
      (∀ sel ∈ r'.selections, InBounds r'.document.lines sel.anchor ∧ InBounds r'.document.lines sel.active) ∧
        ∃ shown, r'.revealed = r.revealed ++ shown ∧ ∀ p ∈ shown, InBounds r'.document.lines p) := by
  cases h : r.press key with
  | error f =>
    obtain ⟨a, hreact, herror⟩ := press_eq_error_iff.1 h
    have hfit := react_batchFits_of_columns (s := r.scene) (fun sel hs => (hsel sel hs).2) hreact
    rw [applyEdits_eq_ok_iff.2 ⟨hfit, rfl⟩] at herror
    cases herror
  | ok result =>
    refine ⟨result.1, result.2, rfl, fun hhandled => ?_⟩
    rcases press_cases h with ⟨hdeclined, -⟩ | ⟨a, hreact, -, hcarry⟩
    · rw [hdeclined] at hhandled
      cases hhandled
    · obtain ⟨-, hdoc, hselections, -⟩ := carryOut_spec hcarry
      have hlands : a.Lands r.document.lines := react_lands key (s := r.scene) hwf hsel hreact
      have hlines : result.1.document.lines = spliceAll (sortBy Edit.precedes a.edits) r.document.lines := by
        rw [hdoc, Document.lines_afterBatch]
      rw [hlines, hselections]
      refine ⟨hlands.selections, a.reveal.toList, revealed_carryOut hcarry, fun p hp => ?_⟩
      exact hlands.reveal p (Option.mem_toList.1 hp)

/-- Two lines that end in opening braces, with the cursors behind the ends of both. -/
def behindBraces : Recorder :=
  ofText "a \x7b\n  b \x7b".toList "plaintext".toList [.caret ⟨1, 9⟩, .caret ⟨0, 7⟩]

theorem press_lands_behindBraces :
    WellFormed behindBraces.document.lines ∧
      (∀ sel ∈ behindBraces.selections, HasLine behindBraces.document.lines sel.active.line ∧ 0 ≤ sel.active.column) ∧
      ∃ r', behindBraces.press .enter = .ok (r', true) ∧
        (∀ sel ∈ r'.selections, InBounds r'.document.lines sel.anchor ∧ InBounds r'.document.lines sel.active) ∧
        ∃ shown, r'.revealed = behindBraces.revealed ++ shown ∧ ∀ p ∈ shown, InBounds r'.document.lines p := by
  have hwf : WellFormed behindBraces.document.lines := wellFormed_splitLines _
  have hsel : ∀ sel ∈ behindBraces.selections,
      HasLine behindBraces.document.lines sel.active.line ∧ 0 ≤ sel.active.column := by decide +kernel
  have hacts : (behindBraces.press .enter).map Prod.snd = .ok true := by rfl
  obtain ⟨r', handled, h, hlands⟩ := press_lands hwf hsel .enter
  obtain rfl : handled = true := by
    rw [h] at hacts
    exact Except.ok.inj hacts
  exact ⟨hwf, hsel, r', h, hlands rfl⟩

end Recorder

end MultiCaret
