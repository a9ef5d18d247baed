import MultiCaret.Proofs.Braces.Expansion
import MultiCaret.Proofs.Document.Expanding
import MultiCaret.Proofs.EditPlan.Agreement
import MultiCaret.Proofs.SmartKey.Recording

/-!
# Blocks for several cursors

Several cursors that press Enter open their blocks together.  Each cuts its line at the brace in front of it
(`SmartKey.blockAt_cut`), its edit breaks this line into three (`SmartKey.BlockAt.pieces`), and no other line is touched
(`Recorder.press_enter_many`).  So a block begins as many lines further down as the blocks above it have added, two for
each, and the cursor of the block stands one line below that.
-/

namespace MultiCaret

/-- What goes into the block of the text behind a brace: all of it without the blanks around, unless there is a closing
brace in it. -/
def carriedText (rest : Text) : Text :=
  if rest.contains '\x7d' then [] else trim rest

/-- What is kept behind the closing brace of the block: the text behind the first closing brace that was there. -/
def keptText (rest : Text) : Text :=
  (afterCloser? rest).getD []

/-- The line behind the last character in front of the column that is no blank. -/
def textBehind (l : Text) (column : Int) : Text :=
  l.drop (trimEnd (upTo l column)).length

/-- The three lines of a block that is opened on the line `l` with a cursor at the column: up to the brace in front of
the cursor, one step deeper what goes into the block, and the closing brace with what is kept behind it. -/
def blockLines (l : Text) (column : Int) (unit : Text) : List Text :=
  [trimEnd (upTo l column), leadingBlanks l ++ unit ++ carriedText (textBehind l column),
    leadingBlanks l ++ '\x7d' :: keptText (textBehind l column)]

/-- Is there a cursor on the line of this number? -/
def hasCursor (sels : List Selection) (i : Nat) : Bool :=
  decide ((i : Int) ∈ sels.map fun sel => sel.active.line)

/-- What becomes of a line when every selection opens a block: the block of the selection on it, or the line itself. -/
def openedLines (sels : List Selection) (unit : Text) (n : Nat) (l : Text) : List Text :=
  match sels.find? fun sel => sel.active.line == (n : Int) with
  | some sel => blockLines l sel.active.column unit
  | none => [l]

/-- The line on which the cursor of a block stands: the second one of its block, below the blocks of the selections on
the lines above. -/
def blockCursorLine (sels : List Selection) (n : Int) : Int :=
  n + 1 + 2 * (sels.countP fun sel => decide (sel.active.line < n) : Nat)

/-! ### One line -/

/-- The text of a block ends its first line and makes up two more. -/
private theorem blockText_eq (l : Text) (b : Nat) (unit : Text) :
    blockText l b unit = '\n' :: (leadingBlanks l ++ unit ++ carriedText (l.drop (b + 1))) ++
      '\n' :: (leadingBlanks l ++ '\x7d' :: keptText (l.drop (b + 1))) := by
  have hrest : afterCloser? (l.drop (b + 1)) =
      if (l.drop (b + 1)).contains '\x7d' then some (((l.drop (b + 1)).dropWhile (· != '\x7d')).drop 1) else none := rfl
  unfold blockText carriedText keptText
  split
  · next h =>
    rw [if_pos h] at hrest
    simp only [hrest, Option.getD_some, List.append_nil, List.cons_append, List.append_assoc]
  · next h =>
    rw [if_neg h] at hrest
    simp only [hrest, Option.getD_none, List.cons_append, List.append_assoc]

private theorem newline_not_mem_keptText {rest : Text} (h : '\n' ∉ rest) : '\n' ∉ keptText rest := by
  unfold keptText afterCloser?
  split
  · exact fun hm => h ((List.dropWhile_suffix _).subset (List.mem_of_mem_drop hm))
  · exact List.not_mem_nil

private theorem newline_not_mem_carriedText {rest : Text} (h : '\n' ∉ rest) : '\n' ∉ carriedText rest := by
  unfold carriedText
  split
  · exact List.not_mem_nil
  · exact fun hm => h (mem_of_mem_trim hm)

/-! ### Lines with and without a cursor -/

theorem hasCursor_iff {sels : List Selection} {i : Nat} :
    hasCursor sels i = true ↔ ∃ sel ∈ sels, sel.active.line = i := by
  rw [hasCursor, decide_eq_true_eq, List.mem_map]

theorem openedLines_of_not {sels : List Selection} {unit : Text} {i : Nat} {l : Text}
    (h : ¬ hasCursor sels i = true) : openedLines sels unit i l = [l] := by
  have hnone : (sels.find? fun sel => sel.active.line == (i : Int)) = none :=
    List.find?_eq_none.2 fun sel hsel hline => h (hasCursor_iff.2 ⟨sel, hsel, beq_iff_eq.1 hline⟩)
  rw [openedLines, hnone]

/-- With the selections on different lines, the block of a line is that of any selection that is found on it. -/
theorem openedLines_of_mem {sels : List Selection} (hnodup : (sels.map fun sel => sel.active.line).Nodup) {unit : Text}
    {i : Nat} {l : Text} {sel : Selection} (hsel : sel ∈ sels) (hline : sel.active.line = i) :
    openedLines sels unit i l = blockLines l sel.active.column unit := by
  rw [openedLines, find?_of_nodup hnodup hsel hline]

namespace SmartKey

variable {s : Scene}

/-- The cursor at `o` plans a block: the brace in front of it, blanks aside, cuts its line into `x` and `rest`, and needs
a closer on the lines without `rest`. -/
structure BlockAt (s : Scene) (o : Position) (p : PlannedEdit) (x rest : Text) : Prop where
  hasLine : HasLine s.lines o.line
  line : lineOf s.lines o.line = x ++ '\x7b' :: rest
  before : trimEnd (upTo (lineOf s.lines o.line) o.column) = x ++ ['\x7b']
  edit : p.edit = ⟨⟨o.line, (x.length + 1 : Nat)⟩, ⟨o.line, (lineOf s.lines o.line).length⟩,
    blockText (lineOf s.lines o.line) x.length s.indent.unit⟩
  cursor : p.cursor = ⟨o.line + 1, (leadingBlanks (lineOf s.lines o.line)).length + s.indent.unit.length⟩
  closer : needsCloser (s.lines.set o.line.toNat (x ++ ['\x7b'])) ⟨o.line, x.length⟩ = true

theorem blockAt_cut {o : Position} {p : PlannedEdit} (h : blockAt? s o = some p) : ∃ x rest, BlockAt s o p x rest := by
  unfold blockAt? at h
  simp only at h
  split at h
  · next hline =>
    obtain ⟨x, rest, hl, hbefore, hedit, hcloser⟩ := expandBrace_cut h
    rw [upTo_min] at hbefore
    exact ⟨x, rest, hline, hl, hbefore, hedit, expandBrace_cursor h, hcloser⟩
  · cases h

theorem BlockAt.textBehind_eq {o : Position} {p : PlannedEdit} {x rest : Text} (h : BlockAt s o p x rest) :
    textBehind (lineOf s.lines o.line) o.column = rest := by
  rw [textBehind, h.before, h.line, List.length_append, List.length_singleton, drop_cut]

/-- The first line of the block ends with the brace, and what stands behind the brace goes into the other ones. -/
theorem BlockAt.blockLines_eq {o : Position} {p : PlannedEdit} {x rest : Text} (h : BlockAt s o p x rest) :
    blockLines (lineOf s.lines o.line) o.column s.indent.unit = [x ++ ['\x7b'],
      leadingBlanks (lineOf s.lines o.line) ++ s.indent.unit ++ carriedText rest,
      leadingBlanks (lineOf s.lines o.line) ++ '\x7d' :: keptText rest] := by
  rw [blockLines, h.before, h.textBehind_eq]

/-- The edit of a block breaks its line into the three lines of the block. -/
theorem BlockAt.pieces (hwf : WellFormed s.lines) {o : Position} {p : PlannedEdit} {x rest : Text}
    (h : BlockAt s o p x rest) : splitLines (p.edit.within (lineOf s.lines o.line)) =
      blockLines (lineOf s.lines o.line) o.column s.indent.unit := by
  have hl := hwf.lineOf o.line
  have htake : (lineOf s.lines o.line).take (x.length + 1) = x ++ ['\x7b'] := by rw [h.line, take_cut]
  have hdrop : (lineOf s.lines o.line).drop (x.length + 1) = rest := by rw [h.line, drop_cut]
  have hrest : '\n' ∉ rest := hdrop ▸ fun hm => hl (List.mem_of_mem_drop hm)
  have hbase : '\n' ∉ leadingBlanks (lineOf s.lines o.line) := fun hm => hl (mem_of_mem_leadingBlanks hm)
  have hfirst : '\n' ∉ x ++ ['\x7b'] := htake ▸ fun hm => hl (List.mem_of_mem_take hm)
  have hsecond : '\n' ∉ leadingBlanks (lineOf s.lines o.line) ++ s.indent.unit ++ carriedText rest := by
    simp only [List.mem_append, not_or]
    exact ⟨⟨hbase, newline_not_mem_unit _⟩, newline_not_mem_carriedText hrest⟩
  have hthird : '\n' ∉ leadingBlanks (lineOf s.lines o.line) ++ '\x7d' :: keptText rest := by
    simp only [List.mem_append, List.mem_cons, not_or]
    exact ⟨hbase, by decide, newline_not_mem_keptText hrest⟩
  have hwithin : p.edit.within (lineOf s.lines o.line) = (x ++ ['\x7b']) ++
      '\n' :: ((leadingBlanks (lineOf s.lines o.line) ++ s.indent.unit ++ carriedText rest) ++
        '\n' :: (leadingBlanks (lineOf s.lines o.line) ++ '\x7d' :: keptText rest)) := by
    simp only [h.edit, Edit.within, Int.toNat_natCast, htake, List.drop_length, List.append_nil, blockText_eq, hdrop,
      List.cons_append, List.append_assoc]
  rw [hwithin, splitLines, splitOn_append_cons hfirst, splitOn_append_cons hsecond, splitOn_of_not_mem hthird,
    h.blockLines_eq]

/-! ### Several cursors -/

/-- With several cursors, Enter asks for the plan of all their blocks. -/
private theorem enterKey_many {a : Action} (hmany : 2 ≤ s.selections.length) (h : enterKey s = .act a) :
    ∃ cursors : List (Position × PlannedEdit), cursors.map Prod.fst = s.selections.map Selection.active ∧
      (∀ c ∈ cursors, blockAt? s c.1 = some c.2) ∧ ((s.selections.map Selection.active).map Position.line).Nodup ∧
      a.edits = (EditPlan.byLine cursors).edits ∧ a.selections = (EditPlan.byLine cursors).selections := by
  unfold enterKey at h
  split at h
  · split at h
    · next sel hsel =>
      rw [hsel, List.length_singleton] at hmany
      omega
    · unfold enterMany at h
      simp only at h
      split at h
      · next hcond =>
        split at h
        · cases h
        · next planned hplanned =>
          obtain ⟨hblock, hfst⟩ := mapM_zip hplanned
          obtain rfl := Reaction.act.inj h
          exact ⟨_, hfst, hblock, hcond.2, rfl, rfl⟩
      · cases h
  · cases h

/-- The edits of the blocks break every line with a cursor into the three lines of its block. -/
private theorem spliceAll_blocks (hwf : WellFormed s.lines) {cursors : List (Position × PlannedEdit)}
    (hfst : cursors.map Prod.fst = s.selections.map Selection.active)
    (hblock : ∀ c ∈ cursors, blockAt? s c.1 = some c.2)
    (hnodup : ((s.selections.map Selection.active).map Position.line).Nodup) :
    spliceAll (sortBy Edit.precedes (EditPlan.byLine cursors).edits) s.lines =
      expandFrom (openedLines s.selections s.indent.unit) 0 s.lines := by
  obtain ⟨laid, hlaid⟩ : ∃ laid, laid = sortBy Edit.precedes (EditPlan.byLine cursors).edits := ⟨_, rfl⟩
  have hperm : laid.Perm (cursors.map fun c => c.2.edit) :=
    hlaid ▸ (sortBy_perm _ _).trans (editsBottomUp_perm cursors)
  have hnodup' : ((cursors.map Prod.fst).map Position.line).Nodup := by rw [hfst]; exact hnodup
  have hfit := batchFits_blocks hblock hnodup'
  have hmem : ∀ e ∈ laid, ∃ c ∈ cursors, c.2.edit = e := fun e he => List.mem_map.1 (hperm.mem_iff.1 he)
  have hone : ∀ e ∈ laid, e.stop.line = e.start.line := by
    intro e he
    obtain ⟨c, hc, rfl⟩ := hmem e he
    obtain ⟨-, -, hstart, hstop, -⟩ := blockAt_spec (hblock c hc)
    exact hstop.trans hstart.symm
  have hlines : (laid.map fun e => e.start.line).Nodup := by
    rw [(hperm.map _).nodup_iff, List.map_map]
    rw [List.map_map] at hnodup'
    exact (List.map_congr_left fun c hc => (blockAt_spec (hblock c hc)).2.2.1).symm ▸ hnodup'
  -- the edits are on different lines, so that the order along the text is that of the lines
  have hord : laid.Pairwise fun a b => a.start.line < b.start.line := by
    have hsorted : laid.Pairwise fun a b => a.stop ≤ b.start := by
      rw [hlaid]
      exact (hfit.perm (editsBottomUp_perm cursors).symm).sorted
    refine (hsorted.and (List.pairwise_map.1 hlines)).imp_of_mem fun {a b} ha _ hab => ?_
    have hline := hone a ha
    have hle := Position.le_def.1 hab.1
    have hne := hab.2
    omega
  rw [← hlaid, spliceAll_eq_expandFrom (hfit.perm hperm.symm).inRange hone hord]
  refine expandFrom_congr fun i l hl => ?_
  rw [Nat.zero_add]
  have hi : lineOf s.lines i = l := by
    rw [lineOf, if_neg (by omega), Int.toNat_natCast, hl, Option.getD_some]
  by_cases hcursor : hasCursor s.selections i = true
  · obtain ⟨sel, hsel, hline⟩ := hasCursor_iff.1 hcursor
    obtain ⟨c, hc, hactive⟩ := List.mem_map.1 (hfst.symm ▸ List.mem_map_of_mem hsel)
    obtain ⟨x, rest, hcut⟩ := blockAt_cut (hblock c hc)
    have hpieces := hcut.pieces hwf
    rw [hactive, hline, hi] at hpieces
    have hstart : c.2.edit.start.line = i := by rw [(blockAt_spec (hblock c hc)).2.2.1, hactive, hline]
    have hdistinct : (s.selections.map fun sel => sel.active.line).Nodup := by
      rw [List.map_map] at hnodup
      exact hnodup
    rw [openedLines_of_mem hdistinct hsel hline, ← hpieces]
    exact piecesOf_of_mem hlines (hperm.mem_iff.2 (List.mem_map_of_mem (f := fun c => c.2.edit) hc)) hstart l
  · rw [openedLines_of_not hcursor]
    refine piecesOf_of_forall_ne (fun e he hstart => hcursor ?_) l
    obtain ⟨c, hc, rfl⟩ := hmem e he
    obtain ⟨sel, hsel, hactive⟩ := List.mem_map.1 (hfst ▸ List.mem_map_of_mem hc)
    exact hasCursor_iff.2 ⟨sel, hsel, by rw [hactive, ← (blockAt_spec (hblock c hc)).2.2.1, hstart]⟩

end SmartKey

/-! ### Where a block begins -/

private theorem length_openedLines {sels : List Selection} (hnodup : (sels.map fun sel => sel.active.line).Nodup)
    (unit : Text) (i : Nat) (l : Text) : (openedLines sels unit i l).length = if hasCursor sels i then 3 else 1 := by
  by_cases hcursor : hasCursor sels i = true
  · obtain ⟨sel, hsel, hline⟩ := hasCursor_iff.1 hcursor
    rw [openedLines_of_mem hnodup hsel hline, if_pos hcursor]
    rfl
  · rw [openedLines_of_not hcursor, if_neg hcursor]
    rfl

/-- Of the first lines as many have a cursor as there are cursors on them. -/
theorem markedFrom_hasCursor {sels : List Selection} (hnodup : (sels.map fun sel => sel.active.line).Nodup)
    (hnonneg : ∀ sel ∈ sels, 0 ≤ sel.active.line) (ls : List Text) :
    markedFrom (hasCursor sels) 0 ls = sels.countP fun sel => decide (sel.active.line < (ls.length : Int)) := by
  have hlines : ∀ n ∈ sels.map fun sel => sel.active.line, 0 ≤ n := by
    intro n hn
    obtain ⟨sel, hsel, rfl⟩ := List.mem_map.1 hn
    exact hnonneg sel hsel
  have hcount := countP_range_mem hnodup hlines ls.length
  rw [List.countP_map] at hcount
  rw [markedFrom, ← List.range_eq_range']
  exact hcount

/-- The lines above a line become two more for every selection on them. -/
private theorem length_expandFrom_openedLines {sels : List Selection}
    (hnodup : (sels.map fun sel => sel.active.line).Nodup)
    (hnonneg : ∀ sel ∈ sels, 0 ≤ sel.active.line) (unit : Text) (A : List Text) :
    (expandFrom (openedLines sels unit) 0 A).length =
      A.length + 2 * sels.countP fun sel => decide (sel.active.line < (A.length : Int)) := by
  rw [length_expandFrom (length_openedLines hnodup unit), markedFrom_hasCursor hnodup hnonneg]

/-- In a plan for blocks, every cursor moves down by two lines for each of the cursors above it. -/
private theorem lineShift_blocks {s : Scene} (hwf : WellFormed s.lines) {cursors : List (Position × PlannedEdit)}
    (hfst : cursors.map Prod.fst = s.selections.map Selection.active)
    (hblock : ∀ c ∈ cursors, SmartKey.blockAt? s c.1 = some c.2) (n : Int) :
    lineShift (cursors.map fun c => (c.2.edit.start, c.2.edit.growth)) n =
      2 * (s.selections.countP fun sel => decide (sel.active.line < n) : Nat) := by
  have hgrowth : ∀ k ∈ ((cursors.map fun c => c.2.edit).filter fun e => decide (e.start.line < n)).map Edit.growth,
      k = 2 := by
    intro k hk
    obtain ⟨e, he, rfl⟩ := List.mem_map.1 hk
    obtain ⟨c, hc, rfl⟩ := List.mem_map.1 (List.mem_of_mem_filter he)
    obtain ⟨x, rest, hcut⟩ := SmartKey.blockAt_cut (hblock c hc)
    rw [hcut.edit]
    exact SmartKey.growth_block (hwf.lineOf _) _ _
  have hcount : (s.selections.countP fun sel => decide (sel.active.line < n)) =
      (cursors.map fun c => c.2.edit).countP fun e => decide (e.start.line < n) := by
    have hactive : (s.selections.countP fun sel => decide (sel.active.line < n)) =
        (s.selections.map Selection.active).countP fun o => decide (o.line < n) := by
      rw [List.countP_map]
      rfl
    rw [hactive, ← hfst, List.countP_map, List.countP_map]
    refine List.countP_congr fun c hc => ?_
    simp only [Function.comp_apply, (SmartKey.blockAt_spec (hblock c hc)).2.2.1]
  rw [lineShift_eq, total_eq_of_forall hgrowth, List.length_map, ← List.countP_eq_length_filter, hcount]
  omega

/-- The cursor of a block stands on the second line of the block. -/
private theorem lineOf_expandFrom_openedLines {lines : List Text} {sels : List Selection} (unit : Text)
    (hnodup : (sels.map fun sel => sel.active.line).Nodup) (hlines : ∀ sel ∈ sels, HasLine lines sel.active.line)
    {sel : Selection} (hsel : sel ∈ sels) {a b c : Text}
    (hblock : blockLines (lineOf lines sel.active.line) sel.active.column unit = [a, b, c]) :
    lineOf (expandFrom (openedLines sels unit) 0 lines) (blockCursorLine sels sel.active.line) = b := by
  obtain ⟨A, l, B, rfl, hline, hl⟩ := (hlines sel hsel).cut
  have hopened : openedLines sels unit A.length l = [a, b, c] := by
    rw [openedLines_of_mem hnodup hsel hline, ← hl, hblock]
  have hlen := length_expandFrom_openedLines hnodup (fun t ht => (hlines t ht).1) unit A
  have hcut : expandFrom (openedLines sels unit) 0 (A ++ l :: B) =
      (expandFrom (openedLines sels unit) 0 A ++ [a]) ++ b :: (c :: expandFrom (openedLines sels unit) (A.length + 1) B) := by
    rw [expandFrom_cut, hopened, List.append_assoc, List.append_assoc]
    rfl
  have hnumber : blockCursorLine sels sel.active.line =
      ((expandFrom (openedLines sels unit) 0 A ++ [a]).length : Nat) := by
    rw [List.length_append, hlen, List.length_singleton, blockCursorLine, hline]
    omega
  rw [hcut, hnumber, lineOf_cut]

namespace Recorder

variable {r r' : Recorder}

/-- The press has opened the blocks of several cursors, for which these are the plans. -/
structure OpensMany (r r' : Recorder) (cursors : List (Position × PlannedEdit)) : Prop where
  origins : cursors.map Prod.fst = r.selections.map Selection.active
  blocks : ∀ c ∈ cursors, SmartKey.blockAt? r.scene c.1 = some c.2
  distinct : (r.selections.map fun sel => sel.active.line).Nodup
  lines : r'.document.lines = expandFrom (openedLines r.selections r.indent.unit) 0 r.document.lines
  selections : r'.selections = (EditPlan.byLine cursors).selections

/-- With several cursors, Enter opens all their blocks unless it declines. -/
theorem exists_opensMany (hwf : WellFormed r.document.lines) (hmany : 2 ≤ r.selections.length)
    (h : (SmartKeyName.enter.react r.scene).handled = true) :
    ∃ r' cursors, r.press .enter = .ok (r', true) ∧ OpensMany r r' cursors := by
  cases hreact : SmartKeyName.enter.react r.scene with
  | decline key forgets =>
    rw [hreact] at h
    cases h
  | act a =>
    obtain ⟨cursors, hfst, hblock, hnodup, hedits, hselections⟩ := SmartKey.enterKey_many (s := r.scene) hmany hreact
    obtain ⟨r', hpress, hlines, hsel, -⟩ := press_of_act (by decide) hreact
    refine ⟨r', cursors, hpress, hfst, hblock, ?_, ?_, hsel.trans hselections⟩
    · rw [List.map_map] at hnodup
      exact hnodup
    · rw [hlines, hedits]
      exact SmartKey.spliceAll_blocks (s := r.scene) hwf hfst hblock hnodup

/-- Every selection has its block. -/
theorem OpensMany.blockAt {cursors : List (Position × PlannedEdit)} (h : OpensMany r r' cursors) {sel : Selection}
    (hsel : sel ∈ r.selections) : ∃ p x rest, SmartKey.BlockAt r.scene sel.active p x rest := by
  obtain ⟨c, hc, hactive⟩ := List.mem_map.1 (h.origins.symm ▸ List.mem_map_of_mem hsel)
  obtain ⟨x, rest, hblock⟩ := SmartKey.blockAt_cut (h.blocks c hc)
  exact ⟨c.2, x, rest, hactive ▸ hblock⟩

theorem OpensMany.hasLine {cursors : List (Position × PlannedEdit)} (h : OpensMany r r' cursors) {sel : Selection}
    (hsel : sel ∈ r.selections) : HasLine r.document.lines sel.active.line := by
  obtain ⟨p, x, rest, hblock⟩ := h.blockAt hsel
  exact hblock.hasLine

/-- Each selection goes behind the indentation of the second line of its block. -/
private theorem OpensMany.selections_eq (hwf : WellFormed r.document.lines) {cursors : List (Position × PlannedEdit)}
    (h : OpensMany r r' cursors) :
    r'.selections = r.selections.map fun sel => .caret ⟨blockCursorLine r.selections sel.active.line,
      (leadingBlanks (lineOf r.document.lines sel.active.line)).length + r.indent.unit.length⟩ := by
  have hactive : r.selections.map (fun sel => Selection.caret ⟨blockCursorLine r.selections sel.active.line,
        (leadingBlanks (lineOf r.document.lines sel.active.line)).length + r.indent.unit.length⟩) =
      (r.selections.map Selection.active).map fun o => Selection.caret ⟨blockCursorLine r.selections o.line,
        (leadingBlanks (lineOf r.document.lines o.line)).length + r.indent.unit.length⟩ := by
    rw [List.map_map]
    rfl
  rw [h.selections, hactive, ← h.origins, List.map_map, EditPlan.byLine]
  refine List.map_congr_left fun c hc => ?_
  obtain ⟨x, rest, hcut⟩ := SmartKey.blockAt_cut (h.blocks c hc)
  have hshift := lineShift_blocks (s := r.scene) hwf h.origins h.blocks c.1.line
  simp only [Function.comp_apply, hcut.cursor, hshift]
  rfl

/-- When several cursors open their blocks, each cuts its line at the opening brace in front of it; the three lines of
its block take the place of its line, and every other line stays.  Each selection becomes a caret on the second line of
its own block, behind the indentation of that line. -/
theorem press_enter_many (hwf : WellFormed r.document.lines) (hmany : 2 ≤ r.selections.length)
    (h : (SmartKeyName.enter.react r.scene).handled = true) :
    ∃ r', r.press .enter = .ok (r', true) ∧
      r'.document.lines = expandFrom (openedLines r.selections r.indent.unit) 0 r.document.lines ∧
      r'.selections = r.selections.map (fun sel => .caret ⟨blockCursorLine r.selections sel.active.line,
        (leadingBlanks (lineOf r.document.lines sel.active.line)).length + r.indent.unit.length⟩) ∧
      ∀ sel ∈ r.selections, ∃ l x rest, l = lineOf r.document.lines sel.active.line ∧ l = x ++ '\x7b' :: rest ∧
        trimEnd (upTo l sel.active.column) = x ++ ['\x7b'] ∧
        blockLines l sel.active.column r.indent.unit = [x ++ ['\x7b'],
          leadingBlanks l ++ r.indent.unit ++ carriedText rest, leadingBlanks l ++ '\x7d' :: keptText rest] ∧
        lineOf r'.document.lines (blockCursorLine r.selections sel.active.line) =
          leadingBlanks l ++ r.indent.unit ++ carriedText rest := by
  obtain ⟨r', cursors, hpress, hopens⟩ := exists_opensMany hwf hmany h
  refine ⟨r', hpress, hopens.lines, hopens.selections_eq hwf, fun sel hsel => ?_⟩
  obtain ⟨p, x, rest, hblock⟩ := hopens.blockAt hsel
  refine ⟨_, x, rest, rfl, hblock.line, hblock.before, hblock.blockLines_eq, ?_⟩
  rw [hopens.lines]
  exact lineOf_expandFrom_openedLines r.indent.unit hopens.distinct (fun t ht => hopens.hasLine ht) hsel
    hblock.blockLines_eq

/-- Three cursors in no order, of which one has a text behind its brace, and one a closing brace. -/
def threeBraces : Recorder :=
  ofText "a \x7b\n  b \x7b c\nd\ne \x7b \x7d;".toList "plaintext".toList
    [.caret ⟨1, 5⟩, .caret ⟨3, 3⟩, .caret ⟨0, 3⟩]

theorem press_enter_threeBraces :
    WellFormed threeBraces.document.lines ∧ 2 ≤ threeBraces.selections.length ∧
      (SmartKeyName.enter.react threeBraces.scene).handled = true ∧
      ∃ r', threeBraces.press .enter = .ok (r', true) ∧
        r'.document.lines = ["a \x7b".toList, "    ".toList, ['\x7d'], "  b \x7b".toList, "      c".toList,
          "  \x7d".toList, ['d'], "e \x7b".toList, "    ".toList, "\x7d;".toList] ∧
        r'.selections = [.caret ⟨4, 6⟩, .caret ⟨8, 4⟩, .caret ⟨1, 4⟩] := by
  have hwf : WellFormed threeBraces.document.lines := wellFormed_splitLines _
  have hmany : 2 ≤ threeBraces.selections.length := by decide
  have hacts : (SmartKeyName.enter.react threeBraces.scene).handled = true := by rfl
  obtain ⟨r', hpress, hlines, hselections, -⟩ := press_enter_many hwf hmany hacts
  exact ⟨hwf, hmany, hacts, r', hpress, hlines.trans (by decide +kernel), hselections.trans (by decide +kernel)⟩

end Recorder

end MultiCaret
