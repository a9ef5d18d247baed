import MultiCaret.Editor.Basic
import MultiCaret.Proofs.SmartKey.Recording
import MultiCaret.Proofs.SmartKey.Visible

/-!
# The comma and the block at one press

In a structured language Enter puts the comma behind a finished value and opens a block at the same press.  It plans the
block on the line that has the comma already, and then cuts off the line as it is, without the comma.  This comes to the
same as putting in the comma first and pressing Enter with nothing but blocks to open (`Recorder.press_enter_commaFirst`).
The plan is the same one, because the line with the comma takes the place of the line for the scan
(`SmartKey.block_of_set`); and the brace stands in front of the comma, so that both lines are the same up to the place
where they are cut off (`take_terminated`).
-/

namespace MultiCaret

/-- The line with a comma behind its last character that is no blank. -/
def withComma (l : Text) : Text :=
  l.take (terminatorColumn l) ++ ',' :: l.drop (terminatorColumn l)

/-- The edits that put in the comma that the line of this number lacks. -/
def commaEdits (l : Text) (n : Int) : List Edit :=
  if lacksTerminator l then [.insert ⟨n, terminatorColumn l⟩ [',']] else []

/-- The line with the comma that it lacks. -/
def terminated (l : Text) : Text :=
  if lacksTerminator l then withComma l else l

/-- Where the comma that a line lacks leaves a cursor, which is moved to the end of the line before if it is behind
it. -/
def columnAfterComma (l : Text) (column : Int) : Int :=
  let c := min column l.length
  if lacksTerminator l ∧ terminatorColumn l ≤ c then c + 1 else c

/-! ### Lines with a comma -/

private theorem length_withComma (l : Text) : (withComma l).length = l.length + 1 := by
  have := length_trimEnd_le l
  simp only [withComma, terminatorColumn, List.length_append, List.length_take, List.length_cons, List.length_drop]
  omega

private theorem terminated_of_lacks {l : Text} (h : lacksTerminator l = true) : terminated l = withComma l := if_pos h

private theorem terminated_of_complete {l : Text} (h : ¬ lacksTerminator l = true) : terminated l = l := if_neg h

private theorem columnAfterComma_of_lacks {l : Text} (h : lacksTerminator l = true) (column : Int) :
    columnAfterComma l column =
      if terminatorColumn l ≤ min column l.length then min column l.length + 1 else min column l.length := by
  simp only [columnAfterComma, h, true_and]

private theorem columnAfterComma_of_complete {l : Text} (h : ¬ lacksTerminator l = true) (column : Int) :
    columnAfterComma l column = min column l.length := by
  simp only [columnAfterComma, h, false_and, Bool.false_eq_true, if_false]

/-- The cursor is not behind the line with the comma. -/
private theorem columnAfterComma_le (l : Text) (column : Int) : columnAfterComma l column ≤ (terminated l).length := by
  by_cases hlacks : lacksTerminator l = true
  · rw [columnAfterComma_of_lacks hlacks, terminated_of_lacks hlacks, length_withComma]
    split <;> omega
  · rw [columnAfterComma_of_complete hlacks, terminated_of_complete hlacks]
    omega

/-- Up to a brace in front of a cursor, the lines with the comma and without it are the same. -/
theorem take_terminated {l : Text} {column : Int} {b : Nat} (h : braceBefore? (terminated l) column = some b) :
    (terminated l).take (b + 1) = l.take (b + 1) := by
  by_cases hlacks : lacksTerminator l = true
  · rw [terminated_of_lacks hlacks] at h ⊢
    have hb : b + 1 ≤ terminatorColumn l := SmartKey.length_braceBefore_comma_le h
    have hlen : (l.take (terminatorColumn l)).length = terminatorColumn l := by
      have := length_trimEnd_le l
      simp only [terminatorColumn, List.length_take]
      omega
    rw [withComma, List.take_append_of_le_length (by omega), List.take_take, Nat.min_eq_left hb]
  · rw [terminated_of_complete hlacks]

/-- What replaces the end of a line leaves the same lines if it replaces the end of another one that begins alike. -/
private theorem splice_set {lines : List Text} {n : Int} (h : HasLine lines n) {m : Text} {b : Nat}
    (hm : m.take b = (lineOf lines n).take b) (t : Text) :
    splice ⟨⟨n, b⟩, ⟨n, m.length⟩, t⟩ (lines.set n.toNat m) = splice ⟨⟨n, b⟩, ⟨n, (lineOf lines n).length⟩, t⟩ lines := by
  obtain ⟨A, l, B, rfl, rfl, hl⟩ := h.cut
  rw [hl] at hm ⊢
  simp only [splice, Int.toNat_natCast, set_cut, lineOf_cut, List.drop_length, List.take_left, drop_cut, hm]

/-- A place behind the end of its line is clamped like the end. -/
private theorem clampTo_min {lines : List Text} {p : Position} (h : HasLine lines p.line) :
    clampTo lines ⟨p.line, min p.column (lineOf lines p.line).length⟩ = clampTo lines p := by
  obtain ⟨h₀, h₁⟩ := h
  have hline : max 0 (min p.line (lines.length - 1)) = p.line := by omega
  simp only [clampTo, hline, Position.mk.injEq, true_and]
  omega

namespace SmartKey

variable {s t : Scene} {p : Position}

/-! ### The plans -/

/-- A single caret on a line of the document presses Enter there, behind the end of the line at its end. -/
private theorem enterKey_caret (hsel : s.selections = [.caret p]) (h : HasLine s.lines p.line) :
    enterKey s = enterOnLine s p.line (min p.column (lineOf s.lines p.line).length) (lineOf s.lines p.line) := by
  have hall : allCarets [Selection.caret p] = true := by simp [allCarets, Selection.isEmpty_caret]
  have hactive : (Selection.caret p).active = p := rfl
  simp only [enterKey, hsel, if_pos hall, hactive, if_pos h]

private theorem missingTerminator_of_off (h : s.settings.enterInsertsTerminator = false) (l : Text) :
    missingTerminator? s l = none := by
  rw [missingTerminator?, if_neg]
  rw [h]
  exact fun hall => Bool.false_ne_true hall.1

private theorem enterOnLine_of_block {n column : Int} {l : Text} {plan : PlannedEdit}
    (h : missingTerminator? s l = none) (hblock : block? s n l column = some plan) :
    enterOnLine s n column l = .act (.caretAt plan.cursor [plan.edit] .keep) := by
  simp only [enterOnLine, h, hblock]

private theorem enterOnLine_declines {n column : Int} {l : Text} (h : missingTerminator? s l = none)
    (hblock : block? s n l column = none) : enterOnLine s n column l = declineEnter := by
  simp only [enterOnLine, h, hblock]

/-- Whether a comma is missing or not, Enter opens the block that it plans on the line with the comma that it lacks. -/
private theorem enterOnLine_of_terminated_block {n column : Int} {l : Text} {plan : PlannedEdit}
    (hon : s.settings.enterInsertsTerminator = true) (hlanguage : isStructured s.language = true)
    (hblock : block? s n (terminated l) (columnAfterComma l column) = some plan) :
    enterOnLine s n (min column l.length) l =
      .act (.caretAt plan.cursor [⟨plan.edit.start, ⟨n, l.length⟩, plan.edit.text⟩] .keep) := by
  by_cases hlacks : lacksTerminator l = true
  · have hsome : missingTerminator? s l = some (terminatorColumn l) := if_pos ⟨hon, hlanguage, hlacks⟩
    rw [terminated_of_lacks hlacks, columnAfterComma_of_lacks hlacks, withComma] at hblock
    simp only [enterOnLine, hsome, hblock]
  · have hnone : missingTerminator? s l = none := if_neg fun h => hlacks h.2.2
    rw [terminated_of_complete hlacks, columnAfterComma_of_complete hlacks] at hblock
    obtain ⟨b, -, hedit, -⟩ := block_spec hblock
    rw [enterOnLine_of_block hnone hblock, hedit]

/-- If there is no block to open, Enter puts in the missing comma and leaves the break to the plain key. -/
private theorem enterOnLine_of_comma {n column : Int} {l : Text} (hon : s.settings.enterInsertsTerminator = true)
    (hlanguage : isStructured s.language = true) (hlacks : lacksTerminator l = true)
    (hblock : block? s n (terminated l) (columnAfterComma l column) = none) :
    enterOnLine s n (min column l.length) l = .act {
      edits := commaEdits l n
      selections := [.caret ⟨n, columnAfterComma l column⟩]
      reveal := none
      thenKey := some .newline } := by
  have hsome : missingTerminator? s l = some (terminatorColumn l) := if_pos ⟨hon, hlanguage, hlacks⟩
  rw [terminated_of_lacks hlacks, columnAfterComma_of_lacks hlacks, withComma] at hblock
  simp only [enterOnLine, hsome, hblock, commaEdits, if_pos hlacks, columnAfterComma_of_lacks hlacks]

/-- What stands on a line does not matter to the block that is planned for a text in its place. -/
theorem block_of_set {n column : Int} {l m : Text} (hlines : t.lines = s.lines.set n.toNat m)
    (hindent : t.indent = s.indent) (hcloses : t.settings.enterClosesBrace = s.settings.enterClosesBrace) :
    block? t n l column = block? s n l column := by
  simp only [block?, expandBrace?, hlines, hindent, hcloses, List.set_set]

end SmartKey

namespace Recorder

variable {r r' r₁ : Recorder} {key : SmartKeyName} {handled : Bool} {a : Action} {p : Position}

/-- The host after the comma alone has been put into the line of the cursor, with Enter set to put in none. -/
def commaFirst (r : Recorder) (p : Position) : Except EditError Recorder :=
  let l := lineOf r.document.lines p.line
  (r.applyEdits (commaEdits l p.line)).map fun r =>
    { r.setSelections [.caret ⟨p.line, columnAfterComma l p.column⟩] with
      settings := { r.settings with enterInsertsTerminator := false } }

/-! ### The comma alone -/

/-- The comma is put into the line of the cursor. -/
private theorem commaEdits_fit (hwf : WellFormed r.document.lines) {n : Int} (h : HasLine r.document.lines n) :
    BatchFits r.document.lines (commaEdits (lineOf r.document.lines n) n) ∧
      (r.document.afterBatch (commaEdits (lineOf r.document.lines n) n)).lines =
        r.document.lines.set n.toNat (terminated (lineOf r.document.lines n)) := by
  by_cases hlacks : lacksTerminator (lineOf r.document.lines n) = true
  · have hone : (Edit.insert ⟨n, terminatorColumn (lineOf r.document.lines n)⟩ [',']).OneLine r.document.lines :=
      ⟨inRange_onLine h (Nat.le_refl _) (length_trimEnd_le _) [','], rfl, show '\n' ∉ [','] by decide⟩
    rw [commaEdits, if_pos hlacks, terminated_of_lacks hlacks, lines_afterBatch_oneLine hwf hone]
    refine ⟨batchFits_singleton hone.inRange, ?_⟩
    simp only [Edit.insert, Edit.within, withComma, Int.toNat_natCast, List.append_assoc, List.singleton_append]
  · obtain ⟨A, l, B, hlines, rfl, hl⟩ := h.cut
    rw [commaEdits, if_neg hlacks, terminated_of_complete hlacks]
    refine ⟨batchFits_nil _, ?_⟩
    rw [Document.lines_afterBatch, hlines, Int.toNat_natCast, lineOf_cut, set_cut]
    rfl

/-- The host after the comma alone. -/
structure CommaFirst (r : Recorder) (p : Position) (r₁ : Recorder) : Prop where
  document : r₁.document = r.document.afterBatch (commaEdits (lineOf r.document.lines p.line) p.line)
  selections : r₁.selections = [.caret ⟨p.line, columnAfterComma (lineOf r.document.lines p.line) p.column⟩]
  indent : r₁.indent = r.indent
  settings : r₁.settings = { r.settings with enterInsertsTerminator := false }
  forwarded : r₁.forwarded = r.forwarded

private theorem commaFirst_spec (hwf : WellFormed r.document.lines) (h : HasLine r.document.lines p.line) :
    ∃ r₁, r.commaFirst p = .ok r₁ ∧ CommaFirst r p r₁ := by
  have happly := applyEdits_eq_ok_iff.2 ⟨(commaEdits_fit hwf h).1, rfl⟩
  have hupdate : ∀ d, (r.updateDocument d).document = d ∧ (r.updateDocument d).indent = r.indent ∧
      (r.updateDocument d).settings = r.settings ∧ (r.updateDocument d).forwarded = r.forwarded := by
    intro d
    unfold updateDocument
    split <;> exact ⟨rfl, rfl, rfl, rfl⟩
  obtain ⟨hdoc, hindent, hsettings, hforwarded⟩ :=
    hupdate (r.document.afterBatch (commaEdits (lineOf r.document.lines p.line) p.line))
  refine ⟨{ (r.updateDocument (r.document.afterBatch (commaEdits (lineOf r.document.lines p.line) p.line))).setSelections
      [.caret ⟨p.line, columnAfterComma (lineOf r.document.lines p.line) p.column⟩] with
    settings := { r.settings with enterInsertsTerminator := false } }, ?_, hdoc, rfl, hindent, rfl, hforwarded⟩
  rw [commaFirst, applyEdits, happly]
  simp only [Except.map, hsettings]

private theorem CommaFirst.lines (h : CommaFirst r p r₁) (hwf : WellFormed r.document.lines)
    (hline : HasLine r.document.lines p.line) :
    r₁.document.lines = r.document.lines.set p.line.toNat (terminated (lineOf r.document.lines p.line)) := by
  rw [h.document, (commaEdits_fit hwf hline).2]

private theorem CommaFirst.hasLine (h : CommaFirst r p r₁) (hwf : WellFormed r.document.lines)
    (hline : HasLine r.document.lines p.line) : HasLine r₁.document.lines p.line := by
  rw [HasLine, h.lines hwf hline, List.length_set]
  exact hline

/-- Enter plans the same block then, on the line with the comma. -/
private theorem CommaFirst.block_eq (h : CommaFirst r p r₁) (hwf : WellFormed r.document.lines)
    (hline : HasLine r.document.lines p.line) (column : Int) (m : Text) :
    SmartKey.block? r₁.scene p.line m column = SmartKey.block? r.scene p.line m column := by
  have hcloses : r₁.settings.enterClosesBrace = r.settings.enterClosesBrace := by rw [h.settings]
  exact SmartKey.block_of_set (s := r.scene) (t := r₁.scene) (h.lines hwf hline) h.indent hcloses

private theorem CommaFirst.react_eq (h : CommaFirst r p r₁) (hwf : WellFormed r.document.lines)
    (hline : HasLine r.document.lines p.line) :
    SmartKeyName.enter.react r₁.scene = SmartKey.enterOnLine r₁.scene p.line
      (columnAfterComma (lineOf r.document.lines p.line) p.column) (terminated (lineOf r.document.lines p.line)) := by
  have hl : lineOf r₁.document.lines p.line = terminated (lineOf r.document.lines p.line) := by
    have hlines := h.lines hwf hline
    obtain ⟨A, m, B, hcut, hp, -⟩ := hline.cut
    rw [hlines, hcut, hp, Int.toNat_natCast, set_cut, lineOf_cut]
  have hmin := Int.min_eq_left (columnAfterComma_le (lineOf r.document.lines p.line) p.column)
  have hreact := SmartKey.enterKey_caret (s := r₁.scene) h.selections (h.hasLine hwf hline)
  rw [show lineOf r₁.scene.lines _ = _ from hl, hmin] at hreact
  exact hreact

/-! ### Both -/

/-- With a single caret on a line of a document of keys and values, Enter puts in the missing comma and opens a block as
two steps would: the lines, the keystrokes that are forwarded, and the caret as it is clamped come out the same if the
comma alone is put in first, and Enter is pressed then with nothing but blocks to open. -/
theorem press_enter_commaFirst (hwf : WellFormed r.document.lines) (hsel : r.selections = [.caret p])
    (hline : HasLine r.document.lines p.line) (hlanguage : isStructured r.document.language = true)
    (hon : r.settings.enterInsertsTerminator = true) :
    ∃ r' r₁ r₂ handled handled', r.press .enter = .ok (r', handled) ∧
      r.commaFirst p = .ok r₁ ∧ r₁.press .enter = .ok (r₂, handled') ∧
      r₂.document.lines = r'.document.lines ∧ r₂.forwarded = r'.forwarded ∧
      ∃ q q₂, r'.selections = [.caret q] ∧ r₂.selections = [.caret q₂] ∧
        clampTo r₂.document.lines q₂ = clampTo r'.document.lines q := by
  have henter : SmartKeyName.enter ≠ .separator := by decide
  obtain ⟨r₁, hfirst, hcomma⟩ := commaFirst_spec hwf hline
  have hreact : SmartKeyName.enter.react r.scene = SmartKey.enterOnLine r.scene p.line
      (min p.column (lineOf r.document.lines p.line).length) (lineOf r.document.lines p.line) :=
    SmartKey.enterKey_caret (s := r.scene) hsel hline
  have hreact₁ := hcomma.react_eq hwf hline
  have hnone₁ := SmartKey.missingTerminator_of_off (s := r₁.scene) (by rw [scene, hcomma.settings])
    (terminated (lineOf r.document.lines p.line))
  have hblock₁ := hcomma.block_eq hwf hline (columnAfterComma (lineOf r.document.lines p.line) p.column)
    (terminated (lineOf r.document.lines p.line))
  cases hblock : SmartKey.block? r.scene p.line (terminated (lineOf r.document.lines p.line))
      (columnAfterComma (lineOf r.document.lines p.line) p.column) with
  | some plan =>
    -- both cut off at the brace, which stands in front of the comma
    rw [hblock] at hblock₁
    obtain ⟨r', hpress, hlines', hsel', hforwarded'⟩ :=
      press_of_act henter (hreact.trans (SmartKey.enterOnLine_of_terminated_block hon hlanguage hblock))
    obtain ⟨r₂, hpress₂, hlines₂, hsel₂, hforwarded₂⟩ :=
      press_of_act henter (hreact₁.trans (SmartKey.enterOnLine_of_block hnone₁ hblock₁))
    obtain ⟨b, hb, hedit, -⟩ := SmartKey.block_spec hblock
    have hsame : r₂.document.lines = r'.document.lines := by
      rw [hlines', hlines₂, hcomma.lines hwf hline, hedit]
      exact splice_set hline (take_terminated hb) _
    refine ⟨r', r₁, r₂, true, true, hpress, hfirst, hpress₂, hsame, ?_, _, _, hsel', hsel₂, by rw [hsame]⟩
    rw [hforwarded', hforwarded₂, hcomma.forwarded]
    rfl
  | none =>
    rw [hblock] at hblock₁
    obtain ⟨r₂, hpress₂, hdoc₂, hsel₂, hforwarded₂⟩ :=
      press_of_decline (hreact₁.trans (SmartKey.enterOnLine_declines hnone₁ hblock₁))
    -- the second press only forwards the key, which the first one does as well, behind the comma or alone
    by_cases hlacks : lacksTerminator (lineOf r.document.lines p.line) = true
    · obtain ⟨r', hpress, hlines', hsel', hforwarded'⟩ :=
        press_of_act henter (hreact.trans (SmartKey.enterOnLine_of_comma hon hlanguage hlacks hblock))
      have hsame : r₂.document.lines = r'.document.lines := by
        rw [hdoc₂, hcomma.document, hlines', Document.lines_afterBatch]
      refine ⟨r', r₁, r₂, true, false, hpress, hfirst, hpress₂, hsame, ?_, _, _, hsel', hsel₂.trans hcomma.selections,
        by rw [hsame]⟩
      rw [hforwarded', hforwarded₂, hcomma.forwarded]
      rfl
    · have hnone : SmartKey.missingTerminator? r.scene (lineOf r.document.lines p.line) = none :=
        if_neg fun h => hlacks h.2.2
      rw [terminated_of_complete hlacks, columnAfterComma_of_complete hlacks] at hblock
      obtain ⟨r', hpress, hdoc', hsel', hforwarded'⟩ :=
        press_of_decline (hreact.trans (SmartKey.enterOnLine_declines hnone hblock))
      have hsame : r₂.document.lines = r'.document.lines := by
        rw [hdoc₂, hcomma.document, hdoc', commaEdits, if_neg hlacks]
        rfl
      refine ⟨r', r₁, r₂, false, false, hpress, hfirst, hpress₂, hsame, ?_, _, _, hsel'.trans hsel,
        hsel₂.trans hcomma.selections, ?_⟩
      · rw [hforwarded', hforwarded₂, hcomma.forwarded]
      · rw [hsame, hdoc', columnAfterComma_of_complete hlacks, clampTo_min hline]

/-- An object with nothing in it for a value, blanks behind it, and the cursor between its braces. -/
def emptyObject : Recorder :=
  ofText "\x7b\n  \"a\": \x7b\x7d  \n\x7d".toList "jsonc".toList [.caret ⟨1, 8⟩]

theorem press_enter_commaFirst_emptyObject :
    WellFormed emptyObject.document.lines ∧ HasLine emptyObject.document.lines 1 ∧
      isStructured emptyObject.document.language = true ∧ emptyObject.settings.enterInsertsTerminator = true ∧
      ∃ r' r₁ r₂ handled handled', emptyObject.press .enter = .ok (r', handled) ∧
        emptyObject.commaFirst ⟨1, 8⟩ = .ok r₁ ∧ r₁.press .enter = .ok (r₂, handled') ∧
        r₂.document.lines = r'.document.lines ∧ r₂.forwarded = r'.forwarded ∧
        r'.document.lines =
          ["\x7b".toList, "  \"a\": \x7b".toList, "      ".toList, "  \x7d,  ".toList, "\x7d".toList] := by
  have hwf : WellFormed emptyObject.document.lines := wellFormed_splitLines _
  have hline : HasLine emptyObject.document.lines 1 := by decide
  have hlanguage : isStructured emptyObject.document.language = true := by decide +kernel
  have hon : emptyObject.settings.enterInsertsTerminator = true := by rfl
  obtain ⟨r', r₁, r₂, handled, handled', hpress, hfirst, hpress₂, hlines, hforwarded, -⟩ :=
    press_enter_commaFirst (r := emptyObject) (p := ⟨1, 8⟩) hwf rfl hline hlanguage hon
  refine ⟨hwf, hline, hlanguage, hon, r', r₁, r₂, handled, handled', hpress, hfirst, hpress₂, hlines, hforwarded, ?_⟩
  have hblock : (emptyObject.press .enter).map (fun r => r.1.document.lines) =
      .ok ["\x7b".toList, "  \"a\": \x7b".toList, "      ".toList, "  \x7d,  ".toList, "\x7d".toList] := by rfl
  rw [hpress] at hblock
  exact Except.ok.inj hblock

end Recorder

end MultiCaret
