import MultiCaret.Proofs.Editor.Invariants
import MultiCaret.Proofs.SmartKey.Visible

/-!
# What the record of the End toggle says

Only the End key writes a record, and where it does, it leaves the only caret at the end of a line that the record says,
in the lines that its own edit has made (`endKey_marks`).  From then on the record goes when the document changes, and
when the primary cursor leaves it.  So whatever has been asked of an editor, it has no record but one of its own
document, and this one says where an end of its line is, with the primary cursor at most a column away
(`Reached.tracker_marksEnd`).
-/

namespace MultiCaret

/-- The place is the end of its line that the record says, the one without trailing blanks or the full one. -/
structure EndToggle.Marks (lines : List Text) (t : EndToggle) : Prop where
  hasLine : HasLine lines t.line
  column : t.column = if t.atTrimmedEnd then ((trimEnd (lineOf lines t.line)).length : Int)
    else (lineOf lines t.line).length

private theorem EndToggle.isStale_eq_false_iff {t : EndToggle} {p : Position} :
    t.isStale p = false ↔ p.line = t.line ∧ (p.column - t.column).natAbs ≤ 1 := by
  rw [isStale, Bool.or_eq_false_iff, bne_eq_false_iff_eq, decide_eq_false_iff_not, tolerance, Nat.not_lt]

variable {lines : List Text}

private theorem EndToggle.Marks.inBounds {t : EndToggle} (h : t.Marks lines) : InBounds lines ⟨t.line, t.column⟩ := by
  have hle := length_trimEnd_le (lineOf lines t.line)
  have hcolumn := h.column
  refine ⟨h.hasLine, ?_, ?_⟩
  · simp only
    split at hcolumn <;> omega
  · simp only
    split at hcolumn <;> omega

/-! ### The End key -/

namespace SmartKey

variable {s : Scene} {a : Action} {t : EndToggle}

/-- A line that gets an indentation is this indentation. -/
private theorem line_reindent (h : WellFormed lines) {n : Int} (hn : HasLine lines n) {indent : Text}
    (hindent : '\n' ∉ indent) {es : List Edit} (hes : es = (reindent? n (lineOf lines n) indent).toList) :
    HasLine (spliceAll (sortBy Edit.precedes es) lines) n ∧
      lineOf (spliceAll (sortBy Edit.precedes es) lines) n = indent := by
  cases he : reindent? n (lineOf lines n) indent with
  | none =>
    rw [hes, he]
    exact ⟨hn, reindent_eq_none he⟩
  | some e =>
    obtain ⟨hone, hstart, hwithin, -⟩ := reindent_spec hn hindent he
    have hall : ∀ e' ∈ [e], e'.OneLine lines := List.forall_mem_singleton.2 hone
    obtain ⟨⟨-, hlen⟩, hline, -⟩ := lineOf_spliceAll h hall (List.nodup_singleton _)
    have hset := hline e (List.mem_singleton.2 rfl)
    rw [hstart, hwithin] at hset
    rw [hes, he]
    exact ⟨⟨hn.1, hlen ▸ hn.2⟩, hset⟩

/-- Where End writes a record, it leaves the only caret there, at the end of a line that the record says. -/
theorem endKey_marks (hwf : WellFormed s.lines) (h : endKey s = .act a) (ht : a.toggle = .record t) :
    t.Marks (spliceAll (sortBy Edit.precedes a.edits) s.lines) ∧ a.selections = [.caret ⟨t.line, t.column⟩] := by
  rcases endKey_act h with ⟨n, hn, rfl⟩ | ⟨n, trimmed, hn, rfl⟩ | ⟨-, rfl⟩
  · obtain rfl := ToggleChange.record.inj ht
    obtain ⟨hnew, hline⟩ := line_reindent hwf hn (newline_not_mem_indentFor hwf n s.indent) rfl
    refine ⟨⟨hnew, ?_⟩, rfl⟩
    -- the blank line is the indentation now, whose full end is recorded
    simp only [indentBlank, Action.caretAt, hline]
    rfl
  · obtain rfl := ToggleChange.record.inj ht
    refine ⟨⟨hn, ?_⟩, rfl⟩
    cases trimmed <;> rfl
  · cases ht

end SmartKey

/-- The same of every smart key, because no other one writes a record. -/
private theorem react_marks {key : SmartKeyName} {s : Scene} {a : Action} {t : EndToggle} (hwf : WellFormed s.lines)
    (h : key.react s = .act a) (ht : a.toggle = .record t) :
    t.Marks (spliceAll (sortBy Edit.precedes a.edits) s.lines) ∧ a.selections = [.caret ⟨t.line, t.column⟩] := by
  by_cases hkey : key = .lineEnd
  · rw [hkey] at h
    exact SmartKey.endKey_marks hwf h ht
  · have hkeeps := react_keepsToggle hkey s
    rw [h] at hkeeps
    have hkeep : a.toggle = .keep := hkeeps
    rw [ht] at hkeep
    cases hkeep

/-! ### The records of an editor -/

private theorem EndTracker.forget_own (id : String) (t : EndToggle) : EndTracker.forget [(id, t)] id = [] := by
  simp [EndTracker.forget]

private theorem EndTracker.cursorMoved_own (id : String) (t : EndToggle) (p : Position) :
    EndTracker.cursorMoved [(id, t)] id p = if t.isStale p then [] else [(id, t)] := by
  simp [EndTracker.cursorMoved, EndTracker.isStale, EndTracker.get?, EndTracker.forget_own]

namespace Editor

/-- There is no record but one of the document, which says where an end of its line is and which the primary cursor has
not left. -/
def TogglesHere (e : Editor) : Prop :=
  e.tracker = [] ∨ ∃ t, e.tracker = [(e.document.uri, t)] ∧ t.Marks e.lines ∧ t.isStale e.cursor = false

variable {e e' : Editor}

private theorem TogglesHere.forget (h : e.TogglesHere) : e.tracker.forget e.document.uri = [] := by
  rcases h with hnil | ⟨t, ht, -⟩
  · rw [hnil]
    rfl
  · rw [ht]
    exact EndTracker.forget_own _ t

private theorem TogglesHere.setSelections (h : e.TogglesHere) (ss : List Selection) :
    (e.setSelections ss).TogglesHere := by
  obtain ⟨settled, hset⟩ : ∃ settled, e.setSelections ss = { e with
      selections := settled
      tracker := e.tracker.cursorMoved e.document.uri ({ e with selections := settled } : Editor).cursor } := ⟨_, rfl⟩
  obtain ⟨p, hp⟩ : ∃ p, p = ({ e with selections := settled } : Editor).cursor := ⟨_, rfl⟩
  rw [hset, ← hp]
  rcases h with hnil | ⟨t, ht, hmarks, -⟩
  · left
    simp only [hnil]
    rfl
  · simp only [ht, EndTracker.cursorMoved_own]
    by_cases hstale : t.isStale p = true
    · left
      simp only [if_pos hstale]
    · right
      refine ⟨t, ?_, hmarks, ?_⟩
      · simp only [if_neg hstale]
      · rw [← Bool.not_eq_true]
        exact hp ▸ hstale

private theorem TogglesHere.afterBatch (h : e.TogglesHere) (es : List Edit) :
    (e.updateDocument (e.document.afterBatch es)).TogglesHere := by
  have huri : (e.document.afterBatch es).uri = e.document.uri := by
    unfold Document.afterBatch
    split <;> rfl
  unfold updateDocument
  split
  · next hversion =>
    rw [Document.afterBatch_eq_self hversion]
    exact h
  · left
    show e.tracker.documentChanged _ = []
    rw [huri]
    exact h.forget

private theorem TogglesHere.tracker_setText (h : e.TogglesHere) (t : Text) : (e.setText t).tracker = [] := by
  have hversion : (e.document.setText t).version ≠ e.document.version := Nat.succ_ne_self _
  rw [setText, updateDocument, if_neg hversion]
  exact h.forget

private theorem TogglesHere.record (h : e.TogglesHere) {t : EndToggle} (hmarks : t.Marks e.lines) :
    ((e.setSelections [.caret ⟨t.line, t.column⟩]).changeToggle (.record t)).TogglesHere := by
  have hsettled : Settled e.lines [.caret ⟨t.line, t.column⟩] :=
    ⟨List.cons_ne_nil _ _, List.nodup_singleton _, List.forall_mem_singleton.2 ⟨hmarks.inBounds, hmarks.inBounds⟩⟩
  have hcursor : (e.setSelections [.caret ⟨t.line, t.column⟩]).cursor = ⟨t.line, t.column⟩ := by
    rw [cursor, selections_setSelections_of_settled hsettled]
    rfl
  right
  refine ⟨t, ?_, hmarks, ?_⟩
  · exact congrArg (List.cons _) (h.setSelections _).forget
  · show t.isStale (e.setSelections [.caret ⟨t.line, t.column⟩]).cursor = false
    rw [hcursor]
    exact EndToggle.isStale_eq_false_iff.2 ⟨rfl, by simp⟩

private theorem kept_togglesHere : Kept fun e => WellFormed e.lines ∧ e.TogglesHere where
  frame {e e'} h hd hs ht := by
    obtain ⟨hwf, htoggles⟩ := h
    refine ⟨kept_wellFormed.frame hwf hd hs ht, ?_⟩
    have hlines : e'.lines = e.lines := congrArg Document.lines hd
    have hcursor : e'.cursor = e.cursor := by rw [cursor, cursor, hs]
    rw [TogglesHere, ht, hd, hlines, hcursor]
    exact htoggles
  select ss h := ⟨kept_wellFormed.select ss h.1, h.2.setSelections ss⟩
  batch {e es} hfit h := ⟨kept_wellFormed.batch hfit h.1, h.2.afterBatch es⟩
  text t h := ⟨kept_wellFormed.text t h.1, Or.inl (h.2.tracker_setText t)⟩
  content t h := ⟨kept_wellFormed.content t h.1, Or.inl (h.2.tracker_setText t)⟩
  forget h := ⟨kept_wellFormed.forget h.1, Or.inl h.2.forget⟩
  act {e key a} hr hfit h := by
    obtain ⟨hwf, htoggles⟩ := h
    refine ⟨kept_wellFormed.act hr hfit hwf, ?_⟩
    have hbatch := htoggles.afterBatch a.edits
    cases hchange : a.toggle with
    | keep => exact hbatch.setSelections a.selections
    | forget => exact Or.inl (hbatch.setSelections a.selections).forget
    | record t =>
      -- the new record is written behind the selections, so it does not matter which old one they have dropped
      obtain ⟨hmarks, hselections⟩ := react_marks hwf hr hchange
      rw [hselections]
      refine hbatch.record ?_
      obtain ⟨tracker, he⟩ := e.updateDocument_eq (e.document.afterBatch a.edits)
      rw [he]
      show t.Marks (e.document.afterBatch a.edits).lines
      rw [Document.lines_afterBatch]
      exact hmarks

/-- Whatever was asked of an editor, it has no record of the End toggle but one of its own document.  Where it has this
one, the document has the line, the primary cursor is on it, one column away at most, and the recorded column is the end
of the line without its trailing blanks or its full end, as the record says. -/
theorem Reached.tracker_marksEnd {kind : Operation → Prop} (h : Reached kind e) :
    e.tracker = [] ∨ ∃ t, e.tracker = [(e.document.uri, t)] ∧ HasLine e.lines t.line ∧
      e.cursor.line = t.line ∧ (e.cursor.column - t.column).natAbs ≤ 1 ∧
      t.column = if t.atTrimmedEnd then ((trimEnd (lineOf e.lines t.line)).length : Int)
        else (lineOf e.lines t.line).length := by
  have hnew : ∀ t uri language indent settings,
      WellFormed (ofDocument (.ofText t uri language) indent settings).lines ∧
        (ofDocument (.ofText t uri language) indent settings).TogglesHere :=
    fun t _ _ _ _ => ⟨wellFormed_splitLines t, Or.inl rfl⟩
  rcases (kept_togglesHere.reached hnew h).2 with hnil | ⟨t, ht, hmarks, hstale⟩
  · exact Or.inl hnil
  · obtain ⟨hline, hnear⟩ := EndToggle.isStale_eq_false_iff.1 hstale
    exact Or.inr ⟨t, ht, hmarks.hasLine, hline, hnear, hmarks.column⟩

/-- An editor in which End was pressed on a line with trailing blanks, and then the cursor moved by one column. -/
def besideToggle : Editor :=
  (ofDocument (.ofText "ab  ".toList "doc" "plaintext".toList) {} {}).operateAll
    [.key "end" [], .key "right" []]

theorem tracker_marksEnd_besideToggle :
    Reached (fun _ => True) besideToggle ∧ besideToggle.tracker = [("doc", ⟨0, 2, true⟩)] ∧
      besideToggle.cursor = ⟨0, 3⟩ ∧
      ∃ t, besideToggle.tracker = [(besideToggle.document.uri, t)] ∧ HasLine besideToggle.lines t.line ∧
        besideToggle.cursor.line = t.line ∧ (besideToggle.cursor.column - t.column).natAbs ≤ 1 ∧
        t.column = if t.atTrimmedEnd then ((trimEnd (lineOf besideToggle.lines t.line)).length : Int)
          else (lineOf besideToggle.lines t.line).length := by
  have h : Reached (fun _ => True) besideToggle := (Reached.new _ _ _ _ _).operateAll fun _ _ => trivial
  have htracker : besideToggle.tracker = [("doc", ⟨0, 2, true⟩)] := by decide +kernel
  refine ⟨h, htracker, by decide +kernel, ?_⟩
  rcases Reached.tracker_marksEnd h with hnil | hmarks
  · rw [htracker] at hnil
    cases hnil
  · exact hmarks

end Editor

end MultiCaret
