import MultiCaret.Proofs.EditPlan
import MultiCaret.Proofs.Editor.Settled
import MultiCaret.SmartKey

/-!
# What smart keys ask for can be done

With the cursors in the document, every batch of edits that a smart key asks for fits the lines, the selections that it
asks for are carets, and it does not ask to show a line above the text (`react_fits`).  A single cursor asks for one
edit, so there is nothing to overlap; several cursors ask for edits of one line each, and for one edit at most on a line
(`batchFits_of_lines`).  End asks for one of three things (`SmartKey.endKey_act`).  When Enter looks for a brace in the
line with the missing comma, what it finds stands in front of the comma (`length_braceBefore_comma_le`).
-/

namespace MultiCaret

/-- The host can carry the action out: its edits fit the lines, it sets carets only, and what it shows is not above the
text. -/
structure Action.Fits (lines : List Text) (a : Action) : Prop where
  edits : BatchFits lines a.edits
  carets : ∀ s ∈ a.selections, s.isEmpty = true
  reveal : ∀ p ∈ a.reveal, 0 ≤ p.line

/-- The host can carry out what the reaction asks for. -/
def Reaction.Fits (lines : List Text) : Reaction → Prop
  | .decline .. => True
  | .act a => a.Fits lines

variable {lines : List Text}

/-! ### Batches -/

/-- Edits of one line each fit if there is one at most on a line. -/
theorem batchFits_of_lines {es : List Edit} (hr : ∀ e ∈ es, e.InRange lines)
    (hone : ∀ e ∈ es, e.stop.line = e.start.line) (hnodup : (es.map fun e => e.start.line).Nodup) :
    BatchFits lines es := by
  refine ⟨hr, ?_⟩
  have hne : es.Pairwise fun a b => a.start.line ≠ b.start.line := List.pairwise_map.1 hnodup
  refine hne.imp_of_mem ?_
  intro a b ha hb hab
  have h₁ := hone a ha
  have h₂ := hone b hb
  simp only [Edit.Apart, Position.le_def]
  omega

theorem inBounds_onLine {n : Int} (h : HasLine lines n) {k : Nat} (hk : k ≤ (lineOf lines n).length) :
    InBounds lines ⟨n, k⟩ :=
  ⟨h, Int.natCast_nonneg k, Int.ofNat_le.2 hk⟩

/-- A stretch of a line is a range. -/
theorem inRange_onLine {n : Int} (h : HasLine lines n) {j k : Nat} (hjk : j ≤ k) (hk : k ≤ (lineOf lines n).length)
    (t : Text) : (Edit.mk ⟨n, j⟩ ⟨n, k⟩ t).InRange lines := by
  refine ⟨?_, inBounds_onLine h (Nat.le_trans hjk hk), inBounds_onLine h hk⟩
  rw [Position.le_def]
  exact Or.inr ⟨rfl, Int.ofNat_le.2 hjk⟩

/-- So is a stretch from the line above to a line. -/
private theorem inRange_fromAbove {n : Int} (h : HasLine lines n) (hn : 0 < n) {j k : Nat}
    (hj : j ≤ (lineOf lines (n - 1)).length) (hk : k ≤ (lineOf lines n).length) (t : Text) :
    (Edit.mk ⟨n - 1, j⟩ ⟨n, k⟩ t).InRange lines := by
  have habove : HasLine lines (n - 1) := ⟨by omega, by have := h.2; omega⟩
  refine ⟨?_, inBounds_onLine habove hj, inBounds_onLine h hk⟩
  rw [Position.le_def]
  exact Or.inl (by simp only; omega)

private theorem fits_caretAt {n k : Int} {es : List Edit} (hn : 0 ≤ n) (hes : BatchFits lines es) (c : ToggleChange) :
    (Reaction.act (.caretAt ⟨n, k⟩ es c)).Fits lines := by
  refine ⟨hes, ?_, ?_⟩
  · intro s hs
    rw [List.mem_singleton.1 hs]
    exact Selection.isEmpty_caret _
  · intro p hp
    rw [← Option.some.inj hp]
    exact hn

theorem firstNonBlank_le (l : Text) : firstNonBlank l ≤ l.length := by
  unfold firstNonBlank
  cases h : l.findIdx? fun c => !isBlank c with
  | none => exact Nat.zero_le _
  | some k => exact Nat.le_of_lt (List.findIdx?_eq_some_iff_getElem.1 h).1

namespace SmartKey

variable {s : Scene}

/-! ### The End key -/

theorem inRange_reindent {n : Int} (h : HasLine lines n) {indent : Text} {e : Edit}
    (he : reindent? n (lineOf lines n) indent = some e) :
    e.InRange lines ∧ e.start.line = n ∧ e.stop.line = n := by
  unfold reindent? at he
  split at he
  · cases he
  · rw [← Option.some.inj he]
    exact ⟨inRange_onLine h (Nat.zero_le _) (Nat.le_refl _) indent, rfl, rfl⟩

/-- What End asks for on a blank line: the indentation that the line should have, and the caret behind it. -/
def indentBlank (s : Scene) (n : Int) : Action :=
  let indent := indentFor s.lines n s.indent
  .caretAt ⟨n, indent.length⟩ (reindent? n (lineOf s.lines n) indent).toList (.record ⟨n, indent.length, false⟩)

/-- What End asks for on another line: the caret at the end without trailing blanks, or at the full end. -/
def goToEnd (lines : List Text) (n : Int) (trimmed : Bool) : Action :=
  let column := if trimmed then (trimEnd (lineOf lines n)).length else (lineOf lines n).length
  .caretAt ⟨n, column⟩ [] (.record ⟨n, column, trimmed⟩)

/-- What End asks for with several carets. -/
def endEach (s : Scene) : Action :=
  let targets := s.selections.map (endCaret s)
  { edits := (s.selections.map fun sel => sel.active.line).eraseDups.filterMap (endEdit? s)
    selections := targets
    reveal := targets.head?.map Selection.active
    toggle := .forget }

theorem endTarget_cases (toggle : Option EndToggle) (column : Int) (trimmed full : Nat) :
    endTarget toggle column trimmed full = (full, false) ∨ endTarget toggle column trimmed full = (trimmed, true) := by
  simp only [endTarget]
  split
  · exact Or.inl rfl
  · split
    · exact Or.inr rfl
    · split
      · exact Or.inl rfl
      · exact Or.inr rfl

/-- End asks for one of these things. -/
theorem endKey_act {a : Action} (h : endKey s = .act a) :
    (∃ n, HasLine s.lines n ∧ a = indentBlank s n) ∨
      (∃ n trimmed, HasLine s.lines n ∧ a = goToEnd s.lines n trimmed) ∨
        allCarets s.selections = true ∧ a = endEach s := by
  unfold endKey at h
  split at h
  · next hall =>
    split at h
    · next sel _ =>
      split at h
      · next hline =>
        unfold endOnLine at h
        split at h
        · split at h
          · exact Or.inl ⟨_, hline, (Reaction.act.inj h).symm⟩
          · cases h
        · split at h
          · right
            left
            rcases endTarget_cases (s.toggle.filter fun t => !t.isStale sel.active) sel.active.column
              (trimEnd (lineOf s.lines sel.active.line)).length (lineOf s.lines sel.active.line).length with hto | hto
            · simp only [hto] at h
              exact ⟨_, false, hline, (Reaction.act.inj h).symm⟩
            · simp only [hto] at h
              exact ⟨_, true, hline, (Reaction.act.inj h).symm⟩
          · cases h
      · cases h
    · unfold endMany at h
      split at h
      · exact Or.inr (Or.inr ⟨hall, (Reaction.act.inj h).symm⟩)
      · cases h
  · cases h

private theorem indentBlank_fits {n : Int} (h : HasLine s.lines n) : (indentBlank s n).Fits s.lines := by
  refine fits_caretAt h.1 ?_ _
  cases he : reindent? n (lineOf s.lines n) (indentFor s.lines n s.indent) with
  | none => exact batchFits_nil _
  | some e => exact batchFits_singleton (inRange_reindent h he).1

private theorem endEdit_spec {n : Int} {e : Edit} (he : endEdit? s n = some e) :
    e.InRange s.lines ∧ e.start.line = n ∧ e.stop.line = n := by
  unfold endEdit? at he
  simp only at he
  split at he
  · next h => exact inRange_reindent h.1 he
  · cases he

theorem endCaret_spec {sel : Selection} (hsel : sel.isEmpty = true) :
    (endCaret s sel).isEmpty = true ∧ (endCaret s sel).active.line = sel.active.line := by
  unfold endCaret
  simp only
  split
  · split
    · exact ⟨Selection.isEmpty_caret _, rfl⟩
    · split
      · exact ⟨Selection.isEmpty_caret _, rfl⟩
      · exact ⟨Selection.isEmpty_caret _, rfl⟩
  · exact ⟨hsel, rfl⟩

theorem nodup_endEdits (ns : List Int) (h : ns.Nodup) :
    ((ns.filterMap (endEdit? s)).map fun e => e.start.line).Nodup := by
  induction ns with
  | nil => exact List.nodup_nil
  | cons n ns ih =>
    obtain ⟨hn, hns⟩ := List.nodup_cons.1 h
    rw [List.filterMap_cons]
    split
    · exact ih hns
    · next e he =>
      refine List.nodup_cons.2 ⟨?_, ih hns⟩
      intro hmem
      obtain ⟨e', he', hline⟩ := List.mem_map.1 hmem
      obtain ⟨m, hm, hme⟩ := List.mem_filterMap.1 he'
      simp only [(endEdit_spec hme).2.1, (endEdit_spec he).2.1] at hline
      exact hn (hline ▸ hm)

/-- Lines that are indented fit together. -/
private theorem batchFits_endEdits {ns : List Int} (h : ns.Nodup) : BatchFits s.lines (ns.filterMap (endEdit? s)) := by
  refine batchFits_of_lines ?_ ?_ (nodup_endEdits _ h)
  · intro e he
    obtain ⟨n, -, hn⟩ := List.mem_filterMap.1 he
    exact (endEdit_spec hn).1
  · intro e he
    obtain ⟨n, -, hn⟩ := List.mem_filterMap.1 he
    exact (endEdit_spec hn).2.2.trans (endEdit_spec hn).2.1.symm

private theorem endEach_fits (h : Settled s.lines s.selections) (hcarets : ∀ sel ∈ s.selections, sel.isEmpty = true) :
    (endEach s).Fits s.lines := by
  refine ⟨batchFits_endEdits (nodup_eraseDups _), ?_, ?_⟩
  · intro sel hsel
    obtain ⟨sel', hsel', rfl⟩ := List.mem_map.1 hsel
    exact (endCaret_spec (hcarets sel' hsel')).1
  · intro p hp
    obtain ⟨sel, hsel, rfl⟩ := Option.map_eq_some_iff.1 hp
    obtain ⟨sel', hsel', rfl⟩ := List.mem_map.1 (List.mem_of_head? hsel)
    rw [(endCaret_spec (hcarets sel' hsel')).2]
    exact (h.inBounds sel' hsel').2.1.1

theorem carets_of_allCarets {ss : List Selection} (h : allCarets ss = true) :
    ∀ sel ∈ ss, sel.isEmpty = true := by
  rw [allCarets, Bool.and_eq_true] at h
  exact List.all_eq_true.1 h.2

private theorem endKey_fits (h : Settled s.lines s.selections) : (endKey s).Fits s.lines := by
  cases hr : endKey s with
  | decline k forgets => trivial
  | act a =>
    rcases endKey_act hr with ⟨n, hn, rfl⟩ | ⟨n, trimmed, hn, rfl⟩ | ⟨hall, rfl⟩
    · exact indentBlank_fits hn
    · exact fits_caretAt hn.1 (batchFits_nil _) _
    · exact endEach_fits h (carets_of_allCarets hall)

/-- Wherever the cursors are, what End asks for fits. -/
theorem endKey_batchFits (s : Scene) {a : Action} (h : endKey s = .act a) : BatchFits s.lines a.edits := by
  rcases endKey_act h with ⟨n, hn, rfl⟩ | ⟨n, trimmed, hn, rfl⟩ | ⟨-, rfl⟩
  · exact (indentBlank_fits hn).edits
  · exact batchFits_nil _
  · exact batchFits_endEdits (nodup_eraseDups _)

/-! ### The Backspace key -/

private theorem backspaceBlank_fits {n : Int} (h : HasLine s.lines n) (hn : 0 < n) :
    (backspaceBlank s n (lineOf s.lines n)).Fits s.lines := by
  have hline : 0 ≤ n - 1 := by omega
  unfold backspaceBlank
  simp only
  split
  · exact fits_caretAt hline (batchFits_singleton (inRange_fromAbove h hn (Nat.zero_le _) (Nat.le_refl _) _)) _
  · exact fits_caretAt hline
      (batchFits_singleton (inRange_fromAbove h hn (length_trimEnd_le _) (Nat.le_refl _) _)) _

private theorem backspaceIndent_fits {n : Int} (h : HasLine s.lines n) (hn : 0 < n) :
    (backspaceIndent s n (lineOf s.lines n)).Fits s.lines := by
  have hline : 0 ≤ n - 1 := by omega
  unfold backspaceIndent
  simp only
  split
  · exact fits_caretAt h.1 (batchFits_singleton (inRange_onLine h (Nat.zero_le _) (firstNonBlank_le _) _)) _
  · split
    · exact fits_caretAt hline (batchFits_singleton (inRange_fromAbove h hn (Nat.zero_le _) (Nat.zero_le _) _)) _
    · exact fits_caretAt hline
        (batchFits_singleton (inRange_fromAbove h hn (length_trimEnd_le _) (Nat.le_refl _) _)) _

theorem backspaceKey_fits (s : Scene) : (backspaceKey s).Fits s.lines := by
  unfold backspaceKey
  split
  · split
    · next h =>
      unfold backspaceOnLine
      split
      · split
        · next hb => exact backspaceBlank_fits h.2 hb.2
        · trivial
      · split
        · next hb => exact backspaceIndent_fits h.2 hb.2.2
        · trivial
    · trivial
  · trivial

/-! ### The Enter key -/

/-- The brace in front of a column lies in the line. -/
private theorem braceBefore_spec {l : Text} {column : Int} {b : Nat} (h : braceBefore? l column = some b) :
    ∃ before, before <+: l ∧ before.getLast? = some '\x7b' ∧ before.length = b + 1 := by
  unfold braceBefore? at h
  simp only at h
  split at h
  · next hlast =>
    refine ⟨trimEnd (upTo l column), ?_, hlast, ?_⟩
    · have hcut : upTo l column <+: l := List.take_prefix _ _
      exact (List.prefix_append _ _).trans ((trimEnd_append_trailingBlanks (upTo l column)).1.symm ▸ hcut)
    · have hpos : trimEnd (upTo l column) ≠ [] := by
        intro hnil
        rw [hnil] at hlast
        cases hlast
      have := List.length_pos_iff.2 hpos
      have := Option.some.inj h
      omega
  · cases h

theorem length_braceBefore_le {l : Text} {column : Int} {b : Nat} (h : braceBefore? l column = some b) :
    b + 1 ≤ l.length := by
  obtain ⟨before, hpre, -, hlen⟩ := braceBefore_spec h
  rw [← hlen]
  exact hpre.length_le

/-- Neither the comma nor the blanks behind it are a brace, so the brace stands in front of the comma. -/
theorem length_braceBefore_comma_le {l : Text} {column : Int} {b : Nat}
    (h : braceBefore? (l.take (terminatorColumn l) ++ ',' :: l.drop (terminatorColumn l)) column = some b) :
    b + 1 ≤ terminatorColumn l := by
  obtain ⟨before, hpre, hlast, hlen⟩ := braceBefore_spec h
  have hk : (l.take (terminatorColumn l)).length = terminatorColumn l := by
    have := length_trimEnd_le l
    simp only [terminatorColumn, List.length_take]
    omega
  by_contra hgt
  -- a brace behind the comma would have to be one of the blanks there
  obtain ⟨j, hj⟩ : ∃ j, b + 1 - terminatorColumn l = j + 1 := ⟨b - terminatorColumn l, by omega⟩
  have hbefore : before = l.take (terminatorColumn l) ++ ',' :: (l.drop (terminatorColumn l)).take j := by
    rw [List.prefix_iff_eq_take.1 hpre, hlen, List.take_append, hk, hj, List.take_succ_cons,
      List.take_of_length_le (by omega)]
  rw [hbefore, List.getLast?_append_cons] at hlast
  rcases List.mem_cons.1 (List.mem_of_getLast? hlast) with hc | hc
  · cases hc
  · have hblank := List.all_eq_true.1 (trimEnd_append_trailingBlanks l).2 _ (List.mem_of_mem_take hc)
    cases hblank

theorem expandBrace_spec {n : Int} {l unit : Text} {column : Int} {p : PlannedEdit}
    (h : expandBrace? lines n l column unit = some p) :
    ∃ b, braceBefore? l column = some b ∧ p.edit = ⟨⟨n, (b + 1 : Nat)⟩, ⟨n, l.length⟩, blockText l b unit⟩ ∧
      p.cursor.line = n + 1 := by
  unfold expandBrace? at h
  split at h
  · cases h
  · next b hb =>
    split at h
    · rw [← Option.some.inj h]
      exact ⟨b, hb, rfl, rfl⟩
    · cases h

/-- The cursor goes behind the indentation of the second line of the block. -/
theorem expandBrace_cursor {n : Int} {l unit : Text} {column : Int} {p : PlannedEdit}
    (h : expandBrace? lines n l column unit = some p) :
    p.cursor = ⟨n + 1, (leadingBlanks l).length + unit.length⟩ := by
  unfold expandBrace? at h
  split at h
  · cases h
  · split at h
    · rw [← Option.some.inj h]
    · cases h

theorem block_spec {n : Int} {l : Text} {column : Int} {p : PlannedEdit}
    (h : block? s n l column = some p) :
    ∃ b, braceBefore? l column = some b ∧
      p.edit = ⟨⟨n, (b + 1 : Nat)⟩, ⟨n, l.length⟩, blockText l b s.indent.unit⟩ ∧ p.cursor.line = n + 1 := by
  unfold block? at h
  split at h
  · exact expandBrace_spec h
  · cases h

theorem missingTerminator_eq {l : Text} {k : Nat} (h : missingTerminator? s l = some k) : k = terminatorColumn l := by
  unfold missingTerminator? at h
  split at h
  · exact (Option.some.inj h).symm
  · cases h

private theorem enterOnLine_fits {n column : Int} (h : HasLine s.lines n) :
    (enterOnLine s n column (lineOf s.lines n)).Fits s.lines := by
  unfold enterOnLine
  split
  · split
    · next p hp =>
      obtain ⟨b, hb, hedit, hcursor⟩ := block_spec hp
      refine fits_caretAt (by rw [hcursor]; have := h.1; omega) (batchFits_singleton ?_) _
      rw [hedit]
      exact inRange_onLine h (length_braceBefore_le hb) (Nat.le_refl _) _
    · trivial
  · next k hk =>
    have hk' := missingTerminator_eq hk
    simp only
    split
    · next p hp =>
      obtain ⟨b, hb, hedit, hcursor⟩ := block_spec hp
      rw [hk'] at hb
      refine fits_caretAt (by rw [hcursor]; have := h.1; omega) (batchFits_singleton ?_) _
      rw [hedit]
      exact inRange_onLine h (Nat.le_trans (length_braceBefore_comma_le hb) (length_trimEnd_le _)) (Nat.le_refl _) _
    · have hle : k ≤ (lineOf s.lines n).length := hk' ▸ length_trimEnd_le _
      refine ⟨batchFits_singleton (inRange_onLine h (Nat.le_refl k) hle _), ?_, ?_⟩
      · intro sel hsel
        rw [List.mem_singleton.1 hsel]
        exact Selection.isEmpty_caret _
      · intro p hp
        cases hp

theorem mapM_zip {α β : Type} {f : α → Option β} {l : List α} {ys : List β} (h : l.mapM f = some ys) :
    (∀ c ∈ l.zip ys, f c.1 = some c.2) ∧ (l.zip ys).map Prod.fst = l := by
  induction l generalizing ys with
  | nil => simp
  | cons a l ih =>
    rw [List.mapM_cons] at h
    cases ha : f a with
    | none => simp [ha] at h
    | some y =>
      cases hl : l.mapM f with
      | none => simp [ha, hl] at h
      | some rest =>
        have hys : ys = y :: rest := by simpa [ha, hl, eq_comm] using h
        obtain ⟨hmem, hfst⟩ := ih hl
        subst hys
        constructor
        · intro c hc
          rcases List.mem_cons.1 hc with rfl | hc
          · exact ha
          · exact hmem c hc
        · rw [List.zip_cons_cons, List.map_cons, hfst]

private theorem lineShift_nonneg {added : List (Position × Int)} (h : ∀ a ∈ added, 0 ≤ a.2) (n : Int) :
    0 ≤ lineShift added n := by
  unfold lineShift
  induction added with
  | nil => exact Int.le_refl 0
  | cons a added ih =>
    have ih' := ih fun b hb => h b (List.mem_cons_of_mem a hb)
    have ha := h a List.mem_cons_self
    rw [List.filter_cons]
    split
    · rw [List.foldr_cons]
      omega
    · exact ih'

theorem blockAt_spec {o : Position} {p : PlannedEdit} (h : blockAt? s o = some p) :
    HasLine s.lines o.line ∧ p.edit.InRange s.lines ∧ p.edit.start.line = o.line ∧ p.edit.stop.line = o.line ∧
      p.cursor.line = o.line + 1 := by
  unfold blockAt? at h
  simp only at h
  split at h
  · next hline =>
    obtain ⟨b, hb, hedit, hcursor⟩ := expandBrace_spec h
    rw [hedit]
    exact ⟨hline, inRange_onLine hline (length_braceBefore_le hb) (Nat.le_refl _) _, rfl, rfl, hcursor⟩
  · cases h

/-- Blocks on different lines fit together. -/
theorem batchFits_blocks {cursors : List (Position × PlannedEdit)}
    (hblock : ∀ c ∈ cursors, blockAt? s c.1 = some c.2) (hnodup : ((cursors.map Prod.fst).map Position.line).Nodup) :
    BatchFits s.lines (cursors.map fun c => c.2.edit) := by
  have hlines : ((cursors.map fun c => c.2.edit).map fun e => e.start.line) =
      (cursors.map Prod.fst).map Position.line := by
    rw [List.map_map, List.map_map]
    exact List.map_congr_left fun c hc => (blockAt_spec (hblock c hc)).2.2.1
  refine batchFits_of_lines ?_ ?_ (hlines ▸ hnodup)
  · intro e he
    obtain ⟨c, hc, rfl⟩ := List.mem_map.1 he
    exact (blockAt_spec (hblock c hc)).2.1
  · intro e he
    obtain ⟨c, hc, rfl⟩ := List.mem_map.1 he
    obtain ⟨-, -, hstart, hstop, -⟩ := blockAt_spec (hblock c hc)
    exact hstop.trans hstart.symm

/-- A block only adds lines, so no cursor is moved up. -/
private theorem line_byLine_nonneg {cursors : List (Position × PlannedEdit)}
    (hblock : ∀ c ∈ cursors, blockAt? s c.1 = some c.2) :
    ∀ sel ∈ (EditPlan.byLine cursors).selections, 0 ≤ sel.active.line := by
  have hadded : ∀ a ∈ cursors.map fun c => (c.2.edit.start, c.2.edit.growth), 0 ≤ a.2 := by
    intro a ha
    obtain ⟨c, hc, rfl⟩ := List.mem_map.1 ha
    obtain ⟨-, -, hstart, hstop, -⟩ := blockAt_spec (hblock c hc)
    simp only [Edit.growth]
    omega
  intro sel hsel
  obtain ⟨c, hc, rfl⟩ := List.mem_map.1 hsel
  obtain ⟨hline, -, -, -, hcursor⟩ := blockAt_spec (hblock c hc)
  have h₁ := lineShift_nonneg hadded c.1.line
  have h₂ := hline.1
  simp only [Selection.caret, hcursor]
  omega

private theorem enterMany_fits (s : Scene) : (enterMany s).Fits s.lines := by
  unfold enterMany
  simp only
  split
  · next hcond =>
    split
    · trivial
    · next planned hplanned =>
      obtain ⟨hblock, hfst⟩ := mapM_zip hplanned
      have hfit := batchFits_blocks hblock (by rw [hfst]; exact hcond.2)
      refine ⟨hfit.perm (editsBottomUp_perm _).symm, ?_, ?_⟩
      · intro sel hsel
        obtain ⟨c, -, rfl⟩ := List.mem_map.1 hsel
        exact Selection.isEmpty_caret _
      · intro p hp
        obtain ⟨sel, hsel, rfl⟩ := Option.map_eq_some_iff.1 hp
        exact line_byLine_nonneg hblock sel (List.mem_of_head? hsel)
  · trivial

theorem enterKey_fits (s : Scene) : (enterKey s).Fits s.lines := by
  unfold enterKey
  split
  · split
    · simp only
      split
      · next hline => exact enterOnLine_fits hline
      · trivial
    · exact enterMany_fits s
  · trivial

/-! ### The separator key -/

theorem propertyBefore_start_le {l : Text} {k : Nat} {p : PropertyName}
    (h : propertyBefore? l (k : Int) = some p) : p.start ≤ k := by
  have hcore : (trimEnd (upTo l (k : Int))).length ≤ k := by
    refine Nat.le_trans (length_trimEnd_le _) ?_
    rw [upTo_natCast]
    exact List.length_take_le k l
  unfold propertyBefore? at h
  simp only at h
  split at h
  · rw [← Option.some.inj h]
    simp only
    omega
  · split at h
    · rw [← Option.some.inj h]
      simp only
      omega
    · cases h

private theorem separatorKey_fits (h : Settled s.lines s.selections) : (separatorKey s).Fits s.lines := by
  unfold separatorKey
  split
  · next sel hsel =>
    simp only
    split
    · next hcond =>
      have hline := hcond.2.2.2
      have hcol : 0 ≤ sel.active.column := (h.inBounds sel (hsel ▸ List.mem_singleton.2 rfl)).2.2.1
      obtain ⟨k, hk, hle⟩ := exists_min_eq (n := (lineOf s.lines sel.active.line).length) hcol
      rw [hk]
      unfold separatorOnLine
      split
      · trivial
      · split
        · trivial
        · next p hp =>
          exact fits_caretAt hline.1
            (batchFits_singleton (inRange_onLine hline (propertyBefore_start_le hp) hle _)) _
    · trivial
  · trivial

end SmartKey

/-- What a smart key asks for can be done. -/
theorem react_fits (key : SmartKeyName) {s : Scene} (h : Settled s.lines s.selections) :
    (key.react s).Fits s.lines := by
  cases key with
  | lineEnd => exact SmartKey.endKey_fits h
  | backspace => exact SmartKey.backspaceKey_fits s
  | enter => exact SmartKey.enterKey_fits s
  | separator => exact SmartKey.separatorKey_fits h

end MultiCaret
