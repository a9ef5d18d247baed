import MultiCaret.Proofs.SmartKey.Backspace

/-!
# Smart keys that act can be seen

When a smart key asks for edits, the lines are others afterwards (`react_shows`), because no key asks for what is there
already.  End indents a blank line only if it has another indentation.  Backspace removes a line break or some blanks.
Enter puts in a comma or two lines for every cursor.  The separator key puts a colon where there were blanks at most, or a
quote in front of a name that began with a letter.
-/

namespace MultiCaret

/-- If the reaction asks for edits, they change the lines. -/
def Reaction.Shows (lines : List Text) : Reaction → Prop
  | .decline .. => True
  | .act a => a.edits = [] ∨ BatchShows lines a.edits

variable {lines : List Text}

/-- A single edit that makes another line of its line. -/
private theorem shows_of_within (h : WellFormed lines) {e : Edit} (he : e.OneLine lines)
    (hne : e.within (lineOf lines e.start.line) ≠ lineOf lines e.start.line) : BatchShows lines [e] := by
  refine batchShows_of_within h ?_ (List.nodup_singleton _) (List.mem_singleton.2 rfl) hne
  intro e' he'
  rw [List.mem_singleton.1 he']
  exact he

namespace SmartKey

variable {s : Scene} {a : Action}

/-! ### The End key -/

theorem reindent_eq_none {n : Int} {old indent : Text} (h : reindent? n old indent = none) : old = indent := by
  unfold reindent? at h
  split at h
  · assumption
  · cases h

/-- Where a line is to get another indentation, one edit on this line makes it this indentation. -/
theorem reindent_spec {n : Int} (h : HasLine lines n) {indent : Text} (hindent : '\n' ∉ indent) {e : Edit}
    (he : reindent? n (lineOf lines n) indent = some e) :
    e.OneLine lines ∧ e.start.line = n ∧ e.within (lineOf lines n) = indent ∧ indent ≠ lineOf lines n := by
  obtain ⟨hr, hstart, hstop⟩ := inRange_reindent h he
  unfold reindent? at he
  split at he
  · cases he
  · next hne =>
    obtain rfl := Option.some.inj he
    exact ⟨⟨hr, rfl, hindent⟩, rfl, by simp [Edit.within], Ne.symm hne⟩

private theorem reindent_shows {n : Int} (h : HasLine lines n) {indent : Text} (hindent : '\n' ∉ indent) {e : Edit}
    (he : reindent? n (lineOf lines n) indent = some e) :
    e.OneLine lines ∧ e.within (lineOf lines e.start.line) ≠ lineOf lines e.start.line := by
  obtain ⟨hone, hstart, hwithin, hne⟩ := reindent_spec h hindent he
  rw [hstart, hwithin]
  exact ⟨hone, hne⟩

private theorem endEdit_shows (h : WellFormed s.lines) {n : Int} {e : Edit} (he : endEdit? s n = some e) :
    e.OneLine s.lines ∧ e.within (lineOf s.lines e.start.line) ≠ lineOf s.lines e.start.line := by
  unfold endEdit? at he
  simp only at he
  split at he
  · next hcond => exact reindent_shows hcond.1 (newline_not_mem_indentFor h n _) he
  · cases he

private theorem indentBlank_shows (h : WellFormed s.lines) {n : Int} (hn : HasLine s.lines n) :
    (indentBlank s n).edits = [] ∨ BatchShows s.lines (indentBlank s n).edits := by
  simp only [indentBlank, Action.caretAt]
  cases he : reindent? n (lineOf s.lines n) (indentFor s.lines n s.indent) with
  | none => exact Or.inl rfl
  | some e =>
    obtain ⟨hone, hne⟩ := reindent_shows hn (newline_not_mem_indentFor h _ _) he
    exact Or.inr (shows_of_within h hone hne)

private theorem endEach_shows (h : WellFormed s.lines) :
    (endEach s).edits = [] ∨ BatchShows s.lines (endEach s).edits := by
  have hnodup := nodup_endEdits (s := s) _ (nodup_eraseDups (s.selections.map fun sel => sel.active.line))
  have hall : ∀ e ∈ (endEach s).edits, e.OneLine s.lines ∧
      e.within (lineOf s.lines e.start.line) ≠ lineOf s.lines e.start.line := by
    intro e he
    obtain ⟨n, -, hn⟩ := List.mem_filterMap.1 he
    exact endEdit_shows h hn
  obtain ⟨es, hes⟩ : ∃ es, es = (endEach s).edits := ⟨_, rfl⟩
  have hlines : (es.map fun e => e.start.line).Nodup := hes ▸ hnodup
  rw [← hes] at hall ⊢
  cases es with
  | nil => exact Or.inl rfl
  | cons e rest =>
    exact Or.inr (batchShows_of_within h (fun e' he' => (hall e' he').1) hlines List.mem_cons_self
      (hall e List.mem_cons_self).2)

private theorem endKey_shows (h : WellFormed s.lines) : (endKey s).Shows s.lines := by
  cases hr : endKey s with
  | decline k forgets => trivial
  | act a =>
    rcases endKey_act hr with ⟨n, hn, rfl⟩ | ⟨n, trimmed, -, rfl⟩ | ⟨-, rfl⟩
    · exact indentBlank_shows h hn
    · exact Or.inl rfl
    · exact endEach_shows h

/-! ### The Backspace key -/

private theorem backspaceKey_shows (hwf : WellFormed s.lines) : (backspaceKey s).Shows s.lines := by
  cases hr : backspaceKey s with
  | decline k forgets => trivial
  | act a =>
    obtain ⟨A, above, l, B, kept, x, y, column, -, -, hw⟩ := backspaceKey_act hwf hr
    exact Or.inr hw.shows

/-! ### The Enter key -/

private theorem enterKey_shows (hwf : WellFormed s.lines) (h : enterKey s = .act a) : BatchShows s.lines a.edits := by
  have hfits := enterKey_fits s
  rw [h] at hfits
  obtain ⟨hne, ⟨p, -, hcomma⟩ | hblocks⟩ := enterKey_act hwf h
  · have hle : terminatorColumn (lineOf s.lines p.line) ≤ (lineOf s.lines p.line).length := length_trimEnd_le _
    rw [hcomma.edits]
    refine shows_of_within hwf hcomma.oneLine ?_
    intro heq
    have hlen := congrArg List.length heq
    simp only [Edit.insert, Edit.within, List.length_append, List.length_take, List.length_drop,
      List.length_singleton, Int.toNat_natCast] at hlen
    omega
  · refine batchShows_of_growth hwf hfits.edits (Int.ne_of_gt (total_pos ?_ ?_))
    · intro hnil
      rw [List.map_eq_nil_iff, ← List.length_eq_zero_iff, hblocks.one_each, List.length_eq_zero_iff] at hnil
      exact hne hnil
    · intro n hn
      obtain ⟨e, he, rfl⟩ := List.mem_map.1 hn
      rw [hblocks.growth e he]
      decide

/-! ### The separator key -/

/-- What stands in front of a cursor for which a property name is found: the name and some blanks behind it.  A name
without quotes begins with a letter or the like. -/
theorem propertyBefore_spec {l : Text} {k : Nat} (hk : k ≤ l.length) {p : PropertyName}
    (h : propertyBefore? l (k : Int) = some p) :
    ∃ blanks, l.take k = l.take p.start ++ (l.take p.stop).drop p.start ++ blanks ∧ isBlankText blanks = true ∧
      (p.quoted = false → (l.take p.stop).drop p.start = p.name ∧ ∃ c rest, p.name = c :: rest ∧ isNameStart c) := by
  obtain ⟨core, hcore⟩ : ∃ core, core = trimEnd (l.take k) := ⟨_, rfl⟩
  obtain ⟨happend, hblank⟩ := trimEnd_append_trailingBlanks (l.take k)
  rw [← hcore] at happend
  have hlen : core.length ≤ k := by
    have := length_trimEnd_le (l.take k)
    rw [← hcore, List.length_take] at this
    omega
  have htake : ∀ j ≤ core.length, l.take j = core.take j := by
    intro j hj
    have := congrArg (List.take j) happend
    rw [List.take_append_of_le_length hj, List.take_take, Nat.min_eq_left (by omega)] at this
    exact this.symm
  have hcore' : l.take core.length = core := (htake _ (Nat.le_refl _)).trans (List.take_length)
  have hsplit : ∀ j ≤ core.length, l.take k = l.take j ++ core.drop j ++ trailingBlanks (l.take k) := by
    intro j hj
    rw [htake j hj, List.take_append_drop, happend]
  unfold propertyBefore? at h
  simp only [upTo_natCast, ← hcore] at h
  split at h
  · obtain rfl := Option.some.inj h
    simp only [hcore']
    exact ⟨_, hsplit _ (by omega), hblank, fun hq => by cases hq⟩
  · split at h
    · next name hname =>
      obtain rfl := Option.some.inj h
      have hsuffix : name <:+ core := mem_suffixes.1 (List.mem_of_find?_eq_some hname)
      have hdotted : isDottedName name = true := List.find?_some hname
      simp only [hcore']
      refine ⟨_, hsplit _ (by omega), hblank, fun _ => ⟨(List.suffix_iff_eq_drop.1 hsuffix).symm, ?_⟩⟩
      cases name with
      | nil => cases hdotted
      | cons c rest =>
        simp only [isDottedName, Bool.and_eq_true] at hdotted
        exact ⟨c, rest, rfl, hdotted.1⟩
    · cases h

variable {c : Settings} {l : Text} {p : PropertyName}

/-- A name is not completed to what is there already. -/
private theorem completion_ne {blanks : Text} (hblank : isBlankText blanks = true)
    (hname : p.quoted = false → (l.take p.stop).drop p.start = p.name ∧ ∃ c rest, p.name = c :: rest ∧ isNameStart c) :
    completion c l p ≠ (l.take p.stop).drop p.start ++ blanks := by
  unfold completion keyText
  split
  · -- the colon would have to be a blank
    intro heq
    rw [List.append_cancel_left_eq] at heq
    have hcolon := List.all_eq_true.1 hblank ':' (heq ▸ List.mem_cons_self)
    cases hcolon
  · next hraw =>
    obtain ⟨hdrop, ch, rest, hfirst, hstart⟩ := hname (Bool.eq_false_iff.2 fun hq => hraw (Or.inl hq))
    rw [hdrop, hfirst]
    intro heq
    -- the quote would have to be the first letter of the name
    have hquote : '"' = ch := (List.cons.inj heq).1
    rw [← hquote] at hstart
    cases hstart

private theorem newline_not_mem_completion (hl : '\n' ∉ l)
    (hname : p.quoted = false → (l.take p.stop).drop p.start = p.name ∧ ∃ c rest, p.name = c :: rest ∧ isNameStart c) :
    '\n' ∉ completion c l p := by
  have hdrop : '\n' ∉ (l.take p.stop).drop p.start := fun hm => hl (List.mem_of_mem_take (List.mem_of_mem_drop hm))
  have hkey : '\n' ∉ keyText c l p := by
    unfold keyText
    split
    · exact hdrop
    · next hraw =>
      rw [(hname (Bool.eq_false_iff.2 fun hq => hraw (Or.inl hq))).1] at hdrop
      simpa using hdrop
  unfold completion
  rw [List.mem_append, not_or]
  refine ⟨hkey, ?_⟩
  split <;> decide

/-- The edit that completes a name changes one line. -/
theorem oneLine_completingEdit {p : Position} {name : PropertyName} (hwf : WellFormed s.lines) (h : Completes s p name) (hcol : 0 ≤ p.column) :
    (completingEdit s p name).OneLine s.lines := by
  obtain ⟨k, hk, hle⟩ := exists_min_eq (n := (lineOf s.lines p.line).length) hcol
  have hname := h.name_eq
  rw [hk] at hname
  obtain ⟨-, -, -, hfirst⟩ := propertyBefore_spec hle hname
  exact ⟨Recorder.inRange_completingEdit h hcol, rfl, newline_not_mem_completion (hwf.lineOf _) hfirst⟩

private theorem separatorKey_shows (hwf : WellFormed s.lines) (hset : Settled s.lines s.selections)
    (h : separatorKey s = .act a) : BatchShows s.lines a.edits := by
  obtain ⟨p, name, hcompletes, hedits⟩ := separatorKey_act h
  obtain ⟨-, hin⟩ := hset.inBounds (.caret p) (hcompletes.selections ▸ List.mem_singleton.2 rfl)
  have hcol : 0 ≤ p.column := hin.2.1
  obtain ⟨k, hk, hle⟩ := exists_min_eq (n := (lineOf s.lines p.line).length) hcol
  have hname := hcompletes.name_eq
  rw [hk] at hname
  obtain ⟨blanks, hsplit, hblank, hfirst⟩ := propertyBefore_spec hle hname
  rw [hedits]
  refine shows_of_within hwf (oneLine_completingEdit hwf hcompletes hcol) ?_
  intro heq
  simp only [Edit.within, completingEdit, hk, Int.toNat_natCast] at heq
  have hsame := heq.trans (List.take_append_drop k (lineOf s.lines p.line)).symm
  rw [List.append_cancel_right_eq, hsplit, List.append_assoc, List.append_cancel_left_eq] at hsame
  exact completion_ne hblank hfirst hsame

end SmartKey

/-- When a smart key asks for edits, the lines are others afterwards. -/
theorem react_shows (key : SmartKeyName) {s : Scene} (hwf : WellFormed s.lines) (h : Settled s.lines s.selections) :
    (key.react s).Shows s.lines := by
  cases key with
  | lineEnd => exact SmartKey.endKey_shows hwf
  | backspace => exact SmartKey.backspaceKey_shows hwf
  | enter =>
    simp only [SmartKeyName.react]
    cases hr : SmartKey.enterKey s with
    | decline k forgets => trivial
    | act a => exact Or.inr (SmartKey.enterKey_shows hwf hr)
  | separator =>
    simp only [SmartKeyName.react]
    cases hr : SmartKey.separatorKey s with
    | decline k forgets => trivial
    | act a => exact Or.inr (SmartKey.separatorKey_shows hwf h hr)

end MultiCaret
