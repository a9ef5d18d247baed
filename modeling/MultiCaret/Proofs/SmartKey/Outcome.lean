import MultiCaret.Proofs.Document.Visible
import MultiCaret.Proofs.Indentation
import MultiCaret.Proofs.SmartKey.Fits

/-!
# What smart keys ask for

A smart key that declines leaves the press to one plain keystroke, whatever it was that made it decline
(`react_decline`).  Enter asks for one of two things: a comma on the line of its only cursor, with the break left to the
plain key, or a block of two more lines for every cursor and nothing behind it (`enterKey_act`).  The separator key asks
for something in one case only, and then for one edit, from the beginning of the property name up to the cursor
(`separatorKey_act`).
-/

namespace MultiCaret

/-- The plain keystroke of a smart key. -/
def SmartKeyName.plain : SmartKeyName → Keystroke
  | .lineEnd => .lineEnd
  | .backspace => .delete
  | .enter => .newline
  | .separator => .literal [':']

/-- The reaction leaves the press to no other keystroke than the given one. -/
def Reaction.DeclinesTo (k : Keystroke) : Reaction → Prop
  | .decline k' _ => k' = k
  | .act _ => True

/-- The reaction leaves the press to the given keystroke, or acts with no keystroke to follow. -/
def Reaction.Alternative (k : Keystroke) : Reaction → Prop
  | .decline k' _ => k' = k
  | .act a => a.thenKey = none

/-- The reaction leaves the record of the End toggle as it is. -/
def Reaction.KeepsToggle : Reaction → Prop
  | .decline _ forgets => forgets = false
  | .act a => a.toggle = .keep

private theorem Reaction.Alternative.declinesTo {k : Keystroke} {r : Reaction} (h : r.Alternative k) :
    r.DeclinesTo k := by
  cases r with
  | decline k' forgets => exact h
  | act a => trivial

/-! ### Texts without newlines -/

/-- A block has three lines, the first of which is the one that is broken. -/
private theorem count_blockText {l unit : Text} (hl : '\n' ∉ l) (hunit : '\n' ∉ unit) (b : Nat) :
    (blockText l b unit).count '\n' = 2 := by
  have hbase : (leadingBlanks l).count '\n' = 0 := List.count_eq_zero.2 fun h => hl (mem_of_mem_leadingBlanks h)
  have hu : unit.count '\n' = 0 := List.count_eq_zero.2 hunit
  have hrest : '\n' ∉ l.drop (b + 1) := fun h => hl (List.mem_of_mem_drop h)
  unfold blockText
  simp only
  cases htail : afterCloser? (l.drop (b + 1)) with
  | none =>
    have hcarried : (trim (l.drop (b + 1))).count '\n' = 0 :=
      List.count_eq_zero.2 fun h => hrest (mem_of_mem_trim h)
    simp [hbase, hu, hcarried]
  | some tail =>
    have htail' : tail.count '\n' = 0 := by
      unfold afterCloser? at htail
      split at htail
      · rw [← Option.some.inj htail]
        exact List.count_eq_zero.2 fun h => hrest ((List.dropWhile_suffix _).subset (List.mem_of_mem_drop h))
      · cases htail
    simp [hbase, hu, htail']

namespace SmartKey

variable {s : Scene} {a : Action}

/-! ### The keystrokes behind a press -/

private theorem endKey_alternative (s : Scene) : (endKey s).Alternative .lineEnd := by
  unfold endKey endOnLine endMany
  split
  · split
    · split
      · split
        · split <;> rfl
        · split <;> rfl
      · rfl
    · split <;> rfl
  · rfl

private theorem backspaceKey_alternative (s : Scene) :
    (backspaceKey s).Alternative .delete ∧ (backspaceKey s).KeepsToggle := by
  unfold backspaceKey backspaceOnLine backspaceBlank backspaceIndent backspaceAct
  split
  · split
    · split
      · split
        · simp only
          split <;> exact ⟨rfl, rfl⟩
        · exact ⟨rfl, rfl⟩
      · split
        · simp only
          split
          · exact ⟨rfl, rfl⟩
          · split <;> exact ⟨rfl, rfl⟩
        · exact ⟨rfl, rfl⟩
    · exact ⟨rfl, rfl⟩
  · exact ⟨rfl, rfl⟩

private theorem enterKey_declines (s : Scene) :
    (enterKey s).DeclinesTo .newline ∧ (enterKey s).KeepsToggle := by
  unfold enterKey enterOnLine enterMany
  split
  · split
    · simp only
      split
      · split
        · split
          · exact ⟨trivial, rfl⟩
          · exact ⟨rfl, rfl⟩
        · split <;> exact ⟨trivial, rfl⟩
      · exact ⟨rfl, rfl⟩
    · simp only
      split
      · split
        · exact ⟨rfl, rfl⟩
        · exact ⟨trivial, rfl⟩
      · exact ⟨rfl, rfl⟩
  · exact ⟨rfl, rfl⟩

private theorem separatorKey_alternative (s : Scene) :
    (separatorKey s).Alternative (.literal [':']) ∧ (separatorKey s).KeepsToggle := by
  unfold separatorKey separatorOnLine
  split
  · simp only
    split
    · split
      · exact ⟨rfl, rfl⟩
      · split <;> exact ⟨rfl, rfl⟩
    · exact ⟨rfl, rfl⟩
  · exact ⟨rfl, rfl⟩

/-! ### The Enter key -/

/-- The action puts a comma behind the value on the line of the position, and leaves the break to the plain key. -/
structure PutsComma (lines : List Text) (p : Position) (a : Action) : Prop where
  hasLine : HasLine lines p.line
  edits : a.edits = [.insert ⟨p.line, terminatorColumn (lineOf lines p.line)⟩ [',']]
  thenKey : a.thenKey = some .newline

/-- The comma is put into one line. -/
theorem PutsComma.oneLine {lines : List Text} {p : Position} (h : PutsComma lines p a) :
    (Edit.insert ⟨p.line, terminatorColumn (lineOf lines p.line)⟩ [',']).OneLine lines :=
  ⟨inRange_onLine h.hasLine (Nat.le_refl _) (length_trimEnd_le _) [','], rfl, show '\n' ∉ [','] by decide⟩

/-- The action opens this many blocks, and nothing is left to the plain key. -/
structure OpensBlocks (count : Nat) (a : Action) : Prop where
  one_each : a.edits.length = count
  growth : ∀ e ∈ a.edits, e.growth = 2
  thenKey : a.thenKey = none

theorem growth_block {n : Int} {start stop : Int} {l : Text} (hl : '\n' ∉ l) (b : Nat) (o : IndentOptions) :
    (Edit.mk ⟨n, start⟩ ⟨n, stop⟩ (blockText l b o.unit)).growth = 2 := by
  simp only [Edit.growth, count_blockText hl (newline_not_mem_unit o)]
  omega

theorem newline_not_mem_comma {l : Text} (h : '\n' ∉ l) (k : Nat) : '\n' ∉ l.take k ++ ',' :: l.drop k := by
  simp only [List.mem_append, List.mem_cons, not_or]
  exact ⟨fun hm => h (List.mem_of_mem_take hm), by decide, fun hm => h (List.mem_of_mem_drop hm)⟩

private theorem enterOnLine_act (hwf : WellFormed s.lines) {p : Position} {column : Int}
    (hline : HasLine s.lines p.line) (h : enterOnLine s p.line column (lineOf s.lines p.line) = .act a) :
    PutsComma s.lines p a ∨ OpensBlocks 1 a := by
  have hl := hwf.lineOf p.line
  unfold enterOnLine at h
  split at h
  · split at h
    · next block hblock =>
      obtain ⟨b, -, hedit, -⟩ := block_spec hblock
      rw [← Reaction.act.inj h]
      refine Or.inr ⟨rfl, ?_, rfl⟩
      intro e he
      rw [List.mem_singleton.1 he, hedit]
      exact growth_block hl b _
    · cases h
  · next k hk =>
    simp only at h
    split at h
    · next block hblock =>
      obtain ⟨b, -, hedit, -⟩ := block_spec hblock
      rw [← Reaction.act.inj h]
      refine Or.inr ⟨rfl, ?_, rfl⟩
      intro e he
      rw [List.mem_singleton.1 he, hedit]
      exact growth_block (newline_not_mem_comma hl k) b _
    · rw [← Reaction.act.inj h, missingTerminator_eq hk]
      exact Or.inl ⟨hline, rfl, rfl⟩

private theorem enterMany_act (hwf : WellFormed s.lines) (h : enterMany s = .act a) :
    OpensBlocks s.selections.length a := by
  unfold enterMany at h
  simp only at h
  split at h
  · split at h
    · cases h
    · next planned hplanned =>
      obtain ⟨hblock, hfst⟩ := mapM_zip hplanned
      rw [← Reaction.act.inj h]
      refine ⟨?_, ?_, rfl⟩
      · have hlen := congrArg List.length hfst
        rw [List.length_map, List.length_map] at hlen
        rw [EditPlan.byLine, (editsBottomUp_perm _).length_eq, List.length_map, hlen]
      · intro e he
        obtain ⟨c, hc, rfl⟩ := List.mem_map.1 ((editsBottomUp_perm _).mem_iff.1 he)
        have hc' := hblock c hc
        unfold blockAt? at hc'
        simp only at hc'
        split at hc'
        · obtain ⟨b, -, hedit, -⟩ := expandBrace_spec hc'
          rw [hedit]
          exact growth_block (hwf.lineOf _) b _
        · cases hc'
  · cases h

/-- What Enter asks for. -/
theorem enterKey_act (hwf : WellFormed s.lines) (h : enterKey s = .act a) :
    s.selections ≠ [] ∧
      ((∃ p, s.selections = [.caret p] ∧ PutsComma s.lines p a) ∨ OpensBlocks s.selections.length a) := by
  unfold enterKey at h
  split at h
  · next hall =>
    rw [allCarets, Bool.and_eq_true] at hall
    have hne : s.selections ≠ [] := by
      intro hnil
      rw [hnil] at hall
      cases hall.1
    refine ⟨hne, ?_⟩
    split at h
    · next sel hsel =>
      have hcaret : sel = .caret sel.active :=
        Selection.isEmpty_iff.1 (List.all_eq_true.1 hall.2 sel (hsel ▸ List.mem_singleton.2 rfl))
      simp only at h
      split at h
      · next hline =>
        rw [hsel]
        rcases enterOnLine_act hwf hline h with hcomma | hblocks
        · exact Or.inl ⟨sel.active, by rw [← hcaret], hcomma⟩
        · exact Or.inr hblocks
      · cases h
    · exact Or.inr (enterMany_act hwf h)
  · cases h

/-! ### The separator key -/

/-- A colon typed at the only cursor, which is a caret at the position, completes the property name. -/
structure Completes (s : Scene) (p : Position) (name : PropertyName) : Prop where
  selections : s.selections = [.caret p]
  structured : isStructured s.language = true
  enabled : (s.settings.separatorQuotesKey || s.settings.separatorAddsBlank) = true
  hasLine : HasLine s.lines p.line
  alone : separatorFollows (lineOf s.lines p.line) (min p.column (lineOf s.lines p.line).length) = false
  name_eq : propertyBefore? (lineOf s.lines p.line) (min p.column (lineOf s.lines p.line).length) = some name

/-- What stands in place of the name and the blanks behind it when it is completed. -/
def completion (c : Settings) (l : Text) (name : PropertyName) : Text :=
  keyText c l name ++ ':' :: (if c.separatorAddsBlank then [' '] else [])

/-- The edit that completes a name. -/
def completingEdit (s : Scene) (p : Position) (name : PropertyName) : Edit :=
  ⟨⟨p.line, name.start⟩, ⟨p.line, min p.column (lineOf s.lines p.line).length⟩,
    completion s.settings (lineOf s.lines p.line) name⟩

/-- The action that completes a name: the cursor goes behind the text that stands in its place then. -/
def complete (s : Scene) (p : Position) (name : PropertyName) : Action :=
  .caretAt ⟨p.line, name.start + (completion s.settings (lineOf s.lines p.line) name).length⟩
    [completingEdit s p name] .keep

/-- The separator key asks for nothing else. -/
theorem separatorKey_eq (h : separatorKey s = .act a) : ∃ p name, Completes s p name ∧ a = complete s p name := by
  unfold separatorKey at h
  split at h
  · next sel hsel =>
    simp only at h
    split at h
    · next hcond =>
      obtain ⟨hstruct, henabled, hempty, hline⟩ := hcond
      unfold separatorOnLine at h
      split at h
      · cases h
      · next hfollows =>
        split at h
        · cases h
        · next name hname =>
          refine ⟨sel.active, name, ⟨?_, hstruct, henabled, hline, ?_, hname⟩, (Reaction.act.inj h).symm⟩
          · rw [hsel, ← Selection.isEmpty_iff.1 hempty]
          · exact Bool.eq_false_iff.2 hfollows
    · cases h
  · cases h

/-- What the separator key asks for. -/
theorem separatorKey_act (h : separatorKey s = .act a) :
    ∃ p name, Completes s p name ∧ a.edits = [completingEdit s p name] := by
  obtain ⟨p, name, hcompletes, rfl⟩ := separatorKey_eq h
  exact ⟨p, name, hcompletes, rfl⟩

/-- If a name can be completed, the separator key asks for it. -/
theorem separatorKey_of_completes {p : Position} {name : PropertyName} (h : Completes s p name) :
    ∃ a, separatorKey s = .act a ∧ a.edits = [completingEdit s p name] := by
  have hcond : isStructured s.language = true ∧
      (s.settings.separatorQuotesKey || s.settings.separatorAddsBlank) = true ∧
      (Selection.caret p).isEmpty = true ∧ HasLine s.lines (Selection.caret p).active.line :=
    ⟨h.structured, h.enabled, Selection.isEmpty_caret p, h.hasLine⟩
  have halone := h.alone
  have hname := h.name_eq
  unfold separatorKey
  simp only [h.selections, if_pos hcond]
  unfold separatorOnLine
  simp only [Selection.caret, halone, hname]
  exact ⟨_, rfl, rfl⟩

end SmartKey

private theorem react_alternative {key : SmartKeyName} (h : key ≠ .enter) (s : Scene) :
    (key.react s).Alternative key.plain := by
  cases key with
  | lineEnd => exact SmartKey.endKey_alternative s
  | backspace => exact (SmartKey.backspaceKey_alternative s).1
  | enter => exact absurd rfl h
  | separator => exact (SmartKey.separatorKey_alternative s).1

/-- A smart key that declines leaves the press to its plain keystroke. -/
theorem react_decline {key : SmartKeyName} {s : Scene} {k : Keystroke} {forgets : Bool}
    (h : key.react s = .decline k forgets) : k = key.plain := by
  have hto : (key.react s).DeclinesTo key.plain := by
    by_cases hkey : key = .enter
    · rw [hkey]
      exact (SmartKey.enterKey_declines s).1
    · exact (react_alternative hkey s).declinesTo
  rw [h] at hto
  exact hto

/-- Only behind Enter there may follow a keystroke. -/
theorem react_thenKey {key : SmartKeyName} (hkey : key ≠ .enter) {s : Scene} {a : Action}
    (h : key.react s = .act a) : a.thenKey = none := by
  have halt := react_alternative hkey s
  rw [h] at halt
  exact halt

/-- Only End changes the record of its last place. -/
theorem react_keepsToggle {key : SmartKeyName} (h : key ≠ .lineEnd) (s : Scene) : (key.react s).KeepsToggle := by
  cases key with
  | lineEnd => exact absurd rfl h
  | backspace => exact (SmartKey.backspaceKey_alternative s).2
  | enter => exact (SmartKey.enterKey_declines s).2
  | separator => exact (SmartKey.separatorKey_alternative s).2

end MultiCaret
