import MultiCaret.Text.CodePoint

/-!
# Settings

Eight switches turn the smart keys on and off, all of them on by default.  A setting has a dotted name by which users
know it; `Setting.ofName?_name` says that the name determines the setting.
-/

namespace MultiCaret

/-- The switches of the smart keys, in the order in which they are listed. -/
inductive Setting where
  | endIndentsEmptyLine
  | endTogglesTrimmedEnd
  | backspaceHandlesEmptyLine
  | backspaceHandlesIndentZone
  | enterClosesBrace
  | enterInsertsTerminator
  | separatorAddsBlank
  | separatorQuotesKey
deriving DecidableEq

/-- The switches and their states. -/
structure Settings where
  endIndentsEmptyLine : Bool := true
  endTogglesTrimmedEnd : Bool := true
  backspaceHandlesEmptyLine : Bool := true
  backspaceHandlesIndentZone : Bool := true
  enterClosesBrace : Bool := true
  enterInsertsTerminator : Bool := true
  separatorAddsBlank : Bool := true
  separatorQuotesKey : Bool := true
deriving DecidableEq

namespace Setting

/-- All settings, in the order in which they are listed. -/
def all : List Setting :=
  [endIndentsEmptyLine, endTogglesTrimmedEnd, backspaceHandlesEmptyLine, backspaceHandlesIndentZone,
    enterClosesBrace, enterInsertsTerminator, separatorAddsBlank, separatorQuotesKey]

/-- The name that users give it. -/
def name : Setting → String
  | endIndentsEmptyLine => "smartEnd.indentEmptyLine"
  | endTogglesTrimmedEnd => "smartEnd.toggleTrimmedEnd"
  | backspaceHandlesEmptyLine => "smartBackspace.handleEmptyLine"
  | backspaceHandlesIndentZone => "smartBackspace.handleIndentZone"
  | enterClosesBrace => "smartEnter.autoInsertClosingBrace"
  | enterInsertsTerminator => "structuredValue.insertTerminatorOnEnter"
  | separatorAddsBlank => "structuredValue.addWhitespaceAfterSeparator"
  | separatorQuotesKey => "structuredValue.addQuotesToKeys"

/-- The setting of a name. -/
def ofName? (t : CodeText) : Option Setting :=
  all.find? fun s => codeText s.name.toList == t

theorem mem_all (s : Setting) : s ∈ all := by
  cases s <;> decide

end Setting

namespace Settings

/-- The state of a switch. -/
def get (c : Settings) : Setting → Bool
  | .endIndentsEmptyLine => c.endIndentsEmptyLine
  | .endTogglesTrimmedEnd => c.endTogglesTrimmedEnd
  | .backspaceHandlesEmptyLine => c.backspaceHandlesEmptyLine
  | .backspaceHandlesIndentZone => c.backspaceHandlesIndentZone
  | .enterClosesBrace => c.enterClosesBrace
  | .enterInsertsTerminator => c.enterInsertsTerminator
  | .separatorAddsBlank => c.separatorAddsBlank
  | .separatorQuotesKey => c.separatorQuotesKey

/-- Turns a switch on or off. -/
def set (c : Settings) (s : Setting) (on : Bool) : Settings :=
  match s with
  | .endIndentsEmptyLine => { c with endIndentsEmptyLine := on }
  | .endTogglesTrimmedEnd => { c with endTogglesTrimmedEnd := on }
  | .backspaceHandlesEmptyLine => { c with backspaceHandlesEmptyLine := on }
  | .backspaceHandlesIndentZone => { c with backspaceHandlesIndentZone := on }
  | .enterClosesBrace => { c with enterClosesBrace := on }
  | .enterInsertsTerminator => { c with enterInsertsTerminator := on }
  | .separatorAddsBlank => { c with separatorAddsBlank := on }
  | .separatorQuotesKey => { c with separatorQuotesKey := on }

theorem get_set (c : Settings) (s t : Setting) (on : Bool) :
    (c.set s on).get t = if t = s then on else c.get t := by
  cases s <;> cases t <;> rfl

theorem get_default (s : Setting) : ({} : Settings).get s = true := by
  cases s <;> rfl

/-- Settings are told apart by their switches. -/
theorem ext_get {c d : Settings} (h : ∀ s, c.get s = d.get s) : c = d := by
  obtain ⟨c₁, c₂, c₃, c₄, c₅, c₆, c₇, c₈⟩ := c
  obtain ⟨d₁, d₂, d₃, d₄, d₅, d₆, d₇, d₈⟩ := d
  have h₁ := h .endIndentsEmptyLine
  have h₂ := h .endTogglesTrimmedEnd
  have h₃ := h .backspaceHandlesEmptyLine
  have h₄ := h .backspaceHandlesIndentZone
  have h₅ := h .enterClosesBrace
  have h₆ := h .enterInsertsTerminator
  have h₇ := h .separatorAddsBlank
  have h₈ := h .separatorQuotesKey
  simp only [get] at h₁ h₂ h₃ h₄ h₅ h₆ h₇ h₈
  subst h₁ h₂ h₃ h₄ h₅ h₆ h₇ h₈
  rfl

end Settings

namespace Setting

theorem name_inj {s t : Setting} (h : s.name = t.name) : s = t := by
  revert h
  cases s <;> cases t <;> simp [name]

theorem ofName?_name (s : Setting) : ofName? (codeText s.name.toList) = some s := by
  unfold ofName?
  cases hfind : all.find? fun t => codeText t.name.toList == codeText s.name.toList with
  | none =>
    have hno := List.find?_eq_none.mp hfind s (mem_all s)
    exact absurd (beq_self_eq_true _) hno
  | some t =>
    have hcode := List.find?_some hfind
    rw [name_inj (String.toList_inj.mp (codeText_inj (eq_of_beq hcode)))]

end Setting

end MultiCaret
