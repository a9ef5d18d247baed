import MultiCaret.KeyedLine
import MultiCaret.SmartKey.Reaction

/-!
# The separator key

In a structured language a colon behind a property name puts the name in quotes, takes away the blanks between the name
and the cursor, and puts a blank behind the colon.
-/

namespace MultiCaret

namespace SmartKey

/-- The colon is typed as it is. -/
def declineSeparator : Reaction :=
  .decline (.literal [':']) false

/-- The name as it stands in front of the colon. -/
def keyText (c : Settings) (l : Text) (p : PropertyName) : Text :=
  if p.quoted ∨ !c.separatorQuotesKey then (l.take p.stop).drop p.start else '"' :: p.name ++ ['"']

/-- The separator with a single caret on the line `l`. -/
def separatorOnLine (s : Scene) (line column : Int) (l : Text) : Reaction :=
  if separatorFollows l column then declineSeparator
  else
    match propertyBefore? l column with
    | none => declineSeparator
    | some p =>
      let t := keyText s.settings l p ++ ':' :: (if s.settings.separatorAddsBlank then [' '] else [])
      .act (.caretAt ⟨line, p.start + t.length⟩ [⟨⟨line, p.start⟩, ⟨line, column⟩, t⟩] .keep)

/-- The separator key. -/
def separatorKey (s : Scene) : Reaction :=
  match s.selections with
  | [sel] =>
    let p := sel.active
    let l := lineOf s.lines p.line
    if isStructured s.language ∧ (s.settings.separatorQuotesKey || s.settings.separatorAddsBlank) ∧
        sel.isEmpty ∧ HasLine s.lines p.line then
      separatorOnLine s p.line (min p.column l.length) l
    else declineSeparator
  | _ => declineSeparator

end SmartKey

end MultiCaret
