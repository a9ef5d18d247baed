import MultiCaret.SmartKey.Backspace
import MultiCaret.SmartKey.End
import MultiCaret.SmartKey.Enter
import MultiCaret.SmartKey.Separator

/-!
# The smart keys

The four keys whose meaning depends on the text around the cursor, and their reactions.
-/

namespace MultiCaret

/-- The smart keys. -/
inductive SmartKeyName where
  | lineEnd
  | backspace
  | enter
  | separator
deriving DecidableEq

/-- The reaction of a smart key to a scene. -/
def SmartKeyName.react : SmartKeyName → Scene → Reaction
  | .lineEnd => SmartKey.endKey
  | .backspace => SmartKey.backspaceKey
  | .enter => SmartKey.enterKey
  | .separator => SmartKey.separatorKey

end MultiCaret
