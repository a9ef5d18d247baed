import MultiCaret.Text.Blank
import MultiCaret.Text.Suffix
import MultiCaret.Text.Word

/-!
# Opening tags

A tag such as `<div class="x">`, or one without a name, that opens a nested level when it ends a line.  A closing tag,
a comment, a declaration and a tag that closes itself do not.
-/

namespace MultiCaret

/-- A character that may stand in the name of a tag. -/
def isTagChar (c : Char) : Bool :=
  isWordChar c || c == '.' || c == ':' || c == '$' || c == '-'

/-- Is the text the inside of a tag: a name, alone or followed by a blank and anything but the end of the tag? -/
def isTagBody (t : Text) : Bool :=
  let rest := t.dropWhile isTagChar
  !(t.takeWhile isTagChar).isEmpty &&
    match rest with
    | [] => true
    | c :: cs => isBlank c && !cs.contains '>'

/-- Does a tag end where the text ends, trailing blanks aside? -/
def endsWithTag (t : Text) : Bool :=
  match (trimEnd t).getLast? with
  | some '>' =>
    (suffixes (trimEnd t).dropLast).any fun
      | '<' :: body => isTagBody body
      | _ => false
  | _ => false

/-- Is the text an opening tag?  Closing tags, comments, declarations and tags that close themselves are not, a tag
without a name is. -/
def isOpeningTag (t : Text) : Bool :=
  ['<'].isPrefixOf t &&
    !(['<', '/'].isPrefixOf t || ['<', '!'].isPrefixOf t || ['<', '?'].isPrefixOf t) &&
    !(['/', '>'].isSuffixOf t) &&
    (t == ['<', '>'] || endsWithTag t)

end MultiCaret
