import MultiCaret.Json.Value

/-!
# Reading JSON

The reader takes one value with blanks around it.  Beyond the standard it accepts the numbers `NaN`, `Infinity` and
`-Infinity`.  An error tells what was expected and where, by line, column and offset (`JsonError.message`).  A whole
number with too many digits is refused for its size, and so are lists and objects that are nested too deeply.
-/

namespace MultiCaret

/-- What is wrong with a JSON text. -/
inductive JsonFlaw where
  | byteOrderMark
  | extraData
  | expectedValue
  | expectedName
  | expectedColon
  | expectedComma
  | unterminated
  | controlCharacter
  | badEscape
  | badCodeEscape
deriving DecidableEq

/-- The flaw in words. -/
def JsonFlaw.text : JsonFlaw → String
  | .byteOrderMark => "Unexpected UTF-8 BOM (decode using utf-8-sig)"
  | .extraData => "Extra data"
  | .expectedValue => "Expecting value"
  | .expectedName => "Expecting property name enclosed in double quotes"
  | .expectedColon => "Expecting ':' delimiter"
  | .expectedComma => "Expecting ',' delimiter"
  | .unterminated => "Unterminated string starting at"
  | .controlCharacter => "Invalid control character at"
  | .badEscape => "Invalid \\escape"
  | .badCodeEscape => "Invalid \\uXXXX escape"

/-- Why a text is not read.  A malformed text is flawed where the given rest of it begins. -/
inductive JsonError where
  | malformed (flaw : JsonFlaw) (rest : Text)
  /-- A whole number has this many digits. -/
  | tooManyDigits (count : Nat)
  /-- A list, or an object, starts inside too many others. -/
  | tooDeep (isObject : Bool)
  /-- The fuel of the reader is used up, which never happens to `Json.read` (`Json.read_ne_outOfFuel`). -/
  | outOfFuel
deriving DecidableEq

namespace Json

/-- The largest number of digits that a whole number may have. -/
def maxDigits : Nat := 4300

/-- The largest number of lists and objects around a value.  It is neither a rule of JSON nor a constant of the reader:
the reader calls itself once a level, and calls may be nested a thousand deep, those that are open already where the
settings are loaded included.  The number is that of a caller with a dozen calls open; it changes with the caller, and
no proof takes it for more than a positive one. -/
def maxDepth : Nat := 988

/-- Blanks between the parts of a JSON text. -/
def isSpace (c : Char) : Bool :=
  c == ' ' || c == '\t' || c == '\n' || c == '\r'

/-- The text without the blanks that it starts with. -/
def skipSpace (t : Text) : Text :=
  t.dropWhile isSpace

/-- The character that a letter behind a backslash stands for. -/
def escape? : Char → Option Char
  | '"' => some '"'
  | '\\' => some '\\'
  | '/' => some '/'
  | 'b' => some '\x08'
  | 'f' => some '\x0c'
  | 'n' => some '\n'
  | 'r' => some '\r'
  | 't' => some '\t'
  | _ => none

/-- The code unit of four hexadecimal digits. -/
def codeUnit? (a b c d : Char) : Option Nat := do
  let a ← hexValue? a
  let b ← hexValue? b
  let c ← hexValue? c
  let d ← hexValue? d
  some (((a * 16 + b) * 16 + c) * 16 + d)

/-- Reads a string behind its opening quote.  `start` is the text from that quote on, `units` what has been read so far,
backwards. -/
def readUnits (start : Text) (units : List Nat) : Text → Except JsonError (List Nat × Text)
  | [] => .error (.malformed .unterminated start)
  | '"' :: rest => .ok (units.reverse, rest)
  | '\\' :: [] => .error (.malformed .unterminated start)
  | '\\' :: 'u' :: a :: b :: c :: d :: rest =>
    match codeUnit? a b c d with
    | some u =>
      if rest.isEmpty then .error (.malformed .badCodeEscape ('u' :: a :: b :: c :: d :: rest))
      else readUnits start (u :: units) rest
    | none => .error (.malformed .badCodeEscape ('u' :: a :: b :: c :: d :: rest))
  | '\\' :: c :: rest =>
    match escape? c with
    | some e => readUnits start (e.toNat :: units) rest
    | none =>
      if c = 'u' then .error (.malformed .badCodeEscape (c :: rest))
      else .error (.malformed .badEscape ('\\' :: c :: rest))
  | c :: rest =>
    if c.toNat < 0x20 then .error (.malformed .controlCharacter (c :: rest))
    else readUnits start (c.toNat :: units) rest

/-- Reads a string behind its opening quote. -/
def readString (t : Text) : Except JsonError (CodeText × Text) :=
  (readUnits ('"' :: t) [] t).map fun (units, rest) => (joinSurrogates units, rest)

/-- The digits of a fraction, if the text goes on with one. -/
def fractionDigits (t : Text) : Text :=
  match t with
  | '.' :: ds => ds.takeWhile Char.isDigit
  | _ => []

/-- The sign and the digits of an exponent, if the text goes on with one, and what is behind it. -/
def exponentPart? (t : Text) : Option (Bool × Text × Text) :=
  match t with
  | e :: rest =>
    if e = 'e' ∨ e = 'E' then
      let (negative, ds) := match rest with
        | '-' :: ds => (true, ds)
        | '+' :: ds => (false, ds)
        | ds => (false, ds)
      let digits := ds.takeWhile Char.isDigit
      if digits.isEmpty then none else some (negative, digits, ds.dropWhile Char.isDigit)
    else none
  | [] => none

/-- The digits of a whole number: a zero alone, or digits that do not start with one. -/
def wholeDigits (t : Text) : Text :=
  match t with
  | '0' :: _ => ['0']
  | ds => ds.takeWhile Char.isDigit

/-- Reads a number. -/
def readNumber (t : Text) : Except JsonError (Json × Text) :=
  let (negative, unsigned) := match t with
    | '-' :: ds => (true, ds)
    | ds => (false, ds)
  let whole := wholeDigits unsigned
  if whole.isEmpty then .error (.malformed .expectedValue t)
  else
    let behind := unsigned.drop whole.length
    let fraction := fractionDigits behind
    let behind := if fraction.isEmpty then behind else behind.drop (fraction.length + 1)
    match exponentPart? behind with
    | none =>
      if fraction.isEmpty then
        if maxDigits < whole.length then .error (.tooManyDigits whole.length)
        else .ok (.int (if negative then -(ofDigits whole : Int) else ofDigits whole), behind)
      else .ok (.float (.ofDecimal negative (ofDigits (whole ++ fraction)) (-fraction.length)), behind)
    | some (down, digits, rest) =>
      let e : Int := if down then -(ofDigits digits : Int) else ofDigits digits
      .ok (.float (.ofDecimal negative (ofDigits (whole ++ fraction)) (e - fraction.length)), rest)

/-- The words that stand for a value. -/
def literals : List (Text × Json) :=
  [("null".toList, .null), ("true".toList, .bool true), ("false".toList, .bool false), ("NaN".toList, .float .nan),
    ("Infinity".toList, .float (.infinite false)), ("-Infinity".toList, .float (.infinite true))]

/-- Reads a word or a number. -/
def readScalar (t : Text) : Except JsonError (Json × Text) :=
  match literals.find? fun w => w.1.isPrefixOf t with
  | some (w, v) => .ok (v, t.drop w.length)
  | none => readNumber t

mutual

/-- Reads a value.  `fuel` bounds the number of steps, and `depth` how deeply lists and objects may be nested. -/
def readValue (fuel depth : Nat) (t : Text) : Except JsonError (Json × Text) :=
  match fuel with
  | 0 => .error .outOfFuel
  | fuel + 1 =>
    match t, depth with
    | '"' :: rest, _ => (readString rest).map fun (s, rest) => (.str s, rest)
    | '[' :: _, 0 => .error (.tooDeep false)
    | '[' :: rest, depth + 1 =>
      match skipSpace rest with
      | ']' :: rest => .ok (.list [], rest)
      | rest => readItems fuel depth [] rest
    | '\x7b' :: _, 0 => .error (.tooDeep true)
    | '\x7b' :: rest, depth + 1 =>
      match skipSpace rest with
      | '\x7d' :: rest => .ok (.object [], rest)
      | rest => readFields fuel depth [] rest
    | t, _ => readScalar t

/-- Reads the items of a list from one of them on; `items` are those before it, backwards. -/
def readItems (fuel depth : Nat) (items : List Json) (t : Text) : Except JsonError (Json × Text) :=
  match fuel with
  | 0 => .error .outOfFuel
  | fuel + 1 =>
    match readValue fuel depth t with
    | .error e => .error e
    | .ok (v, rest) =>
      match skipSpace rest with
      | ']' :: rest => .ok (.list (v :: items).reverse, rest)
      | ',' :: rest => readItems fuel depth (v :: items) (skipSpace rest)
      | rest => .error (.malformed .expectedComma rest)

/-- Reads the fields of an object from one of them on; `fields` are those before it. -/
def readFields (fuel depth : Nat) (fields : List (CodeText × Json)) (t : Text) : Except JsonError (Json × Text) :=
  match fuel with
  | 0 => .error .outOfFuel
  | fuel + 1 =>
    match t with
    | '"' :: rest =>
      match readString rest with
      | .error e => .error e
      | .ok (name, rest) =>
        match skipSpace rest with
        | ':' :: rest =>
          match readValue fuel depth (skipSpace rest) with
          | .error e => .error e
          | .ok (v, rest) =>
            let fields := setField fields name v
            match skipSpace rest with
            | '\x7d' :: rest => .ok (.object fields, rest)
            | ',' :: rest => readFields fuel depth fields (skipSpace rest)
            | rest => .error (.malformed .expectedComma rest)
        | rest => .error (.malformed .expectedColon rest)
    | t => .error (.malformed .expectedName t)

end

/-- Reads a text that holds one value.  Twice its length is enough fuel (`Json.read_ne_outOfFuel`), because every second
step takes a character away. -/
def read (t : Text) : Except JsonError Json :=
  match t with
  | '\ufeff' :: _ => .error (.malformed .byteOrderMark t)
  | _ =>
    match readValue (2 * t.length + 2) maxDepth (skipSpace t) with
    | .error e => .error e
    | .ok (v, rest) =>
      match skipSpace rest with
      | [] => .ok v
      | rest => .error (.malformed .extraData rest)

end Json

/-- The error in words, for the text that was read. -/
def JsonError.message (source : Text) : JsonError → Text
  | .malformed flaw rest =>
    let offset := source.length - rest.length
    let before := source.take offset
    let column := (before.reverse.takeWhile (· != '\n')).length + 1
    flaw.text.toList ++ ": line ".toList ++ natural (before.count '\n' + 1) ++ " column ".toList ++ natural column ++
      " (char ".toList ++ natural offset ++ [')']
  | .tooManyDigits count =>
    "Exceeds the limit (".toList ++ natural Json.maxDigits ++
      " digits) for integer string conversion: value has ".toList ++ natural count ++
      " digits; use sys.set_int_max_str_digits() to increase the limit".toList
  | .tooDeep isObject =>
    "maximum recursion depth exceeded while decoding a JSON ".toList ++ (if isObject then "object" else "array").toList ++
      " from a unicode string".toList
  | .outOfFuel => []

end MultiCaret
