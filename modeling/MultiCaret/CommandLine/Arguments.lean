import MultiCaret.Text.Blank
import MultiCaret.Text.Quoted
import MultiCaret.Text.Word

/-!
# Arguments of the command line

The words of a command line are options and a file name.  An option may be shortened as long as it stays unambiguous;
its argument is the next word, or follows an equals sign in the same word.  After two dashes all words are plain.  Two
dashes behind an equals sign are no argument: they leave the option without a value (`Given.nothing`).  A word that looks
like a negative number, or has a space in it, is plain unless it is an option.  All words are told apart before any of
them is taken, so an ambiguous one is found first.
-/

namespace MultiCaret

/-- How grave a logged event is. -/
inductive LogLevel where
  | debug
  | info
  | warning
  | error
deriving DecidableEq

/-- The name of a level on the command line. -/
def LogLevel.name : LogLevel → String
  | .debug => "debug"
  | .info => "info"
  | .warning => "warning"
  | .error => "error"

/-- The name of a level in the log. -/
def LogLevel.label : LogLevel → String
  | .debug => "DEBUG"
  | .info => "INFO"
  | .warning => "WARNING"
  | .error => "ERROR"

/-- The place of a level among all of them. -/
def LogLevel.gravity : LogLevel → Nat
  | .debug => 0
  | .info => 1
  | .warning => 2
  | .error => 3

/-- All levels, from the least grave on. -/
def LogLevel.all : List LogLevel :=
  [.debug, .info, .warning, .error]

/-- The value of an option, unless the command line took it away. -/
inductive Given (α : Type) where
  | value (a : α)
  | nothing
deriving DecidableEq

/-- What a command line asks for. -/
structure Arguments where
  file : Text := []
  /-- The settings file, if it is not the usual one. -/
  config : Given (Option Text) := .value none
  tabSize : Given Int := .value 4
  tabs : Bool := false
  logLevel : Given LogLevel := .value .warning
  logFile : Option Text := none
deriving DecidableEq

/-- The options. -/
inductive OptionName where
  | help
  | config
  | tabSize
  | tabs
  | logLevel
  | logFile
deriving DecidableEq

/-- Why the reading of a command line ends early. -/
inductive ArgumentsEnd where
  /-- The user asks for help. -/
  | help
  /-- The command line is wrong. -/
  | wrong (message : Text)
deriving DecidableEq

namespace OptionName

/-- The spellings of the options. -/
def spellings : List (Text × OptionName) :=
  [("-h".toList, help), ("--help".toList, help), ("--config".toList, config), ("--tab-size".toList, tabSize),
    ("--tabs".toList, tabs), ("--log-level".toList, logLevel), ("--log-file".toList, logFile)]

/-- The option as messages call it. -/
def title : OptionName → String
  | help => "-h/--help"
  | config => "--config"
  | tabSize => "--tab-size"
  | tabs => "--tabs"
  | logLevel => "--log-level"
  | logFile => "--log-file"

/-- Does the option take an argument? -/
def takesArgument : OptionName → Bool
  | help => false
  | tabs => false
  | _ => true

/-- Ends the reading with a message about the option. -/
def wrong {α : Type} (o : OptionName) (message : Text) : Except ArgumentsEnd α :=
  .error (.wrong ("argument ".toList ++ o.title.toList ++ ": ".toList ++ message))

/-- Ends the reading because an option without argument was given one. -/
def ignored {α : Type} (o : OptionName) (argument : Text) : Except ArgumentsEnd α :=
  o.wrong ("ignored explicit argument ".toList ++ quoted argument)

end OptionName

/-- A word of the command line.  An option may bring its argument with it. -/
inductive Word where
  | plain (t : Text)
  | dashes
  | option (o : OptionName) (argument : Option Text)
  /-- The letter that asks for help behind one dash, and what follows it, behind an equals sign or not. -/
  | letters (rest : Text)
  | unknown (t : Text)
deriving DecidableEq

/-- Is the word an option, known or unknown? -/
def Word.isOption : Word → Bool
  | .plain _ => false
  | .dashes => false
  | _ => true

/-- The text before and behind the first equals sign. -/
def splitEquals (t : Text) : Text × Option Text :=
  match t.dropWhile (· != '=') with
  | [] => (t, none)
  | _ :: behind => (t.takeWhile (· != '='), some behind)

/-- Does a word that starts with a dash look like a negative number: digits, maybe with a point before the last of them,
and maybe a newline at the end? -/
def looksNegative (t : Text) : Bool :=
  let t := if t.getLast? = some '\n' then t.dropLast else t
  let isDigit (c : Char) : Bool := (digitValue? c).isSome
  match t with
  | '-' :: ds =>
    match ds.dropWhile isDigit with
    | [] => !ds.isEmpty
    | '.' :: fraction => !fraction.isEmpty && fraction.all isDigit
    | _ => false
  | _ => false

/-- Tells what a word is, when no two dashes stood before it. -/
def Word.ofText (t : Text) : Except ArgumentsEnd Word :=
  match t with
  | '-' :: second :: _ =>
    match OptionName.spellings.lookup t with
    | some o => .ok (.option o none)
    | none =>
      let (name, argument) := splitEquals t
      match (if argument.isSome then OptionName.spellings.lookup name else none) with
      | some o => .ok (if second = '-' then .option o argument else .letters (argument.getD []))
      | none =>
        let found := if second = '-' then OptionName.spellings.filter fun s => name.isPrefixOf s.1 else []
        match found with
        | [(_, o)] => .ok (.option o argument)
        | [] =>
          if second = 'h' then .ok (.letters (t.drop 2))
          else if looksNegative t || t.contains ' ' then .ok (.plain t)
          else .ok (.unknown t)
        | _ =>
          .error (.wrong ("ambiguous option: ".toList ++ t ++ " could match ".toList ++
            [',', ' '].intercalate (found.map Prod.fst)))
  | _ => .ok (.plain t)

/-- Tells what the words are. -/
def Word.ofTexts : List Text → Except ArgumentsEnd (List Word)
  | [] => .ok []
  | t :: ts =>
    if t = ['-', '-'] then .ok (.dashes :: ts.map .plain)
    else do
      let w ← Word.ofText t
      let ws ← Word.ofTexts ts
      return w :: ws

/-- A blank around a number: one of ASCII without the separators, or one outside of it. -/
def isNumberBlank (c : Char) : Bool :=
  isBlank c && !(0x1C ≤ c.toNat && c.toNat ≤ 0x1F)

/-- The digits of a number, which may have single underscores between them. -/
def digitsBetweenUnderscores : Text → Option (List Nat)
  | [] => none
  | [c] => (digitValue? c).map ([·])
  | c :: '_' :: cs => do
    let d ← digitValue? c
    let ds ← digitsBetweenUnderscores cs
    return d :: ds
  | c :: cs => do
    let d ← digitValue? c
    let ds ← digitsBetweenUnderscores cs
    return d :: ds

/-- The largest number of digits that a number may have. -/
def maxNumberDigits : Nat := 4300

/-- Reads a whole number with an optional sign and blanks around it, in the digits of any script. -/
def wholeNumber? (t : Text) : Option Int :=
  let core := ((t.dropWhile isNumberBlank).reverse.dropWhile isNumberBlank).reverse
  let (negative, ds) := match core with
    | '-' :: ds => (true, ds)
    | '+' :: ds => (false, ds)
    | ds => (false, ds)
  match digitsBetweenUnderscores ds with
  | none => none
  | some ds =>
    if maxNumberDigits < ds.length then none
    else
      let n : Nat := ds.foldl (fun n d => 10 * n + d) 0
      some (if negative then -(n : Int) else n)

namespace Arguments

/-- Takes an option with its argument. -/
def take (a : Arguments) (o : OptionName) (argument : Text) : Except ArgumentsEnd Arguments :=
  match o with
  | .config => .ok { a with config := .value (some argument) }
  | .logFile => .ok { a with logFile := some argument }
  | .tabSize =>
    match wholeNumber? argument with
    | some n => .ok { a with tabSize := .value n }
    | none => o.wrong ("invalid int value: ".toList ++ quoted argument)
  | .logLevel =>
    match LogLevel.all.find? fun l => l.name.toList == argument with
    | some l => .ok { a with logLevel := .value l }
    | none =>
      o.wrong ("invalid choice: ".toList ++ quoted argument ++ " (choose from ".toList ++
        [',', ' '].intercalate (LogLevel.all.map fun l => quoted l.name.toList) ++ [')'])
  | _ => .ok a

/-- Takes the value of an option away.  A log file that is taken away is none. -/
def withoutValue (a : Arguments) (o : OptionName) : Arguments :=
  match o with
  | .config => { a with config := .nothing }
  | .tabSize => { a with tabSize := .nothing }
  | .logLevel => { a with logLevel := .nothing }
  | .logFile => { a with logFile := none }
  | _ => a

/-- Takes an option with the argument that its word brings. -/
def takeOwn (a : Arguments) (o : OptionName) (argument : Text) : Except ArgumentsEnd Arguments :=
  if ¬ o.takesArgument then o.ignored argument
  else if argument = ['-', '-'] then .ok (a.withoutValue o)
  else a.take o argument

/-- Takes an option without argument. -/
def switchOn (a : Arguments) (o : OptionName) : Except ArgumentsEnd Arguments :=
  match o with
  | .help => .error .help
  | .tabs => .ok { a with tabs := true }
  | _ => .ok a

/-- What follows the letter that asks for help.  It may be repeated; anything else would be its argument. -/
def takeLetters {α : Type} (rest : Text) : Except ArgumentsEnd α :=
  match rest.dropWhile (· == 'h') with
  | [] => if rest.isEmpty then OptionName.help.ignored [] else .error .help
  | argument => OptionName.help.ignored argument

/-- The text of a word that no option is. -/
def surplus : Word → Text
  | .plain t => t
  | .dashes => ['-', '-']
  | .unknown t => t
  | .option o _ => o.title.toList
  | .letters rest => '-' :: 'h' :: rest

/-- Takes the words behind the last option, when no file has been named: a file, with two dashes on one side of it at
most.  Gives what is left over. -/
def takeLast (a : Arguments) : List Word → Arguments × List Word
  | .dashes :: .plain t :: rest => ({ a with file := t }, rest)
  | .dashes :: rest => (a, rest)
  | .plain t :: .dashes :: rest => ({ a with file := t }, rest)
  | .plain t :: rest => ({ a with file := t }, rest)
  | rest => (a, rest)

/-- Takes words one after another.  `named` tells that a file has been named; `left` are the words left over. -/
def takeWords (a : Arguments) (named : Bool) (left : List Word) : List Word → Except ArgumentsEnd (Arguments × List Word)
  | [] => .ok (a, left)
  | w :: ws =>
    if (w :: ws).any Word.isOption then
      match w with
      | .option o (some argument) => do (← a.takeOwn o argument).takeWords named left ws
      | .option o none =>
        if o.takesArgument then
          match ws with
          | .plain t :: rest => do (← a.take o t).takeWords named left rest
          | _ => o.wrong "expected one argument".toList
        else do (← a.switchOn o).takeWords named left ws
      | .letters rest => takeLetters rest
      | .plain t =>
        if named then a.takeWords named (left ++ [w]) ws else { a with file := t }.takeWords true left ws
      | w => a.takeWords named (left ++ [w]) ws
    else if named then .ok (a, left ++ w :: ws)
    else
      let (a, rest) := a.takeLast (w :: ws)
      .ok (a, left ++ rest)

/-- Reads a command line. -/
def ofTexts (ts : List Text) : Except ArgumentsEnd Arguments := do
  let words ← Word.ofTexts ts
  let (a, left) ← ({} : Arguments).takeWords false [] words
  if left.isEmpty then return a
  else .error (.wrong ("unrecognized arguments: ".toList ++ [' '].intercalate (left.map surplus)))

end Arguments

end MultiCaret
