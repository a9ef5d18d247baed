import MultiCaret.Text.Split

/-!
# Patterns

A pattern says what a piece of a text looks like.  `Pattern.cuts` lists the ways to cut such a piece off the beginning of
a text, the preferred one first: a repetition takes as much as it can, and gives up some of it only when what follows does
not fit.  `search?` looks for pieces that reach to the end of a text.  It tries the places of the text from the left and
takes the first way at the first of them that has one.
-/

namespace MultiCaret

inductive Pattern where
  | one (kind : Char → Bool)
  | andThen (p q : Pattern)
  /-- Any number of times, also not at all. -/
  | many (p : Pattern)

/-- Cuts pieces off a text again and again, as long as it gets shorter. -/
def cutsAgain (cuts : Text → List (Text × Text)) (t : Text) : List (Text × Text) :=
  (cuts t).flatMap (fun x =>
    if x.2.length < t.length then (cutsAgain cuts x.2).map fun y => (x.1 ++ y.1, y.2) else []) ++ [([], t)]
termination_by t.length

namespace Pattern

/-- The ways to cut a piece off a text, each with the rest of the text. -/
def cuts : Pattern → Text → List (Text × Text)
  | one _, [] => []
  | one kind, c :: cs => if kind c then [([c], cs)] else []
  | andThen p q, t => (p.cuts t).flatMap fun x => (q.cuts x.2).map fun y => (x.1 ++ y.1, y.2)
  | many p, t => cutsAgain p.cuts t

def oneOrMore (p : Pattern) : Pattern :=
  p.andThen p.many

end Pattern

/-- The ways to cut a text up into pieces, one for each pattern.  A newline may stay behind them. -/
def cutsToEnd : List Pattern → Text → List (List Text)
  | [], t => if t = [] ∨ t = ['\n'] then [[]] else []
  | p :: ps, t => (p.cuts t).flatMap fun x => (cutsToEnd ps x.2).map (x.1 :: ·)

/-- The first column from which the text can be cut up to its end, and the pieces. -/
def search? (ps : List Pattern) : Text → Option (Nat × List Text)
  | [] => (cutsToEnd ps []).head?.map fun pieces => (0, pieces)
  | c :: cs =>
    match (cutsToEnd ps (c :: cs)).head? with
    | some pieces => some (0, pieces)
    | none => (search? ps cs).map fun found => (found.1 + 1, found.2)

end MultiCaret
