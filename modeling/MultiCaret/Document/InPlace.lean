import MultiCaret.Document.Watched

/-!
# Batches in place

A batch of edits as a procedure on a document that is changed in place: its ranges are checked one after the other, its
edits are done one after the other from the end of the text, and at last the watchers are told, one after the other.
Nothing is taken back when the procedure is cut short, so that a refusal would leave behind what has been done by then.
-/

namespace MultiCaret

/-- A procedure on a watched document.  It may be cut short, and what it has done by then stays done. -/
abbrev InPlace := ExceptT EditError (StateM WatchedDocument)

namespace WatchedDocument

/-- Checks one range against the lines as they are now, and gives its end; `reached` is the end of the range before. -/
def checkInPlace (reached : Option Position) (e : Edit) : InPlace (Option Position) := do
  let w ← get
  ofExcept (checkRanges w.document.lines reached [e])
  return some e.stop

/-- Checks the ranges of a batch that is laid out along the text. -/
def checkAllInPlace : Option Position → List Edit → InPlace Unit
  | _, [] => pure ()
  | reached, e :: es => do
    let reached ← checkInPlace reached e
    checkAllInPlace reached es

/-- Does one edit on the lines as they are now. -/
def spliceInPlace (e : Edit) : InPlace Unit :=
  modify fun w => { w with document := { w.document with lines := splice e w.document.lines } }

/-- Counts the change. -/
def countInPlace : InPlace Unit :=
  modify fun w => { w with document := { w.document with version := w.document.version + 1 } }

/-- Tells one watcher of the change. -/
def reportInPlace (name : String) : InPlace Unit :=
  modify fun w => { w with reports := w.reports ++ [(name, w.document.version)] }

/-- Checks a batch, does its edits and tells the watchers. -/
def applyInPlace (es : List Edit) : InPlace Unit :=
  match sortBy Edit.precedes es with
  | [] => pure ()
  | laid => do
    checkAllInPlace none laid
    laid.reverse.forM spliceInPlace
    countInPlace
    let w ← get
    w.watchers.forM reportInPlace

/-- How working off a batch in place ends, and the document that it leaves. -/
def workOff (w : WatchedDocument) (es : List Edit) : Except EditError Unit × WatchedDocument :=
  (applyInPlace es).run.run w

end WatchedDocument

end MultiCaret
