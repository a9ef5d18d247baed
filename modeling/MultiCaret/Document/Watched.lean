import MultiCaret.Document.Basic

/-!
# Watched documents

A document with watchers.  Every change is reported once to every watcher, in the order of their registration, with
the version that it led to; a refused or empty batch is no change and is not reported.
-/

namespace MultiCaret

/-- A document, the names of its watchers and what has been reported to them so far. -/
structure WatchedDocument where
  document : Document
  watchers : List String
  reports : List (String × Nat)

namespace WatchedDocument

/-- A document that nobody watches yet. -/
def ofDocument (d : Document) : WatchedDocument :=
  ⟨d, [], []⟩

/-- Registers a watcher behind those that are there. -/
def watch (w : WatchedDocument) (name : String) : WatchedDocument :=
  { w with watchers := w.watchers ++ [name] }

/-- Takes over a new state of the document, and reports it if it has a new version. -/
def update (w : WatchedDocument) (d : Document) : WatchedDocument :=
  if d.version = w.document.version then { w with document := d }
  else { w with document := d, reports := w.reports ++ w.watchers.map fun name => (name, d.version) }

/-- Replaces the whole text. -/
def setText (w : WatchedDocument) (t : Text) : WatchedDocument :=
  w.update (w.document.setText t)

/-- Applies a batch of edits, all of them or none. -/
def applyEdits (w : WatchedDocument) (es : List Edit) : Except EditError WatchedDocument :=
  (w.document.applyEdits es).map w.update

end WatchedDocument

end MultiCaret
