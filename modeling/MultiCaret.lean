import MultiCaret.Document.Flat
import MultiCaret.Document.Watched
import MultiCaret.Document.InPlace
import MultiCaret.Main
import MultiCaret.Recorder
import MultiCaret.Proofs.Document.Places
import MultiCaret.Proofs.Document.Batch
import MultiCaret.Proofs.Document.Refusal
import MultiCaret.Proofs.EditPlan
import MultiCaret.Proofs.EditPlan.Agreement
import MultiCaret.Proofs.Document.Visible
import MultiCaret.Proofs.Document.Expanding
import MultiCaret.Proofs.Editor.Settled
import MultiCaret.Proofs.Editor.Steps
import MultiCaret.Proofs.Editor.Session
import MultiCaret.Proofs.Editor.UndoRedo
import MultiCaret.Proofs.Editor.Typing
import MultiCaret.Proofs.SmartKey.Fits
import MultiCaret.Proofs.SmartKey.Outcome
import MultiCaret.Proofs.SmartKey.Recording
import MultiCaret.Proofs.SmartKey.Visible
import MultiCaret.Proofs.Editor.Steady
import MultiCaret.Proofs.Editor.QuietKeys
import MultiCaret.Proofs.Editor.Failure
import MultiCaret.Proofs.Editor.Toggle
import MultiCaret.Proofs.Editor.Unseen
import MultiCaret.Proofs.Editor.Images
import MultiCaret.Proofs.Editor.Deleting
import MultiCaret.Proofs.Editor.Keystrokes
import MultiCaret.Proofs.SmartKey.Landing
import MultiCaret.Proofs.SmartKey.Blocks
import MultiCaret.Proofs.SmartKey.CommaFirst
import MultiCaret.Proofs.Braces.Scan
import MultiCaret.Proofs.Braces.Unmatched
import MultiCaret.Proofs.Braces.Insertion
import MultiCaret.Proofs.Braces.Expansion
import MultiCaret.Proofs.Braces.Closers
import MultiCaret.Proofs.SmartKey.Backspace
import MultiCaret.Proofs.Indentation
import MultiCaret.Proofs.Document.NonBlanks
import MultiCaret.Proofs.Editor.Backspacing
import MultiCaret.Proofs.Editor.EndCycle
import MultiCaret.Proofs.Editor.TakingBack
import MultiCaret.Proofs.SmartKey.Reindenting
import MultiCaret.KeyedLine.Search
import MultiCaret.Proofs.Text.Pattern
import MultiCaret.Proofs.KeyedLine.Names
import MultiCaret.Proofs.KeyedLine.Search
import MultiCaret.Proofs.SmartKey.Completing
import MultiCaret.Proofs.SmartKey.InsideWords
import MultiCaret.Proofs.Editor.HistoryBound
import MultiCaret.Proofs.Editor.Pieces
import MultiCaret.Proofs.Editor.Display
import MultiCaret.Proofs.Editor.Walking
import MultiCaret.Proofs.Settings.Leaves
import MultiCaret.Proofs.Settings.PassedOver
import MultiCaret.Proofs.Text.Utf8
import MultiCaret.Proofs.Json.Limits
import MultiCaret.Proofs.Settings.Loading
import MultiCaret.Proofs.EditPlan.TextBehind
import MultiCaret.Proofs.Files.Directories
import MultiCaret.Proofs.Files.Writing
import MultiCaret.Proofs.Settings.Written
import MultiCaret.Proofs.CommandLine.RoundTrip
import MultiCaret.Proofs.Settings.Saving
