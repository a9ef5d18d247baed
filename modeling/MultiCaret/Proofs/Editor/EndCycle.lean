import MultiCaret.Proofs.Editor.Unseen
import MultiCaret.Proofs.SmartKey.Recording

/-!
# Pressing End again and again

On a line with something on it, a press of End takes a single caret to the full end if it stands at the end without
trailing blanks, and to the latter from anywhere else (`endKey_onText`).  What has been recorded of earlier presses, be it
stale or contradictory, does not matter for this, and it is replaced by the new place behind the move.  So the caret goes
back and forth between the two ends from the first press on (`press_end_alternates`), on the recording host as in the
editor.
-/

namespace MultiCaret

/-- The end that a caret is taken to from a column. -/
def endFrom (l : Text) (column : Int) : Nat :=
  if column = (trimEnd l).length then l.length else (trimEnd l).length

/-- The end where a caret is after `k` presses, one at least, that started at a column: from the end without trailing
blanks the odd ones lead to the full end, from elsewhere the even ones. -/
def endAfter (l : Text) (column : Int) (k : Nat) : Nat :=
  if column = (trimEnd l).length ↔ k % 2 = 1 then l.length else (trimEnd l).length

/-- The only caret is at a column of the line `n`, which holds `l`, and the record of the End toggle says so.  It says which
of the two ends this is, if they differ. -/
structure AtEnd (l : Text) (n : Int) (column : Nat) (ss : List Selection) (toggle : Option EndToggle) : Prop where
  caret : ss = [.caret ⟨n, column⟩]
  recorded : ∃ t, toggle = some t ∧ t.line = n ∧ t.column = column ∧
    ((trimEnd l).length < l.length → (t.atTrimmedEnd = true ↔ column = (trimEnd l).length))

variable {l : Text} {n c : Int}

private theorem endAfter_one : endAfter l c 1 = endFrom l c := by
  simp [endAfter, endFrom]

/-- Going on from the end that the first press leads to. -/
private theorem endAfter_endFrom (k : Nat) : endAfter l (endFrom l c) (k + 1) = endAfter l c (k + 2) := by
  have hle := length_trimEnd_le l
  by_cases heq : (trimEnd l).length = l.length
  · simp [endAfter, heq]
  · have hswap : ((endFrom l c : Nat) : Int) = (trimEnd l).length ↔ c ≠ (trimEnd l).length := by
      unfold endFrom
      split <;> omega
    have hparity : (((endFrom l c : Nat) : Int) = (trimEnd l).length ↔ (k + 1) % 2 = 1) ↔
        (c = (trimEnd l).length ↔ (k + 2) % 2 = 1) := by
      have hodd : (k + 1) % 2 = 1 ↔ ¬ (k + 2) % 2 = 1 := by omega
      rw [hswap, hodd]
      exact not_iff_not
    simp only [endAfter, hparity]

namespace SmartKey

/-- End on a line with something on it, whatever has been recorded. -/
theorem endKey_onText {s : Scene} (hsel : s.selections = [.caret ⟨n, c⟩]) (hline : HasLine s.lines n)
    (hl : lineOf s.lines n = l) (htext : isBlankText l = false) (hon : s.settings.endTogglesTrimmedEnd = true) :
    ∃ t : EndToggle, t.line = n ∧ t.column = endFrom l c ∧
      ((trimEnd l).length < l.length → (t.atTrimmedEnd = true ↔ endFrom l c = (trimEnd l).length)) ∧
      endKey s = .act (.caretAt ⟨n, endFrom l c⟩ [] (.record t)) := by
  obtain ⟨live, hlive⟩ : ∃ live, live = s.toggle.filter fun t => !t.isStale ⟨n, c⟩ := ⟨_, rfl⟩
  have hcolumn : (endTarget live c (trimEnd l).length l.length).1 = endFrom l c :=
    fst_endTarget live c (length_trimEnd_le l)
  have hkey : endKey s = .act (.caretAt ⟨n, (endTarget live c (trimEnd l).length l.length).1⟩ []
      (.record ⟨n, (endTarget live c (trimEnd l).length l.length).1,
        (endTarget live c (trimEnd l).length l.length).2⟩)) := by
    have hall : allCarets s.selections = true := by
      rw [hsel]
      simp [allCarets, Selection.isEmpty_caret]
    have hcond : HasLine s.lines (Selection.caret ⟨n, c⟩).active.line := hline
    rw [endKey, if_pos hall]
    simp only [hsel, if_pos hcond]
    simp only [Selection.caret, hl, endOnLine, htext, hon, hlive]
    rfl
  refine ⟨⟨n, (endTarget live c (trimEnd l).length l.length).1, (endTarget live c (trimEnd l).length l.length).2⟩, rfl,
    congrArg Int.ofNat hcolumn, fun hlt => ?_, by rw [hkey, hcolumn]⟩
  rw [← hcolumn]
  rcases endTarget_cases live c (trimEnd l).length l.length with hto | hto
  · rw [hto]
    simp only [Bool.false_eq_true, false_iff]
    omega
  · rw [hto]
    simp

end SmartKey

private theorem EndTracker.get?_record (t : EndTracker) (id : String) (e : EndToggle) :
    (t.record id e).get? id = some e := by
  simp [EndTracker.record, EndTracker.get?]

/-! ### The recording host -/

namespace Recorder

/-- Presses smart keys one after the other, up to one that is refused. -/
def pressAll (r : Recorder) (keys : List SmartKeyName) : Except EditError Recorder :=
  keys.foldlM (fun r key => (r.press key).map Prod.fst) r

variable {r : Recorder}

/-- One press. -/
private theorem press_end_onText (hsel : r.selections = [.caret ⟨n, c⟩]) (hline : HasLine r.document.lines n)
    (hl : lineOf r.document.lines n = l) (htext : isBlankText l = false)
    (hon : r.settings.endTogglesTrimmedEnd = true) :
    ∃ r', r.press .lineEnd = .ok (r', true) ∧ r'.document = r.document ∧ r'.settings = r.settings ∧
      AtEnd l n (endFrom l c) r'.selections (r'.tracker.get? r'.document.uri) := by
  obtain ⟨t, ht, hcolumn, htrimmed, hkey⟩ := SmartKey.endKey_onText (s := r.scene) hsel hline hl htext hon
  have hcarry : r.press .lineEnd = .ok ({ r with
      selections := [.caret ⟨n, endFrom l c⟩]
      revealed := r.revealed ++ [⟨n, endFrom l c⟩]
      tracker := (r.tracker.cursorMoved r.document.uri ⟨n, endFrom l c⟩).record r.document.uri t
      forwarded := r.forwarded ++ [] }, true) := by
    have hreact : SmartKeyName.lineEnd.react r.scene = .act (.caretAt ⟨n, endFrom l c⟩ [] (.record t)) := hkey
    have hbatch : r.document.applyEdits [] = .ok r.document := rfl
    have hsame : r.updateDocument r.document = r := if_pos rfl
    simp only [press, hreact, perform, carryOut, applyEdits, Action.caretAt, hbatch, Except.map, hsame]
    rfl
  exact ⟨_, hcarry, rfl, rfl, rfl, t, EndTracker.get?_record _ _ _, ht, hcolumn, htrimmed⟩

private theorem pressAll_end_onText (htext : isBlankText l = false) (k : Nat) (hsel : r.selections = [.caret ⟨n, c⟩])
    (hline : HasLine r.document.lines n) (hl : lineOf r.document.lines n = l)
    (hon : r.settings.endTogglesTrimmedEnd = true) :
    ∃ r₁ r₂, r.pressAll (List.replicate k .lineEnd) = .ok r₁ ∧ r₁.press .lineEnd = .ok (r₂, true) ∧
      r₂.document = r.document ∧ AtEnd l n (endAfter l c (k + 1)) r₂.selections (r₂.tracker.get? r₂.document.uri) := by
  -- the induction starts anew at the end that the first press leads to
  induction k generalizing r c with
  | zero =>
    obtain ⟨r', hpress, hdoc, -, hend⟩ := press_end_onText hsel hline hl htext hon
    exact ⟨r, r', rfl, hpress, hdoc, endAfter_one.symm ▸ hend⟩
  | succ k ih =>
    obtain ⟨r', hpress, hdoc, hsettings, hend⟩ := press_end_onText hsel hline hl htext hon
    obtain ⟨r₁, r₂, hall, hpress₂, hdoc₂, hend₂⟩ := ih (r := r') hend.caret (hdoc.symm ▸ hline) (hdoc.symm ▸ hl)
      (hsettings.symm ▸ hon)
    rw [endAfter_endFrom] at hend₂
    refine ⟨r₁, r₂, ?_, hpress₂, hdoc₂.trans hdoc, hend₂⟩
    rw [List.replicate_succ, pressAll, List.foldlM_cons, hpress]
    exact hall

end Recorder

/-! ### The editor -/

namespace Editor

variable {e : Editor}

/-- Going to a place with the caret, and recording something. -/
private theorem carryOut_caretAt {p : Position} (hp : InBounds e.lines p) (t : EndToggle) :
    ∃ e', e.carryOut (.caretAt p [] (.record t)) = .done e' ∧ e'.document = e.document ∧ e'.settings = e.settings ∧
      e'.selections = [.caret p] ∧ e'.toggle? = some t := by
  have hcaret : ∀ sel ∈ [Selection.caret p], InBounds e.lines sel.anchor ∧ InBounds e.lines sel.active :=
    List.forall_mem_singleton.2 ⟨hp, hp⟩
  have hset : (e.setSelections [.caret p]).selections = [.caret p] :=
    selections_setSelections_of_settled ⟨List.cons_ne_nil _ _, List.nodup_singleton _, hcaret⟩
  rcases carryOut_cases e (.caretAt p [] (.record t)) with ⟨f, hf, -⟩ | ⟨e₁, e₂, top, he₁, he₂, -, hdone, -⟩
  · cases hf
  have hsame : e₁ = e := by
    have hbatch : e.applyEdits [] = .ok (e.updateDocument e.document) := rfl
    have hupdate : e.updateDocument e.document = e := if_pos rfl
    rw [hupdate] at hbatch
    exact (Except.ok.inj (hbatch.symm.trans he₁)).symm
  rw [hsame] at he₂
  refine ⟨e₂, hdone rfl, ?_, ?_, ?_, ?_⟩
  · rw [he₂]
    rfl
  · rw [he₂]
    rfl
  · rw [he₂]
    exact hset
  · rw [he₂]
    exact EndTracker.get?_record _ _ _

private theorem inBounds_endFrom {lines : List Text} (hline : HasLine lines n) (hl : lineOf lines n = l) (c : Int) :
    InBounds lines ⟨n, endFrom l c⟩ := by
  have hle := length_trimEnd_le l
  refine ⟨hline, Int.natCast_nonneg _, ?_⟩
  simp only [hl, endFrom]
  split <;> omega

/-- One press of the key. -/
private theorem handleKey_end_onText (hsel : e.selections = [.caret ⟨n, c⟩]) (hline : HasLine e.lines n)
    (hl : lineOf e.lines n = l) (htext : isBlankText l = false) (hon : e.settings.endTogglesTrimmedEnd = true)
    (char : Text) :
    ∃ e', e.handleKey "end" char = .done e' ∧ e'.document = e.document ∧ e'.settings = e.settings ∧
      AtEnd l n (endFrom l c) e'.selections e'.toggle? := by
  obtain ⟨t, ht, hcolumn, htrimmed, hkey⟩ := SmartKey.endKey_onText (s := e.scene) hsel hline hl htext hon
  obtain ⟨kept, -, hsave⟩ := ({ e with status := .quiet } : Editor).saveMoment_eq
  obtain ⟨saved, hsaved⟩ : ∃ saved, saved = ({ e with status := .quiet } : Editor).saveMoment := ⟨_, rfl⟩
  have hscene : saved.scene = e.scene := by rw [hsaved, hsave]; rfl
  have hdoc : saved.document = e.document := by rw [hsaved, hsave]
  have hsettings : saved.settings = e.settings := by rw [hsaved, hsave]
  have hbounds : InBounds saved.lines ⟨n, endFrom l c⟩ := by
    rw [lines, hdoc]
    exact inBounds_endFrom hline hl c
  obtain ⟨e₂, hdone, hdoc₂, hsettings₂, hsel₂, htoggle⟩ := carryOut_caretAt hbounds t
  have hreact : saved.pressSmart .lineEnd = .done e₂ := by
    have hreact : SmartKeyName.lineEnd.react e.scene = .act (.caretAt ⟨n, endFrom l c⟩ [] (.record t)) := hkey
    rw [pressSmart, hscene, hreact]
    exact hdone
  -- the text is the same, so the moment that was kept is dropped again
  refine ⟨{ e₂ with undoStack := e₂.undoStack.tail }, ?_, hdoc₂.trans hdoc, hsettings₂.trans hsettings, hsel₂, t, htoggle,
    ht, hcolumn, htrimmed⟩
  have hrun : e.handleKey "end" char = ({ e with status := .quiet } : Editor).edit fun e => e.pressSmart .lineEnd := rfl
  rw [hrun, edit, ← hsaved, hreact]
  exact if_pos (congrArg Document.version (hdoc₂.trans hdoc))

private theorem operateAll_end_onText (htext : isBlankText l = false) (k : Nat) (hsel : e.selections = [.caret ⟨n, c⟩])
    (hline : HasLine e.lines n) (hl : lineOf e.lines n = l) (hon : e.settings.endTogglesTrimmedEnd = true)
    (char : Text) :
    ∃ e', (e.operateAll (List.replicate k (.key "end" char))).handleKey "end" char = .done e' ∧
      e'.document = e.document ∧ AtEnd l n (endAfter l c (k + 1)) e'.selections e'.toggle? := by
  induction k generalizing e c with
  | zero =>
    obtain ⟨e', hkey, hdoc, -, hend⟩ := handleKey_end_onText hsel hline hl htext hon char
    exact ⟨e', hkey, hdoc, endAfter_one.symm ▸ hend⟩
  | succ k ih =>
    obtain ⟨e', hkey, hdoc, hsettings, hend⟩ := handleKey_end_onText hsel hline hl htext hon char
    have hlines : e'.lines = e.lines := congrArg Document.lines hdoc
    obtain ⟨e₂, hkey₂, hdoc₂, hend₂⟩ := ih (e := e') hend.caret (hlines.symm ▸ hline) (hlines.symm ▸ hl)
      (hsettings.symm ▸ hon)
    rw [endAfter_endFrom] at hend₂
    refine ⟨e₂, ?_, hdoc₂.trans hdoc, hend₂⟩
    rw [List.replicate_succ, operateAll, List.foldl_cons, operate, hkey]
    exact hkey₂

end Editor

/-! ### Both hosts -/

/-- On a line with something on it, and with a single caret at any column of it, every press of End goes through and
leaves the text.  If the line has trailing blanks, the first press leads to the full end from the end without them, and
to the latter from elsewhere, and the further ones lead back and forth between the two; else all of them lead to the full
end.  Behind every press the record is the place of the caret, whatever was recorded before. -/
theorem press_end_alternates (htext : isBlankText l = false) (n c : Int) :
    (∀ r : Recorder, r.selections = [.caret ⟨n, c⟩] → HasLine r.document.lines n → lineOf r.document.lines n = l →
      r.settings.endTogglesTrimmedEnd = true →
      ∀ k, ∃ r₁ r₂, r.pressAll (List.replicate k .lineEnd) = .ok r₁ ∧ r₁.press .lineEnd = .ok (r₂, true) ∧
        r₂.document = r.document ∧
        AtEnd l n (endAfter l c (k + 1)) r₂.selections (r₂.tracker.get? r₂.document.uri)) ∧
    ∀ (e : Editor) (char : Text), e.selections = [.caret ⟨n, c⟩] → HasLine e.lines n → lineOf e.lines n = l →
      e.settings.endTogglesTrimmedEnd = true →
      ∀ k, ∃ e', (e.operateAll (List.replicate k (.key "end" char))).handleKey "end" char = .done e' ∧
        e'.document = e.document ∧ AtEnd l n (endAfter l c (k + 1)) e'.selections e'.toggle? := by
  constructor
  · intro r hsel hline hl hon k
    exact Recorder.pressAll_end_onText htext k hsel hline hl hon
  · intro e char hsel hline hl hon k
    exact Editor.operateAll_end_onText htext k hsel hline hl hon char

/-- The caret at the end without the only trailing blank, and a record that takes the full end for it. -/
def besideEnd : Recorder :=
  { Recorder.ofText "ab ".toList "plaintext".toList [.caret ⟨0, 2⟩] with tracker := [("doc", ⟨0, 3, true⟩)] }

/-- The same in an editor. -/
def editorBesideEnd : Editor :=
  { Editor.ofDocument besideEnd.document {} {} with selections := besideEnd.selections, tracker := besideEnd.tracker }

/-- Five presses lead to the full end, and the sixth one back. -/
theorem press_end_alternates_besideEnd :
    isBlankText "ab ".toList = false ∧ besideEnd.selections = [.caret ⟨0, 2⟩] ∧
      HasLine besideEnd.document.lines 0 ∧ lineOf besideEnd.document.lines 0 = "ab ".toList ∧
      besideEnd.settings.endTogglesTrimmedEnd = true ∧
      (∃ r₁ r₂, besideEnd.pressAll (List.replicate 4 .lineEnd) = .ok r₁ ∧ r₁.press .lineEnd = .ok (r₂, true) ∧
        r₂.document = besideEnd.document ∧ AtEnd "ab ".toList 0 3 r₂.selections (r₂.tracker.get? r₂.document.uri)) ∧
      ∃ e', (editorBesideEnd.operateAll (List.replicate 5 (.key "end" []))).handleKey "end" [] = .done e' ∧
        e'.document = editorBesideEnd.document ∧ AtEnd "ab ".toList 0 2 e'.selections e'.toggle? := by
  have htext : isBlankText "ab ".toList = false := by decide
  have hline : HasLine besideEnd.document.lines 0 := by decide
  have hl : lineOf besideEnd.document.lines 0 = "ab ".toList := by decide
  have hodd : endAfter "ab ".toList 2 (4 + 1) = 3 := by decide
  have heven : endAfter "ab ".toList 2 (5 + 1) = 2 := by decide
  obtain ⟨hrecorder, heditor⟩ := press_end_alternates htext 0 2
  have h₁ := hrecorder besideEnd rfl hline hl rfl 4
  have h₂ := heditor editorBesideEnd [] rfl hline hl rfl 5
  rw [hodd] at h₁
  rw [heven] at h₂
  exact ⟨htext, rfl, hline, hl, rfl, h₁, h₂⟩

end MultiCaret
