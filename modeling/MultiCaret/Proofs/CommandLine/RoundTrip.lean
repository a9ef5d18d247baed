import MultiCaret.CommandLine.Run
import MultiCaret.Proofs.Editor.Session
import MultiCaret.Proofs.Files.Writing
import MultiCaret.Proofs.Settings.Loading
import MultiCaret.Proofs.Text.LineEnds

/-!
# Opening a file and saving it

A file that the command line names comes to the editor with newlines for all its line ends, and whatever keys are
pressed, the path of the file goes on leading to a file at its place (`Application.OnFile`).  So saving writes there what
the editor holds; as long as that is what was opened, the bytes of the file stay the same exactly if it has no carriage
return (`CommandRun.opened_saved`).
-/

namespace MultiCaret

variable {fs fs' : FileSystem} {place : Place} {b : Bytes} {t : Text}

namespace Application

/-! ### Turns -/

/-- What happens to the application while it is on the screen: a key is pressed, or the screen is drawn. -/
inductive Turn where
  | key (name : String) (char? : Option Text)
  | draw (width height : Int)

/-- Takes a turn. -/
def takeTurn (a : Application) : Turn → Application
  | .key name char? => a.handleEvent name char?
  | .draw width height => { a with editor := (a.editor.draw width height).1 }

/-- Takes one turn after the other. -/
def takeTurns (a : Application) (turns : List Turn) : Application :=
  turns.foldl takeTurn a

/-- The keys that move cursors and do nothing else. -/
def cursorKeys : List String :=
  ["home", "left", "right", "up", "down", "alt+up", "ctrl+up", "alt+down", "ctrl+down", "escape"]

/-- A key that moves cursors is pressed, or the screen is drawn. -/
def Turn.MovesCursors : Turn → Prop
  | .key name _ => name ∈ cursorKeys
  | .draw _ _ => True

variable {a : Application}

/-- The application has a file, and the path of it leads there. -/
structure OnFile (a : Application) (name : Text) (place : Place) : Prop where
  filePath : a.filePath = name
  named : name ≠ []
  names : (Path.ofText name).names ≠ []
  there : ∃ b, a.files.find (Path.ofText name) = .ok (place, some (.file b))

variable {name : Text}

private theorem OnFile.congr {a' : Application} (h : a.OnFile name place) (hfiles : a'.files = a.files)
    (hpath : a'.filePath = a.filePath) : a'.OnFile name place where
  filePath := hpath.trans h.filePath
  named := h.named
  names := h.names
  there := by
    rw [hfiles]
    exact h.there

/-! ### Saving -/

/-- Over a file that is there a text is written, and the directories are there already. -/
private theorem writeFile_of_find {p : Path} (hp : p.names ≠ []) (hfind : fs.find p = .ok (place, some (.file b)))
    (t : Text) : writeFile fs p t = (fs.put place (.file (Utf8.encode t)), none) := by
  have hwrite : fs.write p (Utf8.encode t) = .ok (fs.put place (.file (Utf8.encode t))) :=
    FileSystem.write_eq_ok_iff.2 ⟨place, _, hfind, nofun, rfl⟩
  rw [writeFile, FileSystem.makeDirectories_of_directory (FileSystem.at?_parent_of_names hp hfind)]
  simp only [hwrite]

private theorem OnFile.save_files (h : a.OnFile name place) (t : Text) :
    (a.save t).files.find (Path.ofText name) = .ok (place, some (.file (Utf8.encode t))) := by
  obtain ⟨b, hfind⟩ := h.there
  have hname : a.filePath.isEmpty = false := by
    rw [h.filePath, List.isEmpty_eq_false_iff]
    exact h.named
  rw [save, hname, h.filePath, writeFile_of_find h.names hfind]
  exact FileSystem.find_put hfind nofun _

/-- Saving changes nothing of what is edited. -/
private theorem save_keeps (t : Text) : (a.save t).editor = a.editor ∧ (a.save t).filePath = a.filePath := by
  unfold save
  split
  · exact ⟨rfl, rfl⟩
  · split <;> exact ⟨rfl, rfl⟩

private theorem answer_keeps (m : Message) : (a.answer m).editor = a.editor ∧ (a.answer m).filePath = a.filePath := by
  cases m with
  | save t => exact save_keeps t
  | quit => exact ⟨rfl, rfl⟩

private theorem OnFile.answer (h : a.OnFile name place) (m : Message) : (a.answer m).OnFile name place := by
  refine ⟨(answer_keeps m).2.trans h.filePath, h.named, h.names, ?_⟩
  cases m with
  | save t => exact ⟨_, h.save_files t⟩
  | quit => exact h.there

private theorem editor_foldl_answer (ms : List Message) : (ms.foldl Application.answer a).editor = a.editor := by
  induction ms generalizing a with
  | nil => rfl
  | cons m ms ih => exact ih.trans (answer_keeps m).1

private theorem OnFile.foldl_answer (h : a.OnFile name place) (ms : List Message) :
    (ms.foldl Application.answer a).OnFile name place := by
  induction ms generalizing a with
  | nil => exact h
  | cons m ms ih => exact ih (h.answer m)

/-! ### Runs of turns -/

/-- A key goes to the editor first, and then what the editor asks for is done. -/
private theorem handleEvent_eq (a : Application) (key : String) (char? : Option Text) :
    ∃ a' : Application, a'.files = a.files ∧ a'.filePath = a.filePath ∧
      a'.editor = ({ a.editor with messages := [] }.handleEvent key char?).editor ∧
      a.handleEvent key char? = a'.editor.messages.foldl answer a' :=
  ⟨{ a with calls := [], editor := ({ a.editor with messages := [] }.handleEvent key char?).editor }, rfl, rfl, rfl, rfl⟩

private theorem editor_handleEvent (a : Application) (key : String) (char? : Option Text) :
    (a.handleEvent key char?).editor = ({ a.editor with messages := [] }.handleEvent key char?).editor := by
  obtain ⟨a', -, -, heditor, hanswer⟩ := a.handleEvent_eq key char?
  rw [hanswer, editor_foldl_answer, heditor]

private theorem OnFile.handleEvent (h : a.OnFile name place) (key : String) (char? : Option Text) :
    (a.handleEvent key char?).OnFile name place := by
  obtain ⟨a', hfiles, hpath, -, hanswer⟩ := a.handleEvent_eq key char?
  rw [hanswer]
  exact (h.congr hfiles hpath).foldl_answer _

private theorem OnFile.takeTurn (h : a.OnFile name place) (turn : Turn) : (a.takeTurn turn).OnFile name place := by
  cases turn with
  | key key char? => exact h.handleEvent key char?
  | draw width height => exact h.congr rfl rfl

private theorem OnFile.takeTurns (h : a.OnFile name place) (turns : List Turn) :
    (a.takeTurns turns).OnFile name place := by
  induction turns generalizing a with
  | nil => exact h
  | cons turn turns ih => exact ih (h.takeTurn turn)

/-- The key for saving writes the text of the editor to the file. -/
private theorem OnFile.save_key (h : a.OnFile name place) (char? : Option Text) :
    (a.handleEvent "ctrl+s" char?).files.find (Path.ofText name) =
      .ok (place, some (.file (Utf8.encode a.editor.document.text))) := by
  obtain ⟨a', hfiles, hpath, heditor, hanswer⟩ := a.handleEvent_eq "ctrl+s" char?
  -- the editor asks for one thing, to save its text
  have hmessages : a'.editor.messages = [.save a.editor.document.text] := congrArg Editor.messages heditor
  rw [hanswer, hmessages]
  exact (h.congr hfiles hpath).save_files a.editor.document.text

/-! ### Keys that move cursors -/

private theorem editing?_cursorKeys {key : String} (h : key ∈ cursorKeys) (char : Text) :
    (Command.ofKey key char).editing? = none ∧ Command.ofKey key char ≠ .undo ∧ Command.ofKey key char ≠ .redo := by
  simp only [cursorKeys, List.mem_cons, List.not_mem_nil, or_false] at h
  rcases h with rfl | rfl | rfl | rfl | rfl | rfl | rfl | rfl | rfl | rfl
  all_goals exact ⟨rfl, nofun, nofun⟩

private theorem document_draw (e : Editor) (width height : Int) : (e.draw width height).1.document = e.document := by
  unfold Editor.draw
  split
  · rfl
  · obtain ⟨top, htop, -⟩ := Editor.reveal_eq { e with viewHeight := (height - 1).toNat } e.cursor
    have hdraw : Editor.revealCursor { e with viewHeight := (height - 1).toNat } =
        { e with viewHeight := (height - 1).toNat, scrollTop := top } := htop
    simp only [hdraw]

private theorem document_takeTurn {turn : Turn} (h : turn.MovesCursors) :
    (a.takeTurn turn).editor.document = a.editor.document := by
  cases turn with
  | key key char? =>
    obtain ⟨hediting, hundo, hredo⟩ :=
      editing?_cursorKeys h (char?.getD (if key.length = 1 then key.toList else []))
    rw [takeTurn, editor_handleEvent]
    rcases Editor.run_cases (e := { a.editor with messages := [], status := .quiet }) hundo hredo with
      ⟨-, -, hdocument⟩ | ⟨f, hf, -⟩
    · exact hdocument
    · rw [hediting] at hf
      cases hf
  | draw width height => exact document_draw _ _ _

private theorem document_takeTurns {turns : List Turn} (h : ∀ turn ∈ turns, turn.MovesCursors) :
    (a.takeTurns turns).editor.document = a.editor.document := by
  induction turns generalizing a with
  | nil => rfl
  | cons turn turns ih =>
    exact (ih fun turn' hturn => h turn' (List.mem_cons_of_mem turn hturn)).trans
      (document_takeTurn (h turn List.mem_cons_self))

end Application

namespace CommandRun

/-! ### Opening -/

variable {arguments : Arguments} {path : Path} {log : Log} {app : Application}

private theorem readFile_of_find (hfind : fs.find path = .ok (place, some (.file (Utf8.encode t)))) :
    readFile fs path = .ok (universalNewlines t) := by
  obtain ⟨hthere, hread⟩ := Settings.read_of_find hfind
  simp only [readFile, hthere, hread, Utf8.decode_encode]

/-- Opening the log leaves every file what it is. -/
private theorem openLog_find (h : openLog fs arguments = .ok (fs', log))
    (hfind : fs.find path = .ok (place, some (.file b))) : fs'.find path = .ok (place, some (.file b)) := by
  unfold openLog at h
  split at h
  · cases h
    exact hfind
  · cases h
    exact hfind
  · cases h
  · next name level _ _ _ =>
    cases happend : fs.append (fs.absolutePath (Path.ofText name)) [] with
    | error e =>
      simp only [happend, reduceCtorEq] at h
    | ok fs₁ =>
      simp only [happend, Except.ok.injEq, Prod.mk.injEq] at h
      obtain ⟨rfl, -⟩ := h
      rcases FileSystem.find_append hfind happend with hfind' | hfind'
      · exact hfind'
      · rwa [List.append_nil] at hfind'

/-- Writing to the log leaves every file where it is. -/
private theorem write_find (log : Log) (notices : List SettingsNotice)
    (hfind : fs.find path = .ok (place, some (.file b))) :
    ∃ b', (log.write fs notices).1.find path = .ok (place, some (.file b')) := by
  cases log with
  | errorOutput => exact ⟨b, hfind⟩
  | file logPath level =>
    simp only [Log.write]
    split
    · cases happend : fs.append logPath (Utf8.encode (notices.flatMap logLine)) with
      | error e => exact ⟨b, hfind⟩
      | ok fs₁ =>
        rcases FileSystem.find_append hfind happend with hfind' | hfind'
        · exact ⟨_, hfind'⟩
        · exact ⟨_, hfind'⟩
    · exact ⟨b, hfind⟩

/-- What the application is built from. -/
private theorem start_ready {tabSize : Int} {content : Text} {settings : Settings}
    (h : start fs arguments tabSize content settings = .ready app) :
    app.files = fs ∧ app.filePath = arguments.file ∧ app.editor.document.text = content := by
  have htext (uri : String) (language : Text) : (Document.ofText content uri language).text = content :=
    joinWith_splitOn _
  unfold start Application.start at h
  by_cases hempty : arguments.file.isEmpty
  · simp only [hempty, if_true, Launch.ready.injEq] at h
    subst h
    exact ⟨rfl, rfl, htext _ _⟩
  · rw [if_neg hempty] at h
    cases haddress : fileAddress fs arguments.file with
    | error e =>
      rw [haddress] at h
      cases h
    | ok uri =>
      rw [haddress] at h
      cases h
      exact ⟨rfl, rfl, htext _ _⟩

private theorem runOpened_ready {configHome : Text} {tabSize : Int} {content : Text}
    (h : (runOpened fs configHome arguments log tabSize content).launch = .ready app) :
    ∃ notices, app.files = (log.write fs notices).1 ∧ app.filePath = arguments.file ∧
      app.editor.document.text = content := by
  unfold runOpened at h
  split at h
  · cases h
  · split at h
    · cases h
    · next settings notices _ => exact ⟨notices, start_ready h⟩

private theorem runLogged_ready {configHome : Text} (h : (runLogged fs configHome arguments log).launch = .ready app) :
    ∃ content notices, (if arguments.file.isEmpty then .ok [] else readFile fs (Path.ofText arguments.file)) =
        Except.ok content ∧ app.files = (log.write fs notices).1 ∧ app.filePath = arguments.file ∧
      app.editor.document.text = content := by
  unfold runLogged at h
  split at h
  · cases h
  · split at h
    · cases h
    · split at h
      · cases h
      · next content hcontent =>
        obtain ⟨notices, hready⟩ := runOpened_ready h
        exact ⟨content, notices, hcontent, hready⟩

/-- A file that is there is opened with newlines for its line ends, and the application is on it. -/
private theorem opened_onFile {configHome : Text} {words : List Text} (hhere : fs.entry? fs.here = some .directory)
    (hwords : Arguments.ofTexts words = .ok arguments) (hname : arguments.file ≠ [])
    (hfile : fs.find (Path.ofText arguments.file) = .ok (place, some (.file (Utf8.encode t))))
    (hready : (ofTexts fs configHome words).launch = .ready app) :
    app.OnFile arguments.file place ∧ app.editor.document.text = universalNewlines t := by
  unfold ofTexts at hready
  simp only [hwords] at hready
  split at hready
  · cases hready
  · next fs₁ log hlog =>
    have hfile₁ := openLog_find hlog hfile
    obtain ⟨content, notices, hcontent, hfiles, hpath, htext⟩ := runLogged_ready hready
    have hempty : arguments.file.isEmpty = false := by
      rw [List.isEmpty_eq_false_iff]
      exact hname
    rw [hempty, if_neg Bool.false_ne_true, readFile_of_find hfile₁] at hcontent
    have hthere := write_find log notices hfile₁
    rw [← hfiles] at hthere
    exact ⟨⟨hpath, hname, FileSystem.names_of_find hhere hfile, hthere⟩,
      htext.trans (Except.ok.inj hcontent).symm⟩

/-- A file that is opened, looked at and saved again holds what it held before, with newlines for its line ends; so its
bytes are the same exactly if there is no carriage return in it. -/
theorem opened_saved {configHome : Text} {words : List Text} (hhere : fs.entry? fs.here = some .directory)
    (hwords : Arguments.ofTexts words = .ok arguments) (hname : arguments.file ≠ [])
    (hfile : fs.find (Path.ofText arguments.file) = .ok (place, some (.file (Utf8.encode t))))
    (hready : (ofTexts fs configHome words).launch = .ready app) :
    app.editor.document.text = universalNewlines t ∧
      (∀ (turns : List Application.Turn) (char? : Option Text),
        (app.mount.takeTurns turns).editor.document.text = app.editor.document.text →
        ((app.mount.takeTurns turns).handleEvent "ctrl+s" char?).files.find (Path.ofText arguments.file) =
          .ok (place, some (.file (Utf8.encode (universalNewlines t))))) ∧
      (∀ turns : List Application.Turn, (∀ turn ∈ turns, turn.MovesCursors) →
        (app.mount.takeTurns turns).editor.document.text = app.editor.document.text) ∧
      (Utf8.encode (universalNewlines t) = Utf8.encode t ↔ '\r' ∉ t) := by
  obtain ⟨hon, htext⟩ := opened_onFile hhere hwords hname hfile hready
  refine ⟨htext, fun turns char? hsame => ?_, fun turns hturns => ?_, encode_universalNewlines_eq_iff⟩
  · have hmount : app.mount.OnFile arguments.file place := hon.congr rfl rfl
    rw [(hmount.takeTurns turns).save_key char?, hsame, htext]
  · rw [Application.document_takeTurns hturns]
    rfl

/-- A file in the current directory, and nothing else. -/
def oneText (t : Text) : FileSystem where
  entries := [(["a.txt".toList], .file (Utf8.encode t))]
  here := []

private theorem ofTexts_oneText (t : Text) :
    Arguments.ofTexts ["a.txt".toList] = .ok { file := "a.txt".toList } ∧
      (oneText t).find (Path.ofText "a.txt".toList) = .ok (["a.txt".toList], some (.file (Utf8.encode t))) :=
  ⟨by decide +kernel, rfl⟩

theorem opened_saved_twoLines :
    FileSystem.entry? (oneText ['a', '\n', 'b']) [] = some .directory ∧
      (oneText ['a', '\n', 'b']).find (Path.ofText "a.txt".toList) =
        .ok (["a.txt".toList], some (.file (Utf8.encode ['a', '\n', 'b']))) ∧
      ∃ app, (ofTexts (oneText ['a', '\n', 'b']) [] ["a.txt".toList]).launch = .ready app ∧
        app.editor.document.text = ['a', '\n', 'b'] := by
  obtain ⟨hwords, hfile⟩ := ofTexts_oneText ['a', '\n', 'b']
  obtain ⟨app, hready⟩ : ∃ app, (ofTexts (oneText ['a', '\n', 'b']) [] ["a.txt".toList]).launch = .ready app := ⟨_, rfl⟩
  exact ⟨rfl, hfile, app, hready, (opened_saved rfl hwords (by decide) hfile hready).1⟩

/-- Not every file that is opened and saved at once holds the same bytes again: a carriage return is lost. -/
theorem not_opened_saved :
    ¬ ∀ (fs : FileSystem) (configHome : Text) (words : List Text) (arguments : Arguments) (place : Place) (t : Text)
      (app : Application), fs.entry? fs.here = some .directory → Arguments.ofTexts words = .ok arguments →
      arguments.file ≠ [] →
      fs.find (Path.ofText arguments.file) = .ok (place, some (.file (Utf8.encode t))) →
      (ofTexts fs configHome words).launch = .ready app →
      (app.mount.handleEvent "ctrl+s" none).files.find (Path.ofText arguments.file) =
        .ok (place, some (.file (Utf8.encode t))) := by
  intro hall
  obtain ⟨hwords, hfile⟩ := ofTexts_oneText ['a', '\r', '\n', 'b']
  obtain ⟨app, hready⟩ : ∃ app, (ofTexts (oneText ['a', '\r', '\n', 'b']) [] ["a.txt".toList]).launch = .ready app :=
    ⟨_, rfl⟩
  have hsaved := hall _ _ _ _ _ _ app rfl hwords (by decide) hfile hready
  obtain ⟨hon, htext⟩ := opened_onFile rfl hwords (by decide) hfile hready
  have hmount : app.mount.OnFile "a.txt".toList ["a.txt".toList] := hon.congr rfl rfl
  have htext' : app.mount.editor.document.text = universalNewlines ['a', '\r', '\n', 'b'] := htext
  rw [hmount.save_key none, htext'] at hsaved
  have hbytes := Entry.file.inj (Option.some.inj (Prod.mk.inj (Except.ok.inj hsaved)).2)
  exact encode_universalNewlines_eq_iff.1 hbytes (by decide)

end CommandRun

end MultiCaret
