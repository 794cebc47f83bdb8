import ImportUsage.Proofs.FileTree.LastName
import ImportUsage.Source.File

/-! What reading a source depends on: the language, which the name of the file tells, and the text,
which is asked for only if there is a language. -/

namespace ImportUsage

-- No text is parsed here.
attribute [local irreducible] parse

namespace Language

theorem ofPath_of_fileName? {path path' : String}
    (file : Path.fileName? path = Path.fileName? path') : ofPath path = ofPath path' := by
  have extension : Path.extension? path = Path.extension? path' := by
    rw [Path.extension?, Path.extension?, file]
  unfold ofPath
  rw [extension]

theorem ofExtension?_empty : ofExtension? "" = none := by decide

theorem ofPath_of_known {path : String} {language : Language}
    (known : ofExtension? ((Path.extension? path).getD "") = some language) :
    ofPath path = .ok language := by
  unfold ofPath
  dsimp only
  rw [known]

theorem ofPath_of_unknown {path : String}
    (unknown : ofExtension? ((Path.extension? path).getD "") = none) :
    ofPath path = .error (.unsupported ((Path.extension? path).getD "")) := by
  unfold ofPath
  dsimp only
  rw [unknown]

theorem fileName?_of_ofPath {path : String} {language : Language}
    (spoken : ofPath path = .ok language) : ∃ name, Path.fileName? path = some name := by
  cases named : Path.fileName? path with
  | none =>
    have bare : Path.extension? path = none := by
      rw [Path.extension?, named]
      rfl
    rw [ofPath_of_unknown (by rw [bare]; exact ofExtension?_empty)] at spoken
    cases spoken
  | some name => exact ⟨name, rfl⟩

theorem ofPath_withExtension (base extension : String)
    (foreign : ofExtension? extension = none ∧ extension ≠ "" ∧ '.' ∉ extension.toList ∧
      '/' ∉ extension.toList) (language : Language) :
    ofPath (Path.withExtension base extension) ≠ .ok language := by
  obtain ⟨unknown, filled, plain, flat⟩ := foreign
  intro spoken
  rcases Path.extension?_withExtension base extension filled plain flat with none | some
  · rw [ofPath_of_unknown (by rw [none]; exact ofExtension?_empty)] at spoken
    cases spoken
  · rw [ofPath_of_unknown (by rw [some]; exact unknown)] at spoken
    cases spoken

theorem toOption_parseText [TreeReader] (language : Language) (path path' text : String) :
    (language.parseText path text).toOption = (language.parseText path' text).toOption := by
  unfold parseText
  cases parse language.dialect text.toList with
  | error position => rfl
  | ok parsed => rfl

end Language

namespace FileTree

variable [TreeReader]

theorem readSource_of_error {t : FileTree} {path : String} {e : SourceError}
    (unspoken : Language.ofPath path = .error e) : t.readSource path = .error e := by
  unfold readSource
  rw [unspoken]
  rfl

theorem readSource_of_ok {t : FileTree} {path : String} {language : Language}
    (spoken : Language.ofPath path = .ok language) :
    t.readSource path =
      ((t.readText path).mapError (.unreadable path)).bind (language.parseText path) := by
  unfold readSource
  rw [spoken]
  rfl

/-- Why a file yields no outline: its extension has no language, or else it cannot be read, or else
its text cannot be parsed. -/
inductive Refuses (t : FileTree) (path : String) : SourceError → Prop
  | unsupported (unknown : Language.ofExtension? ((Path.extension? path).getD "") = none) :
      Refuses t path (.unsupported ((Path.extension? path).getD ""))
  | unreadable (language : Language) (fault : Fault)
      (known : Language.ofExtension? ((Path.extension? path).getD "") = some language)
      (unread : t.readText path = .error fault) : Refuses t path (.unreadable path fault)
  | malformed (language : Language) (text : String) (position : Position)
      (known : Language.ofExtension? ((Path.extension? path).getD "") = some language)
      (read : t.readText path = .ok text)
      (broken : parse language.dialect text.toList = .error position) :
      Refuses t path (.malformed path position)

theorem readSource_eq_error_iff (t : FileTree) (path : String) (e : SourceError) :
    t.readSource path = .error e ↔ t.Refuses path e := by
  constructor
  · intro refused
    cases known : Language.ofExtension? ((Path.extension? path).getD "") with
    | none =>
      rw [readSource_of_error (Language.ofPath_of_unknown known)] at refused
      cases refused
      exact .unsupported known
    | some language =>
      rw [readSource_of_ok (Language.ofPath_of_known known)] at refused
      cases read : t.readText path with
      | error fault =>
        rw [read] at refused
        cases refused
        exact .unreadable language fault known read
      | ok text =>
        rw [read] at refused
        change language.parseText path text = .error e at refused
        unfold Language.parseText at refused
        cases broken : parse language.dialect text.toList with
        | error position =>
          rw [broken] at refused
          cases refused
          exact .malformed language text position known read broken
        | ok parsed =>
          rw [broken] at refused
          cases refused
  · intro refused
    cases refused with
    | unsupported unknown => exact readSource_of_error (Language.ofPath_of_unknown unknown)
    | unreadable language fault known unread =>
      rw [readSource_of_ok (Language.ofPath_of_known known), unread]
      rfl
    | malformed language text position known read broken =>
      rw [readSource_of_ok (Language.ofPath_of_known known), read]
      change language.parseText path text = _
      rw [Language.parseText, broken]
      rfl

theorem readText_of_readable {t : FileTree} {path : String} {language : Language}
    (spoken : Language.ofPath path = .ok language)
    (readable : ∀ fault, t.readSource path ≠ .error (.unreadable path fault)) :
    ∃ text, t.readText path = .ok text := by
  rw [readSource_of_ok spoken] at readable
  cases read : t.readText path with
  | error fault =>
    rw [read] at readable
    exact absurd rfl (readable fault)
  | ok text => exact ⟨text, rfl⟩

/-- Two paths with one language and one text give one outline, if they can be read. -/
theorem toOption_readSource (t : FileTree) (path path' : String)
    (language : Language.ofPath path = Language.ofPath path')
    (text : ∀ text text', t.readText path = .ok text → t.readText path' = .ok text' → text = text')
    (readable : ∀ fault, t.readSource path ≠ .error (.unreadable path fault))
    (readable' : ∀ fault, t.readSource path' ≠ .error (.unreadable path' fault)) :
    (t.readSource path).toOption = (t.readSource path').toOption := by
  cases spoken' : Language.ofPath path' with
  | error e => rw [readSource_of_error spoken', readSource_of_error (language.trans spoken')]
  | ok tongue =>
    have spoken := language.trans spoken'
    obtain ⟨here, first⟩ := readText_of_readable spoken readable
    obtain ⟨there, second⟩ := readText_of_readable spoken' readable'
    cases text here there first second
    rw [readSource_of_ok spoken, readSource_of_ok spoken', first, second]
    exact tongue.toOption_parseText path path' here

theorem readSource_kept {t t' : FileTree} (keeps : t.root.Keeps t'.root)
    (working : t'.workingDirectory = t.workingDirectory) {path : String}
    (readable : ∀ fault, t.readSource path ≠ .error (.unreadable path fault))
    (same : ∀ language text place, Language.ofPath path = .ok language →
      t.readText path = .ok text → t.locate path = .ok place →
      t'.root.entryAt? place = t.root.entryAt? place) :
    t'.readSource path = t.readSource path := by
  cases spoken : Language.ofPath path with
  | error e => rw [readSource_of_error spoken, readSource_of_error spoken]
  | ok language =>
    obtain ⟨text, read⟩ := readText_of_readable spoken readable
    have read' := readText_kept keeps working read fun place => same language text place spoken read
    rw [readSource_of_ok spoken, readSource_of_ok spoken, read, read']

end FileTree

end ImportUsage
