import ImportUsage.Proofs.Discovery.Extensions
import ImportUsage.Proofs.Scan.Steps
import ImportUsage.Proofs.Source.Reading
import ImportUsage.Proofs.Source.TextTree

/-! Why a scan fails. The target comes first, then the root, then the finds of the walk one after the
other; the first cause on this way is the one that is reported. -/

namespace ImportUsage

attribute [local irreducible] FileTree.readSource

namespace FileTree

/-- Why no walk begins at a path: nothing is there, or it cannot be reached, or it is no
directory. -/
inductive Bars (t : FileTree) (root : String) : DiscoveryError → Prop
  | missing (absent : t.find root = .error .missing) : Bars t root (.rootMissing root)
  | unreadable (fault : Fault) (broken : t.find root = .error fault) (other : fault ≠ .missing) :
      Bars t root (.unreadable root fault)
  | notDirectory (node : Node) (found : t.find root = .ok node) (leaf : node.isDirectory = false) :
      Bars t root (.notDirectory root)

variable [TreeReader]

/-- Which finds of a walk end a scan, and how: a directory that cannot be entered, a source that
cannot be read, and in a strict scan whatever yields no outline. -/
inductive Fatal (t : FileTree) (strict : Bool) : Found → ScanError → Prop
  | walk (e : WalkError) : Fatal t strict (.error e) (.discovery (.walk e))
  | unreadable (path : String) (fault : Fault) (refused : t.Refuses path (.unreadable path fault)) :
      Fatal t strict (.ok path) (.candidate (.unreadable path fault))
  | refused (path : String) (e : SourceError) (strictly : strict = true)
      (refused : t.Refuses path e) : Fatal t strict (.ok path) (.candidate e)

/-- The first find that ends a scan. -/
def FirstFatal (t : FileTree) (strict : Bool) (found : List Found) (e : ScanError) : Prop :=
  ∃ before item after, found = before ++ item :: after ∧ t.Fatal strict item e ∧
    ∀ earlier ∈ before, ∀ other, ¬t.Fatal strict earlier other

theorem sourceError?_eq_some (t : FileTree) (path : String) (e : SourceError) :
    t.sourceError? path = some e ↔ t.Refuses path e := by
  rw [← readSource_eq_error_iff, sourceError?]
  cases t.readSource path <;> simp

theorem fatal?_eq_some (t : FileTree) (strict : Bool) (item : Found) (e : ScanError) :
    t.fatal? strict item = some e ↔ t.Fatal strict item e := by
  cases item with
  | error w =>
    constructor
    · intro ended
      cases ended
      exact .walk w
    · intro fatal
      cases fatal
      rfl
  | ok path =>
    simp only [fatal?, Option.map_eq_some_iff, Option.filter_eq_some_iff, sourceError?_eq_some]
    constructor
    · rintro ⟨e, ⟨refused, fatal⟩, rfl⟩
      cases refused with
      | unreadable language fault known unread =>
        exact .unreadable path fault (.unreadable language fault known unread)
      | unsupported unknown => exact .refused path _ fatal (.unsupported unknown)
      | malformed language text position known read broken =>
        exact .refused path _ fatal (.malformed language text position known read broken)
    · intro fatal
      cases fatal with
      | unreadable _ fault refused => exact ⟨_, ⟨refused, rfl⟩, rfl⟩
      | refused _ e strictly refused =>
        refine ⟨e, ⟨refused, ?_⟩, rfl⟩
        cases e with
        | unreadable path fault => rfl
        | unsupported extension => exact strictly
        | malformed path position => exact strictly

theorem fatal?_eq_none (t : FileTree) (strict : Bool) (item : Found) :
    t.fatal? strict item = none ↔ ∀ e, ¬t.Fatal strict item e := by
  simp only [Option.eq_none_iff_forall_ne_some, ne_eq, fatal?_eq_some]

theorem findSome?_fatal_eq_some (t : FileTree) (strict : Bool) (found : List Found)
    (e : ScanError) :
    found.findSome? (t.fatal? strict) = some e ↔ t.FirstFatal strict found e := by
  simp only [List.findSome?_eq_some_iff, fatal?_eq_some, fatal?_eq_none, FirstFatal]

/-- A file of an unsupported type is passed over in a lenient scan, whether it can be read or not. -/
theorem not_fatal_of_unsupported (t : FileTree) (path : String)
    (unknown : Language.ofExtension? ((Path.extension? path).getD "") = none) (e : ScanError) :
    ¬t.Fatal false (.ok path) e := by
  intro fatal
  cases fatal with
  | unreadable _ fault refused =>
    cases refused with
    | unreadable language _ known _ =>
      rw [unknown] at known
      cases known
  | refused _ _ strictly _ => cases strictly

end FileTree

theorem Discovery.walk_eq_error_iff (d : Discovery) (t : FileTree) (e : DiscoveryError) :
    d.walk t = .error e ↔ t.Bars d.root e := by
  constructor
  · intro failed
    unfold walk at failed
    split at failed
    · rename_i absent
      cases failed
      exact .missing absent
    · rename_i fault other broken
      cases failed
      exact .unreadable fault broken other
    · cases failed
    · rename_i node other found
      cases failed
      refine .notDirectory node found ?_
      cases node with
      | directory entries => exact absurd rfl (other entries)
      | file content executable => rfl
      | link target => rfl
  · intro barred
    unfold walk
    cases barred with
    | missing absent => rw [absent]
    | unreadable fault broken other =>
      rw [broken]
      cases fault with
      | missing => exact absurd rfl other
      | _ => rfl
    | notDirectory node found leaf =>
      rw [found]
      cases node with
      | directory entries => cases leaf
      | file content executable => rfl
      | link target => rfl

section Causes

variable [TreeReader] {o : Options} {t : FileTree}

theorem scan_of_target_error {e : SourceError} (target : t.readSource o.target = .error e) :
    scan o t = .error (.target e) := by
  rw [scan, target]
  rfl

theorem scan_of_root_error {parsed : Parsed} {e : DiscoveryError}
    (target : t.readSource o.target = .ok parsed) (walked : o.discovery.walk t = .error e) :
    scan o t = .error (.discovery e) := by
  rw [scan, target, walked]
  rfl

/-- Once the walk has begun, only its finds can end the scan. -/
theorem scan_eq_error_iff {parsed : Parsed} {found : List Found}
    (target : t.readSource o.target = .ok parsed) (walked : o.discovery.walk t = .ok found)
    (e : ScanError) : scan o t = .error e ↔ t.FirstFatal o.strict found e := by
  rw [← FileTree.findSome?_fatal_eq_some, scan_eq o t parsed found target walked]
  cases found.findSome? (t.fatal? o.strict) <;> simp

theorem scan_fails_iff {parsed : Parsed} {found : List Found}
    (target : t.readSource o.target = .ok parsed) (walked : o.discovery.walk t = .ok found) :
    (∃ e, scan o t = .error e) ↔ ∃ item ∈ found, ∃ e, t.Fatal o.strict item e := by
  simp only [scan_eq_error_iff target walked, ← FileTree.findSome?_fatal_eq_some,
    ← FileTree.fatal?_eq_some, ← Option.isSome_iff_exists, List.findSome?_isSome_iff]

theorem scan_target_error_iff (e : SourceError) :
    scan o t = .error (.target e) ↔ t.Refuses o.target e := by
  rw [← FileTree.readSource_eq_error_iff]
  cases target : t.readSource o.target with
  | error e' =>
    rw [scan_of_target_error target]
    simp
  | ok parsed =>
    cases walked : o.discovery.walk t with
    | error w =>
      rw [scan_of_root_error target walked]
      simp
    | ok found =>
      rw [scan_eq_error_iff target walked]
      simp only [reduceCtorEq, iff_false]
      rintro ⟨before, item, after, _, fatal, _⟩
      cases fatal

theorem scan_root_error_iff {parsed : Parsed} (target : t.readSource o.target = .ok parsed)
    (e : DiscoveryError) (up_front : ∀ w, e ≠ .walk w) :
    scan o t = .error (.discovery e) ↔ t.Bars o.root e := by
  rw [← o.root_discovery, ← Discovery.walk_eq_error_iff]
  cases walked : o.discovery.walk t with
  | error w =>
    rw [scan_of_root_error target walked]
    simp
  | ok found =>
    rw [scan_eq_error_iff target walked]
    simp only [reduceCtorEq, iff_false]
    rintro ⟨before, item, after, _, fatal, _⟩
    cases fatal with
    | walk w => exact up_front w rfl

end Causes

/-- A scan fails for the target, whatever else is wrong; if not, for the root; if not, for the first
find of the walk that is fatal, and for nothing else. -/
theorem scan_fails_with_first_cause [TreeReader] (o : Options) (t : FileTree) :
    (∀ e, scan o t = .error (.target e) ↔ t.Refuses o.target e) ∧
    ((∀ e, ¬t.Refuses o.target e) →
      (∀ e, (∀ w, e ≠ .walk w) → (scan o t = .error (.discovery e) ↔ t.Bars o.root e)) ∧
      ((∀ e, ¬t.Bars o.root e) →
        ∃ found, o.discovery.walk t = .ok found ∧
          ((∃ e, scan o t = .error e) ↔ ∃ item ∈ found, ∃ e, t.Fatal o.strict item e) ∧
          ∀ e, scan o t = .error e ↔ t.FirstFatal o.strict found e)) ∧
    (o.strict = false → ∀ path,
      Language.ofExtension? ((Path.extension? path).getD "") = none →
      ∀ e, ¬t.Fatal o.strict (.ok path) e) := by
  refine ⟨fun e => scan_target_error_iff e, ?_, ?_⟩
  · intro accepted
    obtain ⟨parsed, target⟩ : ∃ parsed, t.readSource o.target = .ok parsed := by
      cases target : t.readSource o.target with
      | error e => exact absurd ((t.readSource_eq_error_iff _ e).mp target) (accepted e)
      | ok parsed => exact ⟨parsed, rfl⟩
    refine ⟨fun e => scan_root_error_iff target e, ?_⟩
    intro open_root
    cases walked : o.discovery.walk t with
    | error e =>
      have barred := (o.discovery.walk_eq_error_iff t e).mp walked
      rw [o.root_discovery] at barred
      exact absurd barred (open_root e)
    | ok found =>
      exact ⟨found, rfl, scan_fails_iff target walked, scan_eq_error_iff target walked⟩
  · intro lenient path unknown
    rw [lenient]
    exact t.not_fatal_of_unsupported path unknown

/- Two links that lead nowhere, one of them not named like a source. -/
def danglingEntries : List (String × Node) :=
  [("a.md", .link "nowhere"),
    ("b.ts", .file (.text "import \x7b a \x7d from '../lib';\n") false),
    ("c.ts", .link "nowhere"), ("d.md", .file (.text "") false)]

def danglingTree : FileTree :=
  ⟨.directory [("lib.ts", .file (.text "export const a = 0;\n") false),
    ("src", .directory danglingEntries)], []⟩

def danglingOptions (target root : String) (strict : Bool) : Options :=
  { target := target, root := root, output := "out", extensions := ["md", "ts"], strict := strict }

local instance danglingReader : TreeReader :=
  .knowing [[.exporting "a" []], [.importing ["a"] "../lib"]]

/-- The link that is no source ends the strict scan only, and the other one the lenient scan. -/
theorem scan_fails_with_first_cause_dangling :
    scan (danglingOptions "lib.md" "lib" true) danglingTree =
      .error (.target (.unsupported "md")) ∧
    scan (danglingOptions "lib.ts" "lib.ts/x" true) danglingTree =
      .error (.discovery (.unreadable "lib.ts/x" .notDirectory)) ∧
    scan (danglingOptions "lib.ts" "src" true) danglingTree =
      .error (.candidate (.unsupported "md")) ∧
    scan (danglingOptions "lib.ts" "src" false) danglingTree =
      .error (.candidate (.unreadable "src/c.ts" .missing)) := by
  have walked : ∀ strict, (danglingOptions "lib.ts" "src" strict).discovery.walk danglingTree =
      .ok [.ok "src/a.md", .ok "src/b.ts", .ok "src/c.ts", .ok "src/d.md"] := by
    intro strict
    have root : danglingTree.find "src" = .ok (.directory danglingEntries) := by
      with_unfolding_all rfl
    exact Discovery.walk_of_sorted root (by cases strict <;> decide +kernel)
      (by cases strict <;> decide +kernel)
  have target : danglingTree.readSource "lib.ts" =
      .ok ⟨[⟨"a", .variableBinding, true, 1⟩], []⟩ := by decide +kernel
  have accepted : ∀ e, ¬danglingTree.Refuses "lib.ts" e := by
    intro e
    rw [← FileTree.readSource_eq_error_iff, target]
    simp
  have open_root : ∀ e, ¬danglingTree.Bars "src" e := by
    intro e barred
    have failed := ((danglingOptions "lib.ts" "src" true).discovery.walk_eq_error_iff
      danglingTree e).mpr (by rw [Options.root_discovery]; exact barred)
    rw [walked] at failed
    cases failed
  have causes := fun target root strict =>
    scan_fails_with_first_cause (danglingOptions target root strict) danglingTree
  have first : ∀ strict e, danglingTree.FirstFatal strict
      [.ok "src/a.md", .ok "src/b.ts", .ok "src/c.ts", .ok "src/d.md"] e →
      scan (danglingOptions "lib.ts" "src" strict) danglingTree = .error e := by
    intro strict e fatal
    obtain ⟨found, same, _, reported⟩ := ((causes "lib.ts" "src" strict).2.1 accepted).2 open_root
    cases (walked strict).symm.trans same
    exact (reported e).mpr fatal
  refine ⟨?_, ?_, ?_, ?_⟩
  · exact ((causes "lib.md" "lib" true).1 _).mpr (.unsupported (by decide))
  · refine (((causes "lib.ts" "lib.ts/x" true).2.1 accepted).1 _ (by simp)).mpr ?_
    exact .unreadable .notDirectory (by with_unfolding_all rfl) (by decide)
  · exact first true _ ((danglingTree.findSome?_fatal_eq_some _ _ _).mp (by decide +kernel))
  · exact first false _ ((danglingTree.findSome?_fatal_eq_some _ _ _).mp (by decide +kernel))

end ImportUsage
