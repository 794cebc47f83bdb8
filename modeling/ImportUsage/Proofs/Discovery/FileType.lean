import ImportUsage.Proofs.Discovery.Walk
import ImportUsage.Proofs.Source.Reading
import ImportUsage.Proofs.Source.TextTree
import ImportUsage.Scan.Basic

/-! The language of a file that a walk finds. A walk goes by the end of the name; a language goes by
the extension, and a name that begins with its only dot has none. So a file whose whole name is a
dot and an extension is found, and then refused. -/

namespace ImportUsage

namespace Path

theorem fileName?_join (directory name : String) (valid : Node.IsName name) (stays : name ≠ ".")
    (rises : name ≠ "..") : fileName? (join directory name) = some name := by
  by_cases named : directory = ""
  · have alone : names (join directory name) = [name] := by
      have filled : name.toList ≠ [] := by simpa using valid.1
      rw [join, if_pos named, names, cutAt_of_not_mem '/' _ valid.2]
      simp [filled]
    exact fileName?_of_last (by rw [alone]; rfl) stays rises
  · exact fileName?_below directory [] name named (by simpa using valid) ⟨stays, rises⟩

end Path

namespace Language

theorem ofExtension?_plain {extension : String} {language : Language}
    (known : ofExtension? extension = some language) :
    extension ≠ "" ∧ '.' ∉ extension.toList := by
  have word : lowerText extension ∈ ["js", "mjs", "cjs", "jsx", "ts", "mts", "cts", "tsx"] := by
    unfold ofExtension? at known
    simp only [List.contains_iff_mem] at known
    grind
  constructor
  · rintro rfl
    exact absurd word (by decide)
  · intro dotted
    have lowered : '.' ∈ (lowerText extension).toList := by
      rw [lowerText, String.toList_ofList]
      exact List.mem_map.mpr ⟨'.', dotted, by decide⟩
    have plain : ∀ w ∈ ["js", "mjs", "cjs", "jsx", "ts", "mts", "cts", "tsx"], '.' ∉ w.toList := by
      decide
    exact plain _ word lowered

end Language

section Known

variable {extension : String} {language : Language}
  (known : Language.ofExtension? extension = some language)

include known

theorem fileName?_of_ends (directory name : String) (valid : Node.IsName name)
    (ends : '.' :: extension.toList <:+ name.toList) :
    Path.fileName? (Path.join directory name) = some name := by
  obtain ⟨filled, plain⟩ := Language.ofExtension?_plain known
  have bare : extension.toList.head? ≠ some '.' := fun dot => plain (List.mem_of_head? dot)
  obtain ⟨stays, rises⟩ := Discovery.ne_dots_of_ends filled bare ends
  exact Path.fileName?_join directory name valid stays rises

theorem ofPath_of_ends (directory name : String) (valid : Node.IsName name)
    (ends : '.' :: extension.toList <:+ name.toList) :
    Language.ofPath (Path.join directory name) =
      if name = "." ++ extension then .error (.unsupported "") else .ok language := by
  have named := fileName?_of_ends known directory name valid ends
  obtain ⟨piece, whole⟩ := ends
  have written : name = String.ofList (piece ++ '.' :: extension.toList) := by
    rw [whole, String.ofList_toList]
  have dotted : name = "." ++ extension ↔ piece = [] := by
    rw [← String.toList_inj, ← whole]
    simp
  have split : Path.extension? (Path.join directory name) =
      if piece = [] then none else some extension := by
    rw [Path.extension?, named, Option.bind_some, written,
      Path.splitName_extension piece _ (Language.ofExtension?_plain known).2,
      String.ofList_toList]
  by_cases bare : piece = []
  · rw [if_pos bare] at split
    rw [if_pos (dotted.mpr bare),
      Language.ofPath_of_unknown (by rw [split]; exact Language.ofExtension?_empty), split]
    rfl
  · rw [if_neg bare] at split
    rw [if_neg (mt dotted.mp bare), Language.ofPath_of_known (by rw [split]; exact known)]

end Known

namespace Discovery

variable (d : Discovery)

/-- Does a path end with a name that the walk looks for? -/
def Ends (path : String) : Prop :=
  ∃ directory name, path = Path.join directory name ∧ Node.IsName name ∧ d.isEligible name = true

theorem ends_of_leaf {directory name path : String} (named : Node.IsName name)
    (member : .ok path ∈ (if d.isEligible name then [.ok (Path.join directory name)] else [] :
      List Found)) : d.Ends path := by
  split at member
  · rename_i eligible
    exact ⟨directory, name, by simpa using member, named, eligible⟩
  · cases member

theorem ends_of_walkEntry (node : Node) (valid : node.WellFormed) (directory name : String)
    (named : Node.IsName name) (path : String)
    (member : .ok path ∈ d.walkEntry (Path.join directory name) name node) : d.Ends path := by
  induction node using Node.treeInduction generalizing directory name with
  | file content executable =>
    rw [walkEntry] at member
    · exact d.ends_of_leaf named member
    · simp
  | link target =>
    rw [walkEntry] at member
    · exact d.ends_of_leaf named member
    · simp
  | directory entries ih =>
    obtain ⟨_, each⟩ := (Node.directory_wellFormed_iff entries).mp valid
    rw [walkEntry] at member
    split at member
    · cases member
    · split at member
      · simp at member
      · obtain ⟨entry, entered, found⟩ := (mem_inNameOrder d _ entries _).mp member
        exact ih entry entered (each entry entered).2 _ _ (each entry entered).1 found

/-- A walk finds nothing but names that it looks for, also where it meets errors. -/
theorem ends_of_walk {t : FileTree} (valid : t.root.WellFormed) {found : List Found}
    (walked : d.walk t = .ok found) {path : String} (member : .ok path ∈ found) : d.Ends path := by
  obtain ⟨entries, root, rfl⟩ := (walk_eq_ok_iff d t found).mp walked
  obtain ⟨_, each⟩ := (Node.directory_wellFormed_iff entries).mp (wellFormed_of_find valid root)
  obtain ⟨entry, entered, found⟩ := (mem_inNameOrder d _ entries _).mp member
  exact d.ends_of_walkEntry entry.2 (each entry entered).2 _ _ (each entry entered).1 path found

end Discovery

theorem unsupported_iff [TreeReader] (t : FileTree) (path : String) :
    (∃ e, t.readSource path = .error (.unsupported e)) ↔
      ∃ e, Language.ofPath path = .error e := by
  constructor
  · rintro ⟨e, refused⟩
    cases (t.readSource_eq_error_iff path _).mp refused with
    | unsupported unknown => exact ⟨_, Language.ofPath_of_unknown unknown⟩
  · rintro ⟨e, unspoken⟩
    cases known : Language.ofExtension? ((Path.extension? path).getD "") with
    | none => exact ⟨_, (t.readSource_eq_error_iff path _).mpr (.unsupported known)⟩
    | some language =>
      rw [Language.ofPath_of_known known] at unspoken
      cases unspoken

/-- A file that is found by a known extension has its language, unless its whole name is the dot and
the extension. Just these files are refused as of an unsupported type. -/
theorem found_file_language_iff [TreeReader] (extension : String) (language : Language)
    (known : Language.ofExtension? extension = some language) (d : Discovery)
    (only : d.extensions = [extension]) :
    (∀ directory name, Node.IsName name → d.isEligible name = true →
      Language.ofPath (Path.join directory name) =
        if name = "." ++ extension then .error (.unsupported "") else .ok language) ∧
    ∀ (t : FileTree) (found : List Found) (path : String), t.root.WellFormed →
      d.walk t = .ok found → .ok path ∈ found →
      ((∃ e, t.readSource path = .error (.unsupported e)) ↔
        Path.fileName? path = some ("." ++ extension)) := by
  have suffix : ∀ name, d.isEligible name = true → '.' :: extension.toList <:+ name.toList := by
    intro name eligible
    simpa [Discovery.isEligible, only] using eligible
  constructor
  · intro directory name valid eligible
    exact ofPath_of_ends known directory name valid (suffix name eligible)
  · intro t found path valid walked member
    obtain ⟨directory, name, rfl, named, eligible⟩ := d.ends_of_walk valid walked member
    rw [unsupported_iff, ofPath_of_ends known directory name named (suffix name eligible),
      fileName?_of_ends known directory name named (suffix name eligible), Option.some.injEq]
    split <;> simp [*]

/- A source of this name is well written, beside one with two dots. -/
def dottedEntries : List (String × Node) :=
  [("..ts", .file (.text "") false),
    (".ts", .file (.text "import \x7b a \x7d from '../lib';\n") false)]

def dottedTree : FileTree :=
  ⟨.directory [("lib.ts", .file (.text "export const a = 0;\n") false),
    ("src", .directory dottedEntries)], []⟩

def dottedOptions (strict : Bool) : Options :=
  { target := "lib.ts", root := "src", output := "out", strict := strict }

theorem walk_dottedTree (strict : Bool) :
    (dottedOptions strict).discovery.walk dottedTree = .ok [.ok "src/..ts", .ok "src/.ts"] := by
  have root : dottedTree.find "src" = .ok (.directory dottedEntries) := by with_unfolding_all rfl
  exact Discovery.walk_of_sorted root (by cases strict <;> decide +kernel)
    (by cases strict <;> decide +kernel)

local instance dottedReader : TreeReader :=
  .knowing [[], [.exporting "a" []], [.importing ["a"] "../lib"]]

theorem found_file_language_dotted :
    Language.ofPath "src/..ts" = .ok .typescript ∧
    Language.ofPath "src/.ts" = .error (.unsupported "") ∧
    ∃ e, dottedTree.readSource "src/.ts" = .error (.unsupported e) := by
  obtain ⟨languages, refusals⟩ := found_file_language_iff "ts" .typescript (by decide)
    (dottedOptions true).discovery (by decide)
  refine ⟨languages "src" "..ts" (by decide) (by decide), languages "src" ".ts" (by decide)
    (by decide), ?_⟩
  rw [refusals dottedTree _ "src/.ts" (by decide) (walk_dottedTree true) (by simp)]
  decide

/-- A file of a known extension is found and not read: one scan skips it, the other one fails. -/
theorem dotted_file_unsupported :
    (¬∀ extension language d directory name, Language.ofExtension? extension = some language →
      d.extensions = [extension] → Node.IsName name → Discovery.isEligible d name = true →
      Language.ofPath (Path.join directory name) = .ok language) ∧
    scan (dottedOptions true) dottedTree = .error (.candidate (.unsupported "")) ∧
    scan (dottedOptions false) dottedTree =
      .ok ⟨[⟨"a", .variableBinding, true, 1⟩], ⟨[]⟩, 2, 0,
        [⟨"src/.ts", "Unsupported file type: "⟩]⟩ := by
  refine ⟨?_, ?_, ?_⟩
  · intro agree
    have spoken := agree "ts" .typescript (.under "src") "src" ".ts" (by decide) rfl (by decide)
      (by decide)
    exact absurd spoken (by decide)
  · rw [scan, walk_dottedTree]
    decide +kernel
  · rw [scan, walk_dottedTree]
    decide +kernel

end ImportUsage
