import ImportUsage.Proofs.Source.TextTree
import ImportUsage.Source.File

/-! Reading a list of written import statements gives the statements back, each with the number of
its line. -/

namespace ImportUsage

/-- A list of statements, each on a line of its own. -/
def Import.writtenLines (imports : List Import) : String :=
  String.join (imports.map fun i => i.written ++ "\n")

theorem Import.toList_writtenLines (imports : List Import) :
    (writtenLines imports).toList = Line.text (imports.map .imports) := by
  rw [← Line.toList_join_written, List.map_map]
  rfl

theorem ofContributions_imports (imports : List Import) :
    Parsed.ofContributions (imports.map .imports) = ⟨[], imports⟩ := by
  have declared : declarationsIn (imports.map .imports) = [] := by
    simp [declarationsIn, List.flatMap_map]
  have exported : exportsIn (imports.map .imports) = [] := by
    simp [exportsIn, List.flatMap_map]
  have imported : importsIn (imports.map .imports) = imports := by
    rw [importsIn, List.filterMap_map]
    exact List.filterMap_some
  simp [Parsed.ofContributions, declared, exported, imported, exportLocals]

/-- Reading undoes writing: the statements come back in order, each with the number of its line, and
nothing is declared. The reader is taken to build a tree that the grammar has for the text. -/
theorem parseText_writtenLines [TreeReader] (language : Language) (path : String)
    (imports : List Import) (plain : ∀ i ∈ imports, i.IsPlain)
    (builds : TreeReader.Builds language.dialect (Import.writtenLines imports).toList) :
    language.parseText path (Import.writtenLines imports) =
      .ok ⟨[], imports.mapIdx fun k i => { i with line := k + 1 }⟩ := by
  have fits : ∀ l ∈ imports.map Line.imports, l.Fits language.dialect :=
    List.forall_mem_map.mpr plain
  have numbered : ((imports.map Line.imports).mapIdx fun k l => l.contribution (k + 1)) =
      (imports.mapIdx fun k i => { i with line := k + 1 }).map .imports :=
    List.ext_getElem (by simp) (by simp [Line.contribution])
  rw [Import.toList_writtenLines] at builds
  rw [Language.parseText, Import.toList_writtenLines, parse_lines _ fits builds, numbered,
    ofContributions_imports]
  rfl

/-- One statement of each kind. -/
def Import.everyKind : List Import :=
  [⟨.named (some "d") [⟨"a", none⟩, ⟨"b", some "c"⟩], "./m", 0⟩, ⟨.named none [], "../n o", 0⟩,
    ⟨.main "e", "", 0⟩, ⟨.whole "$n", "m", 0⟩, ⟨.sideEffect, "p.css", 0⟩]

theorem parseText_everyKind :
    letI := TreeReader.knowing [Import.everyKind.map .imports]
    Import.writtenLines Import.everyKind =
      "import d, \x7b a, b as c \x7d from './m';\n" ++ "import \x7b\x7d from '../n o';\n" ++
      "import e from '';\n" ++ "import * as $n from 'm';\n" ++ "import 'p.css';\n" ∧
    Language.tsx.parseText "view.tsx" (Import.writtenLines Import.everyKind) =
      .ok ⟨[], [⟨.named (some "d") [⟨"a", none⟩, ⟨"b", some "c"⟩], "./m", 1⟩,
        ⟨.named none [], "../n o", 2⟩, ⟨.main "e", "", 3⟩, ⟨.whole "$n", "m", 4⟩,
        ⟨.sideEffect, "p.css", 5⟩]⟩ := by
  have plain : ∀ i ∈ Import.everyKind, i.IsPlain := by
    decide +kernel
  refine ⟨by decide +kernel, @parseText_writtenLines (.knowing _) .tsx "view.tsx" _ plain ?_⟩
  rw [Import.toList_writtenLines]
  exact TreeReader.knowing_builds _ (by decide +kernel) List.mem_cons_self

end ImportUsage
