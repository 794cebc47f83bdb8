import ImportUsage.Proofs.Source.TextTree
import ImportUsage.Source.File

/-! Reading a list of written declarations gives the declared names back, each with its kind, the
number of its line, and whether it is exported. -/

namespace ImportUsage

/-- A list of statements, each on a line of its own. -/
def DeclaringStatement.writtenLines (statements : List DeclaringStatement) : String :=
  String.join (statements.map fun s => s.written ++ "\n")

theorem DeclaringStatement.toList_writtenLines (statements : List DeclaringStatement) :
    (writtenLines statements).toList = Line.text (statements.map .declares) := by
  rw [← Line.toList_join_written, List.map_map]
  rfl

theorem ofContributions_declares (found : List (List Declaration)) :
    Parsed.ofContributions (found.map .declares) = ⟨found.flatten, []⟩ := by
  have declared : declarationsIn (found.map .declares) = found.flatten := by
    simp [declarationsIn, List.flatMap_map]
  have exported : exportsIn (found.map .declares) = [] := by
    simp [exportsIn, List.flatMap_map]
  have imported : importsIn (found.map .declares) = [] := by
    simp [importsIn, List.filterMap_map]
  simp [Parsed.ofContributions, declared, exported, imported, exportLocals]

/-- Reading undoes writing: every name comes back in order, with the kind of its statement, exported
if the statement is, and with the number of its line, and nothing is imported. The reader is taken to
build a tree that the grammar has for the text. -/
theorem parseText_declaringLines [TreeReader] (language : Language)
    (typed : language = .typescript ∨ language = .tsx) (path : String)
    (statements : List DeclaringStatement)
    (plain : ∀ s ∈ statements, ∀ n ∈ s.form.names, IsPlainName n)
    (builds : TreeReader.Builds language.dialect
      (DeclaringStatement.writtenLines statements).toList) :
    language.parseText path (DeclaringStatement.writtenLines statements) =
      .ok ⟨(statements.mapIdx fun k s => s.declarations (k + 1)).flatten, []⟩ := by
  have types : language.dialect.hasTypes = true := by
    rcases typed with rfl | rfl <;> rfl
  have fits : ∀ l ∈ statements.map Line.declares, l.Fits language.dialect :=
    List.forall_mem_map.mpr fun s member => ⟨types, plain s member⟩
  have numbered : ((statements.map Line.declares).mapIdx fun k l => l.contribution (k + 1)) =
      (statements.mapIdx fun k s => s.declarations (k + 1)).map .declares :=
    List.ext_getElem (by simp) (by simp [Line.contribution])
  rw [DeclaringStatement.toList_writtenLines] at builds
  rw [Language.parseText, DeclaringStatement.toList_writtenLines, parse_lines _ fits builds,
    numbered, ofContributions_declares]
  rfl

namespace DeclaringStatement

/-- One statement of each form. -/
def everyForm : List DeclaringStatement :=
  [⟨false, .named .function (by decide) "f"⟩, ⟨true, .named .classType (by decide) "C"⟩,
    ⟨false, .named .interface (by decide) "I"⟩, ⟨true, .named .typeAlias (by decide) "T"⟩,
    ⟨true, .named .enumType (by decide) "E"⟩, ⟨false, .named .namespaceBlock (by decide) "N"⟩,
    ⟨true, .bindings .fixed "a" ["$b"]⟩, ⟨false, .bindings .assignable "c" []⟩,
    ⟨false, .bindings .hoisted "_d" ["f", "e1"]⟩]

end DeclaringStatement

theorem parseText_everyForm :
    letI := TreeReader.knowing [DeclaringStatement.everyForm.map .declares]
    DeclaringStatement.writtenLines DeclaringStatement.everyForm =
      "function f() \x7b\x7d\n" ++ "export class C \x7b\x7d\n" ++ "interface I \x7b\x7d\n" ++
      "export type T = number;\n" ++ "export enum E \x7b\x7d\n" ++ "namespace N \x7b\x7d\n" ++
      "export const a = 0, $b = 0;\n" ++ "let c = 0;\n" ++ "var _d = 0, f = 0, e1 = 0;\n" ∧
    Language.tsx.parseText "view.tsx"
        (DeclaringStatement.writtenLines DeclaringStatement.everyForm) =
      .ok ⟨[⟨"f", .function, false, 1⟩, ⟨"C", .classType, true, 2⟩, ⟨"I", .interface, false, 3⟩,
        ⟨"T", .typeAlias, true, 4⟩, ⟨"E", .enumType, true, 5⟩, ⟨"N", .namespaceBlock, false, 6⟩,
        ⟨"a", .variableBinding, true, 7⟩, ⟨"$b", .variableBinding, true, 7⟩,
        ⟨"c", .variableBinding, false, 8⟩, ⟨"_d", .variableBinding, false, 9⟩,
        ⟨"f", .variableBinding, false, 9⟩, ⟨"e1", .variableBinding, false, 9⟩], []⟩ := by
  have plain : ∀ s ∈ DeclaringStatement.everyForm, ∀ n ∈ s.form.names, IsPlainName n := by
    decide +kernel
  refine ⟨by decide +kernel,
    @parseText_declaringLines (.knowing _) .tsx (.inr rfl) "view.tsx" _ plain ?_⟩
  rw [DeclaringStatement.toList_writtenLines]
  exact TreeReader.knowing_builds _ (by decide +kernel) List.mem_cons_self

end ImportUsage
