import ImportUsage.Proofs.Grammar.Tokens

/-! Trees of given tokens, and how they are derived. -/

namespace ImportUsage

/-- A token that is all of a text, in front of the first line. -/
def Token.spelled (terminal : Terminal) (s : String) : Token :=
  ⟨terminal, ⟨0, 0, s.toList⟩, s.toList.length⟩

theorem Token.text_spelled (terminal : Terminal) (s : String) : (spelled terminal s).text = s := by
  simp [spelled, text]

namespace Tree

/-- A keyword or a mark. -/
def literal (s : String) : Tree := .leaf (.spelled (.literal s) s)

def named (n : String) : Tree := .leaf (.spelled .name n)

/-- A value. -/
def zero : Tree := .node .expression [.node .primary [.leaf (.spelled .number "0")]]

end Tree

theorem Grammar.derives_spelled (g : Grammar) (terminal : Terminal) (s : String) :
    g.Derives (.terminal terminal) [.leaf (.spelled terminal s)] :=
  .terminal (.spelled terminal s)

open Rule

/-- An optional part may be left out. -/
theorem Grammar.derives_without {g : Grammar} {q r : Rule} {ts : List Tree}
    (rest : g.Derives r ts) : g.Derives (.sequence (optional q) r) ts :=
  .sequence (.right .blank) rest

theorem Grammar.derives_oneOf {g : Grammar} {r : Rule} {rs : List Rule} {ts : List Tree}
    (listed : r ∈ rs) (derives : g.Derives r ts) : g.Derives (oneOf rs) ts := by
  induction rs with
  | nil => cases listed
  | cons s rs ih =>
    cases rs with
    | nil =>
      obtain rfl := List.mem_singleton.mp listed
      exact derives
    | cons s' rs =>
      rcases List.mem_cons.mp listed with rfl | later
      · exact .left derives
      · exact .right (ih later)

namespace Dialect

open Construct ImportUsage.Tree

variable (d : Dialect)

theorem derives_node {c : Construct} {r : Rule} {parts : List Tree} (given : d.ruleOf? c = some r)
    (kept : c ∉ d.grammar.inlined) (inside : d.grammar.Derives r parts) :
    d.grammar.Derives (.construct c) [.node c parts] :=
  .construct ((d.rule?_grammar c).trans given) kept inside

theorem derives_zero : d.grammar.Derives (.construct expression) [zero] := by
  have number := d.grammar.derives_spelled .number "0"
  have simple : d.grammar.Derives (.construct primary)
      [.node primary [.leaf (.spelled .number "0")]] := by
    cases d <;> exact derives_node _ rfl (by decide) (Grammar.derives_oneOf (by decide) number)
  cases d with
  | plain => exact derives_node _ rfl (by decide) (.left simple)
  | typed =>
    exact derives_node _ rfl (by decide)
      (.right (.right (.right (.right (.left (.right simple))))))
  | typedMarkup =>
    exact derives_node _ rfl (by decide)
      (.right (.right (.right (.right (.left (.left simple))))))

end Dialect

end ImportUsage
