import ImportUsage.Proofs.Grammar.Spelled
import ImportUsage.Proofs.Source.PatternTree

/-! Every pattern has a tree in every dialect. -/

namespace ImportUsage

namespace Tree

/-- Trees that are written with these strokes, and in which all words are names. -/
structure Writes (ts : List Tree) (strokes : List Stroke) : Prop where
  strokes : (sketchOf ts).map Token.stroke = strokes
  names : ∀ k ∈ Token.words (sketchOf ts), k.terminal = .name

namespace Writes

variable {ts us : List Tree} {strokes more : List Stroke}

theorem nil : Writes [] [] := ⟨rfl, by simp [sketchOf, Token.words]⟩

theorem append (front : Writes ts strokes) (back : Writes us more) :
    Writes (ts ++ us) (strokes ++ more) where
  strokes := by rw [sketchOf_append, List.map_append, front.strokes, back.strokes]
  names k member := by
    rw [sketchOf_append, Token.words_append, List.mem_append] at member
    exact member.elim (front.names k) (back.names k)

theorem group (inside : Writes ts strokes) : Writes [.group ts] strokes := by
  have same : sketchOf [.group ts] = sketchOf ts := by simp [sketchOf, sketch]
  exact ⟨same ▸ inside.strokes, same ▸ inside.names⟩

theorem node {c : Construct} (kept : c.isPassedOver = false) (inside : Writes ts strokes) :
    Writes [.node c ts] strokes := by
  have same : sketchOf [.node c ts] = sketchOf ts := by simp [sketchOf, sketch, kept]
  exact ⟨same ▸ inside.strokes, same ▸ inside.names⟩

theorem gap {c : Construct} (passed : c.isPassedOver = true) (parts : List Tree) :
    Writes [.node c parts] [.gap] := by
  have same : sketchOf [.node c parts] = [none] := by simp [sketchOf, sketch, passed]
  exact ⟨by simp [same, Token.stroke], by simp [same, Token.words]⟩

theorem name (n : String) : Writes [named n] [.name n] where
  strokes := by
    have word : (Token.spelled .name n).isWord = true := rfl
    simp [named, sketchOf, sketch, Token.stroke, word, Token.text_spelled]
  names k member := by
    have here := List.mem_of_mem_filter member
    obtain rfl : k = .spelled .name n := by simpa [named, sketchOf, sketch] using here
    rfl

theorem mark {s : String} (plain : s.toList.any isLetter = false) :
    Writes [literal s] [.mark s] := by
  have word : (Token.spelled (.literal s) s).isWord = false := by
    simpa [Token.isWord, Token.isKeyword, Token.spelled] using plain
  exact ⟨by simp [literal, sketchOf, sketch, Token.stroke, word, Token.text_spelled],
    by simp [literal, sketchOf, sketch, Token.words, word]⟩

end Writes

end Tree

open Rule

/-- Does a grammar have trees for a rule that are written with these strokes? -/
def Grammar.CanWrite (g : Grammar) (r : Rule) (strokes : List Stroke) : Prop :=
  ∃ ts, g.Derives r ts ∧ Tree.Writes ts strokes

namespace Grammar.CanWrite

variable {g : Grammar} {a b : Rule} {strokes more : List Stroke}

theorem blank : g.CanWrite .blank [] := ⟨[], .blank, .nil⟩

theorem name (n : String) : g.CanWrite (.terminal .name) [.name n] :=
  ⟨_, g.derives_spelled .name n, .name n⟩

theorem mark {s : String} (plain : s.toList.any isLetter = false) :
    g.CanWrite (.terminal (.literal s)) [.mark s] :=
  ⟨_, g.derives_spelled (.literal s) s, .mark plain⟩

theorem gap {c : Construct} {parts : List Tree} (passed : c.isPassedOver = true)
    (derives : g.Derives (.construct c) [.node c parts]) : g.CanWrite (.construct c) [.gap] :=
  ⟨_, derives, .gap passed parts⟩

theorem sequence (first : g.CanWrite a strokes) (next : g.CanWrite b more) :
    g.CanWrite (.sequence a b) (strokes ++ more) := by
  obtain ⟨ts, derives, writes⟩ := first
  obtain ⟨us, derives', writes'⟩ := next
  exact ⟨ts ++ us, .sequence derives derives', writes.append writes'⟩

theorem left (inside : g.CanWrite a strokes) : g.CanWrite (.choice a b) strokes := by
  obtain ⟨ts, derives, writes⟩ := inside
  exact ⟨ts, .left derives, writes⟩

theorem right (inside : g.CanWrite b strokes) : g.CanWrite (.choice a b) strokes := by
  obtain ⟨ts, derives, writes⟩ := inside
  exact ⟨ts, .right derives, writes⟩

theorem oneOf {rs : List Rule} (listed : a ∈ rs) (inside : g.CanWrite a strokes) :
    g.CanWrite (oneOf rs) strokes := by
  obtain ⟨ts, derives, writes⟩ := inside
  exact ⟨ts, derives_oneOf listed derives, writes⟩

theorem ranked {rank : Option Rank} {side : Option Side} (inside : g.CanWrite a strokes) :
    g.CanWrite (.ranked rank side a) strokes := by
  obtain ⟨ts, derives, writes⟩ := inside
  exact ⟨ts, .ranked derives, writes⟩

/-- One more in front of a repetition. -/
theorem again (first : g.CanWrite a strokes) (rest : g.CanWrite (many a) more) :
    g.CanWrite (many a) (strokes ++ more) := by
  obtain ⟨ts, derives, writes⟩ := first
  obtain ⟨us, repeated, writes'⟩ := rest
  rcases (g.derives_optional _ _).mp repeated with repeated | rfl
  · obtain ⟨u, rfl⟩ : ∃ u, us = [u] := by
      cases repeated with
      | once _ => exact ⟨_, rfl⟩
      | again _ _ => exact ⟨_, rfl⟩
    exact ⟨_, .left (.again (.once derives) repeated), (writes.group.append writes').group⟩
  · exact ⟨_, .left (.once derives), by simpa using (writes.append writes').group⟩

end Grammar.CanWrite

namespace Dialect

open Construct ImportUsage.Tree

/-- What may stand between two commas of an object pattern. -/
def memberRule : Rule :=
  Rule.optional (oneOf [pairPattern, restPattern, objectAssignmentPattern,
    oneOf [Terminal.name, contextualWord]])

/-- What may stand between two commas of an array pattern. -/
def elementRule : Rule := Rule.optional (oneOf [pattern, assignmentPattern])

variable (d : Dialect) {strokes : List Stroke}

theorem canWrite_node {c : Construct} {r : Rule} (within : c.isPassedOver = false)
    (given : d.ruleOf? c = some r) (kept : c ∉ d.grammar.inlined)
    (inside : d.grammar.CanWrite r strokes) : d.grammar.CanWrite (.construct c) strokes := by
  obtain ⟨ts, derives, writes⟩ := inside
  exact ⟨_, d.derives_node given kept derives, writes.node within⟩

theorem canWrite_inlined {c : Construct} {r : Rule} (given : d.ruleOf? c = some r)
    (listed : c ∈ d.grammar.inlined) (inside : d.grammar.CanWrite r strokes) :
    d.grammar.CanWrite (.construct c) strokes := by
  obtain ⟨ts, derives, writes⟩ := inside
  exact ⟨ts, .inlined ((d.rule?_grammar c).trans given) listed derives, writes⟩

theorem canWrite_value : d.grammar.CanWrite (.construct expression) [.gap] :=
  .gap rfl d.derives_zero

theorem canWrite_key : d.grammar.CanWrite (.construct propertyName) [.gap] := by
  have name := d.grammar.derives_spelled .name "key"
  cases d <;> exact .gap rfl (derives_node _ rfl (by decide) (.left (.left name)))

section Target

/- What is written where a variable is declared can be written in every place of a pattern. -/
variable {d} (target : d.grammar.CanWrite (oneOf [Terminal.name, destructuringPattern]) strokes)

include target

theorem canWrite_assignable : d.grammar.CanWrite (.construct assignable) strokes := by
  obtain ⟨ts, derives, writes⟩ := target
  rcases (Grammar.derives_choice _ _ _ _).mp derives with named | nested
  · have word : d.grammar.CanWrite (.construct nameOrUndefined) strokes := by
      cases d <;> exact canWrite_inlined _ rfl (by decide) (.right ⟨ts, named, writes⟩)
    cases d <;> exact canWrite_inlined _ rfl (by decide) (.oneOf (by decide) word)
  · have inside : d.grammar.CanWrite (.construct destructuringPattern) strokes :=
      ⟨ts, nested, writes⟩
    cases d <;> exact canWrite_inlined _ rfl (by decide) (.oneOf (by decide) inside)

theorem canWrite_rest : d.grammar.CanWrite (.construct restPattern) (.mark "..." :: strokes) := by
  have inside := canWrite_assignable target
  cases d <;> exact canWrite_node _ rfl rfl (by decide)
    (.ranked (.sequence (.mark (by decide)) inside))

theorem canWrite_pattern : d.grammar.CanWrite (.construct pattern) strokes := by
  have inside := canWrite_assignable target
  cases d <;> exact canWrite_node _ rfl rfl (by decide) (.left inside)

theorem canWrite_restItem : d.grammar.CanWrite (.construct pattern) (.mark "..." :: strokes) := by
  have inside := canWrite_rest target
  cases d <;> exact canWrite_node _ rfl rfl (by decide) (.right inside)

theorem canWrite_item (defaulted : Bool) :
    d.grammar.CanWrite (oneOf [pattern, assignmentPattern])
      (strokes ++ defaultSketch defaulted) := by
  have item := canWrite_pattern target
  have value := d.canWrite_value
  cases defaulted with
  | false =>
    rw [defaultSketch, if_neg Bool.false_ne_true, List.append_nil]
    exact .left item
  | true =>
    cases d <;> exact .right (canWrite_node _ rfl rfl (by decide)
      (.sequence item (.sequence (.mark (by decide)) value)))

theorem canWrite_pair (defaulted : Bool) :
    d.grammar.CanWrite (.construct pairPattern)
      (.gap :: .mark ":" :: (strokes ++ defaultSketch defaulted)) := by
  have key := d.canWrite_key
  have value := canWrite_item target defaulted
  cases d <;> exact canWrite_node _ rfl rfl (by decide)
    (.sequence key (.sequence (.mark (by decide)) value))

end Target

theorem canWrite_shorthand (n : String) (defaulted : Bool) :
    d.grammar.CanWrite memberRule (.name n :: defaultSketch defaulted) := by
  have value := d.canWrite_value
  cases defaulted with
  | false => exact .left (.right (.right (.right (.left (.name n)))))
  | true =>
    have assigned : d.grammar.CanWrite (.construct objectAssignmentPattern)
        (.name n :: defaultSketch true) := by
      cases d <;> exact canWrite_node _ rfl rfl (by decide)
        (.sequence (.left (.right (.name n))) (.sequence (.mark (by decide)) value))
    exact .left (.oneOf (by decide) assigned)

theorem canWrite_object (members : d.grammar.CanWrite (list memberRule) strokes) :
    d.grammar.CanWrite (oneOf [Terminal.name, destructuringPattern])
      (.mark "\x7b" :: (strokes ++ [.mark "\x7d"])) := by
  have inside : d.grammar.CanWrite (.construct objectPattern)
      (.mark "\x7b" :: (strokes ++ [.mark "\x7d"])) := by
    cases d <;> exact canWrite_node _ rfl rfl (by decide)
      (.ranked (.sequence (.mark (by decide)) (.sequence members (.mark (by decide)))))
  cases d <;> exact .right (canWrite_node _ rfl rfl (by decide) (.left inside))

theorem canWrite_array (elements : d.grammar.CanWrite (list elementRule) strokes) :
    d.grammar.CanWrite (oneOf [Terminal.name, destructuringPattern])
      (.mark "[" :: (strokes ++ [.mark "]"])) := by
  have inside : d.grammar.CanWrite (.construct arrayPattern)
      (.mark "[" :: (strokes ++ [.mark "]"])) := by
    cases d <;> exact canWrite_node _ rfl rfl (by decide)
      (.sequence (.mark (by decide)) (.sequence elements (.mark (by decide))))
  cases d <;> exact .right (canWrite_node _ rfl rfl (by decide) (.right inside))

end Dialect

open Dialect

mutual

/-- Every pattern can be written where a variable is declared. -/
theorem Pattern.canWrite (d : Dialect) : ∀ p : Pattern,
    d.grammar.CanWrite (oneOf [Terminal.name, Construct.destructuringPattern]) p.sketch
  | .name n => .left (.name n)
  | .object members => d.canWrite_object (Member.canWriteOf d members)
  | .array elements => d.canWrite_array (Element.canWriteOf d elements)

theorem Member.canWrite (d : Dialect) : ∀ m : Member, d.grammar.CanWrite memberRule m.sketch
  | .blank => .right .blank
  | .shorthand n defaulted => d.canWrite_shorthand n defaulted
  | .keyed target defaulted => .left (.left (canWrite_pair (target.canWrite d) defaulted))
  | .rest target => .left (.right (.left (canWrite_rest (target.canWrite d))))

theorem Member.canWriteOf (d : Dialect) : ∀ ms : List Member,
    d.grammar.CanWrite (list memberRule) (Member.sketchOf ms)
  | [] => .right .blank
  | m :: more => .left (.sequence (m.canWrite d) (Member.canWriteAfter d more))

theorem Member.canWriteAfter (d : Dialect) : ∀ ms : List Member,
    d.grammar.CanWrite (many (seq [",", memberRule])) (Member.sketchAfter ms)
  | [] => .right .blank
  | m :: more =>
    .again (.sequence (.mark (by decide)) (m.canWrite d)) (Member.canWriteAfter d more)

theorem Element.canWrite (d : Dialect) : ∀ e : Element, d.grammar.CanWrite elementRule e.sketch
  | .blank => .right .blank
  | .item target defaulted => .left (canWrite_item (target.canWrite d) defaulted)
  | .rest target => .left (.left (canWrite_restItem (target.canWrite d)))

theorem Element.canWriteOf (d : Dialect) : ∀ es : List Element,
    d.grammar.CanWrite (list elementRule) (Element.sketchOf es)
  | [] => .right .blank
  | e :: more => .left (.sequence (e.canWrite d) (Element.canWriteAfter d more))

theorem Element.canWriteAfter (d : Dialect) : ∀ es : List Element,
    d.grammar.CanWrite (many (seq [",", elementRule])) (Element.sketchAfter es)
  | [] => .right .blank
  | e :: more =>
    .again (.sequence (.mark (by decide)) (e.canWrite d)) (Element.canWriteAfter d more)

end

end ImportUsage
