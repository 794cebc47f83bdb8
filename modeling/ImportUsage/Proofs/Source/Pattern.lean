import ImportUsage.Proofs.Source.VariableTree

/-! Binding patterns, and the names that are read off their trees. A tree is compared with a pattern
by its sketch: its tokens, with a gap for every property name and every value, whatever they are. -/

namespace ImportUsage

/-- What a pattern is written with. -/
inductive Stroke
  | name (n : String)
  | mark (s : String)
  /-- A property name or a value. -/
  | gap
deriving DecidableEq, Repr

namespace Stroke

def name? : Stroke → Option String
  | .name n => some n
  | .mark _ | .gap => none

/-- The names among strokes. -/
def names (strokes : List Stroke) : List String := strokes.filterMap name?

@[simp] theorem names_nil : names [] = [] := rfl

@[simp] theorem names_name (n : String) (strokes : List Stroke) :
    names (.name n :: strokes) = n :: names strokes := rfl

@[simp] theorem names_mark (s : String) (strokes : List Stroke) :
    names (.mark s :: strokes) = names strokes := rfl

@[simp] theorem names_gap (strokes : List Stroke) : names (.gap :: strokes) = names strokes := rfl

@[simp] theorem names_append (strokes more : List Stroke) :
    names (strokes ++ more) = names strokes ++ names more := List.filterMap_append

end Stroke

mutual

/-- What a variable is declared with in place of a single name. -/
inductive Pattern
  | name (n : String)
  | object (members : List Member)
  | array (elements : List Element)

/-- What stands between two commas of an object pattern. -/
inductive Member
  | blank
  | shorthand (n : String) (defaulted : Bool)
  | keyed (target : Pattern) (defaulted : Bool)
  | rest (target : Pattern)

/-- What stands between two commas of an array pattern. -/
inductive Element
  | blank
  | item (target : Pattern) (defaulted : Bool)
  | rest (target : Pattern)

end

mutual

/-- The names that a pattern binds, in order and with repetitions. -/
def Pattern.names : Pattern → List String
  | .name n => [n]
  | .object members => Member.namesOf members
  | .array elements => Element.namesOf elements

def Member.names : Member → List String
  | .blank => []
  | .shorthand n _ => [n]
  | .keyed target _ => target.names
  | .rest target => target.names

def Member.namesOf : List Member → List String
  | [] => []
  | m :: more => m.names ++ Member.namesOf more

def Element.names : Element → List String
  | .blank => []
  | .item target _ => target.names
  | .rest target => target.names

def Element.namesOf : List Element → List String
  | [] => []
  | e :: more => e.names ++ Element.namesOf more

end

/-- A value that is taken where there is none. -/
def defaultSketch (defaulted : Bool) : List Stroke := if defaulted then [.mark "=", .gap] else []

mutual

/-- A pattern as it is written. -/
def Pattern.sketch : Pattern → List Stroke
  | .name n => [.name n]
  | .object members => .mark "\x7b" :: (Member.sketchOf members ++ [.mark "\x7d"])
  | .array elements => .mark "[" :: (Element.sketchOf elements ++ [.mark "]"])

def Member.sketch : Member → List Stroke
  | .blank => []
  | .shorthand n defaulted => .name n :: defaultSketch defaulted
  | .keyed target defaulted => .gap :: .mark ":" :: (target.sketch ++ defaultSketch defaulted)
  | .rest target => .mark "..." :: target.sketch

def Member.sketchOf : List Member → List Stroke
  | [] => []
  | m :: more => m.sketch ++ Member.sketchAfter more

def Member.sketchAfter : List Member → List Stroke
  | [] => []
  | m :: more => .mark "," :: (m.sketch ++ Member.sketchAfter more)

def Element.sketch : Element → List Stroke
  | .blank => []
  | .item target defaulted => target.sketch ++ defaultSketch defaulted
  | .rest target => .mark "..." :: target.sketch

def Element.sketchOf : List Element → List Stroke
  | [] => []
  | e :: more => e.sketch ++ Element.sketchAfter more

def Element.sketchAfter : List Element → List Stroke
  | [] => []
  | e :: more => .mark "," :: (e.sketch ++ Element.sketchAfter more)

end

@[simp] theorem names_defaultSketch (defaulted : Bool) :
    Stroke.names (defaultSketch defaulted) = [] := by
  cases defaulted <;> rfl

mutual

/-- The names of a pattern are those it is written with. -/
theorem Pattern.names_sketch : ∀ p : Pattern, Stroke.names p.sketch = p.names
  | .name n => rfl
  | .object members => by simp [Pattern.sketch, Pattern.names, Member.names_sketchOf members]
  | .array elements => by simp [Pattern.sketch, Pattern.names, Element.names_sketchOf elements]

theorem Member.names_sketch : ∀ m : Member, Stroke.names m.sketch = m.names
  | .blank => rfl
  | .shorthand n defaulted => by simp [Member.sketch, Member.names]
  | .keyed target defaulted => by simp [Member.sketch, Member.names, target.names_sketch]
  | .rest target => by simp [Member.sketch, Member.names, target.names_sketch]

theorem Member.names_sketchOf : ∀ ms : List Member,
    Stroke.names (Member.sketchOf ms) = Member.namesOf ms
  | [] => rfl
  | m :: more => by
    simp [Member.sketchOf, Member.namesOf, m.names_sketch, Member.names_sketchAfter more]

theorem Member.names_sketchAfter : ∀ ms : List Member,
    Stroke.names (Member.sketchAfter ms) = Member.namesOf ms
  | [] => rfl
  | m :: more => by
    simp [Member.sketchAfter, Member.namesOf, m.names_sketch, Member.names_sketchAfter more]

theorem Element.names_sketch : ∀ e : Element, Stroke.names e.sketch = e.names
  | .blank => rfl
  | .item target defaulted => by simp [Element.sketch, Element.names, target.names_sketch]
  | .rest target => by simp [Element.sketch, Element.names, target.names_sketch]

theorem Element.names_sketchOf : ∀ es : List Element,
    Stroke.names (Element.sketchOf es) = Element.namesOf es
  | [] => rfl
  | e :: more => by
    simp [Element.sketchOf, Element.namesOf, e.names_sketch, Element.names_sketchAfter more]

theorem Element.names_sketchAfter : ∀ es : List Element,
    Stroke.names (Element.sketchAfter es) = Element.namesOf es
  | [] => rfl
  | e :: more => by
    simp [Element.sketchAfter, Element.namesOf, e.names_sketch, Element.names_sketchAfter more]

end

end ImportUsage
