import ImportUsage.Grammar.Rule

/-! Markup whose tags may name types. -/

namespace ImportUsage.Grammar.Typed

open Rule Construct
open Terminal (name)

def markupRules : List Definition := [
  ⟨tagStart,
    seq [
      "<",
      optional (seq [
        oneOf [tagName, seq [oneOf [name, dottedName], optional typeArguments]], many tagPart])]⟩,
  ⟨openingTag, seq [tagStart, ">"]⟩,
  ⟨emptyElement, seq [tagStart, "/>"]⟩]

end ImportUsage.Grammar.Typed
