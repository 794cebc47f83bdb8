import ImportUsage.Grammar.Rule

/-! Patterns: places to assign to, and the names they bind. -/

namespace ImportUsage.Grammar.Plain

open Rule Construct
open Terminal (name)

def patternRules : List Definition := [
  ⟨pattern, oneOf [assignable, restPattern]⟩,
  ⟨restPattern, right (seq ["...", assignable])⟩,
  ⟨destructuringPattern, oneOf [objectPattern, arrayPattern]⟩,
  ⟨objectPattern,
    tier .object (seq [
      openBrace,
      list (optional (oneOf [
        pairPattern, restPattern, objectAssignmentPattern, oneOf [name, contextualWord]])),
      closeBrace])⟩,
  ⟨pairPattern, seq [propertyName, ":", oneOf [pattern, assignmentPattern]]⟩,
  ⟨objectAssignmentPattern,
    seq [oneOf [oneOf [contextualWord, name], destructuringPattern], "=", expression]⟩,
  ⟨arrayPattern, seq ["[", list (optional (oneOf [pattern, assignmentPattern])), "]"]⟩,
  ⟨assignmentPattern, seq [pattern, "=", expression]⟩]

end ImportUsage.Grammar.Plain
