/-! Lists without repetitions, where the first occurrence is the one that stays. -/

namespace ImportUsage

/-- The elements whose key no earlier element has, in order. -/
def distinctBy {α β : Type} [DecidableEq β] (key : α → β) : List α → List α
  | [] => []
  | a :: rest => a :: (distinctBy key rest).filter (key · ≠ key a)

/-- The elements in the order of their first occurrence. -/
def distinct {α : Type} [DecidableEq α] (as : List α) : List α := distinctBy id as

end ImportUsage
