import ImportUsage.Proofs.Grammar.Tokens

/-! Trees at another place of a text. -/

namespace ImportUsage

variable (k n : Nat)

/-- The same place with `k` more characters and `n` more lines in front of it. -/
def Place.moved (p : Place) : Place := ⟨p.offset + k, p.line + n, p.rest⟩

theorem Place.advance_moved (i : Nat) (p : Place) :
    (p.moved k n).advance i = (p.advance i).moved k n := by
  induction i generalizing p with
  | zero => simp [advance]
  | succ i ih =>
    obtain ⟨offset, line, rest⟩ := p
    cases rest with
    | nil => simp [advance, moved]
    | cons c rest =>
      have step : (⟨offset + k + 1, if c = '\n' then line + n + 1 else line + n, rest⟩ : Place) =
          moved k n ⟨offset + 1, if c = '\n' then line + 1 else line, rest⟩ := by
        simp only [moved]
        congr 1
        · omega
        · split <;> omega
      rw [moved, advance, advance, ← ih, ← step]

def Token.moved (t : Token) : Token := { t with start := t.start.moved k n }

namespace Token

@[simp] theorem terminal_moved (t : Token) : (t.moved k n).terminal = t.terminal := rfl

@[simp] theorem text_moved (t : Token) : (t.moved k n).text = t.text := rfl

theorem stop_moved (t : Token) : (t.moved k n).stop = t.stop.moved k n :=
  Place.advance_moved k n t.size t.start

theorem same_moved (t u : Token) : (t.moved k n).same (u.moved k n) = t.same u := by
  unfold same
  congr 2
  exact decide_eq_decide.mpr Nat.add_right_cancel_iff

end Token

mutual

def Tree.moved : Tree → Tree
  | .leaf t => .leaf (t.moved k n)
  | .node c parts => .node c (Tree.movedAll parts)
  | .group parts => .group (Tree.movedAll parts)

def Tree.movedAll : List Tree → List Tree
  | [] => []
  | t :: more => Tree.moved t :: Tree.movedAll more

end

theorem Tree.movedAll_eq_map (ts : List Tree) : movedAll k n ts = ts.map (moved k n) := by
  induction ts with
  | nil => rfl
  | cons t ts ih => rw [movedAll, ih, List.map_cons]

namespace Tree

mutual

theorem tokens_moved : ∀ t : Tree, (t.moved k n).tokens = t.tokens.map (Token.moved k n)
  | .leaf _ => rfl
  | .node _ parts => tokensOf_moved parts
  | .group parts => tokensOf_moved parts

theorem tokensOf_moved : ∀ ts : List Tree,
    tokensOf (movedAll k n ts) = (tokensOf ts).map (Token.moved k n)
  | [] => rfl
  | t :: more => by
    rw [movedAll, tokensOf, tokensOf, List.map_append, tokens_moved t, tokensOf_moved more]

end

end Tree

/-- A grammar does not look at places. -/
theorem Grammar.Derives.moved {g : Grammar} {r : Rule} {ts : List Tree} (derives : g.Derives r ts) :
    g.Derives r (ts.map (Tree.moved k n)) := by
  induction derives with
  | terminal t => exact .terminal (t.moved k n)
  | construct defined kept _ ih =>
    rw [List.map_singleton, Tree.moved, Tree.movedAll_eq_map]
    exact .construct defined kept ih
  | inlined defined given _ ih => exact .inlined defined given ih
  | blank => exact .blank
  | sequence _ _ first next =>
    rw [List.map_append]
    exact .sequence first next
  | left _ ih => exact .left ih
  | right _ ih => exact .right ih
  | once _ ih =>
    rw [List.map_singleton, Tree.moved, Tree.movedAll_eq_map]
    exact .once ih
  | again _ _ first next => exact .again first next
  | ranked _ ih => exact .ranked ih

end ImportUsage
