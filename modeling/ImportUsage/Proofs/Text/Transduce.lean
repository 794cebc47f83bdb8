/-! Readers that go through a text with a state. Each step yields some results or refuses to go on. -/

namespace ImportUsage

variable {σ α β : Type} (step : σ → α → Option (List β × σ))

/-- Goes through a list with a state; every step yields some results. -/
def transduce : σ → List α → Option (List β × σ)
  | s, [] => some ([], s)
  | s, a :: rest => do
    let (out, next) ← step s a
    let (more, last) ← transduce next rest
    some (out ++ more, last)

variable {step}

theorem transduce_cons {s next last : σ} {a : α} {rest : List α} {out more : List β}
    (first : step s a = some (out, next)) (then_ : transduce step next rest = some (more, last)) :
    transduce step s (a :: rest) = some (out ++ more, last) := by
  simp [transduce, first, then_]

theorem transduce_append {s middle last : σ} {front back : List α} {out more : List β}
    (first : transduce step s front = some (out, middle))
    (second : transduce step middle back = some (more, last)) :
    transduce step s (front ++ back) = some (out ++ more, last) := by
  induction front generalizing s out with
  | nil =>
    cases Option.some.inj first
    exact second
  | cons a rest ih =>
    simp only [transduce, Option.bind_eq_bind, Option.bind_eq_some_iff] at first
    obtain ⟨⟨begun, next⟩, stepped, ⟨more_begun, _⟩, tail, same⟩ := first
    cases Option.some.inj same
    rw [List.append_assoc]
    exact transduce_cons stepped (ih tail)

/-- What every step keeps and yields, a whole run keeps and yields. -/
theorem transduce_invariant {I : σ → Prop} {P : α → Prop} {Q : β → Prop}
    (kept : ∀ s a out next, I s → P a → step s a = some (out, next) → (∀ b ∈ out, Q b) ∧ I next)
    {s last : σ} {as : List α} {out : List β} (start : I s) (all : ∀ a ∈ as, P a)
    (read : transduce step s as = some (out, last)) : ∀ b ∈ out, Q b := by
  induction as generalizing s out with
  | nil =>
    cases Option.some.inj read
    exact fun _ member => absurd member List.not_mem_nil
  | cons a rest ih =>
    simp only [transduce, Option.bind_eq_bind, Option.bind_eq_some_iff] at read
    obtain ⟨⟨begun, next⟩, stepped, ⟨more, _⟩, tail, same⟩ := read
    cases Option.some.inj same
    obtain ⟨first, holds⟩ := kept s a begun next start (all a List.mem_cons_self) stepped
    intro b member
    rcases List.mem_append.mp member with here | later
    · exact first b here
    · exact ih holds (fun c below => all c (List.mem_cons_of_mem a below)) tail b later

end ImportUsage
