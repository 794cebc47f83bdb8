import Mathlib.Tactic.SplitIfs
import ImportUsage.Proofs.Json.Reader

/-! The text of a JSON value read back: its characters make the tokens of the value, and these make
the value. -/

namespace ImportUsage

/-- Induction over a value: a list comes after its items, an object after the values in it. -/
theorem JsonValue.valueInduction {P : JsonValue → Prop} (text : ∀ s, P (.text s))
    (number : ∀ n, P (.number n)) (flag : ∀ b, P (.flag b))
    (list : ∀ items : List JsonValue, (∀ v ∈ items, P v) → P (.list items))
    (object : ∀ members : List (String × JsonValue), (∀ m ∈ members, P m.2) → P (.object members))
    (v : JsonValue) : P v :=
  @JsonValue.rec P (fun items => ∀ v ∈ items, P v) (fun members => ∀ m ∈ members, P m.2)
    (fun m => P m.2) text number flag list object
    (fun _ member => absurd member List.not_mem_nil)
    (fun _ _ first others _ member =>
      (List.mem_cons.mp member).elim (fun same => same ▸ first) (others _))
    (fun _ member => absurd member List.not_mem_nil)
    (fun _ _ first others _ member =>
      (List.mem_cons.mp member).elim (fun same => same ▸ first) (others _))
    (fun _ _ below => below) v

namespace Json

mutual

/-- The tokens of a value. -/
def tokens : JsonValue → List Token
  | .text s => [.text s]
  | .number n => [.number n]
  | .flag b => [.word (if b then "true" else "false")]
  | .list [] => [.mark '[', .mark ']']
  | .list (v :: vs) => .mark '[' :: (tokens v ++ (itemTokens vs ++ [.mark ']']))
  | .object [] => [.mark '{', .mark '}']
  | .object ((name, v) :: ms) =>
    .mark '{' :: .text name :: .mark ':' :: (tokens v ++ (memberTokens ms ++ [.mark '}']))

def itemTokens : List JsonValue → List Token
  | [] => []
  | v :: vs => .mark ',' :: (tokens v ++ itemTokens vs)

def memberTokens : List (String × JsonValue) → List Token
  | [] => []
  | (name, v) :: ms => .mark ',' :: .text name :: .mark ':' :: (tokens v ++ memberTokens ms)

end

/-! From tokens to the value. -/

def Runs (s : State) (ts : List Token) (last : State) : Prop := ts.foldlM State.step s = some last

theorem Runs.nil (s : State) : Runs s [] s := rfl

theorem Runs.cons {s next last : State} {t : Token} {ts : List Token}
    (first : s.step t = some next) (others : Runs next ts last) : Runs s (t :: ts) last := by
  unfold Runs
  rw [List.foldlM_cons, first]
  exact others

theorem Runs.append {s middle last : State} {ts us : List Token} (first : Runs s ts middle)
    (second : Runs middle us last) : Runs s (ts ++ us) last := by
  unfold Runs at first ⊢
  rw [List.foldlM_append, first]
  exact second

def Parses (v : JsonValue) : Prop := ∀ k, Runs (.value k) (tokens v) (.after v k)

theorem tokens_begin (v : JsonValue) : ∃ t ts, tokens v = t :: ts ∧ t ≠ .mark ']' := by
  cases v with
  | text s => exact ⟨_, _, rfl, Token.noConfusion⟩
  | number n => exact ⟨_, _, rfl, Token.noConfusion⟩
  | flag b => exact ⟨_, _, rfl, Token.noConfusion⟩
  | list items => cases items <;> exact ⟨_, _, by rw [tokens], by decide⟩
  | object members => cases members <;> exact ⟨_, _, by rw [tokens], by decide⟩

theorem Parses.first {v : JsonValue} (parses : Parses v) (k : Context) :
    Runs (.firstItem k) (tokens v) (.after v (.list [] k)) := by
  have whole := parses (.list [] k)
  obtain ⟨t, ts, begun, other⟩ := tokens_begin v
  have same : State.step (.firstItem k) t = State.step (.value (.list [] k)) t := by
    simp only [State.step, if_neg other]
  unfold Runs at whole ⊢
  rw [begun, List.foldlM_cons] at whole ⊢
  rw [same, whole]

theorem runs_items (v : JsonValue) (vs before : List JsonValue) (k : Context)
    (parse : ∀ w ∈ vs, Parses w) :
    Runs (.after v (.list before k)) (itemTokens vs ++ [.mark ']'])
      (.after (.list (before.reverse ++ v :: vs)) k) := by
  induction vs generalizing v before with
  | nil =>
    rw [itemTokens]
    have closing : State.step (.after v (.list before k)) (.mark ']') =
        some (.after (.list (before.reverse ++ [v])) k) := by
      rw [← List.reverse_cons]
      rfl
    exact .cons closing (.nil _)
  | cons w vs ih =>
    have others := ih w (v :: before) fun x member => parse x (List.mem_cons_of_mem w member)
    rw [List.reverse_cons, List.append_assoc, List.singleton_append] at others
    rw [itemTokens, List.cons_append, List.append_assoc]
    exact .cons rfl ((parse w List.mem_cons_self _).append others)

theorem runs_members (name : String) (v : JsonValue) (ms before : List (String × JsonValue))
    (k : Context) (parse : ∀ m ∈ ms, Parses m.2) :
    Runs (.after v (.object before name k)) (memberTokens ms ++ [.mark '}'])
      (.after (.object (before.reverse ++ (name, v) :: ms)) k) := by
  induction ms generalizing name v before with
  | nil =>
    rw [memberTokens]
    have closing : State.step (.after v (.object before name k)) (.mark '}') =
        some (.after (.object (before.reverse ++ [(name, v)])) k) := by
      rw [← List.reverse_cons]
      rfl
    exact .cons closing (.nil _)
  | cons m ms ih =>
    obtain ⟨next, w⟩ := m
    have others := ih next w ((name, v) :: before) fun x member =>
      parse x (List.mem_cons_of_mem _ member)
    rw [List.reverse_cons, List.append_assoc, List.singleton_append] at others
    rw [memberTokens, List.cons_append, List.cons_append, List.cons_append, List.append_assoc]
    exact .cons rfl (.cons rfl (.cons rfl ((parse (next, w) List.mem_cons_self _).append others)))

theorem parses (v : JsonValue) : Parses v := by
  induction v using JsonValue.valueInduction with
  | text s => exact fun k => .cons rfl (.nil _)
  | number n => exact fun k => .cons rfl (.nil _)
  | flag b => cases b <;> exact fun k => .cons rfl (.nil _)
  | list items inside =>
    intro k
    cases items with
    | nil => exact .cons rfl (.cons rfl (.nil _))
    | cons v vs =>
      have first := (inside v List.mem_cons_self).first k
      have others := runs_items v vs [] k fun w member => inside w (List.mem_cons_of_mem v member)
      rw [tokens]
      exact .cons rfl (first.append others)
  | object members inside =>
    intro k
    cases members with
    | nil => exact .cons rfl (.cons rfl (.nil _))
    | cons m ms =>
      obtain ⟨name, v⟩ := m
      have first := inside (name, v) List.mem_cons_self (.object [] name k)
      have others := runs_members name v ms [] k fun x member =>
        inside x (List.mem_cons_of_mem _ member)
      rw [tokens]
      exact .cons rfl (.cons rfl (.cons rfl (first.append others)))

/-! From characters to tokens. -/

/- A character that ends a number or a word. -/
def Ends (c : Char) : Prop := c.isDigit = false ∧ c.isLower = false

instance (c : Char) : Decidable (Ends c) :=
  inferInstanceAs (Decidable (c.isDigit = false ∧ c.isLower = false))

/- The reader is between tokens, or in a token that the next character ends. -/
inductive Mode.Owes : Mode → List Token → Prop
  | between : Owes .between []
  | number (n : Nat) : Owes (.inNumber n) [.number n]
  | word (read : List Char) : Owes (.inWord read) [.word (String.ofList read.reverse)]

theorem Mode.Owes.transduce {m : Mode} {owed ts : List Token} {last : Mode} (owes : m.Owes owed)
    {c : Char} (ends : Ends c) {rest : List Char}
    (read : ImportUsage.transduce Mode.step .between (c :: rest) = some (ts, last)) :
    ImportUsage.transduce Mode.step m (c :: rest) = some (owed ++ ts, last) := by
  simp only [ImportUsage.transduce, Option.bind_eq_bind, Option.bind_eq_some_iff] at read
  obtain ⟨⟨begun, next⟩, started, ⟨more, _⟩, tail, same⟩ := read
  cases Option.some.inj same
  have first : m.step c = some (owed ++ begun, next) := by
    have begins : Mode.start c = some (begun, next) := started
    cases owes with
    | between => exact started
    | number n => simp [step, ends.1, begins]
    | word read => simp [step, ends.2, begins]
  rw [← List.append_assoc]
  exact transduce_cons first tail

/- The characters make these tokens, the last of which may still have to be ended. -/
def Scans (text : List Char) (ts : List Token) : Prop :=
  ∃ done owed m, transduce Mode.step .between text = some (done, m) ∧ Mode.Owes m owed ∧
    done ++ owed = ts

theorem Scans.of_closed {text : List Char} {ts : List Token}
    (read : transduce Mode.step .between text = some (ts, .between)) : Scans text ts :=
  ⟨ts, [], .between, read, .between, List.append_nil ts⟩

theorem Scans.after {front text : List Char} {ts us : List Token}
    (first : transduce Mode.step .between front = some (ts, .between)) (second : Scans text us) :
    Scans (front ++ text) (ts ++ us) := by
  obtain ⟨done, owed, m, read, owes, rfl⟩ := second
  refine ⟨ts ++ done, owed, m, transduce_append first read, owes, ?_⟩
  rw [List.append_assoc]

theorem Scans.append {front text : List Char} {ts us : List Token} {c : Char} (ends : Ends c)
    (first : Scans front ts) (second : Scans (c :: text) us) :
    Scans (front ++ c :: text) (ts ++ us) := by
  obtain ⟨done, owed, m, read, owes, rfl⟩ := first
  obtain ⟨more, rest, last, read_more, owes_more, rfl⟩ := second
  refine ⟨done ++ (owed ++ more), rest, last, ?_, owes_more, ?_⟩
  · exact transduce_append read (owes.transduce ends read_more)
  · simp only [List.append_assoc]

theorem hexValue?_digitChar {d : Nat} (small : d < 16) : hexValue? (Nat.digitChar d) = some d := by
  have all : ∀ d < 16, hexValue? (Nat.digitChar d) = some d := by decide
  exact all d small

/-- Four hexadecimal digits give a control character. -/
theorem transduce_code (read : List Char) {c : Char} (control : c.toNat < 32) :
    transduce Mode.step (.inText read)
      ['\\', 'u', '0', '0', Nat.digitChar (c.toNat / 16), Nat.digitChar (c.toNat % 16)] =
        some ([], .inText (c :: read)) := by
  have third : hexValue? (Nat.digitChar (c.toNat / 16)) = some (c.toNat / 16) :=
    hexValue?_digitChar (by omega)
  have fourth : hexValue? (Nat.digitChar (c.toNat % 16)) = some (c.toNat % 16) :=
    hexValue?_digitChar (by omega)
  have whole : 16 * (c.toNat / 16) + c.toNat % 16 = c.toNat := Nat.div_add_mod _ _
  have taken : Mode.take read none c.toNat = some (.inText (c :: read)) := by
    unfold Mode.take
    simp only [show ¬(0xD800 ≤ c.toNat ∧ c.toNat < 0xDC00) by omega,
      show ¬(0xDC00 ≤ c.toNat ∧ c.toNat < 0xE000) by omega, if_false, Char.ofNat_toNat]
  have front : transduce Mode.step (.inText read) ['\\', 'u', '0', '0'] =
      some ([], .code read none 2 0) := rfl
  have back : transduce Mode.step (.code read none 2 0)
      [Nat.digitChar (c.toNat / 16), Nat.digitChar (c.toNat % 16)] =
        some ([], .inText (c :: read)) := by
    simp [transduce, Mode.step, third, fourth, whole, taken]
  exact transduce_append front back

theorem transduce_escaped (read : List Char) (c : Char) :
    transduce Mode.step (.inText read) (JsonValue.escaped c) = some ([], .inText (c :: read)) := by
  have named {d : Char} (same : c.toNat = d.toNat) : c = d := Char.toNat_inj.mp same
  unfold JsonValue.escaped
  split_ifs with quote backslash feed carriage tab backspace formFeed control
  · subst quote
    rfl
  · subst backslash
    rfl
  · subst feed
    rfl
  · subst carriage
    rfl
  · subst tab
    rfl
  · obtain rfl : c = '\x08' := named backspace
    rfl
  · obtain rfl : c = '\x0c' := named formFeed
    rfl
  · exact transduce_code read control
  · simp [transduce, Mode.step, quote, backslash, control]

theorem transduce_quoted (s : String) :
    transduce Mode.step .between (JsonValue.quoted s) = some ([.text s], .between) := by
  have inside : ∀ (chars read : List Char),
      transduce Mode.step (.inText read) (chars.flatMap JsonValue.escaped) =
        some ([], .inText (chars.reverse ++ read)) := by
    intro chars
    induction chars with
    | nil =>
      intro read
      rfl
    | cons c rest ih =>
      intro read
      simpa using transduce_append (transduce_escaped read c) (ih (c :: read))
  have opening : Mode.between.step '"' = some ([], .inText []) := rfl
  have closing : transduce Mode.step (.inText (s.toList.reverse ++ [])) ['"'] =
      some ([.text s], .between) := by
    simp [transduce, Mode.step]
  exact transduce_cons opening (transduce_append (inside s.toList []) closing)

theorem start_digitChar {d : Nat} (small : d < 10) :
    Mode.start (Nat.digitChar d) = some ([], .inNumber d) := by
  have all : ∀ d < 10, Mode.start (Nat.digitChar d) = some ([], .inNumber d) := by decide
  exact all d small

theorem step_digitChar {d n : Nat} (small : d < 10) (positive : n ≠ 0) :
    Mode.step (.inNumber n) (Nat.digitChar d) = some ([], .inNumber (10 * n + d)) := by
  have all : ∀ d < 10, (Nat.digitChar d).isDigit ∧ (Nat.digitChar d).toNat - '0'.toNat = d := by
    decide
  obtain ⟨digit, value⟩ := all d small
  simp only [Mode.step, digit, if_true, if_neg positive, value]

theorem transduce_digits (n : Nat) :
    transduce Mode.step .between (Nat.toDigits 10 n) = some ([], .inNumber n) := by
  induction n using Nat.strongRecOn with
  | ind n ih =>
    rw [Nat.toDigits_eq_if (by decide)]
    split
    · rename_i small
      have first : Mode.between.step (Nat.digitChar n) = some ([], .inNumber n) :=
        start_digitChar small
      exact transduce_cons first rfl
    · have front := ih (n / 10) (by omega)
      have last := step_digitChar (d := n % 10) (n := n / 10) (by omega) (by omega)
      rw [Nat.div_add_mod] at last
      have back : transduce Mode.step (.inNumber (n / 10)) [Nat.digitChar (n % 10)] =
          some ([], .inNumber n) := transduce_cons last rfl
      exact transduce_append front back

theorem transduce_newLine (level : Nat) :
    transduce Mode.step .between (JsonValue.newLine level) = some ([], .between) := by
  have feed : Mode.between.step '\n' = some ([], .between) := rfl
  have blank : Mode.between.step ' ' = some ([], .between) := rfl
  have blanks : ∀ n, transduce Mode.step .between (List.replicate n ' ') = some ([], .between) := by
    intro n
    induction n with
    | zero => rfl
    | succ n ih => exact transduce_cons blank ih
  exact transduce_cons feed (blanks (2 * level))

theorem step_mark {c : Char} (mark : c ∈ marks) :
    Mode.between.step c = some ([.mark c], .between) := by
  simp only [marks, List.mem_cons, List.not_mem_nil, or_false] at mark
  rcases mark with rfl | rfl | rfl | rfl | rfl | rfl <;> rfl

theorem transduce_markLine {c : Char} (mark : c ∈ marks) (level : Nat) :
    transduce Mode.step .between (c :: JsonValue.newLine level) = some ([.mark c], .between) :=
  transduce_cons (step_mark mark) (transduce_newLine level)

theorem transduce_name (name : String) :
    transduce Mode.step .between (JsonValue.quoted name ++ [':', ' ']) =
      some ([.text name, .mark ':'], .between) :=
  transduce_append (transduce_quoted name) rfl

def Written (v : JsonValue) : Prop := ∀ level, Scans (JsonValue.write level v) (tokens v)

theorem scans_items {front : List Char} {ts : List Token} (level : Nat) (vs : List JsonValue)
    (written : ∀ v ∈ vs, Written v) (scanned : Scans front ts) :
    Scans (front ++ JsonValue.writeItems level vs) (ts ++ itemTokens vs) := by
  induction vs generalizing front ts with
  | nil => simpa [JsonValue.writeItems, itemTokens] using scanned
  | cons v vs ih =>
    have here := Scans.after (transduce_markLine (c := ',') (by decide) level)
      (written v List.mem_cons_self level)
    have next := scanned.append (by decide) here
    have whole := ih (fun w member => written w (List.mem_cons_of_mem v member)) next
    simpa [JsonValue.writeItems, itemTokens] using whole

theorem scans_members {front : List Char} {ts : List Token} (level : Nat)
    (ms : List (String × JsonValue)) (written : ∀ m ∈ ms, Written m.2) (scanned : Scans front ts) :
    Scans (front ++ JsonValue.writeMembers level ms) (ts ++ memberTokens ms) := by
  induction ms generalizing front ts with
  | nil => simpa [JsonValue.writeMembers, memberTokens] using scanned
  | cons m ms ih =>
    obtain ⟨name, v⟩ := m
    have value := Scans.after (transduce_name name) (written (name, v) List.mem_cons_self level)
    have here := Scans.after (transduce_markLine (c := ',') (by decide) level) value
    have next := scanned.append (by decide) here
    have whole := ih (fun x member => written x (List.mem_cons_of_mem _ member)) next
    simpa [JsonValue.writeMembers, memberTokens] using whole

theorem Scans.close {front : List Char} {ts : List Token} (scanned : Scans front ts) (level : Nat)
    {c : Char} (mark : c ∈ marks) :
    Scans (front ++ (JsonValue.newLine level ++ [c])) (ts ++ [.mark c]) := by
  have alone : Scans [c] [.mark c] := .of_closed (transduce_cons (step_mark mark) rfl)
  have last := Scans.after (transduce_newLine level) alone
  exact scanned.append (by decide) last

theorem written (v : JsonValue) : Written v := by
  induction v using JsonValue.valueInduction with
  | text s => exact fun level => .of_closed (transduce_quoted s)
  | number n => exact fun level => ⟨[], _, _, transduce_digits n, .number n, rfl⟩
  | flag b => cases b <;> exact fun level => ⟨[], _, _, rfl, .word _, rfl⟩
  | list items inside =>
    intro level
    cases items with
    | nil => exact .of_closed rfl
    | cons v vs =>
      have first := Scans.after (transduce_markLine (c := '[') (by decide) (level + 1))
        (inside v List.mem_cons_self (level + 1))
      have all := scans_items (level + 1) vs
        (fun w member => inside w (List.mem_cons_of_mem v member)) first
      have whole := all.close level (c := ']') (by decide)
      simpa [JsonValue.write, tokens] using whole
  | object members inside =>
    intro level
    cases members with
    | nil => exact .of_closed rfl
    | cons m ms =>
      obtain ⟨name, v⟩ := m
      have value := Scans.after (transduce_name name)
        (inside (name, v) List.mem_cons_self (level + 1))
      have first := Scans.after (transduce_markLine (c := '{') (by decide) (level + 1)) value
      have all := scans_members (level + 1) ms
        (fun x member => inside x (List.mem_cons_of_mem _ member)) first
      have whole := all.close level (c := '}') (by decide)
      simpa [JsonValue.write, tokens] using whole

/-- A value is read back from the line or lines of its text. -/
theorem read?_render (v : JsonValue) : read? (v.render ++ "\n") = some v := by
  obtain ⟨done, owed, m, scanned, owes, same⟩ := written v 0
  have closed : transduce Mode.step m ['\n', '\n'] = some (owed ++ [], .between) :=
    owes.transduce (by decide) rfl
  have whole := transduce_append scanned closed
  rw [List.append_nil, same] at whole
  have text : (v.render ++ "\n").toList ++ ['\n'] = JsonValue.write 0 v ++ ['\n', '\n'] := by
    simp [JsonValue.render]
  have parsed : (tokens v).foldlM State.step (.value .top) = some (.after v .top) := parses v .top
  unfold read?
  rw [text, whole]
  simp only [Option.bind_eq_bind, Option.bind_some, if_true, parsed]
  rfl

end Json

end ImportUsage
