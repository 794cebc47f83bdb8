import ImportUsage.CommandLine.Argument

/-! Reading the arguments of the command line, from left to right. A value is checked when the next
key or the end shows that it is complete. -/

namespace ImportUsage

inductive Request
  | analyze (o : Options)
  | help
  | version
deriving DecidableEq, Repr

namespace CommandLine

/-- A key that is not finished: one that waits for its value, or one whose value is not checked. -/
structure Pending where
  key : Key
  value : Option String
deriving DecidableEq, Repr

structure State where
  /-- The keys given, with their values, the latest first. -/
  given : List (Key × String) := []
  pending : Option Pending := none
  hasTarget : Bool := false
  /-- Has `--` been met, after which nothing is a key? -/
  onlyPlaces : Bool := false
deriving DecidableEq, Repr

inductive Stop
  | refuse (e : ArgumentError)
  | answer (request : Request)
deriving DecidableEq, Repr

abbrev Step := Except Stop State

def refuse {α : Type} (e : ArgumentError) : Except Stop α := .error (.refuse e)

def accept (given : List (Key × String)) (key : Key) (value : String) :
    Except Stop (List (Key × String)) :=
  if !key.repeats && given.any (·.1 = key) then refuse (.repeated key)
  else if key.isPath && value = "" then refuse (.valueMissing key)
  else if key = .report && (ReportFormat.ofText? value).isNone then refuse (.unknownFormat value)
  else .ok ((key, value) :: given)

def settle (s : State) : Step :=
  match s.pending with
  | none => .ok s
  | some ⟨key, none⟩ => refuse (.valueMissing key)
  | some ⟨key, some value⟩ =>
    (accept s.given key value).map fun given => { s with given := given, pending := none }

def takeValue (s : State) (key : Key) (value : String) : Step := do
  let s ← settle s
  let given ← accept s.given key value
  .ok { s with given := given }

/-- Takes a key that has no value of its own. -/
def takeKey (s : State) (key : Key) : Step :=
  match key with
  | .help => (settle s).bind fun _ => .error (.answer .help)
  | .version => (settle s).bind fun _ => .error (.answer .version)
  | _ => takeValue s key ""

def await (s : State) (key : Key) : Step :=
  (settle s).map fun s => { s with pending := some ⟨key, none⟩ }

def takeLong (s : State) (argument : List Char) : Step :=
  let name := String.ofList (argument.takeWhile (· ≠ '='))
  let value : Option String := match argument.dropWhile (· ≠ '=') with
    | _ :: rest => some (String.ofList rest)
    | [] => none
  match Key.ofLong? name with
  | none => refuse (.unexpected ("--" ++ name))
  | some key =>
    match key.valueName?, value with
    | some _, some value => takeValue s key value
    | some _, none => await s key
    | none, some value => refuse (.valueUnexpected value key)
    | none, none => takeKey s key

/-- Takes keys in their short forms, after the hyphen. What follows a key that takes a value is the
value; an equals sign in front of it does not count. -/
def takeShort (s : State) : List Char → Step
  | [] => .ok s
  | c :: rest =>
    match Key.ofShort? c with
    | none => refuse (.unexpected (String.ofList ['-', c]))
    | some key =>
      match key.valueName?, rest with
      | none, _ => (takeKey s key).bind fun s => takeShort s rest
      | some _, [] => await s key
      | some _, '=' :: value => takeValue s key (String.ofList value)
      | some _, value => takeValue s key (String.ofList value)

def takePlace (s : State) (argument : String) : Step :=
  if s.hasTarget then refuse (.unexpected argument)
  else (settle s).map fun s =>
    { s with pending := some ⟨.target, some argument⟩, hasTarget := true }

def take (s : State) (argument : String) : Step :=
  if s.onlyPlaces then takePlace s argument
  else match argument.toList with
    | ['-', '-'] => .ok { s with onlyPlaces := true }
    | '-' :: '-' :: rest => takeLong s rest
    | '-' :: c :: rest => takeShort s (c :: rest)
    | _ =>
      match s.pending with
      | some ⟨key, none⟩ => .ok { s with pending := some ⟨key, some argument⟩ }
      | _ => takePlace s argument

def value? (given : List (Key × String)) (key : Key) : Option String := given.lookup key

def values (given : List (Key × String)) (key : Key) : List String :=
  (given.filter (·.1 = key)).reverse.map (·.2)

def has (given : List (Key × String)) (key : Key) : Bool := (value? given key).isSome

/-- The options for a target. Without an output, files are named like the target. -/
def optionsFor (target : String) (given : List (Key × String)) : Options :=
  let o : Options :=
    { target := target
      root := (value? given .root).getD "."
      output := (value? given .output).getD ((Path.stem? target).getD "usage")
      exclusion := .ofSuffixes (values given .exclude)
      passedOver := values given .skipDir
      scope := if has given .allDeclarations then .all else .exported
      strict := has given .strict
      rendering := ⟨(value? given .dotProgram).getD "dot", has given .noImage⟩
      report := (value? given .report).bind ReportFormat.ofText? }
  o.withExtensions (values given .extension)

def requested (given : List (Key × String)) : Except Stop Request :=
  match value? given .target with
  | some target => .ok (.analyze (optionsFor target given))
  | none => refuse .targetMissing

def request (arguments : List String) : Except ArgumentError Request :=
  let read : Except Stop Request := do
    let s ← arguments.foldlM take {}
    let s ← settle s
    requested s.given
  match read with
  | .ok request => .ok request
  | .error (.answer request) => .ok request
  | .error (.refuse e) => .error e

end CommandLine

end ImportUsage
