/-!
# Options on a command line

An option stands as `--name`, some also as `-c`. Its value is the next word, or follows in the same
word: after `=`, or at once behind a short name. A word that starts with `-` is no value of another,
unless it is a lone `-`. All words are options and their values; only the last may be a lone `--`.
-/
namespace QueryCluster.CommandLine

/-- Why there is nothing to do: an explanation is asked for, or the words make no sense. -/
inductive Refusal where
  | help
  | misuse
  deriving DecidableEq, Repr

/-- An option that leaves its mark on settings `σ`. -/
structure Choice (σ : Type) where
  name : String
  /-- A short name, for an option with a value. -/
  letter : Option Char := none
  takesValue : Bool := true
  repeatable : Bool := false
  /-- Takes a value in, if it is one for this option. Without a value it is given "". -/
  set : String → σ → Option σ

structure Scan (σ : Type) where
  settings : σ
  /-- Names of the options that were met. -/
  seen : List String := []

/-- What a word says. -/
inductive Word (σ : Type) where
  /-- An option that needs nothing more, and its value. -/
  | complete (c : Choice σ) (value : String)
  /-- An option whose value is the next word. -/
  | opens (c : Choice σ)

/-- The parts of a text before and after the first `=`. -/
def splitValue (cs : List Char) : String × Option String :=
  (String.ofList (cs.takeWhile (· ≠ '=')), match cs.dropWhile (· ≠ '=') with
    | [] => none
    | _ :: value => some (String.ofList value))

variable {σ : Type}

/-- A word behind `--`. -/
def longWord (choices : List (Choice σ)) (cs : List Char) : Except Refusal (Word σ) :=
  match splitValue cs with
  | ("help", none) => .error .help
  | (name, value) =>
    match choices.find? fun c => c.name == name, value with
    | some c, none => .ok (if c.takesValue then .opens c else .complete c "")
    | some c, some value => if c.takesValue then .ok (.complete c value) else .error .misuse
    | none, _ => .error .misuse

/-- A word behind `-`, by its first letter. -/
def shortWord (choices : List (Choice σ)) (letter : Char) (rest : List Char) :
    Except Refusal (Word σ) :=
  if letter == 'h' then .error .help
  else match choices.find? fun c => c.letter == some letter, rest with
    | some c, [] => .ok (.opens c)
    | some c, '=' :: value => .ok (.complete c (String.ofList value))
    | some c, value => .ok (.complete c (String.ofList value))
    | none, _ => .error .misuse

def readWord (choices : List (Choice σ)) (word : String) : Except Refusal (Word σ) :=
  match word.toList with
  | '-' :: '-' :: cs => longWord choices cs
  | '-' :: letter :: rest => shortWord choices letter rest
  | _ => .error .misuse

def isValue (word : String) : Bool := word == "-" || !word.startsWith "-"

def Scan.store (s : Scan σ) (c : Choice σ) (value : String) : Except Refusal (Scan σ) :=
  if !c.repeatable && s.seen.contains c.name then .error .misuse
  else match c.set value s.settings with
    | some settings => .ok ⟨settings, c.name :: s.seen⟩
    | none => .error .misuse

/-- Reads words from left to right, up to the first that decides against them all. -/
def scan (choices : List (Choice σ)) : Scan σ → List String → Except Refusal (Scan σ)
  | s, [] => .ok s
  | s, ["--"] => .ok s
  | s, word :: words =>
    match readWord choices word, words with
    | .error r, _ => .error r
    | .ok (.complete c value), words =>
      match s.store c value with
      | .error r => .error r
      | .ok s => scan choices s words
    | .ok (.opens _), [] => .error .misuse
    | .ok (.opens c), value :: words =>
      if isValue value then
        match s.store c value with
        | .error r => .error r
        | .ok s => scan choices s words
      else .error .misuse

end QueryCluster.CommandLine
