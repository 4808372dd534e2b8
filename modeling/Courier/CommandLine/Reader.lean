/-
# Courier.CommandLine.Reader -- arguments sorted into options and places

A command declares its options, each of which takes one value, and how many arguments without a name
it has places for. An option is written `--name value` or `--name=value`; only the second form can
give it a value that starts with a dash. After two dashes alone every argument is one for a place. An
option that does not say that it can be repeated is given once at most.
-/
import Courier.Decimal.Power

namespace Courier.CommandLine

/-- An option of a command. -/
structure Switch where
  name : String
  isRepeatable : Bool := false
deriving DecidableEq, Repr

/-- What a command takes. -/
structure Form where
  switches : List Switch := []
  /-- How many arguments stand for themselves, at most. -/
  places : Nat := 0
deriving DecidableEq, Repr

/-- Arguments sorted. -/
structure Sorted where
  /-- The values of options, in their order. -/
  given : List (String × String) := []
  placed : List String := []
deriving DecidableEq, Repr

/-- Why a command line is not carried out. -/
inductive Refusal where
  /-- It is not one that the program knows. -/
  | usage
  /-- It asks for help. -/
  | help
deriving DecidableEq, Repr

namespace Sorted

def values (s : Sorted) (name : String) : List String :=
  (s.given.filter fun g => g.1 = name).map (·.2)

def value? (s : Sorted) (name : String) : Option String := (s.values name).head?

end Sorted

/-- How a single argument is to be taken, as long as no two dashes alone have been seen. -/
inductive Word where
  /-- Two dashes alone. -/
  | stop
  /-- An option, with its value if that is part of the argument. -/
  | long (name : String) (value : Option String)
  /-- Letters after a single dash. -/
  | short (letters : List Char)
  | plain (text : String)
deriving DecidableEq, Repr

namespace Word

def of (argument : String) : Word :=
  match argument.toList with
  | ['-', '-'] => .stop
  | '-' :: '-' :: cs =>
    match cs.span (· ≠ '=') with
    | (name, '=' :: value) => .long (String.ofList name) (some (String.ofList value))
    | (name, _) => .long (String.ofList name) none
  | '-' :: c :: cs => .short (c :: cs)
  | _ => .plain argument

end Word

namespace Form

def switch? (f : Form) (name : String) : Option Switch :=
  f.switches.find? fun s => s.name = name

/-- Takes a value for an option. -/
def give (s : Sorted) (switch : Switch) (value : String) : Except Refusal Sorted :=
  if !switch.isRepeatable && (s.value? switch.name).isSome then .error .usage
  else .ok { s with given := s.given ++ [(switch.name, value)] }

/-- Takes an argument for a place. -/
def place (f : Form) (s : Sorted) (argument : String) : Except Refusal Sorted :=
  if s.placed.length < f.places then .ok { s with placed := s.placed ++ [argument] }
  else .error .usage

/-- Sorts arguments after two dashes alone. -/
def sortPlain (f : Form) : Sorted → List String → Except Refusal Sorted
  | s, [] => .ok s
  | s, a :: rest => do sortPlain f (← f.place s a) rest

/-- Sorts arguments; `waiting` is an option whose value has to come next. -/
def sort (f : Form) : Sorted → Option Switch → List String → Except Refusal Sorted
  | s, none, [] => .ok s
  | _, some _, [] => .error .usage
  | s, some switch, a :: rest =>
    match Word.of a with
    | .plain a => do sort f (← give s switch a) none rest
    | _ => .error .usage
  | s, none, a :: rest =>
    match Word.of a with
    | .stop => f.sortPlain s rest
    | .long name value =>
      match f.switch? name, value with
      | some switch, some value => do sort f (← give s switch value) none rest
      | some switch, none => sort f s (some switch) rest
      | none, none => .error (if name = "help" then .help else .usage)
      | none, some _ => .error .usage
    | .short letters => .error (if letters.head? = some 'h' then .help else .usage)
    | .plain a => do sort f (← f.place s a) none rest

/-- Sorts all arguments of a command. -/
def read (f : Form) (arguments : List String) : Except Refusal Sorted :=
  f.sort {} none arguments

end Form

/-! ## Numbers -/

/-- A whole number from zero up to a limit, with an optional plus before it. -/
def natural? (limit : Nat) (text : String) : Option Nat :=
  let digits :=
    match text.toList with
    | '+' :: cs => cs
    | cs => cs
  if digits.isEmpty || !digits.all Char.isDigit then none
  else
    let n := digits.foldl (fun n c => 10 * n + (c.toNat - '0'.toNat)) 0
    if n ≤ limit then some n else none

/-- A whole number of 64 bits with a sign. -/
def integer? (text : String) : Option Int :=
  match text.toList with
  | '-' :: cs =>
    if cs.head? = some '+' then none
    else (natural? (twoTo 63) (String.ofList cs)).map fun n => -(n : Int)
  | _ => (natural? (twoTo 63 - 1) text).map fun n => (n : Int)

end Courier.CommandLine
