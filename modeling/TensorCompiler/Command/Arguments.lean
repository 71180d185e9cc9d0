import TensorCompiler.Text.Digits
import TensorCompiler.Word

namespace TensorCompiler
namespace Command

/-!
# Arguments of the command

A setting is given by its long name, `--name value` or `--name=value`, and
some also by a letter, `-n value`, `-nvalue` or `-n=value`.  No setting may be
given twice.  A value that follows as an argument of its own must not look like
a setting, which a single dash does not.
-/

/-- Which machine to compile for. -/
inductive Machine where
  | cpu
  | accel
  deriving DecidableEq, Repr

def Machine.ofName? (text : String) : Option Machine :=
  if text = "cpu" then some .cpu else if text = "accel" then some .accel else none

/-- The settings that take a value. -/
inductive Setting where
  | input
  | machine
  | scratchpad
  | maxRounds
  | packMilliseconds
  | out
  | drawing
  deriving DecidableEq, Repr

def Setting.ofLongName? (name : String) : Option Setting :=
  [("input", input), ("target", machine), ("scratchpad", scratchpad), ("max-rounds", maxRounds),
    ("optimize-ms", packMilliseconds), ("out", out), ("dot", drawing)].lookup name

def Setting.ofLetter? (letter : Char) : Option Setting :=
  [('i', input), ('t', machine), ('o', out)].lookup letter

/-- What the arguments ask for. -/
structure Request where
  input : Option String := none
  machine : Option Machine := none
  scratchpad : Option Nat := none
  maxRounds : Option Nat := none
  packMilliseconds : Option Nat := none
  verify : Bool := false
  out : Option String := none
  drawing : Option String := none
  deriving DecidableEq, Repr

/-- A path, which is not empty. -/
def readPath? (value : List Char) : Option String :=
  if value.isEmpty then none else some (String.ofList value)

/-- Store a value in a place that is still free. -/
def store {α : Type} (place : Option α) (value : Option α) (put : α → Request) : Option Request :=
  match place, value with
  | none, some value => some (put value)
  | _, _ => none

/-- Take the value of a setting into a request, if it is well formed and the
setting was not given before. -/
def Request.assign (request : Request) (setting : Setting) (value : List Char) : Option Request :=
  let number := Text.readNatural? Word.largest value
  match setting with
  | .input => store request.input (readPath? value) fun path => { request with input := some path }
  | .machine => store request.machine (Machine.ofName? (String.ofList value)) fun machine =>
      { request with machine := some machine }
  | .scratchpad => store request.scratchpad number fun n => { request with scratchpad := some n }
  | .maxRounds => store request.maxRounds number fun n => { request with maxRounds := some n }
  | .packMilliseconds => store request.packMilliseconds number fun n =>
      { request with packMilliseconds := some n }
  | .out => store request.out (readPath? value) fun path => { request with out := some path }
  | .drawing => store request.drawing (readPath? value) fun path =>
      { request with drawing := some path }

/-! ## Reading the arguments -/

/-- What an argument says. -/
inductive Argument where
  /-- A setting, with its value if that is part of the argument. -/
  | setting (setting : Setting) (value : Option (List Char))
  /-- The request to check the placement. -/
  | verify
  /-- The request for a description of the command. -/
  | help
  /-- The end of the settings. -/
  | stop
  | unknown
  deriving DecidableEq, Repr

/-- Part a long name from the value after an equals sign. -/
def splitValue (text : List Char) : String × Option (List Char) :=
  (String.ofList (text.takeWhile (· != '=')),
    match text.dropWhile (· != '=') with
    | _ :: value => some value
    | [] => none)

/-- An argument after two dashes. -/
def Argument.ofLong (text : List Char) : Argument :=
  let (name, value) := splitValue text
  match Setting.ofLongName? name with
  | some known => setting known value
  | none =>
    if value.isSome then unknown
    else if name = "verify" then verify
    else if name = "help" ∨ name = "version" then help
    else unknown

/-- An argument after a single dash. -/
def Argument.ofLetter (letter : Char) (rest : List Char) : Argument :=
  match Setting.ofLetter? letter with
  | some known =>
    match rest with
    | [] => setting known none
    | '=' :: value => setting known (some value)
    | value => setting known (some value)
  | none => if letter = 'h' ∨ letter = 'V' then help else unknown

/-- Classify an argument. -/
def Argument.ofText (text : String) : Argument :=
  match text.toList with
  | ['-', '-'] => stop
  | '-' :: '-' :: rest => ofLong rest
  | '-' :: letter :: rest => ofLetter letter rest
  | _ => unknown

/-- Whether an argument cannot be the value of the setting before it. -/
def looksLikeSetting (text : String) : Bool :=
  match text.toList with
  | '-' :: _ :: _ => true
  | _ => false

/-- The outcome of reading the arguments. -/
inductive Reading where
  | request (request : Request)
  | help
  | misuse
  deriving DecidableEq, Repr

/-- Read arguments into a request. -/
def readFrom : List String → Request → Reading
  | [], request => .request request
  | text :: rest, request =>
    match Argument.ofText text with
    | .setting setting (some value) =>
      match request.assign setting value with
      | some request => readFrom rest request
      | none => .misuse
    | .setting setting none =>
      match rest with
      | [] => .misuse
      | value :: rest =>
        if looksLikeSetting value then .misuse
        else match request.assign setting value.toList with
          | some request => readFrom rest request
          | none => .misuse
    | .verify => if request.verify then .misuse else readFrom rest { request with verify := true }
    | .help => .help
    | .stop => if rest.isEmpty then .request request else .misuse
    | .unknown => .misuse

/-- Read the arguments of the command. -/
def read (arguments : List String) : Reading :=
  readFrom arguments {}

end Command
end TensorCompiler
