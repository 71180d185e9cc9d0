import TensorCompiler.Script.Statement
import TensorCompiler.Text.Utf8

namespace TensorCompiler
namespace Script

/-!
# Reading a script

A script is read line by line.  Blank lines and lines that start with `#` are
passed over.  Words that start with `+` are flags, wherever they stand; they
mark the node that the line makes.  A later line may use a name again and then
hides the earlier one.
-/

/-- The graph built from the lines so far, and the values they named. -/
structure ImportState where
  graph : Graph := {}
  names : List (String × Outlet) := []

/-- Run an edit on the graph; a failure ends the reading. -/
def ImportState.edit {α : Type} (state : ImportState) (change : Edit α) :
    Checked (α × ImportState) :=
  match change state.graph with
  | .ok value graph => .ok (value, { state with graph := graph })
  | .error failure _ => .error failure

/-- The mark that a flag sets. -/
def flagMarks (line : Nat) (flag : List Char) : Checked Marks :=
  if String.ofList flag = "+quantize" then return { quantize := true }
  else if String.ofList flag = "+skip_fusion" then return { skipFusion := true }
  else refuse (.badLine line .unknownFlag)

/-- Set the marks of some flags on a node. -/
def setFlags (line id : Nat) : List (List Char) → Edit Unit
  | [] => return ()
  | flag :: rest => do
    let marks ← flagMarks line flag
    Graph.updateMarks id (·.insert marks)
    setFlags line id rest

/-- Give the value of a line its name and flags. -/
def nameValue (line : Nat) (name : String) (flags : List (List Char)) (outlet : Outlet) :
    Edit Unit := do
  Graph.setName outlet.node name
  setFlags line outlet.node flags

/-- Read a line given by its words, flags apart. -/
def readWords (line : Nat) (flags words : List (List Char)) (state : ImportState) :
    Checked ImportState :=
  match words with
  | [] => refuse (.badLine line .missingName)
  | [_] => refuse (.badLine line .missingOpcode)
  | name :: opcode :: arguments => do
    let name := String.ofList name
    let context : LineContext := ⟨line, state.names⟩
    let (statement, _) ← (context.statement (String.ofList opcode)).run arguments
    let (value?, state) ← state.edit (statement.build name)
    match value? with
    | none => return state
    | some outlet =>
      let ((), state) ← state.edit (nameValue line name flags outlet)
      return { state with names := (name, outlet) :: state.names }

/-- Whether a word is a flag. -/
def isFlag (word : List Char) : Bool :=
  word.head? == some '+'

/-- Whether the words of a line ask for anything. -/
def isSignificant (words : List (List Char)) : Bool :=
  match words with
  | [] => false
  | word :: _ => word.head? != some '#'

/-- Read a line given by its bytes. -/
def readLine (line : Nat) (bytes : List UInt8) (state : ImportState) : Checked ImportState :=
  match Text.decode? bytes with
  | none => refuse .undecodableText
  | some text =>
    let words := Text.words text
    if isSignificant words then
      readWords line (words.filter isFlag) (words.filter fun word => !isFlag word) state
    else return state

/-- Read lines, the first of which has the given number. -/
def readLines : (line : Nat) → List (List UInt8) → ImportState → Checked ImportState
  | _, [], state => return state
  | line, bytes :: rest, state => do readLines (line + 1) rest (← readLine line bytes state)

/-- The byte that ends a line. -/
def newline : UInt8 := 10

end Script

/-- The graph that a script describes. -/
def Graph.ofScript (bytes : List UInt8) : Checked Graph := do
  let lines := Text.splitWhere (· == Script.newline) bytes
  let state ← Script.readLines 1 lines {}
  if state.graph.size = 0 then refuse .emptyText
  else if state.graph.outputs.isEmpty then refuse .emptyGraph
  else return state.graph

end TensorCompiler
