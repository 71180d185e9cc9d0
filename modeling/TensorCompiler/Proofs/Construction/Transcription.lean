import Mathlib.Data.List.DropRight
import TensorCompiler.Proofs.Construction.Arguments

namespace TensorCompiler

/-!
# What a script spells

A script spells a graph line by line.  This module says what that graph is without the
reader: which lines count, which words of a line are its name, its opcode, its arguments
and its flags, and which earlier line an argument refers to.  The arguments after those
give the parameters of the operator.  A script that is accepted makes exactly the graph
that its lines spell.

A name may be given again.  An argument then refers to the latest line that gave it, and
lines that declare outputs give no names at all.  The reader keeps a list of names with
the latest in front, so that the invariant of the reading has to tie that list, the
positions in the graph and the lines read so far to each other.
-/

/-! ## Lines that count -/

namespace Text

theorem splitWhere_cons {α : Type} (isSeparator : α → Bool) (x : α) (xs : List α) :
    ∃ piece rest, splitWhere isSeparator xs = piece :: rest ∧
      splitWhere isSeparator (x :: xs) =
        if isSeparator x then [] :: piece :: rest else (x :: piece) :: rest := by
  simp only [splitWhere_eq_splitOnP]
  rcases List.exists_cons_of_ne_nil (List.splitOnP_ne_nil isSeparator xs) with
    ⟨piece, rest, pieces⟩
  refine ⟨piece, rest, pieces, ?_⟩
  rw [List.splitOnP_cons_eq_if_modifyHead, pieces]
  rfl

/-- Blanks at the front belong to no word. -/
theorem words_cons_blank {c : Char} {text : List Char} (blank : isBlank c = true) :
    words (c :: text) = words text := by
  rcases splitWhere_cons isBlank c text with
    ⟨piece, rest, pieces, split⟩
  rw [words, words, split, pieces, if_pos blank]
  rfl

/-- Any other character at the front starts a word. -/
theorem words_cons_of_not_blank {c : Char} (text : List Char) (notBlank : isBlank c = false) :
    ∃ letters later, words (c :: text) = (c :: letters) :: later := by
  rcases splitWhere_cons isBlank c text with
    ⟨piece, rest, _, split⟩
  refine ⟨piece, rest.filter fun word => !word.isEmpty, ?_⟩
  rw [words, split, notBlank]
  rfl

/-- A text without the blanks at its ends. -/
def trim (text : List Char) : List Char :=
  (text.dropWhile isBlank).rdropWhile isBlank

theorem trim_cons_blank {c : Char} {text : List Char} (blank : isBlank c = true) :
    trim (c :: text) = trim text := by
  rw [trim, List.dropWhile_cons_of_pos blank, trim]

/-- Trimming keeps the first character that is not blank. -/
theorem head?_trim_cons {c : Char} (text : List Char) (notBlank : isBlank c = false) :
    (trim (c :: text)).head? = some c := by
  have front : (c :: text).dropWhile isBlank = c :: text :=
    List.dropWhile_cons_of_neg (by simp [notBlank])
  rw [trim, front]
  have nonempty : (c :: text).rdropWhile isBlank ≠ [] := by
    intro empty
    have allBlank := List.rdropWhile_eq_nil_iff.mp empty c List.mem_cons_self
    rw [notBlank] at allBlank
    cases allBlank
  rcases List.exists_cons_of_ne_nil nonempty with ⟨first, rest, same⟩
  have initial : (c :: text).rdropWhile isBlank <+: c :: text := List.rdropWhile_prefix isBlank _
  rw [same] at initial ⊢
  rw [(List.cons_prefix_cons.mp initial).1]
  rfl

end Text

namespace Script

/-- A line counts if it is not blank after trimming and does not start with `#`. -/
def counts (text : List Char) : Bool :=
  !(Text.trim text).isEmpty && (Text.trim text).head? != some '#'

theorem isSignificant_words (text : List Char) :
    isSignificant (Text.words text) = counts text := by
  induction text with
  | nil => rfl
  | cons c text inductionHypothesis =>
      cases blank : Text.isBlank c with
      | true =>
          rw [Text.words_cons_blank blank, counts, Text.trim_cons_blank blank]
          exact inductionHypothesis
      | false =>
          rcases Text.words_cons_of_not_blank text blank with ⟨letters, later, words⟩
          have first := Text.head?_trim_cons text blank
          rcases List.head?_eq_some_iff.mp first with ⟨rest, trimmed⟩
          rw [words, counts, trimmed]
          rfl

/-! ## The parts of a line -/

/-- A line by the parts its words play. -/
structure Line where
  name : String
  opcode : String
  /-- The words after the opcode that are no flags. -/
  arguments : List String
  /-- The flags, wherever they stand. -/
  flags : List String
  deriving DecidableEq, Repr

/-- The parts of a line, if it has a name and an opcode. -/
def Line.ofText? (text : List Char) : Option Line :=
  let (flags, others) := (Text.words text).partition isFlag
  match others.map String.ofList with
  | name :: opcode :: arguments => some ⟨name, opcode, arguments, flags.map String.ofList⟩
  | _ => none

/-- The lines of a script that count, in order, if all of it is text and each of them has
the parts of a line. -/
def lines? (bytes : List UInt8) : Option (List Line) := do
  let texts ← (Text.splitWhere (· == newline) bytes).mapM Text.decode?
  (texts.filter counts).mapM Line.ofText?

/-- A line gives a name to a value.  Outputs are no values. -/
def Line.Gives (line : Line) (name : String) : Prop :=
  line.name = name ∧ line.opcode ≠ "output"

/-- The position of the latest of some lines that gives a name. -/
structure Latest (lines : List Line) (name : String) (position : Nat) : Prop where
  gives : ∃ line, lines[position]? = some line ∧ line.Gives name
  last : ∀ later line, position < later → lines[later]? = some line → ¬ line.Gives name

/-- Some inputs read what some words refer to, one after the other: the result of the latest
line that gave the name. -/
def Refer (earlier : List Line) (words : List String) (sources : List (Option Outlet)) : Prop :=
  List.Forall₂
    (fun word source => ∃ position, Latest earlier word position ∧ source = some ⟨position, 0⟩)
    words sources

/-- The marks that some flags ask for. -/
def marksOf (flags : List String) : Marks :=
  ⟨flags.contains "+quantize", flags.contains "+skip_fusion"⟩

/-- A node is the one that a line asks for, given the lines before it. -/
structure Line.Spells (line : Line) (earlier : List Line) (node : Node) : Prop where
  name : node.name = line.name
  keyword : node.op.keyword = line.opcode
  inputCount : node.inputs.length = node.op.inputCount
  /-- The first arguments are the names of the operands, one for each input. -/
  operands : Refer earlier (line.arguments.take node.op.inputCount) node.inputs
  /-- The arguments after these are its parameters. -/
  parameters : Parameters (line.arguments.drop node.op.inputCount) node.op
    (node.outputs.map Wire.type)
  flags : line.opcode ≠ "output" → ∀ flag ∈ line.flags, flag = "+quantize" ∨ flag = "+skip_fusion"
  marks : line.opcode ≠ "output" → node.marks = marksOf line.flags
  /-- The flags of an output are passed over. -/
  unmarked : line.opcode = "output" → node.marks = {}

/-- A graph has one node for each line, in order, and no other; its outputs are those that
the lines declare. -/
structure Spelled (lines : List Line) (g : Graph) : Prop where
  size : g.size = lines.length
  nodeIds : g.nodeIds = List.range lines.length
  nodes : ∀ position line, lines[position]? = some line →
    ∃ node, g.node? position = some node ∧ line.Spells (lines.take position) node
  outputs : g.outputs = (List.range lines.length).filter fun position =>
    lines[position]?.any fun line => line.opcode == "output"

/-! ## One line -/

open TensorCompiler.Graph

variable {g h : Graph} {lines : List Line} {line : Line} {node : Node}

theorem keyword_eq_output {op : Operator} : op.keyword = "output" ↔ op = .output := by
  constructor
  · intro same
    cases op with
    | output => rfl
    | unary function => cases function <;> exact absurd same (by decide)
    | binary function => cases function <;> exact absurd same (by decide)
    | _ => exact absurd same (by simp [Operator.keyword, Operator.opcode, Opcode.name])
  · rintro rfl
    rfl

/-- What a line asks for does not depend on who reads the results. -/
theorem Line.Spells.congr {earlier : List Line} {now : Node} (spells : line.Spells earlier node)
    (same : now.unread = node.unread) : line.Spells earlier now := by
  obtain ⟨name, keyword, inputCount, operands, parameters, flags, marks, unmarked⟩ := spells
  rcases Node.mk.inj same with ⟨sameOp, sameName, sameInputs, -, sameMarks⟩
  change now.op = node.op at sameOp
  change now.name = node.name at sameName
  change now.inputs = node.inputs at sameInputs
  change now.marks = node.marks at sameMarks
  have sameTypes : now.outputs.map Wire.type = node.outputs.map Wire.type :=
    congrArg Signature.results (Node.signature_of_unread same)
  constructor
  · rw [sameName, name]
  · rw [sameOp, keyword]
  · rw [sameInputs, sameOp, inputCount]
  · rw [sameInputs, sameOp]
    exact operands
  · rw [sameOp, sameTypes]
    exact parameters
  · exact flags
  · rw [sameMarks]
    exact marks
  · rw [sameMarks]
    exact unmarked

/-- A graph with one node more spells one line more. -/
theorem Spelled.append (spelled : Spelled lines g) (slots : g.slots.size = lines.length)
    (appended : g.Appended node h) (new : line.Spells lines node) :
    Spelled (lines ++ [line]) h where
  size := by
    have live : h.live = g.live + 1 := appended.live
    have before : g.live = lines.length := spelled.size
    rw [List.length_append, Graph.size, live, before]
    rfl
  nodeIds := by
    rw [appended.nodeIds, spelled.nodeIds, slots, List.length_append, List.length_singleton,
      List.range_succ]
  nodes := by
    intro position other entry
    have inside := (List.getElem?_eq_some_iff.mp entry).1
    rw [List.length_append, List.length_singleton] at inside
    rcases Nat.lt_succ_iff_lt_or_eq.mp inside with earlier | rfl
    · rw [List.getElem?_append_left earlier] at entry
      rcases spelled.nodes position other entry with ⟨before, found, spells⟩
      have same := appended.old position (by rw [slots]; exact earlier)
      rw [found, Option.map_some] at same
      rcases Option.map_eq_some_iff.mp same with ⟨now, nowFound, view⟩
      rw [List.take_append_of_le_length (Nat.le_of_lt earlier)]
      exact ⟨now, nowFound, spells.congr view⟩
    · rw [List.getElem?_concat_length] at entry
      rcases Option.some.inj entry with rfl
      rcases Option.map_eq_some_iff.mp appended.new with ⟨added, found, view⟩
      rw [slots] at found
      rw [List.take_left]
      exact ⟨added, found, new.congr view⟩
  outputs := by
    have earlier : ((List.range lines.length).filter fun position =>
        (lines ++ [line])[position]?.any fun line => line.opcode == "output") = g.outputs := by
      rw [spelled.outputs]
      apply List.filter_congr
      intro position inside
      rw [List.getElem?_append_left (List.mem_range.mp inside)]
    have declares : (node.op = .output) ↔ line.opcode = "output" := by
      rw [← keyword_eq_output, new.keyword]
    rw [appended.outputs, List.length_append, List.length_singleton, List.range_succ,
      List.filter_append, earlier, Graph.push]
    by_cases isOutput : line.opcode = "output"
    · simp [declares, isOutput, slots]
    · simp [declares, isOutput]

/-! ## Flags -/

theorem flagMarks_eq_ok {number : Nat} {flag : List Char} {marks : Marks}
    (done : flagMarks number flag = .ok marks) :
    (String.ofList flag = "+quantize" ∨ String.ofList flag = "+skip_fusion") ∧
      marks = marksOf [String.ofList flag] := by
  unfold flagMarks at done
  split at done
  · next quantize =>
    rcases Checked.pure_eq_ok.mp done with rfl
    rw [quantize]
    exact ⟨.inl rfl, rfl⟩
  · split at done
    · next skipFusion =>
      rcases Checked.pure_eq_ok.mp done with rfl
      rw [skipFusion]
      exact ⟨.inr rfl, rfl⟩
    · exact absurd done Checked.refuse_ne_ok

theorem insert_marksOf (marks : Marks) (flag : String) (flags : List String) :
    (marks.insert (marksOf [flag])).insert (marksOf flags) =
      marks.insert (marksOf (flag :: flags)) := by
  simp only [Marks.insert, marksOf, List.contains_cons, List.contains_nil, Bool.or_false,
    Bool.or_assoc]

/-- The flags of a line are set on its node, one after the other. -/
theorem appended_of_setFlags {number : Nat} {flags : List (List Char)} {after : Graph}
    (appended : g.Appended node h)
    (done : setFlags number g.slots.size flags h = .ok () after) :
    (∀ flag ∈ flags.map String.ofList, flag = "+quantize" ∨ flag = "+skip_fusion") ∧
      g.Appended { node with marks := node.marks.insert (marksOf (flags.map String.ofList)) }
        after := by
  induction flags generalizing node h with
  | nil =>
      rcases Stateful.pure_eq_ok.mp done with ⟨_, rfl⟩
      refine ⟨fun _ none => absurd none List.not_mem_nil, ?_⟩
      have same : node.marks.insert (marksOf []) = node.marks := by
        simp [Marks.insert, marksOf]
      rw [List.map_nil, same]
      exact appended
  | cons flag rest inductionHypothesis =>
      simp only [setFlags, Stateful.bind_eq_ok, Stateful.lift_eq_ok] at done
      rcases done with ⟨marks, _, ⟨read, rfl⟩, _, between, marked, done⟩
      rcases flagMarks_eq_ok read with ⟨known, rfl⟩
      rcases appended.updateMarks (·.insert (marksOf [String.ofList flag])) with
        ⟨_, markedAgain, next⟩
      rcases EStateM.Result.ok.inj (marked.symm.trans markedAgain) with ⟨_, rfl⟩
      rcases inductionHypothesis next done with ⟨others, final⟩
      refine ⟨?_, ?_⟩
      · rw [List.map_cons]
        exact List.forall_mem_cons.mpr ⟨known, others⟩
      · simp only [insert_marksOf] at final
        exact final

/-! ## Names -/

/-- A further line takes over its name; it leaves the others alone. -/
theorem Latest.append {name : String} {position : Nat} (latest : Latest lines name position)
    (other : ¬ line.Gives name) : Latest (lines ++ [line]) name position where
  gives := by
    rcases latest.gives with ⟨giver, entry, gives⟩
    refine ⟨giver, ?_, gives⟩
    rw [List.getElem?_append_left (List.getElem?_eq_some_iff.mp entry).1, entry]
  last := by
    intro later found after entry
    have inside := (List.getElem?_eq_some_iff.mp entry).1
    rw [List.length_append, List.length_singleton] at inside
    rcases Nat.lt_succ_iff_lt_or_eq.mp inside with earlier | rfl
    · rw [List.getElem?_append_left earlier] at entry
      exact latest.last later found after entry
    · rw [List.getElem?_concat_length] at entry
      rcases Option.some.inj entry with rfl
      exact other

theorem latest_of_gives {name : String} (gives : line.Gives name) :
    Latest (lines ++ [line]) name lines.length where
  gives := ⟨line, List.getElem?_concat_length, gives⟩
  last := by
    intro later found after entry
    have inside := (List.getElem?_eq_some_iff.mp entry).1
    rw [List.length_append, List.length_singleton] at inside
    exact absurd inside (Nat.not_lt.mpr after)

/-- Every known name stands for the result of the latest line that gave it. -/
def Current (lines : List Line) (names : List (String × Outlet)) : Prop :=
  ∀ name outlet, names.lookup name = some outlet →
    ∃ position, Latest lines name position ∧ outlet = ⟨position, 0⟩

theorem Current.pass {names : List (String × Outlet)} (current : Current lines names)
    (declares : line.opcode = "output") : Current (lines ++ [line]) names := by
  intro name outlet found
  rcases current name outlet found with ⟨position, latest, rfl⟩
  exact ⟨position, latest.append fun gives => gives.2 declares, rfl⟩

theorem Current.give {names : List (String × Outlet)} (current : Current lines names)
    (value : line.opcode ≠ "output") :
    Current (lines ++ [line]) ((line.name, ⟨lines.length, 0⟩) :: names) := by
  intro name outlet found
  rw [List.lookup_cons] at found
  by_cases same : name = line.name
  · rw [beq_iff_eq.mpr same] at found
    rcases Option.some.inj found with rfl
    exact ⟨lines.length, latest_of_gives ⟨same.symm, value⟩, rfl⟩
  · rw [beq_eq_false_iff_ne.mpr same] at found
    rcases current name outlet found with ⟨position, latest, rfl⟩
    exact ⟨position, latest.append fun gives => same gives.1.symm, rfl⟩

/-- Words that name operands refer to the latest lines that gave those names. -/
theorem Name.operands {names : List (String × Outlet)} {words : List (List Char)}
    {outlets : List Outlet} (named : Name names words outlets) (current : Current lines names) :
    Refer lines ((words.map String.ofList).take outlets.length) (outlets.map some) := by
  rw [Refer, ← List.map_take, List.forall₂_map_left_iff, List.forall₂_map_right_iff]
  refine List.Forall₂.imp ?_ named
  intro word outlet found
  rcases current _ outlet found with ⟨position, latest, rfl⟩
  exact ⟨position, latest, rfl⟩

/-! ## Reading line by line -/

/-- What holds of a reading after some lines: the graph is the one they spell, and the
names are those they gave. -/
structure Transcribes (lines : List Line) (state : ImportState) : Prop where
  intact : state.graph.Intact
  slots : state.graph.slots.size = lines.length
  spelled : Spelled lines state.graph
  current : Current lines state.names

theorem transcribes_nil : Transcribes [] {} where
  intact := intact_empty
  slots := rfl
  spelled := ⟨rfl, rfl, fun _ _ none => absurd none (by simp), rfl⟩
  current := fun _ _ none => absurd none (by simp)

theorem Transcribes.append {state after : ImportState} (transcribes : Transcribes lines state)
    (appended : state.graph.Appended node after.graph) (new : line.Spells lines node)
    (current : Current (lines ++ [line]) after.names) : Transcribes (lines ++ [line]) after where
  intact := appended.intact transcribes.intact
  slots := by rw [appended.size, transcribes.slots, List.length_append, List.length_singleton]
  spelled := transcribes.spelled.append transcribes.slots appended new
  current := current

theorem edit_names {α : Type} {state after : ImportState} {change : Edit α} {value : α}
    (done : state.edit change = .ok (value, after)) : after.names = state.names := by
  unfold ImportState.edit at done
  split at done
  · rcases Prod.mk.inj (Except.ok.inj done) with ⟨_, rfl⟩
    rfl
  · cases done

/-- A value bears the name and the flags of its line. -/
theorem appended_of_nameValue {number : Nat} {name : String} {flags : List (List Char)}
    {after : Graph} (appended : g.Appended node h)
    (done : nameValue number name flags ⟨g.slots.size, 0⟩ h = .ok () after) :
    (∀ flag ∈ flags.map String.ofList, flag = "+quantize" ∨ flag = "+skip_fusion") ∧
      g.Appended
        { node with
          name := name, marks := node.marks.insert (marksOf (flags.map String.ofList)) } after := by
  simp only [nameValue, Stateful.bind_eq_ok] at done
  rcases done with ⟨_, between, named, done⟩
  rcases appended.setName name with ⟨_, namedAgain, next⟩
  rcases EStateM.Result.ok.inj (named.symm.trans namedAgain) with ⟨_, rfl⟩
  exact appended_of_setFlags next done

/-- The node of a declared output bears the given name. -/
theorem appended_of_output {name : String} {value : Outlet} {id : Nat} (intact : g.Intact)
    (done : output name value g = .ok id h) :
    g.Appended (connectedNode .output name [value] []) h := by
  have opened := done
  simp only [output, Stateful.bind_eq_ok, Edit.ask_eq_ok] at opened
  rcases opened with ⟨type, _, ⟨typed, _⟩, _⟩
  rcases exists_output intact.reliable name typed with ⟨_, again, appended⟩
  rcases EStateM.Result.ok.inj (done.symm.trans again) with ⟨_, rfl⟩
  exact appended

/-- A line that declares an output adds a node with the name it was declared with, and
gives no name. -/
theorem Transcribes.declare {state : ImportState} {value : Outlet} {id : Nat}
    (transcribes : Transcribes lines state) (declares : line.opcode = "output")
    (operands : Refer lines (line.arguments.take 1) [some value])
    (declared : output line.name value state.graph = .ok id h) :
    Transcribes (lines ++ [line]) { state with graph := h } := by
  refine transcribes.append (appended_of_output transcribes.intact declared) ?_
    (transcribes.current.pass declares)
  exact ⟨rfl, declares.symm, rfl, operands, .output, fun value => absurd declares value,
    fun value => absurd declares value, fun _ => rfl⟩

/-- A line that yields a value adds a node with its name and flags, and gives that name. -/
theorem Transcribes.define {state : ImportState} {number : Nat} {title : String}
    {statement : Statement} {results : List TensorType} {flags : List (List Char)} {after : Graph}
    (transcribes : Transcribes lines state) (isValue : line.opcode ≠ "output")
    (keyword : statement.operator.keyword = line.opcode)
    (count : statement.operands.length = statement.operator.inputCount)
    (operands : Refer lines (line.arguments.take statement.operator.inputCount)
      (statement.operands.map some))
    (parameters : Parameters (line.arguments.drop statement.operator.inputCount)
      statement.operator results)
    (written : line.flags = flags.map String.ofList)
    (appended : state.graph.Appended
      (connectedNode statement.operator title statement.operands results) h)
    (named : nameValue number line.name flags ⟨state.graph.slots.size, 0⟩ h = .ok () after) :
    Transcribes (lines ++ [line])
      ⟨after, (line.name, ⟨state.graph.slots.size, 0⟩) :: state.names⟩ := by
  rcases appended_of_nameValue appended named with ⟨known, final⟩
  refine transcribes.append final ?_ ?_
  · refine ⟨rfl, keyword, ?_, operands, ?_, fun _ => written ▸ known, fun _ => ?_,
      fun declares => absurd declares isValue⟩
    · exact (List.length_map _).trans count
    · change Parameters _ statement.operator
        (connectedNode statement.operator title statement.operands results).signature.results
      rw [results_connectedNode]
      exact parameters
    · simp [connectedNode, freshNode, Marks.insert, written]
  · rw [transcribes.slots]
    exact transcribes.current.give isValue

theorem Transcribes.readWords {number : Nat} {flags arguments : List (List Char)}
    {name opcode : List Char} {state after : ImportState} (transcribes : Transcribes lines state)
    (done : readWords number flags (name :: opcode :: arguments) state = .ok after) :
    Transcribes (lines ++ [⟨String.ofList name, String.ofList opcode,
      arguments.map String.ofList, flags.map String.ofList⟩]) after := by
  simp only [Script.readWords, Checked.bind_eq_ok, Prod.exists] at done
  rcases done with ⟨statement, _, read, value?, ⟨between, betweenNames⟩, built, done⟩
  rcases understood_of_statement read with ⟨keyword, named, parameters⟩
  obtain rfl : betweenNames = state.names := edit_names built
  have build := edit_eq_ok built
  rcases adds_of_build transcribes.intact build with
    ⟨⟨title, types, results, typed, accepted, appended⟩, yielded⟩
  have count : statement.operands.length = statement.operator.inputCount :=
    typed.length_eq.trans accepted.counts.1
  have operands := Name.operands named transcribes.current
  have declares := declares_of_build transcribes.intact build appended
  rw [count] at operands parameters
  by_cases isOutput : statement.operator = .output
  · rw [if_pos isOutput] at yielded
    subst yielded
    rcases Checked.pure_eq_ok.mp done with rfl
    cases statement with
    | output value =>
        simp only [Statement.build, Stateful.bind_eq_ok, Stateful.pure_eq_ok] at build
        rcases build with ⟨_, _, declared, _, rfl⟩
        exact transcribes.declare keyword.symm operands declared
    | _ => cases isOutput
  · rw [if_neg isOutput] at yielded
    subst yielded
    simp only [Checked.bind_eq_ok, Prod.exists] at done
    rcases done with ⟨_, ⟨last, lastNames⟩, marked, done⟩
    obtain rfl : lastNames = state.names := edit_names marked
    rcases Checked.pure_eq_ok.mp done with rfl
    have isValue : String.ofList opcode ≠ "output" := by
      rw [← keyword]
      exact fun same => isOutput (keyword_eq_output.mp same)
    exact transcribes.define isValue keyword count operands (parameters results declares) rfl
      appended (edit_eq_ok marked)

/-- A line that counts has the parts of a line and adds its node; any other changes
nothing. -/
theorem Transcribes.readLine {number : Nat} {bytes : List UInt8} {state after : ImportState}
    (transcribes : Transcribes lines state) (done : readLine number bytes state = .ok after) :
    ∃ text, Text.decode? bytes = some text ∧
      if counts text then
        ∃ line, Line.ofText? text = some line ∧ Transcribes (lines ++ [line]) after
      else after = state := by
  unfold Script.readLine at done
  split at done
  · exact absurd done Checked.refuse_ne_ok
  · next text decoded =>
    refine ⟨text, decoded, ?_⟩
    simp only [isSignificant_words] at done
    split at done
    · next significant =>
      rw [if_pos significant]
      simp only [Line.ofText?, List.partition_eq_filter_filter]
      change Script.readWords number _ ((Text.words text).filter (not ∘ isFlag)) state = _ at done
      cases others : (Text.words text).filter (not ∘ isFlag) with
      | nil =>
          rw [others] at done
          exact absurd done Checked.refuse_ne_ok
      | cons name later =>
          cases later with
          | nil =>
              rw [others] at done
              exact absurd done Checked.refuse_ne_ok
          | cons opcode arguments =>
              rw [others] at done
              exact ⟨_, rfl, transcribes.readWords done⟩
    · next passed =>
      rw [if_neg passed]
      exact (Checked.pure_eq_ok.mp done).symm

/-- Reading further lines transcribes those of them that count. -/
theorem Transcribes.readLines {number : Nat} {pieces : List (List UInt8)}
    {state after : ImportState} (transcribes : Transcribes lines state)
    (done : readLines number pieces state = .ok after) :
    ∃ texts later, pieces.mapM Text.decode? = some texts ∧
      (texts.filter counts).mapM Line.ofText? = some later ∧
      Transcribes (lines ++ later) after := by
  induction pieces generalizing number lines state with
  | nil =>
      rcases Checked.pure_eq_ok.mp done with rfl
      refine ⟨[], [], rfl, rfl, ?_⟩
      rw [List.append_nil]
      exact transcribes
  | cons bytes rest inductionHypothesis =>
      simp only [Script.readLines, Checked.bind_eq_ok] at done
      rcases done with ⟨between, first, done⟩
      rcases transcribes.readLine first with ⟨text, decoded, counted⟩
      split at counted
      · next significant =>
        rcases counted with ⟨line, parts, next⟩
        rcases inductionHypothesis next done with ⟨texts, later, decodedRest, partsRest, final⟩
        refine ⟨text :: texts, line :: later, ?_, ?_, ?_⟩
        · simp [List.mapM_cons, decoded, decodedRest]
        · simp [significant, List.mapM_cons, parts, partsRest]
        · rw [List.append_cons]
          exact final
      · next passed =>
        subst counted
        rcases inductionHypothesis transcribes done with
          ⟨texts, later, decodedRest, partsRest, final⟩
        refine ⟨text :: texts, later, ?_, ?_, final⟩
        · simp [List.mapM_cons, decoded, decodedRest]
        · simp [passed, partsRest]

end Script

/-! ## The whole script -/

namespace Graph

/-- A script that is accepted makes the graph that it spells: its lines have the parts of
lines, each line that counts is the node at its position, and the declared outputs are the
lines that declare them.  All inputs of that graph are connected, and its links are stored
alike at both ends and form no cycle.  The types of its values follow from those that the
lines give. -/
theorem ofScript_spelled {bytes : List UInt8} {g : Graph} (done : ofScript bytes = .ok g) :
    ∃ lines, Script.lines? bytes = some lines ∧ Script.Spelled lines g ∧ g.outputs ≠ [] ∧
      g.Linked ∧ g.Acyclic ∧ (∀ id node, g.node? id = some node → none ∉ node.inputs) ∧
      g.Typed := by
  have valid := (made_of_ofScript done).valid
  have declared := (Script.kept_made.ofScript .empty done).2
  simp only [ofScript, Checked.bind_eq_ok] at done
  rcases done with ⟨state, read, done⟩
  have same : state.graph = g := by
    split at done
    · exact absurd done Checked.refuse_ne_ok
    · split at done
      · exact absurd done Checked.refuse_ne_ok
      · exact Checked.pure_eq_ok.mp done
  rcases Script.transcribes_nil.readLines read with ⟨texts, lines, decoded, parts, transcribes⟩
  rw [List.nil_append] at transcribes
  refine ⟨lines, ?_, same ▸ transcribes.spelled, declared, valid.linked, valid.acyclic, ?_,
    valid.typed⟩
  · simp [Script.lines?, decoded, parts]
  · intro id node found unconnected
    rcases valid.typed id node found with ⟨sources, _, inputs, _⟩
    rw [inputs] at unconnected
    simp at unconnected

/-- A script with a comment, a name that is given twice, flags in front of and behind the
other words, dimensions, a constant, and two outputs, one of them with a flag that means
nothing. -/
def shadowing : List UInt8 :=
  ("# twice\nx input f32 4\n\n x abs x +quantize\n+skip_fusion s add x x\nt reshape s 2,+2\n" ++
    "k const i8 scalar -1.5\ns output s +plain\nz output t").toList.map fun character =>
      character.val.toUInt8

theorem ofScript_spelled_shadowing : ∃ g, ofScript shadowing = .ok g ∧
    Script.Spelled [⟨"x", "input", ["f32", "4"], []⟩, ⟨"x", "abs", ["x"], ["+quantize"]⟩,
      ⟨"s", "add", ["x", "x"], ["+skip_fusion"]⟩, ⟨"t", "reshape", ["s", "2,+2"], []⟩,
      ⟨"k", "const", ["i8", "scalar", "-1.5"], []⟩, ⟨"s", "output", ["s"], ["+plain"]⟩,
      ⟨"z", "output", ["t"], []⟩] g ∧
    g.outputs ≠ [] ∧ g.Linked ∧ g.Acyclic ∧
    (∀ id node, g.node? id = some node → none ∉ node.inputs) ∧ g.Typed := by
  have accepted : (ofScript shadowing).isOk = true := by decide +kernel
  have parts : Script.lines? shadowing = some
      [⟨"x", "input", ["f32", "4"], []⟩, ⟨"x", "abs", ["x"], ["+quantize"]⟩,
        ⟨"s", "add", ["x", "x"], ["+skip_fusion"]⟩, ⟨"t", "reshape", ["s", "2,+2"], []⟩,
        ⟨"k", "const", ["i8", "scalar", "-1.5"], []⟩, ⟨"s", "output", ["s"], ["+plain"]⟩,
        ⟨"z", "output", ["t"], []⟩] := by decide +kernel
  cases done : ofScript shadowing with
  | error failure =>
      rw [done] at accepted
      cases accepted
  | ok g =>
      rcases ofScript_spelled done with ⟨lines, read, rest⟩
      rcases Option.some.inj (parts.symm.trans read) with rfl
      exact ⟨g, rfl, rest⟩

end Graph

end TensorCompiler
