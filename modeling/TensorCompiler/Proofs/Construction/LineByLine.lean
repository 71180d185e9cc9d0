import TensorCompiler.Proofs.Construction.Guards
import TensorCompiler.Proofs.Construction.Oversize

namespace TensorCompiler

/-!
# Reading a script line by line

A script is read from its first line to its last, and the reading ends with the first
line that fails.  Nothing behind that line is looked at, so a script fails in the same
way if it goes on in another way behind the newline that ends the line.

What can fail at a line is known: it is refused, or a number in it is too large.
-/

/-! ## Lines of a text -/

namespace Text

variable {α : Type}

/-- A separator cuts a text in two, whatever stands on either side of it. -/
theorem splitWhere_append (isSeparator : α → Bool) {separator : α}
    (separates : isSeparator separator = true) (front rest : List α) :
    splitWhere isSeparator (front ++ separator :: rest) =
      splitWhere isSeparator front ++ splitWhere isSeparator rest := by
  induction front with
  | nil =>
      rcases splitWhere_cons isSeparator separator rest with ⟨piece, later, pieces, split⟩
      rw [List.nil_append, split, if_pos separates, pieces]
      rfl
  | cons x xs inductionHypothesis =>
      rcases splitWhere_cons isSeparator x xs with ⟨piece, later, pieces, split⟩
      rcases splitWhere_cons isSeparator x (xs ++ separator :: rest) with
        ⟨whole, wholeLater, wholePieces, wholeSplit⟩
      rw [inductionHypothesis, pieces, List.cons_append] at wholePieces
      rcases List.cons.inj wholePieces with ⟨rfl, rfl⟩
      rw [List.cons_append, wholeSplit, split]
      split <;> rfl

/-- Where the pieces of a text are parted there is a separator. -/
theorem exists_separator {isSeparator : α → Bool} {text : List α} {first second : List (List α)}
    (pieces : splitWhere isSeparator text = first ++ second) (someFirst : first ≠ [])
    (someSecond : second ≠ []) :
    ∃ front separator rest, text = front ++ separator :: rest ∧ isSeparator separator = true ∧
      splitWhere isSeparator front = first := by
  induction text generalizing first with
  | nil =>
      have lengths := congrArg List.length pieces
      rw [List.length_append] at lengths
      have oneFirst := List.length_pos_of_ne_nil someFirst
      have oneSecond := List.length_pos_of_ne_nil someSecond
      change 1 = _ at lengths
      omega
  | cons x xs inductionHypothesis =>
      -- The first piece is empty and `x` stands behind it, or `x` is in front of the rest of it.
      rcases splitWhere_cons isSeparator x xs with ⟨piece, later, rest, split⟩
      rcases List.exists_cons_of_ne_nil someFirst with ⟨head, others, rfl⟩
      rw [split, List.cons_append] at pieces
      by_cases separates : isSeparator x = true
      · rw [if_pos separates] at pieces
        rcases List.cons.inj pieces with ⟨rfl, same⟩
        by_cases none : others = []
        · exact ⟨[], x, xs, rfl, separates, by rw [none]; rfl⟩
        · rcases inductionHypothesis (rest.trans same) none with
            ⟨front, separator, behind, rfl, parts, cut⟩
          rcases splitWhere_cons isSeparator x front with ⟨_, _, again, splitFront⟩
          refine ⟨x :: front, separator, behind, rfl, parts, ?_⟩
          rw [splitFront, if_pos separates, ← again, cut]
      · rw [if_neg separates] at pieces
        rcases List.cons.inj pieces with ⟨rfl, same⟩
        rcases inductionHypothesis (rest.trans (congrArg (piece :: ·) same)) (List.cons_ne_nil _ _)
          with ⟨front, separator, behind, rfl, parts, cut⟩
        rcases splitWhere_cons isSeparator x front with ⟨_, _, again, splitFront⟩
        rcases List.cons.inj (cut.symm.trans again) with ⟨rfl, rfl⟩
        refine ⟨x :: front, separator, behind, rfl, parts, ?_⟩
        rw [splitFront, if_neg separates]

end Text

namespace Script

/-! ## Where a script fails -/

theorem readLines_append (number : Nat) (first second : List (List UInt8)) (state : ImportState) :
    readLines number (first ++ second) state =
      readLines number first state >>= readLines (number + first.length) second := by
  induction first generalizing number state with
  | nil => rfl
  | cons line rest inductionHypothesis =>
      simp only [List.cons_append, readLines, bind_assoc, inductionHypothesis, List.length_cons,
        Nat.add_assoc, Nat.add_comm 1]

/-- A line of a script cannot be read, after the lines in front of it have been. -/
structure FailsAt (bytes : List UInt8) (earlier : List (List UInt8)) (line : List UInt8)
    (later : List (List UInt8)) (state : ImportState) (failure : Failure) : Prop where
  lines : Text.splitWhere (· == newline) bytes = earlier ++ line :: later
  read : readLines 1 earlier {} = .ok state
  fails : readLine (earlier.length + 1) line state = .error failure

/-- Reading fails at the first line that cannot be read. -/
theorem readLines_eq_error {number : Nat} {lines : List (List UInt8)} {state : ImportState}
    {failure : Failure} :
    readLines number lines state = .error failure ↔ ∃ earlier line later between,
      lines = earlier ++ line :: later ∧ readLines number earlier state = .ok between ∧
        readLine (number + earlier.length) line between = .error failure := by
  constructor
  · intro failed
    induction lines generalizing number state with
    | nil => cases failed
    | cons line rest inductionHypothesis =>
        rcases Checked.bind_eq_error.mp failed with here | ⟨between, read, failed⟩
        · exact ⟨[], line, rest, state, rfl, rfl, here⟩
        · rcases inductionHypothesis failed with
            ⟨earlier, failing, later, last, rfl, readEarlier, fails⟩
          refine ⟨line :: earlier, failing, later, last, rfl,
            Checked.bind_eq_ok.mpr ⟨between, read, readEarlier⟩, ?_⟩
          rwa [List.length_cons, ← Nat.add_assoc, Nat.add_right_comm]
  · rintro ⟨earlier, line, later, between, rfl, read, fails⟩
    rw [readLines_append]
    exact Checked.bind_eq_error.mpr
      (Or.inr ⟨between, read, Checked.bind_eq_error.mpr (Or.inl fails)⟩)

variable {bytes line : List UInt8} {earlier later : List (List UInt8)} {state : ImportState}
  {failure : Failure}

theorem FailsAt.ofScript_eq_error (failsAt : FailsAt bytes earlier line later state failure) :
    Graph.ofScript bytes = .error failure := by
  refine Checked.bind_eq_error.mpr (Or.inl (readLines_eq_error.mpr ?_))
  refine ⟨earlier, line, later, state, failsAt.lines, failsAt.read, ?_⟩
  rw [Nat.add_comm]
  exact failsAt.fails

/-- A script that fails does so at a line, or at its end because nothing is in it or no
output is declared. -/
theorem exists_failsAt (failed : Graph.ofScript bytes = .error failure) :
    (∃ earlier line later state, FailsAt bytes earlier line later state failure) ∨
      failure = .refused .emptyText ∨ failure = .refused .emptyGraph := by
  rcases Checked.bind_eq_error.mp failed with read | ⟨state, _, ended⟩
  · rcases readLines_eq_error.mp read with ⟨earlier, line, later, state, lines, read, fails⟩
    rw [Nat.add_comm] at fails
    exact Or.inl ⟨earlier, line, later, state, lines, read, fails⟩
  · right
    split at ended
    · exact Or.inl (Except.error.inj ended).symm
    · split at ended
      · exact Or.inr (Except.error.inj ended).symm
      · cases ended

/-- A line that fails makes every script fail that agrees with this one up to the newline
behind the line. -/
theorem FailsAt.exists_front (failsAt : FailsAt bytes earlier line later state failure)
    (ended : later ≠ []) :
    ∃ front rest, bytes = front ++ newline :: rest ∧
      Text.splitWhere (· == newline) front = earlier ++ [line] ∧
      ∀ other, Graph.ofScript (front ++ newline :: other) = .error failure := by
  have parted : Text.splitWhere (· == newline) bytes = (earlier ++ [line]) ++ later := by
    rw [failsAt.lines, List.append_assoc]
    rfl
  rcases Text.exists_separator parted (by simp) ended with
    ⟨front, separator, rest, rfl, separates, lines⟩
  rcases beq_iff_eq.mp separates with rfl
  refine ⟨front, rest, rfl, lines, fun other => ?_⟩
  have again : FailsAt (front ++ newline :: other) earlier line
      (Text.splitWhere (· == newline) other) state failure := by
    refine ⟨?_, failsAt.read, failsAt.fails⟩
    rw [Text.splitWhere_append (· == newline) separates, lines, List.append_assoc]
    rfl
  exact again.ofScript_eq_error

end Script

/-- Reading a script fails cleanly.  A failure comes from a line, after the lines in front
of it have been read, or from the end of a script with no nodes or no outputs.  Only an
overflow aborts the reading, and only if the line has a product of dimensions, a size or an
extent in it that is too large, or a constant that cannot be held; the statements of the
lines never go out of range, divide by zero or run out of room for dimensions.  If the line
ends with a newline, then every script that is the same up to there fails in the same
way. -/
theorem Graph.ofScript_fails_cleanly (bytes : List UInt8) :
    (∀ failure, ofScript bytes = .error failure →
      (∃ earlier line later state, Script.FailsAt bytes earlier line later state failure) ∨
        failure = .refused .emptyText ∨ failure = .refused .emptyGraph) ∧
    (∀ cause, ofScript bytes = .error (.aborted cause) → cause = .overflow ∧
      ∃ earlier line later state, Script.FailsAt bytes earlier line later state (.aborted cause) ∧
        Script.Overasks (earlier.length + 1) line state) ∧
    (∀ earlier later state,
      Text.splitWhere (· == Script.newline) bytes = earlier ++ later →
      Script.readLines 1 earlier {} = .ok state →
      ∀ name statement, Statement.buildStrictly name statement state.graph =
        statement.build name state.graph) ∧
    (∀ earlier line later state failure,
      Script.FailsAt bytes earlier line later state failure → later ≠ [] →
      ∃ front rest, bytes = front ++ Script.newline :: rest ∧
        Text.splitWhere (· == Script.newline) front = earlier ++ [line] ∧
        ∀ other, ofScript (front ++ Script.newline :: other) = .error failure) := by
  refine ⟨fun failure => Script.exists_failsAt, ?_, ?_, ?_⟩
  · intro cause failed
    rcases Script.exists_failsAt failed with ⟨earlier, line, later, state, failsAt⟩ | ended
    · rcases Script.failsOnly_readLine _ _ _ _ failsAt.fails cause rfl with ⟨overflow, overasks⟩
      exact ⟨overflow, earlier, line, later, state, failsAt, overasks⟩
    · rcases ended with ended | ended <;> cases ended
  · intro earlier _ state _ read name statement
    have kept := Script.kept_ranked.readLines ⟨Made.empty, ranked_empty⟩ read
    exact kept.2.buildStrictly_eq name statement
  · intro earlier line later state failure failsAt ended
    exact failsAt.exists_front ended

/-- The first line asks for a constant with too many elements, although there are none of
them in the end. -/
def Script.uncountable : List UInt8 :=
  "w const f32 4294967296,4294967296,0\ny output w\n".toList.map fun character =>
    character.val.toUInt8

theorem Script.failsAt_uncountable :
    FailsAt uncountable [] (uncountable.take 35) [(uncountable.drop 36).take 10, []] {}
      (.aborted .overflow) where
  lines := by decide +kernel
  read := rfl
  fails := by
    have failed : (fun _ => ()) <$> readLine 1 (uncountable.take 35) {} =
        .error (.aborted .overflow) := by decide +kernel
    cases outcome : readLine 1 (uncountable.take 35) {} with
    | ok state =>
        rw [outcome] at failed
        cases failed
    | error failure =>
        rw [outcome] at failed
        cases failed
        exact outcome

theorem Graph.ofScript_fails_cleanly_uncountable :
    ofScript Script.uncountable = .error (.aborted .overflow) ∧
    (∃ earlier line later state,
      Script.FailsAt Script.uncountable earlier line later state (.aborted .overflow) ∧
        Script.Overasks (earlier.length + 1) line state) ∧
    ∃ front rest, Script.uncountable = front ++ Script.newline :: rest ∧
      ∀ other, ofScript (front ++ Script.newline :: other) = .error (.aborted .overflow) := by
  have failsAt := Script.failsAt_uncountable
  have failed := failsAt.ofScript_eq_error
  rcases ofScript_fails_cleanly Script.uncountable with ⟨_, aborted, _, newlineEnded⟩
  rcases newlineEnded _ _ _ _ _ failsAt (List.cons_ne_nil _ _) with ⟨front, rest, same, _, others⟩
  exact ⟨failed, (aborted _ failed).2, front, rest, same, others⟩

end TensorCompiler
