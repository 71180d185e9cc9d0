import TensorCompiler.Proofs.Rewriting.Exchange
import TensorCompiler.Proofs.Rewriting.NormalForm

namespace TensorCompiler

/-!
# Conservation of work

Passes for the accelerator move work around but neither lose nor duplicate any.  The
work of a graph is counted by duties.  A convolution on the accelerator has the duty of
a marked one on the host, so offloading keeps the count; rectifiers have no duty, since
they become clamps, and neither have constants, which offloading leaves behind.

After the passes have converged, the marked convolutions still on the host are those
that the accelerator cannot take, and the check of the target reports the first of
them.
-/

/-- What a node contributes to the work of a network. -/
inductive Duty where
  | input
  | unary (function : UnaryFunction)
  | binary
  | product
  | convolution
  /-- A convolution for the accelerator, moved there or not. -/
  | markedConvolution
  deriving DecidableEq

def Role.duty : Role → Option Duty
  | ⟨.input, _⟩ => some .input
  | ⟨.unary .relu, _⟩ => none
  | ⟨.unary function, _⟩ => some (.unary function)
  | ⟨.binary _, _⟩ => some .binary
  | ⟨.matMul _, _⟩ => some .product
  | ⟨.conv2d _, marks⟩ => some (if marks.quantize then .markedConvolution else .convolution)
  | ⟨.accelConv2d _, _⟩ => some .markedConvolution
  | _ => none

/-- One if the role has the duty. -/
def Role.load (duty : Duty) (role : Role) : Nat :=
  if role.duty = some duty then 1 else 0

/-- A trade gives the duties that it takes. -/
theorem Trade.sum_load {stage : Stage} {old new : List Role} (trade : Trade stage old new)
    (duty : Duty) : (new.map (Role.load duty)).sum = (old.map (Role.load duty)).sum := by
  cases trade with
  | offload marked => simp [Role.load, Role.duty, marked]
  | _ => rfl

namespace Graph

open Finset

variable {g h : Graph} {stage : Stage} {removed : List Nat} {nodes : List Node}

/-- The number of nodes with a duty. -/
def workload (g : Graph) (duty : Duty) : Nat :=
  ((range g.slots.size).filter fun id => (g.role? id).bind Role.duty = some duty).card

theorem workload_eq_total (g : Graph) (duty : Duty) :
    g.workload duty = g.total fun node => node.role.load duty := by
  rw [workload, card_filter, total]
  apply sum_congr rfl
  intro id _
  rw [role?, loadAt]
  cases g.node? id with
  | none => rfl
  | some node => rfl

theorem Exchanged.workload (exchanged : g.Exchanged stage removed nodes h) (swept : g.swept = g)
    (duty : Duty) : h.workload duty = g.workload duty := by
  rw [workload_eq_total, workload_eq_total]
  exact exchanged.total_role_eq swept (fun _ _ => rfl) fun _ _ trade => trade.sum_load duty

/-- The nodes with a duty are as many as before, and so are the declared outputs. -/
structure Conserves (g h : Graph) : Prop where
  outputs : h.outputs = g.outputs
  workload : ∀ duty, h.workload duty = g.workload duty

end Graph

/-! ## Passes -/

namespace Pipeline

/-- What holds of a graph while passes conserve the work of the one they started with. -/
structure Conserving (g h : Graph) : Prop extends Graph.Sustains g h where
  swept : h.swept = h
  workload : ∀ duty, h.workload duty = g.workload duty

theorem Conserving.rewrites {g h k : Graph} {pass : Pass} (conserving : Conserving g h)
    (valid : g.Valid) (builtIn : pass.IsBuiltIn) (rewrites : pass.Rewrites h k) :
    Conserving g k := by
  have rules : ∀ rule ∈ pass.rules, rule.Careful ∧ ∃ stage, True ∧ rule.Trades stage := by
    intro rule member
    rcases (builtIn rule member).exists_trades with ⟨stage, trades⟩
    exact ⟨(builtIn rule member).careful, stage, trivial, trades⟩
  rcases rewrites.exists_exchanged (fun _ => True) rules conserving.intact (conserving.valid valid)
    with ⟨stage, removed, nodes, -, exchanged⟩
  constructor
  · exact conserving.toSustains.trans (rewrites.sustains builtIn conserving.intact)
  · exact rewrites.swept_eq_self
  · exact fun duty => (exchanged.workload conserving.swept duty).trans (conserving.workload duty)

theorem conserving_of_run {pipeline : Pipeline} {g : Graph} {journal : Journal} {after : Workbench}
    {stats : PipelineStats} (builtIn : ∀ pass ∈ pipeline.passes, pass.IsBuiltIn)
    (intact : g.Intact) (valid : g.Valid) (swept : g.swept = g)
    (done : pipeline.run ⟨g, journal⟩ = .ok stats after) : Conserving g after.graph := by
  have start : Conserving g g := ⟨.refl intact, swept, fun _ => rfl⟩
  apply holds_of_run (Conserving g ·) _ _ start done
  · exact fun pass member h k conserving => conserving.rewrites valid (builtIn pass member)
  · intro h conserving
    rw [conserving.swept]
    exact conserving

end Pipeline

/-! ## Checking -/

namespace Graph

/-- A marked convolution whose weights do not suit the accelerator. -/
def IsUnsuited (g : Graph) (id : Nat) : Prop :=
  ∃ node convolution, g.node? id = some node ∧ node.op = .conv2d convolution ∧
    node.marks.quantize = true ∧ ¬ g.HasSmallKernel id

end Graph

namespace Target

/-- The check of a graph fails exactly if there is a node of some kind, and then it
reports the first one in dependency order. -/
structure ReportsFirst (target : Target) (g : Graph) (bad : Nat → Prop) : Prop where
  fails : (∃ failure, target.check g = .error failure) ↔ ∃ id, bad id
  first : ∀ failure, target.check g = .error failure → ∃ before id rest node,
    g.postorder = before ++ id :: rest ∧ (∀ other ∈ before, ¬ bad other) ∧ bad id ∧
      g.node? id = some node ∧
      failure = .refused (.unsupported node.name node.op.opcode target.name)

variable {target : Target} {g : Graph}

/-- Nodes are checked in order until one is not supported. -/
theorem checkNodes_cases {bad : Nat → Prop} {ids : List Nat}
    (present : ∀ id ∈ ids, ∃ node, g.node? id = some node ∧
      (target.supports node = false ↔ bad id)) :
    (target.checkNodes g ids = .ok () ∧ ∀ id ∈ ids, ¬ bad id) ∨
      ∃ before id rest node, ids = before ++ id :: rest ∧ (∀ other ∈ before, ¬ bad other) ∧
        bad id ∧ g.node? id = some node ∧ target.checkNodes g ids =
          .error (.refused (.unsupported node.name node.op.opcode target.name)) := by
  induction ids with
  | nil => exact Or.inl ⟨rfl, List.forall_mem_nil _⟩
  | cons id rest inductionHypothesis =>
      rcases List.forall_mem_cons.mp present with ⟨⟨node, found, kind⟩, others⟩
      have looked : g.node id = .ok node := Graph.node_eq_ok.mpr found
      cases supported : target.supports node with
      | false =>
          refine Or.inr ⟨[], id, rest, node, rfl, List.forall_mem_nil _, kind.mp supported, found,
            ?_⟩
          simp only [checkNodes, looked, bind, Except.bind, supported]
          rfl
      | true =>
          have good : ¬ bad id := fun isBad => by
            rw [kind.mpr isBad] at supported
            cases supported
          have steps : target.checkNodes g (id :: rest) = target.checkNodes g rest := by
            simp [checkNodes, looked, bind, Except.bind, supported]
          rw [steps]
          rcases inductionHypothesis others with ⟨passes, none⟩ | later
          · exact Or.inl ⟨passes, List.forall_mem_cons.mpr ⟨good, none⟩⟩
          · rcases later with ⟨before, other, after, found, rfl, none, isBad, there, fails⟩
            exact Or.inr ⟨id :: before, other, after, found, rfl,
              List.forall_mem_cons.mpr ⟨good, none⟩, isBad, there, fails⟩

theorem reportsFirst_of_supports {bad : Nat → Prop} (intact : g.Intact) (swept : g.swept = g)
    (only : ∀ id, bad id → g.contains id = true)
    (kind : ∀ id node, g.node? id = some node → (target.supports node = false ↔ bad id)) :
    target.ReportsFirst g bad := by
  have present : ∀ id ∈ g.postorder, ∃ node, g.node? id = some node ∧
      (target.supports node = false ↔ bad id) := by
    intro id member
    rcases Graph.contains_iff.mp (Graph.contains_of_mem_postorder member) with ⟨node, found⟩
    exact ⟨node, found, kind id node found⟩
  have ordered : ∀ id, bad id → id ∈ g.postorder :=
    fun id isBad => intact.mem_postorder swept (only id isBad)
  rcases checkNodes_cases present with ⟨passes, none⟩ | reported
  · have checked : target.check g = .ok () := passes
    constructor
    · constructor
      · rintro ⟨failure, fails⟩
        rw [checked] at fails
        cases fails
      · rintro ⟨id, isBad⟩
        exact absurd isBad (none id (ordered id isBad))
    · intro failure fails
      rw [checked] at fails
      cases fails
  · rcases reported with ⟨before, id, rest, node, order, none, isBad, found, fails⟩
    have checked : target.check g = .error _ := fails
    constructor
    · exact ⟨fun _ => ⟨id, isBad⟩, fun _ => ⟨_, checked⟩⟩
    · intro failure reported
      rw [checked] at reported
      cases reported
      exact ⟨before, id, rest, node, order, none, isBad, found, rfl⟩

/-- In an offloaded graph the accelerator refuses the unsuited convolutions only. -/
theorem supports_accelerated {scratchpad : Nat} {quantization : Quantization} {id : Nat}
    {node : Node} (offloaded : g.IsOffloaded) (found : g.node? id = some node) :
    (accelerated scratchpad quantization).supports node = false ↔ g.IsUnsuited id := by
  have refused : (accelerated scratchpad quantization).supports node = false ↔
      node.op.opcode = .conv2d ∧ node.marks.quantize = true := by
    simp [accelerated]
  rw [refused]
  constructor
  · rintro ⟨opcode, marked⟩
    rcases Operator.describes_of_opcode opcode with ⟨convolution, operator⟩
    exact ⟨node, convolution, found, operator, marked,
      offloaded.convolutions id node convolution found operator marked⟩
  · rintro ⟨other, convolution, foundToo, operator, marked, -⟩
    cases found.symm.trans foundToo
    exact ⟨by rw [operator]; rfl, marked⟩

/-- The passes of the accelerator lose no work and duplicate none.  If they converge,
the check of the target fails exactly if some marked convolution is unsuited for the
accelerator, and it reports the first one. -/
theorem run_conserves_work {scratchpad maxRounds maxApplied : Nat} {quantization : Quantization}
    {g : Graph} {journal : Journal} {stats : PipelineStats} {after : Workbench}
    (intact : g.Intact) (valid : g.Valid)
    (reached : ∀ id, g.contains id = true → g.reachable.contains id = true)
    (done : Pipeline.run ⟨(accelerated scratchpad quantization).passes, maxRounds, maxApplied⟩
      ⟨g, journal⟩ = .ok stats after) :
    g.Conserves after.graph ∧ (stats.converged = true →
      (accelerated scratchpad quantization).ReportsFirst after.graph after.graph.IsUnsuited) := by
  have builtIn : ∀ pass ∈ (accelerated scratchpad quantization).passes, pass.IsBuiltIn :=
    isBuiltIn_of_known (Or.inr ⟨_, _, rfl⟩)
  have swept := intact.swept_eq_self reached
  have conserving := Pipeline.conserving_of_run builtIn intact valid swept done
  refine ⟨⟨conserving.outputs, conserving.workload⟩, fun converged => ?_⟩
  have idle : ∀ pass ∈ (accelerated scratchpad quantization).passes, pass.Idle after.graph :=
    Pipeline.idle_of_converged swept done converged
  have offloaded : after.graph.IsOffloaded :=
    isOffloaded_of_idle conserving.intact (conserving.valid valid).typed conserving.swept idle
  apply reportsFirst_of_supports conserving.intact conserving.swept
  · rintro id ⟨node, convolution, found, -⟩
    exact Graph.contains_iff.mpr ⟨node, found⟩
  · exact fun id node found => supports_accelerated offloaded found

/-- The passes take the marked convolution to the accelerator, which is counted as one
before and after, and nothing is left for the check to report. -/
theorem run_conserves_work_convolveMarked :
    ∃ g stats after, convolveMarked .empty = .ok 5 g ∧
      Pipeline.run ⟨(accelerated defaultScratchpad defaultQuantization).passes, 8, 48⟩ ⟨g, #[]⟩ =
        .ok stats after ∧
      stats.converged = true ∧ g.workload .markedConvolution = 1 ∧
      after.graph.workload .markedConvolution = 1 ∧
      (accelerated defaultScratchpad defaultQuantization).ReportsFirst after.graph
        after.graph.IsUnsuited := by
  have built : convolveMarked .empty = .ok 5 (Stateful.final convolveMarked .empty) := rfl
  have converges : (match Pipeline.run
      ⟨(accelerated defaultScratchpad defaultQuantization).passes, 8, 48⟩
      ⟨Stateful.final convolveMarked .empty, #[]⟩ with
    | .ok stats _ => stats.converged
    | .error _ _ => false) = true := by decide +kernel
  have reached : ∀ id < 6, (Stateful.final convolveMarked .empty).reachable.contains id = true := by
    decide +kernel
  have size : (Stateful.final convolveMarked .empty).slots.size = 6 := by decide +kernel
  have one : (Stateful.final convolveMarked .empty).workload .markedConvolution = 1 := by
    decide +kernel
  generalize Stateful.final convolveMarked .empty = g at built converges reached size one
  have made := made_convolveMarked built
  cases done : Pipeline.run ⟨(accelerated defaultScratchpad defaultQuantization).passes, 8, 48⟩
      ⟨g, #[]⟩ with
  | error failure after =>
      rw [done] at converges
      cases converges
  | ok stats after =>
      rw [done] at converges
      rcases run_conserves_work made.intact made.valid
        (fun id present => reached id (size ▸ Graph.lt_size_of_contains present)) done with
        ⟨conserves, reports⟩
      exact ⟨g, stats, after, built, done, converges, one, (conserves.workload _).trans one,
        reports converges⟩

/-- A product that a clamp and an absolute value read. -/
def productReadTwice : List Operation :=
  [.input "left" ⟨.f32, [2, 2]⟩, .input "right" ⟨.f32, [2, 2]⟩, .matMul ⟨0, 0⟩ ⟨1, 0⟩ .unbounded,
    .clamp ⟨2, 0⟩ .unbounded, .unary .abs ⟨2, 0⟩, .unary .exp ⟨3, 0⟩, .output "clamped" ⟨5, 0⟩,
    .output "aside" ⟨4, 0⟩]

/-- The readers of the product shall read the exponential instead, which depends on one of
them.  That is refused midway.  The clamp is connected again, so that every node reads
what it read before, but the product lists the absolute value no longer. -/
def readerForgotten : List Operation :=
  productReadTwice ++ [.replaceUses ⟨2, 0⟩ ⟨5, 0⟩, .connect ⟨3, 0⟩ ⟨2, 0⟩]

theorem typed_readerForgotten : (Operation.performAll readerForgotten .empty).Typed := by
  have before : (Operation.performAll productReadTwice .empty).Typed :=
    Graph.typed_performAll Graph.intact_empty Graph.valid_empty.typed (by decide)
  have within : ∀ id < 8, ((Operation.performAll readerForgotten .empty).node? id).map
        Node.signature =
      ((Operation.performAll productReadTwice .empty).node? id).map Node.signature := by
    decide +kernel
  have sizes : (Operation.performAll readerForgotten .empty).slots.size = 8 ∧
      (Operation.performAll productReadTwice .empty).slots.size = 8 := by decide +kernel
  apply before.congr
  intro id
  by_cases inside : id < 8
  · exact within id inside
  · rw [Graph.node?_of_size_le (by omega), Graph.node?_of_size_le (by omega)]

/-- Where links do not agree, work is duplicated.  Every node of the graph is reachable and
reads an operand of the right type, but a product does not list one of its two readers.
The other one, a clamp, is fused with it, and the product stays for the first. -/
theorem product_duplicated_readerForgotten :
    let g := Operation.performAll readerForgotten .empty
    g.Intact ∧ g.Typed ∧ (∀ id, g.contains id = true → g.reachable.contains id = true) ∧
      g.producer ⟨4, 0⟩ = .ok (some ⟨2, 0⟩) ∧ g.readers ⟨2, 0⟩ = .ok [⟨3, 0⟩] ∧
      ∃ stats after, Pipeline.run
          ⟨(accelerated defaultScratchpad defaultQuantization).passes, 8, 48⟩ ⟨g, #[]⟩ =
            .ok stats after ∧
        stats.converged = true ∧ g.workload .product = 1 ∧ after.graph.workload .product = 2 := by
  intro g
  have size : g.slots.size = 8 := by decide +kernel
  have reached : ∀ id < 8, g.reachable.contains id = true := by decide +kernel
  have reads : g.producer ⟨4, 0⟩ = .ok (some ⟨2, 0⟩) := by decide +kernel
  have lists : g.readers ⟨2, 0⟩ = .ok [⟨3, 0⟩] := by decide +kernel
  have once : g.workload .product = 1 := by decide +kernel
  have done : Stateful.value? (Pipeline.run
      ⟨(accelerated defaultScratchpad defaultQuantization).passes, 8, 48⟩) ⟨g, #[]⟩ = some
        ⟨2, true, [("legalize", 0), ("fold", 0), ("fuse", 1), ("lower", 0), ("fold", 0)], 1⟩ := by
    decide +kernel
  have twice : (Stateful.final (Pipeline.run
      ⟨(accelerated defaultScratchpad defaultQuantization).passes, 8, 48⟩)
        ⟨g, #[]⟩).graph.workload .product = 2 := by decide +kernel
  exact ⟨Operation.intact_performAll _, typed_readerForgotten,
    fun id present => reached id (size ▸ Graph.lt_size_of_contains present), reads, lists,
    _, _, Stateful.value?_eq_some.mp done, rfl, once, twice⟩

end Target
end TensorCompiler
