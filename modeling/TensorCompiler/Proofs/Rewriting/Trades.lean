import TensorCompiler.Proofs.Rewriting.Upkeep

namespace TensorCompiler

/-!
# What rules trade

An application of a rule trades the nodes of a region for new ones.  The table below
says which nodes each rule takes and which it gives, by their operators and marks.
Whatever is counted over the nodes of a graph is kept by a rule if its trades keep it.

The rest of the module shows that the rules keep to the table.  It also shows that the
replacement depends on every new node, and on everything that the region has read
except constants: moving a convolution onto the accelerator leaves its old weights
behind.
-/

/-- What rules look at in a node: its operator and its marks. -/
structure Role where
  op : Operator
  marks : Marks := {}

def Node.role (node : Node) : Role :=
  ⟨node.op, node.marks⟩

/-- A node as the constructors make it: it has one result, in the memory where its
operator leaves it. -/
def Node.IsFresh (node : Node) : Prop :=
  ∃ type, node.outputs = [{ type := type, memory := Graph.homeMemory node.op }]

/-- What a rule is for. -/
inductive Stage where
  | legalizing
  | folding
  | fusing
  | offloading
  deriving DecidableEq

/-- The roles that a rule takes, and those that it gives for them. -/
inductive Trade : Stage → List Role → List Role → Prop
  | rectifier {marks : Marks} {range : ClampRange} :
      Trade .legalizing [⟨.unary .relu, marks⟩] [⟨.clamp range, {}⟩]
  | transposes {first second axes : List Nat} {marks others : Marks} :
      Trade .folding [⟨.transpose first, marks⟩, ⟨.transpose second, others⟩]
        [⟨.transpose axes, {}⟩]
  | transpose {axes : List Nat} {marks : Marks} : Trade .folding [⟨.transpose axes, marks⟩] []
  | reshapes {first second shape : List Nat} {marks others : Marks} :
      Trade .folding [⟨.reshape first, marks⟩, ⟨.reshape second, others⟩] [⟨.reshape shape, {}⟩]
  | reshape {shape : List Nat} {marks : Marks} : Trade .folding [⟨.reshape shape, marks⟩] []
  | quantization {previous quantization : Quantization} {dtype : DataType} {marks others : Marks} :
      Trade .folding [⟨.dequantize previous, marks⟩, ⟨.quantize quantization dtype, others⟩] []
  | copies {marks others : Marks} :
      Trade .folding [⟨.accelDownload, marks⟩, ⟨.accelUpload, others⟩] []
  | convolution {convolution fused : Convolution} {range : ClampRange} {marks others : Marks} :
      Trade .fusing [⟨.conv2d convolution, marks⟩, ⟨.clamp range, others⟩]
        [⟨.conv2d fused, marks⟩]
  | product {clamp fused range : ClampRange} {marks others : Marks} :
      Trade .fusing [⟨.matMul clamp, marks⟩, ⟨.clamp range, others⟩] [⟨.matMul fused, marks⟩]
  | offload {convolution : Convolution} {marks : Marks} {weights : List UInt8}
      {quantization : Quantization} (marked : marks.quantize = true) :
      Trade .offloading [⟨.conv2d convolution, marks⟩]
        [⟨.constant weights, {}⟩, ⟨.quantize quantization .u8, {}⟩, ⟨.accelUpload, {}⟩,
          ⟨.accelConv2d convolution, {}⟩, ⟨.accelDownload, {}⟩, ⟨.dequantize quantization, {}⟩]

namespace Graph

variable {g h : Graph} {nodes : List Node} {sources : List Outlet}

/-- The role of the node at a position. -/
def role? (g : Graph) (id : Nat) : Option Role :=
  (g.node? id).map Node.role

/-! ## Nodes added one after another -/

inductive Extended (g : Graph) : List Node → Graph → Prop
  | start : Extended g [] g
  | append {nodes : List Node} {node : Node} {h k : Graph} (earlier : Extended g nodes h)
      (appended : h.Appended node k) : Extended g (nodes ++ [node]) k

theorem Extended.size (extended : g.Extended nodes h) :
    h.slots.size = g.slots.size + nodes.length := by
  induction extended with
  | start => rfl
  | append _ appended inductionHypothesis =>
      rw [appended.size, inductionHypothesis, List.length_append, List.length_singleton,
        Nat.add_assoc]

theorem Extended.old (extended : g.Extended nodes h) {id : Nat} (inside : id < g.slots.size) :
    (h.node? id).map Node.unread = (g.node? id).map Node.unread := by
  induction extended with
  | start => rfl
  | append earlier appended inductionHypothesis =>
      rw [appended.old id (by have := earlier.size; omega), inductionHypothesis]

theorem Extended.new (extended : g.Extended nodes h) (index : Nat) {node : Node}
    (entry : nodes[index]? = some node) :
    ∃ now, h.node? (g.slots.size + index) = some now ∧ now.unread = node.unread := by
  apply Option.map_eq_some_iff.mp
  induction extended with
  | start => cases entry
  | @append nodes last h k earlier appended inductionHypothesis =>
      rcases Nat.lt_or_ge index nodes.length with inside | outside
      · rw [List.getElem?_append_left inside] at entry
        rw [appended.old _ (by have := earlier.size; omega), inductionHypothesis entry]
      · rw [List.getElem?_append_right outside] at entry
        have atEnd : index = nodes.length := by
          have inside := (List.getElem?_eq_some_iff.mp entry).1
          rw [List.length_singleton] at inside
          omega
        rw [atEnd, Nat.sub_self, List.getElem?_cons_zero] at entry
        rw [atEnd, ← earlier.size, appended.new, Option.some.inj entry]

/-- A new node needs what its inputs read. -/
theorem Extended.needs (extended : g.Extended nodes h) (index : Nat) {node : Node}
    {operand : Outlet} (entry : nodes[index]? = some node) (reads : some operand ∈ node.inputs) :
    h.Needs (g.slots.size + index) operand.node := by
  obtain ⟨now, found, same⟩ := extended.new index entry
  rw [← (Node.unread_eq_iff.mp same).2] at reads
  exact mem_producerIds.mpr ⟨now, found, operand, List.mem_filterMap.mpr ⟨_, reads, rfl⟩, rfl⟩

/-- A replacement is the last of the nodes that were added for it.  It depends on every
one of them, and on everything that the region reads except constants. -/
structure Hangs (g : Graph) (sources : List Outlet) (nodes : List Node) (new : Outlet)
    (built : Graph) : Prop where
  last : nodes ≠ [] → new = ⟨g.slots.size + (nodes.length - 1), 0⟩
  added : ∀ index, index < nodes.length → built.Depends new.node (g.slots.size + index)
  sources : ∀ source ∈ sources, built.Depends new.node source.node ∨
    ∃ data, g.op? source.node = some (.constant data)

theorem hangs_source (source : Outlet) : g.Hangs [source] [] source g where
  last some := absurd rfl some
  added _ inside := nomatch inside
  sources other member := by
    obtain rfl : other = source := List.mem_singleton.mp member
    exact Or.inl .refl

theorem hangs_single {node : Node} (extended : g.Extended [node] h)
    (reads : node.inputs = sources.map some) : g.Hangs sources [node] ⟨g.slots.size, 0⟩ h where
  last _ := rfl
  added index inside := by
    obtain rfl : index = 0 := Nat.lt_one_iff.mp inside
    exact .refl
  sources source member := by
    left
    have listed : some source ∈ node.inputs := reads ▸ List.mem_map_of_mem member
    exact .single (extended.needs 0 rfl listed)

/-! ## Nodes from the constructors -/

theorem isFresh_connectedNode {op : Operator} {name : String} {operands : List Outlet}
    {type : TensorType} : (connectedNode op name operands [type]).IsFresh :=
  ⟨type, rfl⟩

theorem Intact.appended_of_applies {op : Operator} {operands : List Outlet} {outlet : Outlet}
    (intact : g.Intact) (applies : g.Applies op operands outlet h) :
    outlet = ⟨g.slots.size, 0⟩ ∧
      ∃ name type, g.Appended (connectedNode op name operands [type]) h := by
  obtain ⟨types, result, typed, accepted, done⟩ := applies
  obtain ⟨name, k, again, appended⟩ :=
    exists_applyOperator intact.toFaithful intact.acyclic typed accepted
  obtain ⟨rfl, rfl⟩ := EStateM.Result.ok.inj (again.symm.trans done)
  exact ⟨rfl, name, result, appended⟩

end Graph

namespace Rule

open TensorCompiler.Graph

variable {g : Graph} {region : Region} {sources : List Outlet}

/-- A build that keeps to the table. -/
inductive Trading (stage : Stage) (g : Graph) (region : Region) (sources : List Outlet) :
    List Outlet → Graph → Prop
  | intro {old : List Role} (nodes : List Node) {new : Outlet} {built : Graph}
      (taken : List.Forall₂ (fun id role => g.role? id = some role) region.nodes old)
      (trade : Trade stage old (nodes.map Node.role)) (extended : g.Extended nodes built)
      (fresh : ∀ node ∈ nodes, node.IsFresh) (hangs : g.Hangs sources nodes new built) :
      Trading stage g region sources [new] built

/-- Whenever the rule builds something for a region that it recognizes, it keeps to the
table. -/
def Trades (rule : Rule) (stage : Stage) : Prop :=
  ∀ {g : Graph} {id : Nat} {op : Operator} {region : Region} {sources replacements : List Outlet}
    {built : Graph}, g.Intact → g.Valid → g.op? id = some op → op.opcode ∈ rule.anchors →
    rule.recognize g id = some region → region.Replaceable g →
    region.inputs.mapM g.connectedProducer = .ok sources →
    rule.build ⟨region, sources⟩ g = .ok replacements built →
    Trading stage g region sources replacements built

theorem exists_role {id : Nat} {op : Operator} (operator : g.op? id = some op) :
    ∃ marks, g.role? id = some ⟨op, marks⟩ := by
  obtain ⟨node, found, rfl⟩ := Option.map_eq_some_iff.mp operator
  exact ⟨node.marks, by rw [role?, found]; rfl⟩

/-- What a region of one node takes. -/
theorem taken_single {id : Nat} {op : Operator} (operator : g.op? id = some op)
    (recognized : Region.single g id = some region) :
    ∃ marks, List.Forall₂ (fun id role => g.role? id = some role) region.nodes [⟨op, marks⟩] := by
  obtain ⟨marks, role⟩ := exists_role operator
  rw [Region.nodes_single recognized]
  exact ⟨marks, .cons role .nil⟩

/-- What a region of two nodes takes. -/
theorem taken_chain {id : Nat} {outlet : Outlet} {first second : Operator}
    (operator : g.op? id = some second) (produced : g.producerOf id 0 = some (outlet, first))
    (recognized : Region.chain g outlet.node id = some region) :
    ∃ marks others, List.Forall₂ (fun id role => g.role? id = some role) region.nodes
      [⟨first, marks⟩, ⟨second, others⟩] := by
  obtain ⟨marks, role⟩ := exists_role (producerOf_eq_some.mp produced).2
  obtain ⟨others, otherRole⟩ := exists_role operator
  rw [Region.nodes_chain recognized]
  exact ⟨marks, others, .cons role (.cons otherRole .nil)⟩

/-- A region of one node with one operand reads one outlet. -/
theorem exists_source_single {id : Nat} {op : Operator} (valid : g.Valid)
    (replaceable : region.Replaceable g) (operator : g.op? id = some op) (one : op.inputCount = 1)
    (recognized : Region.single g id = some region)
    (captured : region.inputs.mapM g.connectedProducer = .ok sources) :
    ∃ source, sources = [source] := by
  obtain ⟨types, result, shape⟩ :=
    Region.exists_oneNode valid replaceable operator recognized captured
  apply List.length_eq_one_iff.mp
  rw [shape.typed.length_eq, shape.accepted.counts.1, one]

/-- A region of two nodes reads what its first node takes. -/
theorem length_sources_chain {id : Nat} {outlet : Outlet} {first second : Operator}
    (valid : g.Valid) (replaceable : region.Replaceable g) (operator : g.op? id = some second)
    (one : second.inputCount = 1) (produced : g.producerOf id 0 = some (outlet, first))
    (recognized : Region.chain g outlet.node id = some region)
    (captured : region.inputs.mapM g.connectedProducer = .ok sources) :
    sources.length = first.inputCount := by
  obtain ⟨types, middle, result, shape⟩ :=
    Region.exists_twoNodes valid replaceable operator one produced recognized captured
  rw [shape.typed.length_eq, shape.firstAccepted.counts.1]

/-! ## Rules that pass a value on -/

theorem trading_source {stage : Stage} {source : Outlet} {old : List Role}
    {replacements : List Outlet} {built : Graph}
    (taken : List.Forall₂ (fun id role => g.role? id = some role) region.nodes old)
    (trade : Trade stage old [])
    (done : (do return [← Match.source ⟨region, [source]⟩ 0] : Edit (List Outlet)) g =
      .ok replacements built) : Trading stage g region [source] replacements built := by
  simp only [Stateful.bind_eq_ok, Stateful.lift_eq_ok, Stateful.pure_eq_ok, Match.source] at done
  obtain ⟨_, _, ⟨first, rfl⟩, rfl, rfl⟩ := done
  obtain rfl := Except.ok.inj first
  exact .intro [] taken trade .start (List.forall_mem_nil _) (hangs_source source)

theorem trades_foldIdentityTranspose : foldIdentityTranspose.Trades .folding := by
  intro g id op region sources replacements built intact valid operator anchored recognized
    replaceable captured done
  simp only [foldIdentityTranspose] at recognized
  split at recognized
  · next axes found =>
    split at recognized
    · obtain ⟨source, rfl⟩ :=
        exists_source_single valid replaceable found rfl recognized captured
      obtain ⟨marks, taken⟩ := taken_single found recognized
      exact trading_source taken .transpose done
    · cases recognized
  · cases recognized

theorem trades_foldIdentityReshape : foldIdentityReshape.Trades .folding := by
  intro g id op region sources replacements built intact valid operator anchored recognized
    replaceable captured done
  simp only [foldIdentityReshape] at recognized
  split at recognized
  · next shape outlet producer found produced =>
    split at recognized
    · obtain ⟨source, rfl⟩ :=
        exists_source_single valid replaceable found rfl recognized captured
      obtain ⟨marks, taken⟩ := taken_single found recognized
      exact trading_source taken .reshape done
    · cases recognized
  · cases recognized

theorem trades_foldQuantizeDequantize : foldQuantizeDequantize.Trades .folding := by
  intro g id op region sources replacements built intact valid operator anchored recognized
    replaceable captured done
  simp only [foldQuantizeDequantize] at recognized
  split at recognized
  · next quantization dtype outlet previous found produced =>
    split at recognized
    · split at recognized
      · obtain ⟨source, rfl⟩ := List.length_eq_one_iff.mp
          (length_sources_chain valid replaceable found rfl produced recognized captured)
        obtain ⟨marks, others, taken⟩ := taken_chain found produced recognized
        exact trading_source taken .quantization done
      · cases recognized
    · cases recognized
  · cases recognized

theorem trades_foldUploadDownload : foldUploadDownload.Trades .folding := by
  intro g id op region sources replacements built intact valid operator anchored recognized
    replaceable captured done
  obtain rfl := Operator.describes_of_opcode (List.mem_singleton.mp anchored)
  simp only [foldUploadDownload] at recognized
  split at recognized
  · next outlet produced =>
    split at recognized
    · split at recognized
      · obtain ⟨source, rfl⟩ := List.length_eq_one_iff.mp
          (length_sources_chain valid replaceable operator rfl produced recognized captured)
        obtain ⟨marks, others, taken⟩ := taken_chain operator produced recognized
        exact trading_source taken .copies done
      · cases recognized
    · cases recognized
  · cases recognized

/-! ## Rules that build one node -/

theorem trading_single {stage : Stage} {old : List Role} {built : Graph} (node : Node)
    (taken : List.Forall₂ (fun id role => g.role? id = some role) region.nodes old)
    (trade : Trade stage old [node.role]) (appended : g.Appended node built)
    (fresh : node.IsFresh) (reads : node.inputs = sources.map some) :
    Trading stage g region sources [⟨g.slots.size, 0⟩] built :=
  have extended : g.Extended [node] built := .append .start appended
  .intro [node] taken trade extended (List.forall_mem_singleton.mpr fresh)
    (hangs_single extended reads)

/-- An operator on the one outlet that a region reads. -/
theorem trading_applies {stage : Stage} {old : List Role} {op : Operator} {source : Outlet}
    {construct : Outlet → Edit Outlet} {replacements : List Outlet} {built : Graph}
    (intact : g.Intact)
    (taken : List.Forall₂ (fun id role => g.role? id = some role) region.nodes old)
    (trade : Trade stage old [⟨op, {}⟩])
    (constructs : ∀ outlet h, construct source g = .ok outlet h → g.Applies op [source] outlet h)
    (done : (do return [← construct (← Match.source ⟨region, [source]⟩ 0)] :
      Edit (List Outlet)) g = .ok replacements built) :
    Trading stage g region [source] replacements built := by
  simp only [Stateful.bind_eq_ok, Stateful.lift_eq_ok, Stateful.pure_eq_ok, Match.source] at done
  obtain ⟨_, _, ⟨first, rfl⟩, outlet, _, constructed, rfl, rfl⟩ := done
  obtain rfl := Except.ok.inj first
  obtain ⟨rfl, name, type, appended⟩ :=
    intact.appended_of_applies (constructs _ _ constructed)
  exact trading_single (connectedNode op name [source] [type]) taken trade appended
    isFresh_connectedNode rfl

theorem trades_lowerRelu : lowerRelu.Trades .legalizing := by
  intro g id op region sources replacements built intact valid operator anchored recognized
    replaceable captured done
  simp only [lowerRelu] at recognized
  split at recognized
  · next found =>
    obtain ⟨source, rfl⟩ := exists_source_single valid replaceable found rfl recognized captured
    obtain ⟨marks, taken⟩ := taken_single found recognized
    exact trading_applies intact taken .rectifier (fun _ _ => clamp_eq_ok.mp) done
  · cases recognized

/-- The nodes of a region of two, as a rule asks for them. -/
theorem node_chain {first second : Nat} (sources : List Outlet)
    (recognized : Region.chain g first second = some region) :
    Match.node ⟨region, sources⟩ 0 = .ok first ∧ Match.node ⟨region, sources⟩ 1 = .ok second := by
  rw [Match.node, Match.node, Region.nodes_chain recognized]
  exact ⟨rfl, rfl⟩

theorem trades_foldTwoTransposes : foldTwoTransposes.Trades .folding := by
  intro g id op region sources replacements built intact valid operator anchored recognized
    replaceable captured done
  obtain ⟨second, rfl⟩ := Operator.describes_of_opcode (List.mem_singleton.mp anchored)
  simp only [foldTwoTransposes] at recognized
  split at recognized
  · next outlet first produced =>
    split at recognized
    · obtain ⟨source, rfl⟩ := List.length_eq_one_iff.mp
        (length_sources_chain valid replaceable operator rfl produced recognized captured)
      obtain ⟨marks, others, taken⟩ := taken_chain operator produced recognized
      obtain ⟨firstNode, secondNode⟩ := node_chain [source] recognized
      simp only [foldTwoTransposes, Stateful.bind_eq_ok, Stateful.get_eq_ok, Stateful.lift_eq_ok,
        firstNode, secondNode] at done
      obtain ⟨_, _, ⟨rfl, rfl⟩, _, _, ⟨same, rfl⟩, _, _, ⟨again, rfl⟩, rest⟩ := done
      rw [← Except.ok.inj same, ← Except.ok.inj again, (producerOf_eq_some.mp produced).2,
        operator] at rest
      obtain ⟨axes, _, composed, rest⟩ := Stateful.bind_eq_ok.mp rest
      obtain ⟨-, rfl⟩ := Stateful.lift_eq_ok.mp composed
      exact trading_applies intact taken .transposes (fun _ _ => transpose_eq_ok.mp) rest
    · cases recognized
  · cases recognized

theorem trades_foldTwoReshapes : foldTwoReshapes.Trades .folding := by
  intro g id op region sources replacements built intact valid operator anchored recognized
    replaceable captured done
  obtain ⟨second, rfl⟩ := Operator.describes_of_opcode (List.mem_singleton.mp anchored)
  simp only [foldTwoReshapes] at recognized
  split at recognized
  · next outlet first produced =>
    split at recognized
    · obtain ⟨source, rfl⟩ := List.length_eq_one_iff.mp
        (length_sources_chain valid replaceable operator rfl produced recognized captured)
      obtain ⟨marks, others, taken⟩ := taken_chain operator produced recognized
      obtain ⟨-, secondNode⟩ := node_chain [source] recognized
      simp only [foldTwoReshapes, Stateful.bind_eq_ok, Stateful.get_eq_ok, Stateful.lift_eq_ok,
        secondNode] at done
      obtain ⟨_, _, ⟨rfl, rfl⟩, _, _, ⟨again, rfl⟩, rest⟩ := done
      rw [← Except.ok.inj again, operator] at rest
      exact trading_applies intact taken .reshapes (fun _ _ => reshape_eq_ok.mp) rest
    · cases recognized
  · cases recognized

/-- A producer with a further clamp reads everything that the region reads. -/
theorem appended_of_withFurtherClamp {op : Operator} {range : ClampRange} {outlet : Outlet}
    {h : Graph} (intact : g.Intact) (count : sources.length = op.inputCount)
    (done : withFurtherClamp ⟨region, sources⟩ op range g = .ok outlet h) :
    outlet = ⟨g.slots.size, 0⟩ ∧ ∃ fused name type,
      g.Appended (connectedNode fused name sources [type]) h ∧
      ∀ marks others, Trade .fusing [⟨op, marks⟩, ⟨.clamp range, others⟩] [⟨fused, marks⟩] := by
  unfold withFurtherClamp at done
  split at done
  · next convolution =>
    obtain ⟨image, weights, bias, rfl⟩ := List.length_eq_three.mp count
    simp only [Stateful.bind_eq_ok, Stateful.lift_eq_ok, Match.source] at done
    obtain ⟨_, _, ⟨first, rfl⟩, _, _, ⟨second, rfl⟩, _, _, ⟨third, rfl⟩, built⟩ := done
    obtain rfl := Except.ok.inj first
    obtain rfl := Except.ok.inj second
    obtain rfl := Except.ok.inj third
    obtain ⟨rfl, name, type, appended⟩ := intact.appended_of_applies (conv2d_eq_ok.mp built)
    exact ⟨rfl, _, name, type, appended, fun _ _ => .convolution⟩
  · next clamp =>
    obtain ⟨left, right, rfl⟩ := List.length_eq_two.mp count
    simp only [Stateful.bind_eq_ok, Stateful.lift_eq_ok, Match.source] at done
    obtain ⟨_, _, ⟨first, rfl⟩, _, _, ⟨second, rfl⟩, built⟩ := done
    obtain rfl := Except.ok.inj first
    obtain rfl := Except.ok.inj second
    obtain ⟨rfl, name, type, appended⟩ := intact.appended_of_applies (matMul_eq_ok.mp built)
    exact ⟨rfl, _, name, type, appended, fun _ _ => .product⟩
  · exact absurd done Stateful.refuse_ne_ok

theorem trades_fuseClamp : fuseClamp.Trades .fusing := by
  intro g id op region sources replacements built intact valid operator anchored recognized
    replaceable captured done
  obtain ⟨range, rfl⟩ := Operator.describes_of_opcode (List.mem_singleton.mp anchored)
  simp only [fuseClamp] at recognized
  split at recognized
  · next outlet first produced =>
    split at recognized
    · have count := length_sources_chain valid replaceable operator rfl produced recognized captured
      obtain ⟨producer, found, rfl⟩ :=
        Option.map_eq_some_iff.mp (producerOf_eq_some.mp produced).2
      obtain ⟨others, clampRole⟩ := exists_role operator
      have taken : List.Forall₂ (fun id role => g.role? id = some role) region.nodes
          [producer.role, ⟨.clamp range, others⟩] := by
        rw [Region.nodes_chain recognized]
        exact .cons (by rw [role?, found]; rfl) (.cons clampRole .nil)
      obtain ⟨firstNode, secondNode⟩ := node_chain sources recognized
      simp only [fuseClamp, Stateful.bind_eq_ok, Stateful.get_eq_ok, Stateful.lift_eq_ok,
        secondNode] at done
      obtain ⟨_, _, ⟨rfl, rfl⟩, _, _, ⟨again, rfl⟩, rest⟩ := done
      rw [← Except.ok.inj again, operator] at rest
      simp only [Stateful.bind_eq_ok, Stateful.lift_eq_ok, Stateful.pure_eq_ok, firstNode] at rest
      obtain ⟨_, _, ⟨same, rfl⟩, node, _, ⟨foundAgain, rfl⟩, fused, unmarked, built, _, _, marked,
        rfl, rfl⟩ := rest
      rw [← Except.ok.inj same, node_eq_ok] at foundAgain
      obtain rfl : producer = node := Option.some.inj (found.symm.trans foundAgain)
      obtain ⟨rfl, op, name, type, appended, trade⟩ :=
        appended_of_withFurtherClamp intact count built
      obtain ⟨_, markedAgain, appended⟩ := appended.updateMarks fun _ => producer.marks
      obtain ⟨-, rfl⟩ := EStateM.Result.ok.inj (markedAgain.symm.trans marked)
      exact trading_single { connectedNode op name sources [type] with marks := producer.marks }
        taken (trade producer.marks others) appended ⟨type, rfl⟩ rfl
    · cases recognized
  · cases recognized

/-! ## Moving a convolution onto the accelerator -/

/-- Six nodes in the place of a convolution: the new weights, then the way of the image
to the accelerator, through the convolution and back. -/
theorem hangs_offload {stored quantized uploaded convolved downloaded dequantized : Node}
    {image weights bias : Outlet} {data : List UInt8} {built : Graph}
    (constant : g.op? weights.node = some (.constant data))
    (extended : g.Extended [stored, quantized, uploaded, convolved, downloaded, dequantized] built)
    (quantizes : quantized.inputs = [some image])
    (uploads : uploaded.inputs = [some ⟨g.slots.size + 1, 0⟩])
    (convolves : convolved.inputs =
      [some ⟨g.slots.size + 2, 0⟩, some ⟨g.slots.size, 0⟩, some bias])
    (downloads : downloaded.inputs = [some ⟨g.slots.size + 3, 0⟩])
    (dequantizes : dequantized.inputs = [some ⟨g.slots.size + 4, 0⟩]) :
    g.Hangs [image, weights, bias]
      [stored, quantized, uploaded, convolved, downloaded, dequantized]
      ⟨g.slots.size + 5, 0⟩ built := by
  have fourth : built.Depends (g.slots.size + 5) (g.slots.size + 4) :=
    .single (extended.needs 5 rfl (dequantizes ▸ List.mem_cons_self))
  have third : built.Depends (g.slots.size + 5) (g.slots.size + 3) :=
    fourth.tail (extended.needs 4 rfl (downloads ▸ List.mem_cons_self))
  have second : built.Depends (g.slots.size + 5) (g.slots.size + 2) :=
    third.tail (extended.needs 3 rfl (convolves ▸ List.mem_cons_self))
  have first : built.Depends (g.slots.size + 5) (g.slots.size + 1) :=
    second.tail (extended.needs 2 rfl (uploads ▸ List.mem_cons_self))
  have weightsAgain : built.Depends (g.slots.size + 5) (g.slots.size + 0) :=
    third.tail (extended.needs 3 rfl (convolves ▸ List.mem_cons_of_mem _ List.mem_cons_self))
  constructor
  · exact fun _ => rfl
  · intro index inside
    match index, inside with
    | 0, _ => exact weightsAgain
    | 1, _ => exact first
    | 2, _ => exact second
    | 3, _ => exact third
    | 4, _ => exact fourth
    | 5, _ => exact .refl
  · simp only [List.forall_mem_cons]
    refine ⟨Or.inl ?_, Or.inr ⟨data, constant⟩, Or.inl ?_, List.forall_mem_nil _⟩
    · exact first.tail (extended.needs 1 rfl (quantizes ▸ List.mem_cons_self))
    · have member : some bias ∈ convolved.inputs := by simp [convolves]
      exact third.tail (extended.needs 3 rfl member)

theorem trades_lowerConv2dToAccel (quantization : Quantization) :
    (lowerConv2dToAccel quantization).Trades .offloading := by
  intro g id op region sources replacements built intact valid operator anchored recognized
    replaceable captured done
  obtain ⟨convolution, rfl⟩ := Operator.describes_of_opcode (List.mem_singleton.mp anchored)
  obtain ⟨single, weights, data, reads, constant, -⟩ := recognize_lowerConv2dToAccel recognized
  obtain ⟨node, found, isConvolution⟩ := Option.map_eq_some_iff.mp operator
  have marked : node.marks.quantize = true := by
    by_contra unmarked
    simp [lowerConv2dToAccel, isMarkedQuantize, found, unmarked] at recognized
  have taken : List.Forall₂ (fun id role => g.role? id = some role) region.nodes
      [⟨.conv2d convolution, node.marks⟩] := by
    rw [Region.nodes_single single]
    exact .cons (by rw [role?, found, ← isConvolution]; rfl) .nil
  obtain ⟨types, result, shape⟩ :=
    Region.exists_oneNode valid replaceable operator single captured
  obtain ⟨image, second, bias, rfl⟩ := List.length_eq_three.mp
    (shape.typed.length_eq.trans shape.accepted.counts.1)
  obtain rfl : second = weights := Option.some.inj (shape.reads 1 weights reads)
  simp only [lowerConv2dToAccel, Stateful.bind_eq_ok, Stateful.get_eq_ok, Stateful.lift_eq_ok,
    Match.node, Match.source, Region.nodes_single single] at done
  obtain ⟨_, _, ⟨rfl, rfl⟩, _, _, ⟨first, rfl⟩, again, _, ⟨foundAgain, rfl⟩, _, _, ⟨one, rfl⟩,
    _, _, ⟨two, rfl⟩, _, _, ⟨three, rfl⟩, rest⟩ := done
  obtain rfl := Except.ok.inj first
  obtain rfl := Except.ok.inj one
  obtain rfl := Except.ok.inj two
  obtain rfl := Except.ok.inj three
  rw [node_eq_ok] at foundAgain
  obtain rfl : node = again := Option.some.inj (found.symm.trans foundAgain)
  rw [isConvolution, constant] at rest
  simp only [Stateful.bind_eq_ok, Stateful.lift_eq_ok, Stateful.pure_eq_ok] at rest
  obtain ⟨weightsType, _, ⟨-, rfl⟩, _, h₁, storing, _, h₂, quantizing, _, h₃, uploading, _, h₄,
    convolving, _, h₅, downloading, _, h₆, dequantizing, rfl, rfl⟩ := rest
  obtain ⟨rfl, _, _, stored⟩ := intact.appended_of_applies (applies_of_constant storing)
  have intact := stored.intact intact
  obtain ⟨rfl, _, _, quantized⟩ := intact.appended_of_applies (quantize_eq_ok.mp quantizing)
  have intact := quantized.intact intact
  obtain ⟨rfl, _, _, uploaded⟩ := intact.appended_of_applies (accelUpload_eq_ok.mp uploading)
  have intact := uploaded.intact intact
  obtain ⟨rfl, _, _, convolved⟩ := intact.appended_of_applies (accelConv2d_eq_ok.mp convolving)
  have intact := convolved.intact intact
  obtain ⟨rfl, _, _, downloaded⟩ :=
    intact.appended_of_applies (accelDownload_eq_ok.mp downloading)
  have intact := downloaded.intact intact
  obtain ⟨rfl, _, _, dequantized⟩ :=
    intact.appended_of_applies (dequantize_eq_ok.mp dequantizing)
  have extended := Extended.append (.append (.append (.append (.append (.append .start stored)
    quantized) uploaded) convolved) downloaded) dequantized
  have size₁ : h₁.slots.size = g.slots.size + 1 := stored.size
  have size₂ : h₂.slots.size = g.slots.size + 2 := by rw [quantized.size, size₁]
  have size₃ : h₃.slots.size = g.slots.size + 3 := by rw [uploaded.size, size₂]
  have size₄ : h₄.slots.size = g.slots.size + 4 := by rw [convolved.size, size₃]
  have size₅ : h₅.slots.size = g.slots.size + 5 := by rw [downloaded.size, size₄]
  rw [size₁, size₂, size₃, size₄] at extended
  rw [size₅]
  refine .intro _ taken (.offload marked) extended ?_
    (hangs_offload constant extended rfl rfl rfl rfl rfl)
  simp only [List.nil_append, List.cons_append, List.forall_mem_cons]
  exact ⟨isFresh_connectedNode, isFresh_connectedNode, isFresh_connectedNode,
    isFresh_connectedNode, isFresh_connectedNode, isFresh_connectedNode, List.forall_mem_nil _⟩

/-! ## The built-in rules -/

theorem IsBuiltIn.exists_trades {rule : Rule} (builtIn : rule.IsBuiltIn) :
    ∃ stage, rule.Trades stage := by
  rcases builtIn with member | ⟨quantization, rfl⟩
  · simp only [valueKeeping, List.mem_cons, List.not_mem_nil, or_false] at member
    rcases member with rfl | rfl | rfl | rfl | rfl | rfl | rfl | rfl
    · exact ⟨_, trades_lowerRelu⟩
    · exact ⟨_, trades_foldTwoTransposes⟩
    · exact ⟨_, trades_foldIdentityTranspose⟩
    · exact ⟨_, trades_foldTwoReshapes⟩
    · exact ⟨_, trades_foldIdentityReshape⟩
    · exact ⟨_, trades_foldQuantizeDequantize⟩
    · exact ⟨_, trades_fuseClamp⟩
    · exact ⟨_, trades_foldUploadDownload⟩
  · exact ⟨_, trades_lowerConv2dToAccel quantization⟩

end Rule
end TensorCompiler
