import TensorCompiler.Proofs.Rewriting.Replacement

namespace TensorCompiler

/-!
# The boundary of a region

A region lists the inlets through which it reads from outside and the outlets that
are read from outside.  The check of a region goes through its nodes, and what it
finds there it compares with the lists.  So the lists are right about the nodes of
the region: of their inlets exactly those are listed that read from outside, each
once, and no outlet of another node is listed.

Entries that no node of the region accounts for are not looked at in this way.  An
inlet of some other node may be listed if what it reads does not depend on the
region, and so may an outlet that a node of the region does not have.  A region that
passes the check is described exactly by its lists if and only if there are no such
entries.
-/

namespace Region

variable {g : Graph} {region : Region}

/-- A node of the region reads from outside through an inlet. -/
def Enters (region : Region) (g : Graph) (inlet : Inlet) : Prop :=
  inlet.node ∈ region.nodes ∧
    ∃ outlet, g.producer inlet = .ok (some outlet) ∧ outlet.node ∉ region.nodes

/-- The lists of a region are exact: the inlets are, without repetition, those through
which it reads from outside, and every outlet is one of a node of the region. -/
structure Described (region : Region) (g : Graph) : Prop where
  distinct : region.inputs.Nodup
  inputs : ∀ inlet, inlet ∈ region.inputs ↔ region.Enters g inlet
  outputs : ∀ outlet ∈ region.outputs,
    outlet.node ∈ region.nodes ∧ ∃ wire, g.wire outlet = .ok wire

theorem nodup_inputs_of_isReplaceable (checked : region.isReplaceable g = true) :
    region.inputs.Nodup := by
  simp only [isReplaceable, Bool.and_eq_true, decide_eq_true_eq] at checked
  exact checked.1.1.1.1.2

/-- About the inlets of its own nodes the list of a region is right. -/
theorem mem_inputs_iff_enters (checked : region.isReplaceable g = true) {inlet : Inlet}
    (member : inlet.node ∈ region.nodes) : inlet ∈ region.inputs ↔ region.Enters g inlet := by
  constructor
  · intro listed
    rcases (bounded_of_isReplaceable checked).entering inlet listed with ⟨outlet, reads, _⟩
    exact ⟨member, outlet, reads, (mem_inputs_iff_of_reads checked member reads).mp listed⟩
  · rintro ⟨_, outlet, reads, outside⟩
    exact (mem_inputs_iff_of_reads checked member reads).mpr outside

/-- What the check says about the lists of a region.  No inlet is listed twice; an inlet
of one of the nodes is listed exactly if it reads from outside; whatever is listed reads
something that does not depend on the region; and only outlets of the nodes are listed.
The lists are exact if and only if they mention no inlet of another node and no outlet
that does not exist. -/
theorem described_iff_of_isReplaceable (checked : region.isReplaceable g = true) :
    region.inputs.Nodup ∧
      (∀ inlet, inlet.node ∈ region.nodes → (inlet ∈ region.inputs ↔ region.Enters g inlet)) ∧
      (∀ inlet ∈ region.inputs, ∃ outlet, g.producer inlet = .ok (some outlet) ∧
        ∀ id ∈ region.nodes, ¬ g.Depends outlet.node id) ∧
      (∀ outlet ∈ region.outputs, outlet.node ∈ region.nodes) ∧
      (region.Described g ↔
        (∀ inlet ∈ region.inputs, inlet.node ∈ region.nodes) ∧
          ∀ outlet ∈ region.outputs, ∃ wire, g.wire outlet = .ok wire) := by
  have bounded := bounded_of_isReplaceable checked
  have distinct := nodup_inputs_of_isReplaceable checked
  have own : ∀ inlet, inlet.node ∈ region.nodes →
      (inlet ∈ region.inputs ↔ region.Enters g inlet) :=
    fun inlet member => mem_inputs_iff_enters checked member
  refine ⟨distinct, own, bounded.entering, bounded.inside, ?_, ?_⟩
  · intro described
    exact ⟨fun inlet listed => ((described.inputs inlet).mp listed).1,
      fun outlet listed => (described.outputs outlet listed).2⟩
  · rintro ⟨noStray, exist⟩
    refine ⟨distinct, ?_, fun outlet listed => ⟨bounded.inside outlet listed, exist outlet listed⟩⟩
    intro inlet
    constructor
    · intro listed
      exact (own inlet (noStray inlet listed)).mp listed
    · intro enters
      exact (own inlet enters.1).mpr enters

/-- The two transposes of the small graph are described exactly. -/
theorem described_turns :
    Rule.turns.isReplaceable Graph.rectified = true ∧ Rule.turns.Described Graph.rectified := by
  have checked : Rule.turns.isReplaceable Graph.rectified = true := by decide +kernel
  refine ⟨checked, (described_iff_of_isReplaceable checked).2.2.2.2.mpr ⟨by decide, ?_⟩⟩
  intro outlet listed
  rcases List.mem_singleton.mp listed with rfl
  exact ⟨_, rfl⟩

/-- The rectifier of the small graph, with the inlet of a transpose and an eighth result
that it does not have. -/
def overstated : Region :=
  ⟨[3], [⟨3, 0⟩, ⟨1, 0⟩], [⟨3, 0⟩, ⟨3, 7⟩]⟩

/-- A region with such entries passes the check all the same. -/
theorem not_described_overstated :
    overstated.isReplaceable Graph.rectified = true ∧
      ⟨1, 0⟩ ∈ overstated.inputs ∧ ¬ overstated.Enters Graph.rectified ⟨1, 0⟩ ∧
      ⟨3, 7⟩ ∈ overstated.outputs ∧ (∀ wire, Graph.rectified.wire ⟨3, 7⟩ ≠ .ok wire) ∧
      ¬ overstated.Described Graph.rectified := by
  have outsider : ¬ overstated.Enters Graph.rectified ⟨1, 0⟩ := by
    intro enters
    exact absurd enters.1 (by decide)
  refine ⟨by decide +kernel, by decide, outsider, by decide, ?_, ?_⟩
  · intro wire wired
    cases wired
  · intro described
    exact outsider ((described.inputs ⟨1, 0⟩).mp (by decide))

end Region
end TensorCompiler
