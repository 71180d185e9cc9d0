import TensorCompiler.Proofs.Construction.Additions

namespace TensorCompiler
namespace Graph

/-!
# Operators beside a region

The rules build their replacements with the typed constructors only.  What they have
built at any moment is therefore a list of operators at the positions after the old
graph.  The operands of each are outlets that a rule is permitted to use: those of
the new nodes, and old ones that do not depend on the region.

All of this holds whether or not the graph is well-typed, and also when the next
constructor refuses.
-/

/-- Some operators have been built beside matched nodes, each at the next position. -/
structure Beside (g : Graph) (matched : List Nat) (added : List Operator) (h : Graph) : Prop
    extends Enlarges g matched h where
  intact : h.Intact
  count : h.slots.size = g.slots.size + added.length
  operators : ∀ index, index < added.length → h.op? (g.slots.size + index) = added[index]?
  outputs : h.outputs = g.outputs
  typed : g.Typed → h.Typed

/-- An outlet of a new node, or of an old one that does not depend on the match. -/
def Permitted (g : Graph) (matched : List Nat) (outlet : Outlet) : Prop :=
  g.slots.size ≤ outlet.node ∨ (outlet.node < g.slots.size ∧ ¬ g.Late matched outlet.node)

section

variable {g h k : Graph} {matched : List Nat} {added : List Operator}

theorem Beside.start (intact : g.Intact) (present : ∀ id ∈ matched, id < g.slots.size) :
    g.Beside matched [] g where
  toEnlarges := .start intact.acyclic present
  intact := intact
  count := rfl
  operators _ impossible := absurd impossible (Nat.not_lt_zero _)
  outputs := rfl
  typed := id

/-- A permitted outlet does not depend on the match, however much has been built. -/
theorem Enlarges.not_late (growth : g.Enlarges matched h) (faithful : g.Faithful) {outlet : Outlet}
    (permitted : g.Permitted matched outlet) : ¬ h.Late matched outlet.node := by
  rintro ⟨target, member, depends⟩
  rcases permitted with fresh | ⟨inside, early⟩
  · exact growth.independent _ fresh target member depends
  · exact early ⟨target, member, (growth.depends_old faithful inside).mp depends⟩

/-! ## One more operator -/

theorem Appended.needs_cases {node : Node} (appended : h.Appended node k) {id source : Nat}
    (needs : k.Needs id source) :
    h.Needs id source ∨
      (id = h.slots.size ∧ ∃ outlet, some outlet ∈ node.inputs ∧ outlet.node = source) := by
  rcases needs_iff.mp needs with ⟨index, port, reads⟩
  rcases reads_iff.mp reads with ⟨now, found, entry⟩
  rcases appended.node_cases found with ⟨_, before, foundBefore, same⟩ | ⟨isNew, same⟩
  · have inputs : before.inputs = now.inputs := congrArg Signature.inputs same
    exact Or.inl (Reads.needs (reads_iff.mpr ⟨before, foundBefore, inputs ▸ entry⟩))
  · have inputs : now.inputs = node.inputs := congrArg Signature.inputs same
    rw [inputs] at entry
    exact Or.inr ⟨isNew, ⟨source, port⟩, List.mem_of_getElem? entry, rfl⟩

theorem Enlarges.append {node : Node} (growth : g.Enlarges matched h)
    (appended : h.Appended node k)
    (early : ∀ outlet, some outlet ∈ node.inputs → ¬ h.Late matched outlet.node) :
    g.Enlarges matched k where
  links := growth.links.trans appended.links
  acyclic := appended.acyclic
  size := by
    rw [appended.size]
    exact Nat.le_succ_of_le growth.size
  old id inside :=
    (appended.old id (Nat.lt_of_lt_of_le inside growth.size)).trans (growth.old id inside)
  independent := by
    -- The late nodes before the addition are closed under what the new node reads too.
    have closed : k.Downstream (h.Late matched) := by
      intro id source needs isLate
      rcases appended.needs_cases needs with before | ⟨_, outlet, read, rfl⟩
      · exact downstream_late h matched id source before isLate
      · exact absurd isLate (early outlet read)
    intro id fresh target member depends
    have notLate : ¬ h.Late matched id := by
      rintro ⟨other, otherMember, otherDepends⟩
      exact growth.independent id fresh other otherMember otherDepends
    exact closed.not_late notLate depends (Late.of_mem member)
  declared := by
    rcases growth.declared with ⟨more, outputs, fresh⟩
    rw [appended.outputs, push]
    split
    · refine ⟨more ++ [h.slots.size], by simp [outputs], ?_⟩
      intro id member
      rcases List.mem_append.mp member with old | new
      · exact fresh id old
      · rw [List.mem_singleton.mp new]
        exact growth.size
    · exact ⟨more, outputs, fresh⟩

theorem Beside.add {op : Operator} {operands : List Outlet} (beside : g.Beside matched added h)
    (adds : h.Adds op operands k) (hasResult : op.outputCount = 1)
    (early : ∀ operand ∈ operands, ¬ h.Late matched operand.node) :
    g.Beside matched (added ++ [op]) k := by
  rcases adds with ⟨name, types, results, typed, accepted, appended⟩
  refine ⟨beside.toEnlarges.append appended ?_, appended.intact beside.intact, ?_, ?_, ?_, ?_⟩
  · intro outlet read
    rcases List.mem_map.mp read with ⟨operand, member, same⟩
    rcases Option.some.inj same with rfl
    exact early operand member
  · rw [appended.size, beside.count, List.length_append]
    rfl
  · intro index inside
    rw [List.length_append, List.length_singleton] at inside
    rcases Nat.lt_or_eq_of_le (Nat.le_of_lt_succ inside) with before | rfl
    · have old : g.slots.size + index < h.slots.size := by
        rw [beside.count]
        exact Nat.add_lt_add_left before _
      rw [appended.op?_old old, beside.operators index before,
        List.getElem?_append_left before]
    · rw [← beside.count, appended.op?_new, List.getElem?_concat_length]
      rfl
  · have notOutput : op ≠ .output := by
      rintro rfl
      cases hasResult
    have unchanged : k.outputs = h.outputs := appended.outputs.trans (if_neg notOutput)
    exact unchanged.trans beside.outputs
  · intro oldTyped
    exact (beside.typed oldTyped).append appended (wellTyped_connectedNode typed accepted)

/-- A typed constructor on permitted operands keeps to the permitted ways, whether it
succeeds or refuses. -/
theorem Beside.construct {op : Operator} {operands : List Outlet} {edit : Edit Outlet}
    (beside : g.Beside matched added h) (faithful : g.Faithful)
    (constructs : h.Constructs op operands edit) (hasResult : op.outputCount = 1)
    (permitted : ∀ operand ∈ operands, g.Permitted matched operand) :
    Stateful.Ends edit h
      (fun outlet k => g.Beside matched (added ++ [op]) k ∧ g.slots.size ≤ outlet.node)
      fun k => ∃ added, g.Beside matched added k := by
  refine constructs.imp ?_ ?_
  · rintro _ k ⟨rfl, adds⟩
    refine ⟨beside.add adds hasResult ?_, beside.size⟩
    intro operand member
    exact beside.toEnlarges.not_late faithful (permitted operand member)
  · rintro _ rfl
    exact ⟨added, beside⟩

/-! ## Marks -/

/-- The marks of a new node can be set. -/
theorem Beside.updateMarks {id : Nat} {change : Marks → Marks}
    (beside : g.Beside matched added h) (fresh : g.slots.size ≤ id) :
    Stateful.Ends (updateMarks id change) h (fun _ k => g.Beside matched added k)
      fun k => g.Beside matched added k := by
  refine Edit.ends_step ?_ beside
  intro _ k done
  rcases updateNode_eq_ok (Edit.step_eq_ok.mpr done) with rfl
  have same : h.Relabelled (h.modifyNode id fun node => { node with marks := change node.marks }) :=
    relabelled_modifyNode h id (fun _ => rfl) fun _ => rfl
  have links := same.toSameLinks
  refine ⟨beside.toEnlarges.change links.keepsLinks (fun _ _ needs => links.needs.mp needs)
    same.size rfl ?_, (same.evolvesLinked links beside.intact).intact,
    same.size.trans beside.count, ?_, beside.outputs,
    fun typed => (beside.typed typed).congr same.signatures⟩
  · intro other inside
    rw [node?_modifyNode, if_neg (Nat.ne_of_lt (Nat.lt_of_lt_of_le inside fresh))]
  · intro index inside
    rw [same.operators]
    exact beside.operators index inside

end

end Graph
end TensorCompiler
