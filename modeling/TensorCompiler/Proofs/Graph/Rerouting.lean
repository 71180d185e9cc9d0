import TensorCompiler.Proofs.Construction.Builders
import TensorCompiler.Proofs.Graph.Redirection

namespace TensorCompiler

/-!
# Replacing the uses of an outlet

Here the outcome of replacing the uses of an outlet is described in full, whether
or not it succeeds.  Readers are moved from the first to the last.  If all of them
can be moved, the old outlet is left without readers, the new one has gained them,
and the rest of the graph is as it was.  If one of them cannot be moved, those
before it have been, it reads nothing any more, and those after it read the old
outlet still, which no longer lists them.  So a failed replacement always leaves a
different graph behind, unless the old outlet does not exist.

In an acyclic graph whether it succeeds can be told beforehand.  A path from the
new outlet to a reader of the old one never leads through the old outlet, since the
reader would then depend on itself.  No move takes such a path away, and no move
adds one before it is refused.
-/

namespace Inlet

/-- Add some inlets to an increasing list. -/
def insertAll (inlets readers : List Inlet) : List Inlet :=
  inlets.foldl (fun readers inlet => inlet.insertInto readers) readers

theorem mem_insertAll {inlets readers : List Inlet} {inlet : Inlet} :
    inlet ∈ insertAll inlets readers ↔ inlet ∈ readers ∨ inlet ∈ inlets := by
  induction inlets generalizing readers with
  | nil => simp [insertAll]
  | cons head rest inductionHypothesis =>
      rw [insertAll, List.foldl_cons, ← insertAll, inductionHypothesis, mem_insertInto,
        List.mem_cons, or_comm (a := inlet = head), or_assoc]

end Inlet

namespace Graph

variable {g h k : Graph} {old new : Outlet}

/-! ## Changes at some inlets and outlets only -/

/-- Two graphs differ at most in what the given inlets read, and in the readers that
the wires at the given outlets list. -/
structure SameBut (g h : Graph) (inlets : List Inlet) (outlets : List Outlet) : Prop where
  nodes : g.SameNodes h
  live : h.live = g.live
  reads : ∀ inlet ∉ inlets, ∀ outlet, h.Reads inlet outlet ↔ g.Reads inlet outlet
  wires : ∀ outlet ∉ outlets, ∀ wire, h.wire outlet = .ok wire ↔ g.wire outlet = .ok wire

section

variable {inlets others : List Inlet} {outlets targets : List Outlet}

theorem SameBut.trans (first : g.SameBut h inlets outlets) (second : h.SameBut k others targets) :
    g.SameBut k (inlets ++ others) (outlets ++ targets) where
  nodes := first.nodes.trans second.nodes
  live := second.live.trans first.live
  reads := by
    intro inlet outside outlet
    rw [List.mem_append, not_or] at outside
    exact (second.reads inlet outside.2 outlet).trans (first.reads inlet outside.1 outlet)
  wires := by
    intro outlet outside wire
    rw [List.mem_append, not_or] at outside
    exact (second.wires outlet outside.2 wire).trans (first.wires outlet outside.1 wire)

theorem SameBut.mono (same : g.SameBut h inlets outlets) (moreInlets : inlets ⊆ others)
    (moreOutlets : outlets ⊆ targets) : g.SameBut h others targets where
  nodes := same.nodes
  live := same.live
  reads inlet outside := same.reads inlet fun member => outside (moreInlets member)
  wires outlet outside := same.wires outlet fun member => outside (moreOutlets member)

end

theorem sameBut_setSource (g : Graph) (inlet : Inlet) (source : Option Outlet) :
    g.SameBut (g.setSource inlet source) [inlet] [] where
  nodes := sameNodes_setSource g inlet source
  live := rfl
  reads := by
    intro other outside outlet
    rw [reads_setSource, if_neg (List.mem_singleton.not.mp outside)]
  wires _ _ _ := wire_setSource

theorem sameBut_modifyWire (g : Graph) (outlet : Outlet) {change : Wire → Wire}
    (keeps : ∀ wire, (change wire).unlinked = wire.unlinked) :
    g.SameBut (g.modifyWire outlet change) [] [outlet] where
  nodes := sameNodes_modifyWire g outlet keeps
  live := rfl
  reads _ _ _ := reads_modifyWire
  wires := by
    intro other outside wire
    rw [wire_modifyWire, if_neg (List.mem_singleton.not.mp outside)]

theorem sameBut_forgetful (g : Graph) (old : Outlet) : g.SameBut (g.forgetful old) [] [old] :=
  sameBut_modifyWire g old fun _ => rfl

theorem sameBut_moved (g : Graph) (inlet : Inlet) (new : Outlet) :
    g.SameBut (g.moved inlet new) [inlet] [new] := by
  have cleared := sameBut_setSource g inlet none
  have connected := sameBut_setSource (g.setSource inlet none) inlet (some new)
  have listed : ((g.setSource inlet none).setSource inlet (some new)).SameBut (g.moved inlet new)
      [] [new] := sameBut_modifyWire _ new fun _ => rfl
  exact ((cleared.trans connected).trans listed).mono (by simp) (by simp)

/-! ## Moving several inlets -/

/-- The graph in which some inlets read one outlet instead of what they read before. -/
def allMoved (g : Graph) (inlets : List Inlet) (new : Outlet) : Graph :=
  inlets.foldl (fun g inlet => g.moved inlet new) g

theorem sameBut_allMoved (g : Graph) (inlets : List Inlet) (new : Outlet) :
    g.SameBut (g.allMoved inlets new) inlets [new] := by
  induction inlets generalizing g with
  | nil => exact ⟨.refl g, rfl, fun _ _ _ => Iff.rfl, fun _ _ _ => Iff.rfl⟩
  | cons inlet rest inductionHypothesis =>
      exact ((sameBut_moved g inlet new).trans (inductionHypothesis (g.moved inlet new))).mono
        (by simp) (by simp)

theorem reads_allMoved {inlets : List Inlet} (present : ∀ inlet ∈ inlets, g.HasInlet inlet)
    {inlet : Inlet} (member : inlet ∈ inlets) : (g.allMoved inlets new).Reads inlet new := by
  induction inlets generalizing g with
  | nil => exact absurd member List.not_mem_nil
  | cons head rest inductionHypothesis =>
      have nodes := sameNodes_moved g head new
      by_cases later : inlet ∈ rest
      · exact inductionHypothesis
          (fun other inRest => nodes.hasInlet (present other (List.mem_cons_of_mem head inRest)))
          later
      · have isHead : inlet = head := (List.mem_cons.mp member).resolve_right later
        have moved : (g.moved head new).Reads inlet new := by
          rw [reads_moved (present head List.mem_cons_self), if_pos isHead]
        exact ((sameBut_allMoved (g.moved head new) rest new).reads inlet later new).mpr moved

theorem wire_allMoved {inlets : List Inlet} {wire : Wire} (wired : g.wire new = .ok wire) :
    (g.allMoved inlets new).wire new =
      .ok { wire with readers := Inlet.insertAll inlets wire.readers } := by
  induction inlets generalizing g wire with
  | nil => exact wired
  | cons head rest inductionHypothesis =>
      have moved : (g.moved head new).wire new =
          .ok { wire with readers := head.insertInto wire.readers } := by
        rw [moved, wire_link, if_pos rfl]
        exact ⟨wire, wire_setSource.mpr wired, rfl⟩
      exact inductionHypothesis moved

/-- How moving inlets ends.  If it stops, it does so at an inlet that has been cleared
and cannot be connected, because the new outlet does not exist or depends on it. -/
theorem redirect_ends {waiting : List Inlet} (present : ∀ inlet ∈ waiting, g.HasInlet inlet) :
    Stateful.Ends (redirect new waiting) g (fun _ h => h = g.allMoved waiting new)
      fun h => ∃ moved stuck left, waiting = moved ++ stuck :: left ∧
        h = (g.allMoved moved new).setSource stuck none ∧
        ((∀ wire, h.wire new ≠ .ok wire) ∨ h.Depends new.node stuck.node) := by
  induction waiting generalizing g with
  | nil => exact rfl
  | cons inlet rest inductionHypothesis =>
      refine ends_redirect_cons (present inlet List.mem_cons_self) ?_ ?_
      · intro _ _
        have nodes := sameNodes_moved g inlet new
        have others := inductionHypothesis fun other member =>
          nodes.hasInlet (present other (List.mem_cons_of_mem inlet member))
        refine others.imp (fun _ _ same => same) ?_
        rintro after ⟨moved, stuck, left, rfl, same, cause⟩
        exact ⟨inlet :: moved, stuck, left, rfl, same, cause⟩
      · intro cause
        refine ⟨[], inlet, rest, rfl, rfl, cause.imp_left ?_⟩
        intro missing wire wired
        exact missing wire (wire_setSource.mp wired)

/-! ## Both outcomes -/

/-- The readers of an outlet have been taken off its wire.  Some of them read another
outlet now, which lists them, and some read nothing.  All else is as it was. -/
structure Rerouted (g h : Graph) (old new : Outlet) (moved cleared : List Inlet) : Prop where
  same : g.SameBut h (moved ++ cleared) [old, new]
  arrived : ∀ inlet ∈ moved, h.producer inlet = .ok (some new)
  detached : ∀ inlet ∈ cleared, h.producer inlet = .ok none
  forgotten : h.readers old = .ok []
  gained : ∀ before, g.readers new = .ok before → ∃ readers, h.readers new = .ok readers ∧
    ∀ inlet, inlet ∈ readers ↔ inlet ∈ before ∨ inlet ∈ moved

theorem rerouted_allMoved {moved : List Inlet} {wire : Wire} (linked : g.Linked)
    (different : old ≠ new) (wired : g.wire old = .ok wire) (readers : moved ⊆ wire.readers) :
    g.Rerouted ((g.forgetful old).allMoved moved new) old new moved [] := by
  have others := sameBut_allMoved (g.forgetful old) moved new
  refine ⟨?_, ?_, fun inlet member => absurd member List.not_mem_nil, ?_, ?_⟩
  · rw [List.append_nil]
    exact (sameBut_forgetful g old).trans others
  · intro inlet member
    refine reads_allMoved ?_ member
    intro other isMoved
    exact (sameNodes_forgetful g old).hasInlet
      (linked.faithful.hasInlet_of_mem wired (readers isMoved))
  · have emptied : (g.forgetful old).wire old = .ok { wire with readers := [] } := by
      rw [forgetful, wire_modifyWire, if_pos rfl]
      exact ⟨wire, wired, rfl⟩
    exact readers_eq_ok.mpr
      ⟨_, (others.wires old (List.mem_singleton.not.mpr different) _).mpr emptied, rfl⟩
  · intro before listed
    rcases readers_eq_ok.mp listed with ⟨newWire, newWired, rfl⟩
    have unchanged : (g.forgetful old).wire new = .ok newWire := by
      rw [forgetful, wire_modifyWire, if_neg (Ne.symm different)]
      exact newWired
    exact ⟨_, readers_eq_ok.mpr ⟨_, wire_allMoved unchanged, rfl⟩, fun _ => Inlet.mem_insertAll⟩

theorem producer_setSource {inlet : Inlet} {source : Option Outlet} (has : g.HasInlet inlet) :
    (g.setSource inlet source).producer inlet = .ok source := by
  rcases has with ⟨node, found, inside⟩
  simp only [producer, Graph.node, setSource, node?_modifyNode, if_true, found, Option.map_some]
  simp only [bind, Except.bind, Node.source, List.getElem?_set_self inside]

theorem Rerouted.clear {moved : List Inlet} {inlet : Inlet}
    (rerouted : g.Rerouted h old new moved []) (has : h.HasInlet inlet) (waiting : inlet ∉ moved) :
    g.Rerouted (h.setSource inlet none) old new moved [inlet] := by
  have here := sameBut_setSource h inlet none
  have readersKept : ∀ outlet readers,
      (h.setSource inlet none).readers outlet = .ok readers ↔ h.readers outlet = .ok readers := by
    intro outlet readers
    simp only [readers_eq_ok, wire_setSource]
  constructor
  case same =>
    exact (rerouted.same.trans here).mono (by simp) (by simp)
  case arrived =>
    intro other member
    have elsewhere : other ∉ [inlet] := by
      rw [List.mem_singleton]
      rintro rfl
      exact waiting member
    exact (here.reads other elsewhere new).mpr (rerouted.arrived other member)
  case detached =>
    intro other member
    rcases List.mem_singleton.mp member with rfl
    exact producer_setSource has
  case forgotten =>
    exact (readersKept old []).mpr rerouted.forgotten
  case gained =>
    intro before listed
    rcases rerouted.gained before listed with ⟨readers, served, members⟩
    exact ⟨readers, (readersKept new readers).mpr served, members⟩

/-- What replacing uses leads to if the old outlet exists. -/
theorem Linked.replaceUses_ends {wire : Wire} (linked : g.Linked) (different : old ≠ new)
    (wired : g.wire old = .ok wire) :
    Stateful.Ends (replaceUses old new) g (fun _ h => g.Rerouted h old new wire.readers [])
      fun h => ∃ moved stuck left, wire.readers = moved ++ stuck :: left ∧
        g.Rerouted h old new moved [stuck] ∧ (∀ inlet ∈ left, h.producer inlet = .ok (some old)) ∧
        ((∀ newWire, g.wire new ≠ .ok newWire) ∨ h.Depends new.node stuck.node) := by
  have nodes := sameNodes_forgetful g old
  have present : ∀ inlet ∈ wire.readers, (g.forgetful old).HasInlet inlet := fun inlet member =>
    nodes.hasInlet (linked.faithful.hasInlet_of_mem wired member)
  have distinct := linked.faithful.nodup_readers wired
  unfold Stateful.Ends
  rw [replaceUses_of_wire different wired]
  refine (redirect_ends present).imp ?_ ?_
  · rintro _ h rfl
    exact rerouted_allMoved linked different wired (List.Subset.refl _)
  · rintro h ⟨moved, stuck, left, split, rfl, cause⟩
    rw [split] at distinct present
    have apart := (List.nodup_append.mp distinct).2.2
    have arrived : g.Rerouted ((g.forgetful old).allMoved moved new) old new moved [] :=
      rerouted_allMoved linked different wired (split ▸ List.subset_append_left moved _)
    have has := (sameBut_allMoved (g.forgetful old) moved new).nodes.hasInlet
      (present stuck (List.mem_append_right moved List.mem_cons_self))
    have rerouted := arrived.clear has fun member => apart stuck member stuck List.mem_cons_self rfl
    refine ⟨moved, stuck, left, split, rerouted, ?_, ?_⟩
    · intro inlet waits
      have untouched : inlet ∉ moved ++ [stuck] := by
        rw [List.mem_append, List.mem_singleton]
        rintro (member | rfl)
        · exact apart inlet member inlet (List.mem_cons_of_mem stuck waits) rfl
        · exact (List.nodup_cons.mp (List.nodup_append.mp distinct).2.1).1 waits
      have isReader : inlet ∈ wire.readers :=
        split ▸ List.mem_append_right moved (List.mem_cons_of_mem stuck waits)
      exact (rerouted.same.reads inlet untouched old).mpr
        ((linked.mem_readers wired inlet).mp isReader)
    · refine cause.imp_left ?_
      intro missing newWire newWired
      rcases rerouted.same.nodes.exists_wire newWired with ⟨kept, keptWired, _⟩
      exact missing kept keptWired

/-! ## Failing halfway -/

/-- An image is read three times; the result hangs on the second reading. -/
def readThrice : Edit Nat := do
  let image ← input "image" ⟨.f32, [2]⟩
  let _ ← unary .exp image
  let second ← unary .abs image
  let _ ← unary .neg image
  let root ← unary .sqrt second
  output "result" root

def thrice : Graph :=
  Stateful.final readThrice .empty

theorem made_thrice : thrice.Made := by
  have done : readThrice .empty = .ok 5 thrice := rfl
  simp only [readThrice, Stateful.bind_eq_ok] at done
  rcases done with ⟨_, _, image, _, _, first, _, _, second, _, _, third, _, _, root, result⟩
  exact .output (.unary (.unary (.unary (.unary (.input .empty image) first) second) third) root)
    result

/-- A failed replacement.  If the uses of an outlet cannot be replaced, then the graph
is as before only if that outlet does not exist.  Otherwise the readers in front have
been moved, the first one that could not be moved reads nothing, and those behind it
still read the old outlet, while that outlet lists no reader at all.  The reader could
not be moved because the new outlet does not exist or depends on it. -/
theorem replaceUses_failed {failure : Failure} (linked : g.Linked)
    (failed : replaceUses old new g = .error failure h) :
    (h = g ↔ ∀ wire, g.wire old ≠ .ok wire) ∧
      ∀ wire, g.wire old = .ok wire →
        ∃ moved stuck left, wire.readers = moved ++ stuck :: left ∧
          g.Rerouted h old new moved [stuck] ∧
          (∀ inlet ∈ left, h.producer inlet = .ok (some old)) ∧
          ((∀ newWire, g.wire new ≠ .ok newWire) ∨ h.Depends new.node stuck.node) := by
  have different : old ≠ new := by
    rintro rfl
    rw [replaceUses, if_pos rfl] at failed
    cases failed
  refine ⟨⟨?_, ?_⟩, fun wire wired => (linked.replaceUses_ends different wired).of_error failed⟩
  · rintro rfl wire wired
    rcases (linked.replaceUses_ends different wired).of_error failed with
      ⟨moved, stuck, left, split, rerouted, _⟩
    have isReader : stuck ∈ wire.readers := split ▸ List.mem_append_right moved List.mem_cons_self
    have reads := (linked.mem_readers wired stuck).mp isReader
    cases reads.symm.trans (rerouted.detached stuck (List.mem_singleton_self stuck))
  · intro missing
    cases asked : g.wire old with
    | ok wire => exact absurd asked (missing wire)
    | error cause =>
        have stopped : Edit.ask (·.wire old) g = .error cause g := by
          rw [Edit.ask, asked]
        rw [replaceUses, if_neg different] at failed
        have same := (Stateful.bind_eq_error.mpr (Or.inl stopped)).symm.trans failed
        exact (EStateM.Result.error.inj same).2.symm

/-- The second reader of the image cannot be moved to what hangs on it.  The first one
has been moved by then, and the third one is left behind. -/
theorem replaceUses_failed_thrice :
    ∃ failure after, replaceUses ⟨0, 0⟩ ⟨4, 0⟩ thrice = .error failure after ∧ after ≠ thrice ∧
      ∃ moved stuck left, [⟨1, 0⟩, ⟨2, 0⟩, ⟨3, 0⟩] = moved ++ stuck :: left ∧
        thrice.Rerouted after ⟨0, 0⟩ ⟨4, 0⟩ moved [stuck] ∧
        ∀ inlet ∈ left, after.producer inlet = .ok (some ⟨0, 0⟩) := by
  have failed : replaceUses ⟨0, 0⟩ ⟨4, 0⟩ thrice =
      .error (.refused (.wouldCycle "unary_2" "unary_4"))
        (Stateful.final (replaceUses ⟨0, 0⟩ ⟨4, 0⟩) thrice) := by
    apply Stateful.failure?_eq_some.mp
    decide +kernel
  rcases replaceUses_failed made_thrice.valid.linked failed with ⟨unchanged, outcome⟩
  rcases outcome _ rfl with ⟨moved, stuck, left, split, rerouted, behind, _⟩
  exact ⟨_, _, failed, fun same => unchanged.mp same _ rfl, moved, stuck, left, split, rerouted,
    behind⟩

/-- A failed replacement does not leave the graph as it was.  The image had three readers
and has none; one of them reads something else, one reads nothing, and one reads the
image without being listed. -/
theorem replaceUses_not_atomic :
    thrice.Linked ∧ thrice.readers ⟨0, 0⟩ = .ok [⟨1, 0⟩, ⟨2, 0⟩, ⟨3, 0⟩] ∧
      ∃ after, replaceUses ⟨0, 0⟩ ⟨4, 0⟩ thrice =
          .error (.refused (.wouldCycle "unary_2" "unary_4")) after ∧
        after ≠ thrice ∧ after.readers ⟨0, 0⟩ = .ok [] ∧
        after.producer ⟨1, 0⟩ = .ok (some ⟨4, 0⟩) ∧ after.producer ⟨2, 0⟩ = .ok none ∧
        after.producer ⟨3, 0⟩ = .ok (some ⟨0, 0⟩) := by
  refine ⟨made_thrice.valid.linked, rfl, Stateful.final (replaceUses ⟨0, 0⟩ ⟨4, 0⟩) thrice, ?_, ?_,
    rfl, rfl, rfl, rfl⟩
  · apply Stateful.failure?_eq_some.mp
    decide +kernel
  · decide +kernel

/-! ## When uses can be replaced -/

/-- A path to a reader of the old outlet is still there when its uses have been
replaced. -/
theorem Rewired.depends_of_reads (linked : g.Linked) (acyclic : g.Acyclic)
    (rewired : g.Rewired h fun outlet => if outlet = old then new else outlet) {inlet : Inlet}
    (reads : g.Reads inlet old) {id : Nat} (depends : g.Depends id inlet.node) :
    h.Depends id inlet.node := by
  induction depends using Relation.ReflTransGen.head_induction_on with
  | refl => exact .refl
  | @head id source needs path inductionHypothesis =>
      rcases needs_iff.mp needs with ⟨index, port, link⟩
      -- A link to the old outlet would lead from there to its own reader.
      have notOld : (⟨source, port⟩ : Outlet) ≠ old := by
        intro same
        have isSource : source = old.node := congrArg Outlet.node same
        exact acyclic.not_depends_of_reads reads (isSource ▸ path)
      have kept : h.Reads ⟨id, index⟩ ⟨source, port⟩ :=
        (rewired.reads _ _ (linked.not_orphan _)).mpr ⟨_, link, (if_neg notOld).symm⟩
      exact inductionHypothesis.head kept.needs

/-- When the uses of an outlet can be replaced, and what that does.  In an acyclic graph
it succeeds exactly if the new outlet depends on none of the readers of the old one.
Then the old outlet has no readers left, the new one has those of both, all that were
moved read the new one, and nothing else has changed; the graph is linked and acyclic
as before. -/
theorem replaceUses_succeeds_iff {wire newWire : Wire} (linked : g.Linked) (acyclic : g.Acyclic)
    (different : old ≠ new) (wired : g.wire old = .ok wire)
    (newWired : g.wire new = .ok newWire) :
    ((∃ after, replaceUses old new g = .ok () after) ↔
        ∀ inlet ∈ wire.readers, ¬ g.Depends new.node inlet.node) ∧
      ∀ after, replaceUses old new g = .ok () after →
        after.readers old = .ok [] ∧
        (∃ readers, after.readers new = .ok readers ∧
          ∀ inlet, inlet ∈ readers ↔ inlet ∈ newWire.readers ∨ inlet ∈ wire.readers) ∧
        (∀ inlet ∈ wire.readers, after.producer inlet = .ok (some new)) ∧
        g.SameBut after wire.readers [old, new] ∧ after.Linked ∧ after.Acyclic := by
  have rewires := ends_replaceUses linked.faithful acyclic old new
  refine ⟨⟨?_, exists_replaceUses_of_independent linked.faithful different wired newWired⟩, ?_⟩
  · rintro ⟨after, done⟩ inlet member depends
    have rewired := rewires.of_ok done
    have reads := (linked.mem_readers wired inlet).mp member
    have moved : after.Reads inlet new :=
      (rewired.reads inlet new (linked.not_orphan inlet)).mpr ⟨old, reads, (if_pos rfl).symm⟩
    exact rewired.acyclic.not_depends_of_reads moved
      (rewired.depends_of_reads linked acyclic reads depends)
  · intro after done
    have rerouted := (linked.replaceUses_ends different wired).of_ok done
    have rewired := rewires.of_ok done
    have same := rerouted.same
    rw [List.append_nil] at same
    exact ⟨rerouted.forgotten, rerouted.gained _ (readers_eq_ok.mpr ⟨newWire, newWired, rfl⟩),
      rerouted.arrived, same, rewired.keepsLinks.linked linked, rewired.acyclic⟩

/-- What hangs on the second reader of the image can read the first one instead, but the
readers of the image cannot be moved to it. -/
theorem replaceUses_succeeds_iff_thrice :
    (∃ after, replaceUses ⟨2, 0⟩ ⟨1, 0⟩ thrice = .ok () after ∧ after.readers ⟨2, 0⟩ = .ok [] ∧
      after.producer ⟨4, 0⟩ = .ok (some ⟨1, 0⟩) ∧
      thrice.SameBut after [⟨4, 0⟩] [⟨2, 0⟩, ⟨1, 0⟩]) ∧
    ¬ ∃ after, replaceUses ⟨0, 0⟩ ⟨4, 0⟩ thrice = .ok () after := by
  have valid := made_thrice.valid
  have sideways := replaceUses_succeeds_iff valid.linked valid.acyclic
    (show (⟨2, 0⟩ : Outlet) ≠ ⟨1, 0⟩ by decide) (g := thrice) rfl rfl
  have onward := replaceUses_succeeds_iff valid.linked valid.acyclic
    (show (⟨0, 0⟩ : Outlet) ≠ ⟨4, 0⟩ by decide) (g := thrice) rfl rfl
  constructor
  · have independent : ∀ inlet ∈ [(⟨4, 0⟩ : Inlet)], ¬ thrice.Depends 1 inlet.node := by
      intro inlet member
      rcases List.mem_singleton.mp member with rfl
      rw [← dependsOn_iff]
      decide +kernel
    rcases sideways.1.mpr independent with ⟨after, done⟩
    rcases sideways.2 after done with ⟨forgotten, _, arrived, same, _⟩
    exact ⟨after, done, forgotten, arrived _ (List.mem_singleton_self _), same⟩
  · intro done
    apply onward.1.mp done ⟨2, 0⟩ (by decide +kernel)
    rw [← dependsOn_iff]
    decide +kernel

end Graph
end TensorCompiler
