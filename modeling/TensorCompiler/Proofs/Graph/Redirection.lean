import TensorCompiler.Proofs.Graph.Editing
import TensorCompiler.Rule

namespace TensorCompiler

/-!
# Moving readers

The readers of an outlet are taken off their wire together and then connected
to another outlet one by one, with a check for cycles each time.  On the way
the two ends of the links disagree about the readers that have not been moved
yet, and about nothing else.  If a check refuses, those readers are left behind as
orphans; the graph stays faithful and acyclic all the same.

That no check refuses is shown with a set of late nodes: everything that
depends on a late node is late.  If the old outlet belongs to a late node and
the new one does not, then all readers to be moved are late, while the new
outlet depends on nothing late, in every graph on the way.
-/

namespace Graph

section

variable {g h : Graph} {late : Nat → Prop}

/-- Whatever needs a late node is late. -/
def Downstream (g : Graph) (late : Nat → Prop) : Prop :=
  ∀ id source, g.Needs id source → late source → late id

/-- What is not late depends on nothing late. -/
theorem Downstream.not_late (closed : g.Downstream late) {id target : Nat}
    (early : ¬ late id) (depends : g.Depends id target) : ¬ late target := by
  induction depends with
  | refl => exact early
  | tail _ needs inductionHypothesis =>
      intro isLate
      exact inductionHypothesis (closed _ _ needs isLate)

/-! ## Changing links only -/

/-- The nodes are the same but may be linked differently. -/
structure Relinked (g h : Graph) : Prop where
  nodes : g.SameNodes h
  live : h.live = g.live
  faithful : h.Faithful
  acyclic : h.Acyclic

theorem Relinked.trans {k : Graph} (first : g.Relinked h) (second : h.Relinked k) :
    g.Relinked k where
  nodes := first.nodes.trans second.nodes
  live := second.live.trans first.live
  faithful := second.faithful
  acyclic := second.acyclic

/-- What each inlet reads is replaced by a function of it.  Orphans cannot be found
from the outlet that they read, so they keep reading it. -/
structure Rewired (g h : Graph) (change : Outlet → Outlet) : Prop extends Relinked g h where
  orphans : ∀ inlet, h.Orphan inlet ↔ g.Orphan inlet
  reads : ∀ inlet outlet, ¬ g.Orphan inlet →
    (h.Reads inlet outlet ↔ ∃ before, g.Reads inlet before ∧ outlet = change before)
  stays : ∀ inlet outlet, g.Orphan inlet → (h.Reads inlet outlet ↔ g.Reads inlet outlet)

theorem Rewired.keepsLinks {change : Outlet → Outlet} (rewired : g.Rewired h change) :
    g.KeepsLinks h where
  faithful _ := rewired.faithful
  orphans _ inlet := (rewired.orphans inlet).mp

theorem Rewired.trans {k : Graph} {first second : Outlet → Outlet} (before : g.Rewired h first)
    (after : h.Rewired k second) : g.Rewired k (second ∘ first) where
  toRelinked := before.toRelinked.trans after.toRelinked
  orphans inlet := (after.orphans inlet).trans (before.orphans inlet)
  reads := by
    intro inlet outlet adopted
    rw [after.reads inlet outlet (fun orphan => adopted ((before.orphans inlet).mp orphan))]
    simp only [before.reads inlet _ adopted, Function.comp_apply]
    constructor
    · rintro ⟨_, ⟨source, readsSource, rfl⟩, same⟩
      exact ⟨source, readsSource, same⟩
    · rintro ⟨source, readsSource, same⟩
      exact ⟨_, ⟨source, readsSource, rfl⟩, same⟩
  stays := by
    intro inlet outlet orphan
    rw [after.stays inlet outlet ((before.orphans inlet).mpr orphan),
      before.stays inlet outlet orphan]

theorem Rewired.congr {change other : Outlet → Outlet} (rewired : g.Rewired h change)
    (same : ∀ inlet outlet, g.Reads inlet outlet → change outlet = other outlet) :
    g.Rewired h other where
  toRelinked := rewired.toRelinked
  orphans := rewired.orphans
  reads := by
    intro inlet outlet adopted
    rw [rewired.reads inlet outlet adopted]
    constructor
    · rintro ⟨before, reads, rfl⟩
      exact ⟨before, reads, same inlet before reads⟩
    · rintro ⟨before, reads, rfl⟩
      exact ⟨before, reads, (same inlet before reads).symm⟩
  stays := rewired.stays

/-! ## Moving inlets one by one -/

theorem clearSource_eq_ok {inlet : Inlet} :
    clearSource inlet g = .ok () h ↔ g.HasInlet inlet ∧ h = g.setSource inlet none := by
  rw [clearSource, Edit.step_eq_ok, Checked.bind_eq_ok]
  simp only [node_eq_ok, HasInlet]
  constructor
  · rintro ⟨node, found, answer⟩
    split at answer
    · next inside =>
      rcases Prod.mk.inj (Checked.pure_eq_ok.mp answer) with ⟨_, same⟩
      exact ⟨⟨node, found, inside⟩, same.symm⟩
    · exact absurd answer Checked.abort_ne_ok
  · rintro ⟨⟨node, found, inside⟩, rfl⟩
    refine ⟨node, found, ?_⟩
    rw [if_pos inside]
    rfl

/-- The graph in which an inlet reads one outlet instead of another. -/
def moved (g : Graph) (inlet : Inlet) (new : Outlet) : Graph :=
  (g.setSource inlet none).link inlet new

section

variable {old new : Outlet} {inlet : Inlet} {waiting : List Inlet}

theorem sameNodes_moved (g : Graph) (inlet : Inlet) (new : Outlet) :
    g.SameNodes (g.moved inlet new) :=
  (sameNodes_setSource g inlet none).trans (sameNodes_link _ inlet new)

theorem reads_moved (has : g.HasInlet inlet) {other : Inlet} {outlet : Outlet} :
    (g.moved inlet new).Reads other outlet ↔
      if other = inlet then outlet = new else g.Reads other outlet := by
  rw [moved, reads_link ((sameNodes_setSource g inlet none).hasInlet has), reads_setSource]
  split
  · rfl
  · rfl

theorem not_reads_cleared (outlet : Outlet) : ¬ (g.setSource inlet none).Reads inlet outlet := by
  rw [reads_setSource]
  simp

theorem needs_of_cleared {id source : Nat} (needs : (g.setSource inlet none).Needs id source) :
    g.Needs id source := by
  rcases needs_iff.mp needs with ⟨index, port, reads⟩
  rw [reads_setSource] at reads
  split at reads
  · cases reads.2
  · exact reads.needs

/-- An inlet can be moved exactly if the new outlet exists and does not depend
on it. -/
theorem move_eq_ok (has : g.HasInlet inlet) :
    (∃ cleared, clearSource inlet g = .ok () cleared ∧ connect inlet new cleared = .ok () h) ↔
      (∃ wire, g.wire new = .ok wire) ∧ ¬ (g.setSource inlet none).Depends new.node inlet.node ∧
        h = g.moved inlet new := by
  have clearedHas := (sameNodes_setSource g inlet none).hasInlet has
  constructor
  · rintro ⟨_, cleared, connected⟩
    rcases clearSource_eq_ok.mp cleared with ⟨_, rfl⟩
    rcases connected_eq_ok (connect_eq_ok.mp connected) with
      ⟨⟨wire, wired⟩, _, ⟨reads, _⟩ | ⟨_, independent, same⟩⟩
    · exact absurd reads (not_reads_cleared new)
    · exact ⟨⟨wire, wire_setSource.mp wired⟩, independent, same⟩
  · rintro ⟨⟨wire, wired⟩, independent, rfl⟩
    refine ⟨_, clearSource_eq_ok.mpr ⟨has, rfl⟩, connect_eq_ok.mpr ?_⟩
    apply connected_of_free clearedHas not_reads_cleared (wire_setSource.mpr wired)
    rw [Bool.eq_false_iff]
    exact fun found => independent (dependsOn_iff.mp found)

theorem serves_moved {wire : Wire} (wired : g.wire new = .ok wire) {other : Inlet}
    {outlet : Outlet} : (g.moved inlet new).Serves outlet other ↔
      g.Serves outlet other ∨ (outlet = new ∧ other = inlet) := by
  rw [moved, serves_link (wire_setSource.mpr wired)]
  simp only [Serves, wire_setSource]

theorem Acyclic.moved (acyclic : g.Acyclic) (has : g.HasInlet inlet)
    (independent : ¬ (g.setSource inlet none).Depends new.node inlet.node) :
    (g.moved inlet new).Acyclic := by
  have cleared := (sameNodes_setSource g inlet none).hasInlet has
  refine Acyclic.link (acyclic.mono ?_) cleared independent
  exact fun _ _ needs => needs_of_cleared needs

/-- Some inlets are to be moved, and no wire lists them any more. -/
structure Waiting (g : Graph) (waiting : List Inlet) : Prop where
  distinct : waiting.Nodup
  present : ∀ inlet ∈ waiting, g.HasInlet inlet
  unlisted : ∀ inlet ∈ waiting, ∀ outlet, ¬ g.Serves outlet inlet

theorem Waiting.moved {wire : Wire} (isWaiting : g.Waiting (inlet :: waiting))
    (wired : g.wire new = .ok wire) : (g.moved inlet new).Waiting waiting where
  distinct := (List.nodup_cons.mp isWaiting.distinct).2
  present := by
    intro other member
    exact (sameNodes_moved g inlet new).hasInlet
      (isWaiting.present other (List.mem_cons_of_mem inlet member))
  unlisted := by
    intro other member outlet served
    rcases (serves_moved wired).mp served with before | ⟨_, rfl⟩
    · exact isWaiting.unlisted other (List.mem_cons_of_mem inlet member) outlet before
    · exact (List.nodup_cons.mp isWaiting.distinct).1 member

theorem relinked_cleared (faithful : g.Faithful) (acyclic : g.Acyclic)
    (unlisted : ∀ outlet, ¬ g.Serves outlet inlet) : g.Relinked (g.setSource inlet none) where
  nodes := sameNodes_setSource g inlet none
  live := rfl
  faithful := (keepsLinks_clear unlisted).faithful faithful
  acyclic := acyclic.mono fun _ _ needs => needs_of_cleared needs

theorem relinked_moved {wire : Wire} (faithful : g.Faithful) (acyclic : g.Acyclic)
    (has : g.HasInlet inlet) (unlisted : ∀ outlet, ¬ g.Serves outlet inlet)
    (wired : g.wire new = .ok wire)
    (independent : ¬ (g.setSource inlet none).Depends new.node inlet.node) :
    g.Relinked (g.moved inlet new) where
  nodes := sameNodes_moved g inlet new
  live := rfl
  faithful := by
    have cleared := (relinked_cleared faithful acyclic unlisted).faithful
    have clearedHas := (sameNodes_setSource g inlet none).hasInlet has
    exact (keepsLinks_link clearedHas not_reads_cleared (wire_setSource.mpr wired)).faithful cleared
  acyclic := acyclic.moved has independent

/-- Moving the first of several inlets.  It stops there if the inlet, once cleared,
cannot be connected; otherwise it goes on with the others. -/
theorem ends_redirect_cons {inlet : Inlet} {rest : List Inlet} {done : Unit → Graph → Prop}
    {stopped : Graph → Prop} (has : g.HasInlet inlet)
    (goesOn : (∃ wire, g.wire new = .ok wire) →
      ¬ (g.setSource inlet none).Depends new.node inlet.node →
      Stateful.Ends (redirect new rest) (g.moved inlet new) done stopped)
    (isStuck : (∀ wire, g.wire new ≠ .ok wire) ∨
        (g.setSource inlet none).Depends new.node inlet.node →
      stopped (g.setSource inlet none)) :
    Stateful.Ends (redirect new (inlet :: rest)) g done stopped := by
  have clearing : clearSource inlet g = .ok () (g.setSource inlet none) :=
    clearSource_eq_ok.mpr ⟨has, rfl⟩
  simp only [redirect, Stateful.ends_bind]
  rw [Stateful.ends_of_ok clearing]
  cases connecting : connect inlet new (g.setSource inlet none) with
  | error failure unchanged =>
      have here : Stateful.Ends (connect inlet new) (g.setSource inlet none) (fun _ _ => True)
          (· = g.setSource inlet none) := Edit.ends_step (fun _ _ _ => trivial) rfl
      rw [Stateful.ends_of_error connecting, here.of_error connecting]
      apply isStuck
      by_contra movable
      simp only [not_or, not_forall, not_not] at movable
      rcases (move_eq_ok has).mpr ⟨movable.1, movable.2, rfl⟩ with ⟨_, cleared, connected⟩
      rcases (clearSource_eq_ok.mp cleared).2 with rfl
      cases connected.symm.trans connecting
  | ok _ next =>
      rw [Stateful.ends_of_ok connecting]
      rcases (move_eq_ok has).mp ⟨_, clearing, connecting⟩ with ⟨wired, independent, rfl⟩
      exact goesOn wired independent

/-- What moving inlets does.  If it stops halfway, the inlets that are left still
read what they did. -/
theorem ends_redirect (faithful : g.Faithful) (acyclic : g.Acyclic)
    (isWaiting : g.Waiting waiting) :
    Stateful.Ends (redirect new waiting) g
      (fun _ h => g.Relinked h ∧ ∀ inlet outlet,
        (h.Reads inlet outlet ↔ if inlet ∈ waiting then outlet = new else g.Reads inlet outlet) ∧
        (h.Serves outlet inlet ↔ g.Serves outlet inlet ∨ (outlet = new ∧ inlet ∈ waiting)))
      fun h => g.Relinked h := by
  induction waiting generalizing g with
  | nil => exact ⟨⟨.refl g, rfl, faithful, acyclic⟩, fun inlet outlet => by simp⟩
  | cons inlet rest inductionHypothesis =>
      have has := isWaiting.present inlet List.mem_cons_self
      have unlisted := isWaiting.unlisted inlet List.mem_cons_self
      refine ends_redirect_cons has ?_ fun _ => relinked_cleared faithful acyclic unlisted
      rintro ⟨wire, wired⟩ independent
      have moved := relinked_moved faithful acyclic has unlisted wired independent
      have others := inductionHypothesis moved.faithful moved.acyclic (isWaiting.moved wired)
      refine others.imp ?_ fun after relinked => moved.trans relinked
      rintro _ after ⟨relinked, links⟩
      refine ⟨moved.trans relinked, ?_⟩
      intro other outlet
      rw [(links other outlet).1, (links other outlet).2, reads_moved has, serves_moved wired]
      by_cases isInlet : other = inlet
      · subst isInlet
        simp [(List.nodup_cons.mp isWaiting.distinct).1]
      · simp [isInlet]

/-- Late inlets can be moved to an outlet that is not late. -/
theorem exists_redirect (present : ∀ inlet ∈ waiting, g.HasInlet inlet)
    (closed : g.Downstream late) (isLate : ∀ inlet ∈ waiting, late inlet.node)
    (early : ¬ late new.node) (wired : ∃ wire, g.wire new = .ok wire) :
    ∃ after, redirect new waiting g = .ok () after := by
  induction waiting generalizing g with
  | nil => exact ⟨g, rfl⟩
  | cons inlet rest inductionHypothesis =>
      rcases wired with ⟨wire, wired⟩
      have has := present inlet List.mem_cons_self
      have clearedClosed : (g.setSource inlet none).Downstream late :=
        fun _ _ needs => closed _ _ (needs_of_cleared needs)
      have independent : ¬ (g.setSource inlet none).Depends new.node inlet.node :=
        fun depends => clearedClosed.not_late early depends (isLate inlet List.mem_cons_self)
      have movedClosed : (g.moved inlet new).Downstream late := by
        intro id source needs
        rcases needs_link ((sameNodes_setSource g inlet none).hasInlet has) needs with
          old | ⟨_, rfl⟩
        · exact clearedClosed id source old
        · exact fun isLate => absurd isLate early
      have nodes := sameNodes_moved g inlet new
      rcases nodes.exists_wire wired with ⟨kept, keptWired, _⟩
      rcases (move_eq_ok has).mpr ⟨⟨wire, wired⟩, independent, rfl⟩ with
        ⟨cleared, clearing, connecting⟩
      rcases inductionHypothesis
        (fun other member => nodes.hasInlet (present other (List.mem_cons_of_mem inlet member)))
        movedClosed (fun other member => isLate other (List.mem_cons_of_mem inlet member))
        ⟨kept, keptWired⟩ with
        ⟨after, others⟩
      refine ⟨after, ?_⟩
      simp only [redirect, Stateful.bind_eq_ok]
      exact ⟨(), cleared, clearing, (), _, connecting, others⟩

end

/-! ## All uses of an outlet -/

section

variable {old new : Outlet}

theorem needs_of_modifyWire {change : Wire → Wire} {id source : Nat}
    (needs : (g.modifyWire old change).Needs id source) : g.Needs id source := by
  rcases needs_iff.mp needs with ⟨index, port, reads⟩
  exact (reads_modifyWire.mp reads).needs

/-- The graph in which an outlet has forgotten its readers. -/
def forgetful (g : Graph) (old : Outlet) : Graph :=
  g.modifyWire old fun wire => { wire with readers := [] }

theorem sameNodes_forgetful (g : Graph) (old : Outlet) : g.SameNodes (g.forgetful old) :=
  sameNodes_modifyWire g old fun _ => rfl

theorem serves_forgetful {inlet : Inlet} {outlet : Outlet} :
    (g.forgetful old).Serves outlet inlet ↔ outlet ≠ old ∧ g.Serves outlet inlet := by
  simp only [forgetful, Serves, wire_modifyWire]
  split
  · next same => simp [same]
  · next different => simp [different]

theorem relinked_forgetful (faithful : g.Faithful) (acyclic : g.Acyclic) (old : Outlet) :
    g.Relinked (g.forgetful old) where
  nodes := sameNodes_forgetful g old
  live := rfl
  faithful := by
    refine ⟨?_, ?_, ?_⟩
    · intro inlet outlet reads
      rcases faithful.sources inlet outlet (reads_modifyWire.mp reads) with ⟨wire, wired⟩
      rcases (sameNodes_forgetful g old).exists_wire wired with ⟨kept, keptWired, _⟩
      exact ⟨kept, keptWired⟩
    · intro outlet inlet served
      exact reads_modifyWire.mpr (faithful.readers outlet inlet (serves_forgetful.mp served).2)
    · intro outlet wire wired
      rw [forgetful, wire_modifyWire] at wired
      split at wired
      · rcases wired with ⟨_, _, rfl⟩
        exact List.Pairwise.nil
      · exact faithful.increasing outlet wire wired
  acyclic := acyclic.mono fun _ _ needs => needs_of_modifyWire needs

theorem Faithful.hasInlet_of_mem {wire : Wire} (faithful : g.Faithful)
    (wired : g.wire old = .ok wire) {inlet : Inlet} (member : inlet ∈ wire.readers) :
    g.HasInlet inlet :=
  (faithful.readers old inlet ⟨wire, wired, member⟩).hasInlet

theorem waiting_forgetful {wire : Wire} (faithful : g.Faithful) (wired : g.wire old = .ok wire) :
    (g.forgetful old).Waiting wire.readers where
  distinct := faithful.nodup_readers wired
  present inlet member :=
    (sameNodes_forgetful g old).hasInlet (faithful.hasInlet_of_mem wired member)
  unlisted := by
    intro inlet member outlet served
    rcases serves_forgetful.mp served with ⟨different, before⟩
    have readsOld := faithful.readers old inlet ⟨wire, wired, member⟩
    exact different (reads_unique (faithful.readers outlet inlet before) readsOld)

/-- Once its readers have been moved, whoever an outlet had listed reads another
one and is listed there. -/
theorem rewired_of_links {wire : Wire} (faithful : g.Faithful) (wired : g.wire old = .ok wire)
    (relinked : g.Relinked h)
    (links : ∀ inlet outlet,
      (h.Reads inlet outlet ↔
        if inlet ∈ wire.readers then outlet = new else g.Reads inlet outlet) ∧
      (h.Serves outlet inlet ↔
        (outlet ≠ old ∧ g.Serves outlet inlet) ∨ (outlet = new ∧ inlet ∈ wire.readers))) :
    g.Rewired h fun outlet => if outlet = old then new else outlet := by
  have listed : ∀ inlet, inlet ∈ wire.readers ↔ g.Serves old inlet := by
    intro inlet
    constructor
    · exact fun member => ⟨wire, wired, member⟩
    · rintro ⟨again, wiredAgain, member⟩
      rcases Except.ok.inj (wired.symm.trans wiredAgain) with rfl
      exact member
  have unlisted : ∀ inlet outlet, g.Reads inlet outlet → ¬ g.Serves outlet inlet →
      inlet ∉ wire.readers := by
    intro inlet outlet reads unserved member
    have served := (listed inlet).mp member
    exact unserved (reads_unique (faithful.readers old inlet served) reads ▸ served)
  refine ⟨relinked, ?_, ?_, ?_⟩
  · intro inlet
    constructor
    · rintro ⟨outlet, reads, unserved⟩
      rw [(links inlet outlet).1] at reads
      rw [(links inlet outlet).2] at unserved
      split at reads
      · next member => exact absurd (Or.inr ⟨reads, member⟩) unserved
      · next outside =>
        refine ⟨outlet, reads, fun served => ?_⟩
        by_cases isOld : outlet = old
        · exact outside ((listed inlet).mpr (isOld ▸ served))
        · exact unserved (Or.inl ⟨isOld, served⟩)
    · rintro ⟨outlet, reads, unserved⟩
      have outside := unlisted inlet outlet reads unserved
      refine ⟨outlet, ?_, ?_⟩
      · rw [(links inlet outlet).1, if_neg outside]
        exact reads
      · rw [(links inlet outlet).2]
        rintro (⟨_, served⟩ | ⟨_, member⟩)
        · exact unserved served
        · exact outside member
  · intro inlet outlet adopted
    rw [(links inlet outlet).1]
    split
    · next member =>
      have readsOld := faithful.readers old inlet ((listed inlet).mp member)
      constructor
      · rintro rfl
        exact ⟨old, readsOld, (if_pos rfl).symm⟩
      · rintro ⟨before, readsBefore, rfl⟩
        rw [if_pos (reads_unique readsBefore readsOld)]
    · next outside =>
      -- A reader that is no orphan and is not listed reads some other outlet.
      have notOld : ∀ before, g.Reads inlet before → before ≠ old := by
        rintro before readsBefore rfl
        exact adopted ⟨before, readsBefore, fun served => outside ((listed inlet).mpr served)⟩
      constructor
      · intro reads
        exact ⟨outlet, reads, (if_neg (notOld outlet reads)).symm⟩
      · rintro ⟨before, readsBefore, rfl⟩
        rw [if_neg (notOld before readsBefore)]
        exact readsBefore
  · rintro inlet outlet ⟨source, readsSource, unserved⟩
    rw [(links inlet outlet).1, if_neg (unlisted inlet source readsSource unserved)]

/-- What replacing the uses of an outlet does, also if it fails. -/
theorem ends_replaceUses (faithful : g.Faithful) (acyclic : g.Acyclic) (old new : Outlet) :
    Stateful.Ends (replaceUses old new) g
      (fun _ h => g.Rewired h fun outlet => if outlet = old then new else outlet)
      fun h => g.Relinked h := by
  have unchanged : g.Relinked g := ⟨.refl g, rfl, faithful, acyclic⟩
  unfold replaceUses
  split
  · next same =>
    subst same
    have stays : ∀ outlet, (if outlet = old then old else outlet) = outlet := by
      intro outlet
      split
      · next isOld => exact isOld.symm
      · rfl
    exact ⟨unchanged, fun _ => Iff.rfl, fun _ _ _ => by simp [stays], fun _ _ _ => Iff.rfl⟩
  · simp only [Stateful.ends_bind, Stateful.ends_modify]
    refine Edit.ends_ask ?_ unchanged
    intro wire wired
    have forgotten := relinked_forgetful faithful acyclic old
    refine (ends_redirect forgotten.faithful forgotten.acyclic
      (waiting_forgetful faithful wired)).imp ?_ fun _ relinked => forgotten.trans relinked
    rintro _ h ⟨relinked, links⟩
    apply rewired_of_links faithful wired (forgotten.trans relinked)
    intro inlet outlet
    rw [(links inlet outlet).1, (links inlet outlet).2, serves_forgetful, forgetful,
      reads_modifyWire]
    exact ⟨Iff.rfl, Iff.rfl⟩

theorem replaceUses_of_wire {wire : Wire} (different : old ≠ new) (wired : g.wire old = .ok wire) :
    replaceUses old new g = redirect new wire.readers (g.forgetful old) := by
  have asked : Edit.ask (·.wire old) g = .ok wire g := Edit.ask_eq_ok.mpr ⟨wired, rfl⟩
  rw [replaceUses, if_neg different, Stateful.bind_of_ok asked]
  rfl

/-- The uses of an outlet can be replaced if the new outlet depends on none of its
readers. -/
theorem exists_replaceUses_of_independent {wire newWire : Wire} (faithful : g.Faithful)
    (different : old ≠ new) (wired : g.wire old = .ok wire) (newWired : g.wire new = .ok newWire)
    (independent : ∀ inlet ∈ wire.readers, ¬ g.Depends new.node inlet.node) :
    ∃ after, replaceUses old new g = .ok () after := by
  have nodes := sameNodes_forgetful g old
  rcases nodes.exists_wire newWired with ⟨kept, keptWired, _⟩
  -- Late is what depends on some reader.
  have closed : (g.forgetful old).Downstream
      fun id => ∃ inlet ∈ wire.readers, g.Depends id inlet.node := by
    rintro id source needs ⟨inlet, member, path⟩
    exact ⟨inlet, member, path.head (needs_of_modifyWire needs)⟩
  have early : ¬ ∃ inlet ∈ wire.readers, g.Depends new.node inlet.node := by
    rintro ⟨inlet, member, path⟩
    exact independent inlet member path
  rw [replaceUses_of_wire different wired]
  exact exists_redirect
    (fun inlet member => nodes.hasInlet (faithful.hasInlet_of_mem wired member)) closed
    (fun inlet member => ⟨inlet, member, .refl⟩) early ⟨kept, keptWired⟩

/-- The uses of an outlet of a late node can be replaced by an outlet of a node
that is not late. -/
theorem exists_replaceUses (faithful : g.Faithful) (acyclic : g.Acyclic)
    (closed : g.Downstream late) (isLate : late old.node) (early : ¬ late new.node)
    (oldWired : ∃ wire, g.wire old = .ok wire) (newWired : ∃ wire, g.wire new = .ok wire) :
    ∃ after, replaceUses old new g = .ok () after ∧
      g.Rewired after fun outlet => if outlet = old then new else outlet := by
  rcases oldWired with ⟨wire, wired⟩
  rcases newWired with ⟨newWire, newWired⟩
  have different : old ≠ new := by
    rintro rfl
    exact early isLate
  have independent : ∀ inlet ∈ wire.readers, ¬ g.Depends new.node inlet.node := by
    intro inlet member depends
    have needs := (faithful.readers old inlet ⟨wire, wired, member⟩).needs
    exact closed.not_late early depends (closed _ _ needs isLate)
  rcases exists_replaceUses_of_independent faithful different wired newWired independent with
    ⟨after, done⟩
  exact ⟨after, done, (ends_replaceUses faithful acyclic old new).of_ok done⟩

end

end

end Graph

/-! ## Several outlets -/

namespace Rule

/-- What an outlet is replaced by. -/
def redirected (pairs : List (Outlet × Outlet)) (outlet : Outlet) : Outlet :=
  (pairs.lookup outlet).getD outlet

theorem redirected_cons (pair : Outlet × Outlet) (pairs : List (Outlet × Outlet))
    (outlet : Outlet) :
    redirected (pair :: pairs) outlet =
      if outlet = pair.1 then pair.2 else redirected pairs outlet := by
  rcases pair with ⟨old, new⟩
  unfold redirected
  rw [List.lookup_cons]
  by_cases same : outlet = old
  · simp [same]
  · rw [if_neg same, beq_eq_false_iff_ne.mpr same]

/-- An outlet is replaced by its partner in some pair, or stays. -/
theorem redirected_cases (pairs : List (Outlet × Outlet)) (outlet : Outlet) :
    (outlet, redirected pairs outlet) ∈ pairs ∨
      (redirected pairs outlet = outlet ∧ ∀ pair ∈ pairs, pair.1 ≠ outlet) := by
  induction pairs with
  | nil => exact Or.inr ⟨rfl, fun _ member => absurd member List.not_mem_nil⟩
  | cons pair rest inductionHypothesis =>
      rw [redirected_cons]
      split
      · next same =>
        subst same
        exact Or.inl List.mem_cons_self
      · next different =>
        rcases inductionHypothesis with moved | ⟨stays, others⟩
        · exact Or.inl (List.mem_cons_of_mem pair moved)
        · refine Or.inr ⟨stays, ?_⟩
          intro other member
          rcases List.mem_cons.mp member with rfl | inRest
          · exact Ne.symm different
          · exact others other inRest

theorem redirected_of_mem {pairs : List (Outlet × Outlet)} {old new : Outlet}
    (distinct : (pairs.map Prod.fst).Nodup) (member : (old, new) ∈ pairs) :
    redirected pairs old = new := by
  induction pairs with
  | nil => exact absurd member List.not_mem_nil
  | cons pair rest inductionHypothesis =>
      rcases List.nodup_cons.mp distinct with ⟨fresh, restDistinct⟩
      rw [redirected_cons]
      rcases List.mem_cons.mp member with rfl | inRest
      · exact if_pos rfl
      · rw [if_neg, inductionHypothesis restDistinct inRest]
        rintro rfl
        exact fresh (List.mem_map.mpr ⟨_, inRest, rfl⟩)

variable {g : Graph} {late : Nat → Prop} {pairs : List (Outlet × Outlet)}

open TensorCompiler.Graph in
/-- Readers can be moved from late outlets to outlets that are not late. -/
theorem moveReaders_eq_ok (faithful : g.Faithful) (acyclic : g.Acyclic) (closed : g.Downstream late)
    (isLate : ∀ pair ∈ pairs, late pair.1.node) (early : ∀ pair ∈ pairs, ¬ late pair.2.node)
    (wired : ∀ pair ∈ pairs,
      (∃ wire, g.wire pair.1 = .ok wire) ∧ ∃ wire, g.wire pair.2 = .ok wire) :
    ∃ after, moveReaders pairs g = .ok () after ∧ g.Rewired after (redirected pairs) := by
  induction pairs generalizing g with
  | nil =>
      refine ⟨g, rfl, ⟨.refl g, rfl, faithful, acyclic⟩, fun _ => Iff.rfl, ?_, fun _ _ _ => Iff.rfl⟩
      intro inlet outlet _
      simp [redirected]
  | cons pair rest inductionHypothesis =>
      rcases pair with ⟨old, new⟩
      rcases List.forall_mem_cons.mp isLate with ⟨oldLate, restLate⟩
      rcases List.forall_mem_cons.mp early with ⟨newEarly, restEarly⟩
      rcases List.forall_mem_cons.mp wired with ⟨⟨oldWired, newWired⟩, restWired⟩
      rcases exists_replaceUses faithful acyclic closed oldLate newEarly oldWired newWired with
        ⟨between, replaced, first⟩
      -- Whoever reads something else than before reads the replacement, which is not late.
      have betweenClosed : between.Downstream late := by
        intro id source needs sourceLate
        rcases needs_iff.mp needs with ⟨index, port, readsAfter⟩
        by_cases orphan : g.Orphan ⟨id, index⟩
        · exact closed id source ((first.stays _ _ orphan).mp readsAfter).needs sourceLate
        · rcases (first.reads _ _ orphan).mp readsAfter with ⟨before, readsBefore, target⟩
          split at target
          · have isNew : source = new.node := congrArg Outlet.node target
            exact absurd (isNew ▸ sourceLate) newEarly
          · subst target
            exact closed id source readsBefore.needs sourceLate
      have stillWired : ∀ pair ∈ rest, (∃ wire, between.wire pair.1 = .ok wire) ∧
          ∃ wire, between.wire pair.2 = .ok wire := by
        intro pair member
        rcases restWired pair member with ⟨⟨_, firstWired⟩, ⟨_, secondWired⟩⟩
        rcases first.nodes.exists_wire firstWired with ⟨kept, keptWired, _⟩
        rcases first.nodes.exists_wire secondWired with ⟨other, otherWired, _⟩
        exact ⟨⟨kept, keptWired⟩, ⟨other, otherWired⟩⟩
      rcases inductionHypothesis first.faithful first.acyclic betweenClosed restLate restEarly
        stillWired with ⟨after, moved, second⟩
      -- The later pairs leave the replacement alone, since they move readers of late outlets.
      have newStays : redirected rest new = new := by
        rcases redirected_cases rest new with member | ⟨stays, _⟩
        · exact absurd (restLate _ member) newEarly
        · exact stays
      refine ⟨after, ?_, (first.trans second).congr ?_⟩
      · simp only [moveReaders, Stateful.bind_eq_ok]
        exact ⟨(), between, replaced, moved⟩
      · intro inlet outlet _
        rw [Function.comp_apply, redirected_cons]
        split
        · exact newStays
        · rfl

end Rule
end TensorCompiler
