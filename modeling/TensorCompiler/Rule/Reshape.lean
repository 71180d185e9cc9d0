import TensorCompiler.Rule

namespace TensorCompiler
namespace Rule

/-!
# Reshapes
-/

/-- Of two reshapes in a row only the second counts. -/
def foldTwoReshapes : Rule where
  name := "fold_two_reshapes"
  anchors := [.reshape]
  recognize g id :=
    match g.producerOf id 0 with
    | some (outlet, .reshape _) =>
      if g.hasOneReader outlet then Region.chain g outlet.node id else none
    | _ => none
  build found := do
    let g ← get
    match g.op? (← found.node 1) with
    | some (.reshape shape) => return [← Graph.reshape (← found.source 0) shape]
    | _ => refuse (.badReplacement "fold_two_reshapes")

/-- Whether an outlet and the first outlet of a node have the same type. -/
def sameTypeAcross (g : Graph) (before : Outlet) (id : Nat) : Bool :=
  match g.outputType before, g.outputType ⟨id, 0⟩ with
  | .ok first, .ok second => first == second
  | _, _ => false

/-- A reshape to the type that is there already does nothing. -/
def foldIdentityReshape : Rule where
  name := "fold_nop_reshape"
  anchors := [.reshape]
  recognize g id :=
    match g.op? id, g.producerOf id 0 with
    | some (.reshape _), some (outlet, _) =>
      if sameTypeAcross g outlet id then Region.single g id else none
    | _, _ => none
  build found := return [← found.source 0]

end Rule
end TensorCompiler
