import TensorCompiler.Rule

namespace TensorCompiler
namespace Rule

/-!
# Transposes
-/

/-- The reordering that has the effect of `first` followed by `second`. -/
def composeAxes (first second : List Nat) : Checked (List Nat) :=
  second.mapM (entryAt first)

/-- Whether every axis stays where it is. -/
def isIdentity (axes : List Nat) : Bool :=
  axes == List.range axes.length

/-- Two transposes in a row are one. -/
def foldTwoTransposes : Rule where
  name := "fold_two_transposes"
  anchors := [.transpose]
  recognize g id :=
    match g.producerOf id 0 with
    | some (outlet, .transpose _) =>
      if g.hasOneReader outlet then Region.chain g outlet.node id else none
    | _ => none
  build found := do
    let g ← get
    match g.op? (← found.node 0), g.op? (← found.node 1) with
    | some (.transpose first), some (.transpose second) =>
      let axes ← composeAxes first second
      return [← Graph.transpose (← found.source 0) axes]
    | _, _ => refuse (.badReplacement "fold_two_transposes")

/-- A transpose that moves no axis does nothing. -/
def foldIdentityTranspose : Rule where
  name := "fold_nop_transpose"
  anchors := [.transpose]
  recognize g id :=
    match g.op? id with
    | some (.transpose axes) => if isIdentity axes then Region.single g id else none
    | _ => none
  build found := return [← found.source 0]

end Rule
end TensorCompiler
