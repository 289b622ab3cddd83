import Lowering.Tree.Basic

/-
  This file defines how an enum declaration is built from the
  syntax of the host, which the tree knows nothing about: a
  converter makes a free node of each piece of syntax.

  The pieces are converted in the order in which traversal
  will pass them. The constants are checked before the body is
  converted.

  Key definitions include:
    * `EnumSource`
    * `Tree.convertEnum`
-/

namespace Lowering

/- An enum declaration as the host presents it. -/
structure EnumSource (σ : Type) where
  javadoc : Option σ := none
  annotations : List σ := []
  name : σ
  constants : List σ := []
  body : List σ := []
  /- The declared type. -/
  ty : Option TypeId := none
  /- The element of the declared type. -/
  element : Option ElementId := none

namespace Tree

/- End the run unless a node declares an enum constant. -/
def requireConstant
    (tree : Tree)
    (id : NodeId) : Except TreeFault Unit := do
  if (← tree.tag id) ≠ .enumConstantDeclaration then
    throw .notAConstant

/- Build an enum declaration, converting all its pieces. -/
def convertEnum
    {m : Type → Type}
    [Monad m]
    [MonadLiftT TreeM m]
    {σ : Type}
    (convert : σ → m NodeId)
    (source : EnumSource σ) : m NodeId := do
  let javadoc ← source.javadoc.mapM convert
  let annotations ← source.annotations.mapM convert
  let name ← convert source.name
  let constants ← source.constants.mapM convert
  liftM (TreeM.inspect fun tree =>
    constants.forM (requireConstant tree))
  let body ← source.body.mapM convert
  liftM (alloc
    (.enumDeclaration javadoc annotations name constants body)
    source.ty source.element)

end Tree

end Lowering
