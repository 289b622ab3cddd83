import Lowering.Proofs.Arrays.Modes.Choices

/-
  This file proves that pieces of lowered array code which are
  built of like symbols, in trees that are alike, leave the
  trees alike. The two pieces have the same handle.

  Main results:
    * `Arrays.ElementAccess.Alike.build`
    * `Arrays.SizeAccess.Alike.build`
    * `Arrays.TypeTest.Alike.build`
    * `Arrays.Factory.Alike.buildInitialized`
    * `Arrays.Factory.Alike.buildOfLength`
    * `Arrays.NestedFactory.Alike.build`
-/

namespace Lowering

namespace Arrays

open Lowering.Tree (Both)

variable {likeness : Likeness}
variable {tree tree' : Tree}
variable (hTyped : ∀ tag ty,
  tag ≠ NodeTag.arrayCreation → likeness.typed tag ty)

include hTyped

------------------------------------------------------------
-- Nodes
------------------------------------------------------------

/- A node is made that is no array creation. -/
private theorem alike_alloc
    {kind kind' : NodeKind NodeId}
    {ty : Option TypeId}
    {element element' : Option ElementId}
    (hTrees : tree.Alike likeness tree')
    (hKind : kind.Alike likeness kind')
    (hTag : kind.tag ≠ .arrayCreation)
    (hElement : Option.Rel (likeness.element kind.tag) element
      element') :
    Coupled (Both likeness) (Tree.alloc kind ty element tree)
      (Tree.alloc kind' ty element' tree') :=
  hTrees.alloc hKind hElement (hTyped _ _ hTag)

/- So is one that holds neither a name nor an element. -/
private theorem alike_plain
    {kind : NodeKind NodeId}
    (ty : Option TypeId)
    (hTrees : tree.Alike likeness tree')
    (hNames : kind.names = [])
    (hTag : kind.tag ≠ .arrayCreation) :
    Coupled (Both likeness) (Tree.alloc kind ty none tree)
      (Tree.alloc kind ty none tree') :=
  alike_alloc hTyped hTrees (.plain kind hNames) hTag .none

theorem alike_functionCall
    {function function' : FunctionRef}
    (hFunction : function.Alike likeness function')
    (hTrees : tree.Alike likeness tree')
    (ty : TypeId)
    (arguments : List NodeId) :
    Coupled (Both likeness)
      (functionCall function ty arguments tree)
      (functionCall function' ty arguments tree') :=
  alike_alloc hTyped hTrees
    (.functionInvocation arguments false hFunction) (by nofun)
    .none

private theorem ClassName.Alike.build
    {receiver receiver' : ClassName}
    (hReceiver : receiver.Alike likeness receiver')
    (hTrees : tree.Alike likeness tree') :
    Coupled (Both likeness) (receiver.build tree)
      (receiver'.build tree') := by
  unfold ClassName.build Tree.simpleName
  rw [hReceiver.ty]
  exact alike_alloc hTyped hTrees (.simpleName hReceiver.name)
    (by nofun) (.some hReceiver.cls)

private theorem StaticCall.Alike.build
    {call call' : StaticCall}
    (hCall : call.Alike likeness call')
    (hTrees : tree.Alike likeness tree')
    (arguments : List NodeId) :
    Coupled (Both likeness) (call.build arguments tree)
      (call'.build arguments tree') := by
  unfold StaticCall.build
  rw [hCall.ty]
  apply (hCall.receiver.build hTyped hTrees).bind
  rintro receiver after _ after' ⟨rfl, hAfter⟩
  exact alike_alloc hTyped hAfter (.plain _ rfl) (by nofun)
    (.some hCall.method)

------------------------------------------------------------
-- Elements, Lengths And Type Tests
------------------------------------------------------------

theorem ElementAccess.Alike.build
    {access access' : ElementAccess}
    (hAccess : access.Alike likeness access')
    (hTrees : tree.Alike likeness tree')
    (array index : NodeId) :
    Coupled (Both likeness) (access.build array index tree)
      (access'.build array index tree') := by
  unfold ElementAccess.build
  rw [hAccess.ty, hAccess.target]
  apply (hTrees.deepCopy array).bind
  rintro array _ _ _ ⟨rfl, hFirst⟩
  apply (hFirst.deepCopy index).bind
  rintro index _ _ _ ⟨rfl, hSecond⟩
  apply (alike_functionCall hTyped hAccess.function hSecond _
    _).bind
  rintro call third _ third' ⟨rfl, hThird⟩
  cases access.target with
  | none => exact .ok ⟨rfl, hThird⟩
  | some component =>
      exact alike_plain hTyped _ hThird rfl (by nofun)

theorem SizeAccess.Alike.build
    {access access' : SizeAccess}
    (hAccess : access.Alike likeness access')
    (hTrees : tree.Alike likeness tree')
    (array : NodeId) :
    Coupled (Both likeness) (access.build array tree)
      (access'.build array tree') := by
  unfold SizeAccess.build Tree.simpleName
  rw [hAccess.int]
  apply (hTrees.take array).bind
  rintro array _ _ _ ⟨rfl, hFirst⟩
  apply (alike_alloc hTyped hFirst (.simpleName hAccess.name)
    (by nofun) (.some (hAccess.field _))).bind
  rintro name _ _ _ ⟨rfl, hSecond⟩
  exact alike_alloc hTyped hSecond (.plain _ rfl) (by nofun)
    (.some (hAccess.field _))

theorem TypeTest.Alike.build
    {test test' : TypeTest}
    (hTest : test.Alike likeness test')
    (hTrees : tree.Alike likeness tree')
    (value : NodeId) :
    Coupled (Both likeness) (test.build value tree)
      (test'.build value tree') := by
  unfold TypeTest.build ClassObject.build
  rw [hTest.boolean, hTest.object]
  apply (alike_plain hTyped _ hTrees rfl (by nofun)).bind
  rintro receiver _ _ _ ⟨rfl, hFirst⟩
  apply (hFirst.take value).bind
  rintro value _ _ _ ⟨rfl, hSecond⟩
  exact alike_alloc hTyped hSecond (.plain _ rfl) (by nofun)
    (.some hTest.method)

------------------------------------------------------------
-- Factories
------------------------------------------------------------

section Factories

variable {factory factory' : Factory}
variable (hFactory : factory.Alike likeness factory')

include hFactory

private theorem Factory.Alike.build
    (hTrees : tree.Alike likeness tree')
    (arguments : List NodeId) :
    Coupled (Both likeness) (factory.build arguments tree)
      (factory'.build arguments tree') := by
  unfold Factory.build ClassObject.build
  rw [hFactory.object]
  cases factory.object with
  | none => exact hFactory.call.build hTyped hTrees arguments
  | some object =>
      apply (alike_plain hTyped _ hTrees rfl (by nofun)).bind
      rintro object _ _ _ ⟨rfl, hFirst⟩
      exact hFactory.call.build hTyped hFirst _

theorem Factory.Alike.buildInitialized
    (hTrees : tree.Alike likeness tree')
    (elements : List NodeId) :
    Coupled (Both likeness)
      (factory.buildInitialized elements tree)
      (factory'.buildInitialized elements tree') := by
  unfold Factory.buildInitialized Tree.numberLiteral
  rw [hFactory.call.ty, hFactory.int]
  apply (hTrees.deepCopies elements).bind
  rintro copies _ _ _ ⟨rfl, hFirst⟩
  apply (alike_plain hTyped _ hFirst rfl (by nofun)).bind
  rintro values _ _ _ ⟨rfl, hSecond⟩
  apply (alike_plain hTyped _ hSecond rfl (by nofun)).bind
  rintro count _ _ _ ⟨rfl, hThird⟩
  exact hFactory.build hTyped hThird _

theorem Factory.Alike.buildOfLength
    (hTrees : tree.Alike likeness tree')
    (length : NodeId) :
    Coupled (Both likeness) (factory.buildOfLength length tree)
      (factory'.buildOfLength length tree') := by
  unfold Factory.buildOfLength
  apply (hTrees.deepCopy length).bind
  rintro length _ _ _ ⟨rfl, hFirst⟩
  exact hFactory.build hTyped hFirst _

end Factories

theorem NestedFactory.Alike.build
    {factory factory' : NestedFactory}
    (hFactory : NestedFactory.Alike likeness factory factory')
    (hTrees : tree.Alike likeness tree')
    (dimensions : List NodeId) :
    Coupled (Both likeness) (factory.build dimensions tree)
      (factory'.build dimensions tree') := by
  unfold NestedFactory.build Tree.numberLiteral
  rw [hFactory.int, hFactory.lengths]
  apply (alike_plain hTyped _ hTrees rfl (by nofun)).bind
  rintro count _ _ _ ⟨rfl, hFirst⟩
  apply (hFirst.deepCopies dimensions).bind
  rintro copies _ _ _ ⟨rfl, hSecond⟩
  apply (alike_plain hTyped _ hSecond rfl (by nofun)).bind
  rintro lengths _ _ _ ⟨rfl, hThird⟩
  exact Factory.Alike.build hTyped hFactory.toAlike hThird _

end Arrays

end Lowering
