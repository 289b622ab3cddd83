import Lowering.Proofs.Arrays.Consumed

/-
  This file proves that a run keeps the types of what it
  lowers, where the input is typed as the constructs on arrays
  are: a store by its target, a length by the primitive `int`,
  and a test against an array of objects by `boolean`.

  Key definitions include:
    * `Arrays.Typed`
    * `Arrays.TypedAt`
    * `Arrays.TypedView`

  Main results:
    * `Arrays.ty_of_lower?`
    * `Arrays.lower_keeps_types`
-/

namespace Lowering

namespace Arrays

open Symbols

------------------------------------------------------------
-- Typed Trees
------------------------------------------------------------

/-
  Below a root, the constructs on arrays are typed: a store has
  the type of its target, the length of an array that of the
  primitive `int`, and a test against an array over no value
  primitive that of `boolean`.
-/
structure Typed
    (symbols : Symbols)
    (tree : Tree)
    (root : NodeId) : Prop where
  stores : ∀ store target value component node,
    Stores symbols tree root store target value component →
      tree.get? store = some node →
        node.ty = some component
  lengths : ∀ n node operand name array named measured
      identifier component,
    tree.Below root n →
      tree.get? n = some node →
        (node.kind = .fieldAccess operand name ∨
            node.kind = .qualifiedName operand name) →
          tree.get? name = some named →
            named.kind = .simpleName identifier →
              symbols.text? identifier = some "length" →
                tree.get? operand = some measured →
                  measured.ty = some array →
                    componentType? symbols array =
                        some (some component) →
                      ∃ int,
                        symbols.primitiveType? .int =
                            some int ∧
                          node.ty = some int
  tests : ∀ n node value tested stored array,
    tree.Below root n →
      tree.get? n = some node →
        node.kind = .instanceOf value tested →
          tree.get? tested = some stored →
            stored.ty = some array →
              isObjectArray? symbols array = some true →
                ∃ boolean,
                  symbols.primitiveType? .boolean =
                      some boolean ∧
                    node.ty = some boolean

/- A node is typed as the construct that it is. -/
structure TypedAt
    (symbols : Symbols)
    (label : Label)
    (children : List View) : Prop where
  stored : ∀ store,
    stored? symbols label children = some (some store) →
      label.ty = some store.component
  size : ∀ operand name component,
    label.shape = .fieldAccess () () ∨
        label.shape = .qualifiedName () () →
      children = [operand, name] →
        isLength? symbols name = some true →
          arrayOperand? symbols operand =
              some (some component) →
            ∃ int,
              symbols.primitiveType? .int = some int ∧
                label.ty = some int
  test : ∀ value tested array,
    label.shape = .instanceOf () () →
      children = [value, tested] →
        tested.ty = some array →
          isObjectArray? symbols array = some true →
            ∃ boolean,
              symbols.primitiveType? .boolean =
                  some boolean ∧
                label.ty = some boolean

/- Each node of a view is typed as the construct that it is. -/
inductive TypedView (symbols : Symbols) : View → Prop
  | node
      {label : Label}
      {children : List View}
      (typed : TypedAt symbols label children)
      (below : ∀ child ∈ children, TypedView symbols child) :
      TypedView symbols (.node label children)

------------------------------------------------------------
-- Types Of Views
------------------------------------------------------------

section Views

variable {symbols : Symbols}
variable {table : BindingTable}
variable {options : Options}

/- Views in a list are lowered one by one. -/
private theorem each_of_lowerAll?
    {first : Bool}
    {views lowered : List View}
    (hLowered : lowerAll? symbols table options first views =
      some lowered) :
    List.Forall₂
      (fun view new => ∃ assigned,
        lower? symbols table options assigned false view =
          some new)
      views lowered := by
  induction views generalizing first lowered with
  | nil =>
      rw [lowerAll?] at hLowered
      rw [← Option.some.inj hLowered]
      exact .nil
  | cons view views ih =>
      rw [lowerAll?] at hLowered
      rcases Option.bind_eq_some_iff.mp hLowered with
        ⟨new, hNew, hRest⟩
      rcases Option.bind_eq_some_iff.mp hRest with
        ⟨news, hNews, hLast⟩
      rw [← Option.some.inj hLast]
      exact .cons ⟨first, hNew⟩ (ih hNews)

/- Only the name `length` is lowered to the name `length`. -/
private theorem isLength?_of_lower?
    {assigned handed : Bool}
    {name named : View}
    (hLowered : lower? symbols table options assigned handed
      name = some named)
    (hLength : isLength? symbols named = some true) :
    isLength? symbols name = some true := by
  rcases name with ⟨label, children⟩
  rw [lower?] at hLowered
  rcases Option.bind_eq_some_iff.mp hLowered with
    ⟨store, _, hRest⟩
  cases store with
  | some store =>
      rcases Option.bind_eq_some_iff.mp hRest with
        ⟨operands, _, hStore⟩
      rcases Option.bind_eq_some_iff.mp hStore with
        ⟨function, _, hCall⟩
      cases hCall
      exact absurd hLength (by simp [isLength?, callView,
        View.label])
  | none =>
      rcases Option.bind_eq_some_iff.mp hRest with
        ⟨lowered, _, hFinish⟩
      have hSimple : ∃ identifier,
          named.label.shape = .simpleName identifier := by
        unfold isLength? at hLength
        split at hLength
        · next identifier hShape => exact ⟨identifier, hShape⟩
        · exact absurd hLength (by simp)
      rcases hSimple with ⟨identifier, hShape⟩
      rcases (finishes_of_finish? hFinish).tag with
        rfl | hTag
      · have hSame : label.shape = .simpleName identifier :=
          Label.shape_of_retainIf hShape rfl
        unfold isLength? at hLength ⊢
        rw [hShape] at hLength
        rw [View.label, hSame]
        exact hLength
      · rw [hShape] at hTag
        exact absurd hTag (by simp [NodeKind.tag])

/- The call of a factory has the type of the array. -/
theorem ty_of_creation?
    {array : TypeId}
    {retained : Bool}
    {dimensions : List View}
    {initializer : Option View}
    {call : View}
    (hCreation : creation? symbols table array retained
      dimensions initializer = some call) :
    call.ty = some array := by
  rcases factory_of_creation? hCreation with
    ⟨_, _, _, factory, arguments, _, _, hFactory, rfl⟩
  rw [factory.ty_view, (eq_of_factory? hFactory).1]

/- What finishes a typed node has the type of the node. -/
private theorem Finishes.ty
    {assigned handed : Bool}
    {label : Label}
    {children lowered : List View}
    {view : View}
    (hTyped : TypedAt symbols label children)
    (hBelow : List.Forall₂
      (fun child new =>
        new.ty = child.ty ∧
          (isLength? symbols new = some true →
            isLength? symbols child = some true))
      children lowered)
    (hFinishes : Finishes symbols table options assigned
      (label.retainIf handed) lowered view) :
    view.ty = label.ty := by
  rw [← label.ty_retainIf handed]
  cases hFinishes with
  | creation _ hTy hCreation =>
      rw [hTy, ty_of_creation? hCreation]
  | access _ _ hTy hAccess =>
      rw [hTy, ty_view_of_elementAccess? hAccess]
  | size hShape hChildren hLength hComponent hAccess =>
      subst hChildren
      rcases List.forall₂_cons_right_iff.mp hBelow with
        ⟨operand, _, ⟨hOperand, _⟩, hRest, rfl⟩
      rcases List.forall₂_cons_right_iff.mp hRest with
        ⟨name, _, ⟨_, hName⟩, hNone, rfl⟩
      cases hNone
      unfold arrayOperand? at hComponent
      rw [hOperand] at hComponent
      rcases hTyped.size operand name _
          (hShape.imp
            (fun hIs => Label.shape_of_retainIf hIs rfl)
            fun hIs => Label.shape_of_retainIf hIs rfl)
          rfl (hName hLength) hComponent with
        ⟨int, hInt, hTy⟩
      unfold sizeAccess? at hAccess
      simp only [Option.bind_eq_bind, Option.bind_eq_some_iff]
        at hAccess
      rcases hAccess with
        ⟨_, _, _, _, int', hInt', _, _, hLast⟩
      cases hLast
      rw [label.ty_retainIf, hTy, ← hInt, hInt']
      rfl
  | test hShape hChildren hTy hArray hTest =>
      subst hChildren
      rcases List.forall₂_cons_right_iff.mp hBelow with
        ⟨value, _, _, hRest, rfl⟩
      rcases List.forall₂_cons_right_iff.mp hRest with
        ⟨tested, _, ⟨hTested, _⟩, hNone, rfl⟩
      cases hNone
      rw [hTested] at hTy
      rcases hTyped.test value tested _
          (Label.shape_of_retainIf hShape rfl) rfl hTy hArray
        with ⟨boolean, hBoolean, hLabel⟩
      rcases Option.bind_eq_some_iff.mp hTest with
        ⟨boolean', hBoolean', hTest⟩
      rcases Option.bind_eq_some_iff.mp hTest with
        ⟨method, _, hTest⟩
      rcases Option.bind_eq_some_iff.mp hTest with
        ⟨object, _, hLast⟩
      cases hLast
      rw [label.ty_retainIf, hLabel, ← hBoolean, hBoolean']
      rfl
  | node => rfl

/- What a typed view is lowered to has the type of the view. -/
theorem ty_of_lower?
    {assigned handed : Bool}
    {view new : View}
    (hTyped : TypedView symbols view)
    (hLowered : lower? symbols table options assigned handed
      view = some new) :
    new.ty = view.ty := by
  induction view generalizing assigned handed new with
  | node label children ih =>
      cases hTyped with
      | node hHere hBelow =>
          rw [lower?] at hLowered
          rcases Option.bind_eq_some_iff.mp hLowered with
            ⟨store, hStore, hRest⟩
          cases store with
          | some store =>
              rcases Option.bind_eq_some_iff.mp hRest with
                ⟨operands, _, hStored⟩
              rcases Option.bind_eq_some_iff.mp hStored with
                ⟨function, _, hCall⟩
              cases hCall
              exact (hHere.stored store hStore).symm
          | none =>
              rcases Option.bind_eq_some_iff.mp hRest with
                ⟨lowered, hChildren, hFinish⟩
              have hEach := (List.forall₂_and_left _ _).mpr
                ⟨fun child hMem => hMem,
                  each_of_lowerAll? hChildren⟩
              refine Finishes.ty hHere (hEach.imp ?_)
                (finishes_of_finish? hFinish)
              rintro child new ⟨hMem, first, hNew⟩
              exact ⟨ih child hMem (hBelow child hMem) hNew,
                isLength?_of_lower? hNew⟩

end Views

------------------------------------------------------------
-- Types Of Nodes
------------------------------------------------------------

section Nodes

variable {symbols : Symbols}
variable {tree : Tree}
variable {root : NodeId}

/- What reads `length` is a simple name. -/
private theorem eq_of_isLength?
    {name : View}
    (hLength : isLength? symbols name = some true) :
    ∃ identifier,
      name.label.shape = .simpleName identifier ∧
        symbols.text? identifier = some "length" := by
  unfold isLength? at hLength
  split at hLength
  · next identifier hShape =>
    rcases Option.map_eq_some_iff.mp hLength with
      ⟨text, hText, hIs⟩
    rw [of_decide_eq_true hIs] at hText
    exact ⟨identifier, hShape, hText⟩
  · exact absurd hLength (by simp)

/- What denotes an array has an array type. -/
private theorem eq_of_arrayOperand?
    {operand : View}
    {component : TypeId}
    (hArray : arrayOperand? symbols operand =
      some (some component)) :
    ∃ array,
      operand.ty = some array ∧
        componentType? symbols array =
          some (some component) := by
  unfold arrayOperand? at hArray
  split at hArray
  · next array hTy => exact ⟨array, hTy, hArray⟩
  · exact absurd hArray (by simp)

/- A simple name in the store is one that its label tells. -/
private theorem kind_of_simpleName
    {kind : NodeKind NodeId}
    {identifier : Name}
    (hShape : kind.shape = .simpleName identifier) :
    kind = .simpleName identifier := by
  cases kind <;> simp_all [NodeKind.shape]

/- A node in a typed tree is typed. -/
private theorem typedAt_of_holds
    {id : NodeId}
    {label : Label}
    {children : List Placed}
    (hTyped : Typed symbols tree root)
    (hHolds : tree.Holds (.node id label children))
    (hBelow : tree.Below root id) :
    TypedAt symbols label (children.map (·.view)) := by
  rcases hHolds.stored with ⟨node, hNode, hLabel, hListed⟩
  rw [Placed.id_node] at hNode
  rw [Placed.label_node] at hLabel
  rw [Placed.children_node] at hListed
  subst hLabel
  constructor
  · intro store hStored
    rcases eq_of_stored? hStored with
      ⟨first, second, hPair, _, _, _, _⟩
    rcases List.map_eq_cons_iff.mp hPair with
      ⟨⟨target, outer, operands⟩, _, rfl, rfl, hRest⟩
    rcases List.map_eq_singleton_iff.mp hRest with
      ⟨value, rfl, rfl⟩
    simp only [List.map_cons, List.map_nil, Placed.view_node]
      at hStored
    exact hTyped.stores _ _ _ _ _
      (stores_of_stored? hHolds hBelow hStored) hNode
  · intro operand name component hShape hPair hLength hArray
    rcases List.map_eq_cons_iff.mp hPair with
      ⟨measured, _, rfl, rfl, hRest⟩
    rcases List.map_eq_singleton_iff.mp hRest with
      ⟨named, rfl, rfl⟩
    rcases eq_of_isLength? hLength with
      ⟨identifier, hName, hText⟩
    rcases eq_of_arrayOperand? hArray with
      ⟨array, hTy, hComponent⟩
    rw [Placed.label_view] at hName
    rw [Placed.ty_view] at hTy
    rcases (hHolds.child List.mem_cons_self).stored with
      ⟨first, hFirst, hFirstLabel, _⟩
    have hNamed : tree.Holds named := hHolds.child (by simp)
    rcases hNamed.stored with ⟨second, hSecond, hSecondLabel, _⟩
    rw [← hFirstLabel] at hTy
    rw [← hSecondLabel] at hName
    refine hTyped.lengths id node measured.id named.id array
      second first identifier component hBelow hNode ?_ hSecond
      (kind_of_simpleName hName) hText hFirst hTy hComponent
    rcases hShape with hShape | hShape
    · rcases NodeKind.eq_fieldAccess_of_shape hShape with
        ⟨operand, name, hKind⟩
      rw [hKind] at hListed
      cases hListed
      exact Or.inl hKind
    · rcases NodeKind.eq_qualifiedName_of_shape hShape with
        ⟨operand, name, hKind⟩
      rw [hKind] at hListed
      cases hListed
      exact Or.inr hKind
  · intro value tested array hShape hPair hTy hArray
    rcases List.map_eq_cons_iff.mp hPair with
      ⟨first, _, rfl, rfl, hRest⟩
    rcases List.map_eq_singleton_iff.mp hRest with
      ⟨second, rfl, rfl⟩
    rw [Placed.ty_view] at hTy
    have hTested : tree.Holds second := hHolds.child (by simp)
    rcases hTested.stored with ⟨stored, hStored, hStoredLabel, _⟩
    rw [← hStoredLabel] at hTy
    rcases NodeKind.eq_instanceOf_of_shape hShape with
      ⟨value, tested, hKind⟩
    rw [hKind] at hListed
    cases hListed
    exact hTyped.tests id node _ _ stored array hBelow hNode
      hKind hStored hTy hArray

/- A subtree of a typed tree is typed. -/
theorem typedView_of_holds
    {placed : Placed}
    (hTyped : Typed symbols tree root)
    (hHolds : tree.Holds placed)
    (hBelow : tree.Below root placed.id) :
    TypedView symbols placed.view := by
  induction placed with
  | node id label children ih =>
      rw [Placed.view_node]
      refine .node (typedAt_of_holds hTyped hHolds hBelow) ?_
      intro view hMem
      rcases List.mem_map.mp hMem with ⟨child, hChild, rfl⟩
      exact ih child hChild (hHolds.child hChild)
        (hBelow.tail
          (hHolds.lists_iff.mpr ⟨child, hChild, rfl⟩))

end Nodes

------------------------------------------------------------
-- Runs
------------------------------------------------------------

section Runs

variable {table : BindingTable}
variable {options : Options}
variable {root result n m : NodeId}
variable {before after : Workspace}

/- What a node ends as has the type of the node. -/
private theorem ty_of_ends
    {node : Node}
    (hStart : Start table root before)
    (hRun : lower table options root before =
      .ok result after)
    (hTyped : Typed after.symbols before.tree root)
    (hNode : before.tree.get? n = some node)
    (hEnds : Ends table options root result before after n m) :
    ∃ node',
      after.tree.get? m = some node' ∧ node'.ty = node.ty := by
  rcases hStart.yields hRun hEnds with ⟨part, hYields⟩
  have hHolds := hYields.standing.holds
  have hBelow := hYields.below
  rw [← hYields.old_id] at hNode hBelow
  have hTy := ty_of_lower?
    (typedView_of_holds hTyped hHolds hBelow) hYields.valid
  rw [Placed.ty_view, Placed.ty_view] at hTy
  rcases hYields.shows.looks with ⟨node', hNode', hLabel', _⟩
  rw [hYields.new_id] at hNode'
  refine ⟨node', hNode', ?_⟩
  rw [← (hHolds.of_get? hNode).1, ← hLabel'] at hTy
  exact hTy

/- Each slot holds what has the type of what it held. -/
private theorem ty_of_occupies
    {slot : Nat}
    {child : NodeId}
    {node : Node}
    (hStart : Start table root before)
    (hRun : lower table options root before =
      .ok result after)
    (hTyped : Typed after.symbols before.tree root)
    (hHeld : before.tree.Occupies n slot child)
    (hNode : before.tree.get? child = some node) :
    ∃ child' node',
      after.tree.Occupies n slot child' ∧
        after.tree.get? child' = some node' ∧
        node'.ty = node.ty := by
  rcases hHeld with ⟨owner, hOwner, hSlot⟩
  have hLooks : before.tree.Looks n owner.label
      owner.kind.children := ⟨owner, hOwner, rfl, rfl⟩
  rcases hStart.looksAfter hRun hLooks with
    ⟨handed, listed, hAfter⟩
  rcases List.getElem?_eq_some_iff.mp hSlot with ⟨hLt, _⟩
  rw [← hAfter.length_eq] at hLt
  have hSlot' := List.getElem?_eq_getElem hLt
  have hHolds := hAfter.looks.occupies hSlot'
  rcases hAfter.seated slot child _ hSlot hSlot' with
    hSame | hSeat
  · have hChild : before.tree.Looks child node.label
        node.kind.children := ⟨node, hNode, rfl, rfl⟩
    rcases hStart.looksAfter hRun hChild with
      ⟨marked, _, hThere⟩
    rcases hThere.looks with ⟨node', hNode', hLabel, _⟩
    rw [hSame] at hHolds
    refine ⟨child, node', hHolds, hNode', ?_⟩
    exact (congrArg Label.ty hLabel).trans
      (node.label.ty_retainIf marked)
  · rcases ty_of_ends hStart hRun hTyped hNode (Or.inl hSeat)
      with ⟨node', hNode', hTy⟩
    exact ⟨_, node', hHolds, hNode', hTy⟩

end Runs

/-
  A run keeps types. The result has the type of the root, each
  slot of each node holds what has the type of what it held,
  and each node that is lowered ends as what has its type. The
  symbols at the end know what those at the start knew.
-/
theorem lower_keeps_types
    {table : BindingTable}
    {options : Options}
    {root result : NodeId}
    {before after : Workspace}
    (hStart : Start table root before)
    (hRun : lower table options root before =
      .ok result after)
    (hTyped : Typed after.symbols before.tree root) :
    (∃ node node',
      before.tree.get? root = some node ∧
        after.tree.get? result = some node' ∧
        node'.ty = node.ty) ∧
      (∀ n slot child node,
        before.tree.Occupies n slot child →
          before.tree.get? child = some node →
            ∃ child' node',
              after.tree.Occupies n slot child' ∧
                after.tree.get? child' = some node' ∧
                node'.ty = node.ty) ∧
      ∀ n m node,
        before.tree.get? n = some node →
          Ends table options root result before after n m →
            ∃ node',
              after.tree.get? m = some node' ∧
                node'.ty = node.ty := by
  refine ⟨?_, ?_, ?_⟩
  · rcases Option.isSome_iff_exists.mp
        (hStart.formed.present root Relation.ReflTransGen.refl)
      with ⟨node, hNode⟩
    rcases ty_of_ends hStart hRun hTyped hNode (Or.inl .root)
      with ⟨node', hNode', hTy⟩
    exact ⟨node, node', hNode, hNode', hTy⟩
  · intro n slot child node hHeld hNode
    exact ty_of_occupies hStart hRun hTyped hHeld hNode
  · intro n m node hNode hEnds
    exact ty_of_ends hStart hRun hTyped hNode hEnds

/- The statement that stores a new object is typed. -/
private theorem typed_storeItem (symbols : Symbols) :
    Typed symbols storeItem.tree ⟨4⟩ := by
  have hOther : ∀ node ∈ storeItem.tree.nodes,
      node.kind.tag ≠ .fieldAccess ∧
        node.kind.tag ≠ .qualifiedName ∧
        node.kind.tag ≠ .instanceOf := by
    decide
  constructor
  · intro store target value component node hStores hNode
    rcases hStores.assignment with ⟨stored, hStored, hKind⟩
    rcases hStores.access with ⟨access, hAccess, _, hTy⟩
    rcases store with ⟨raw⟩
    rcases raw with _ | _ | _ | _ | _ | raw <;>
      cases hStored <;> cases hKind
    cases hNode
    cases hAccess
    exact hTy
  · intro n node operand name array named measured identifier
      component _ hNode hKind
    rcases hOther node (Array.mem_of_getElem? hNode) with
      ⟨hField, hQualified, _⟩
    rcases hKind with hKind | hKind
    · exact absurd (congrArg NodeKind.tag hKind) hField
    · exact absurd (congrArg NodeKind.tag hKind) hQualified
  · intro n node value tested stored array _ hNode hKind
    rcases hOther node (Array.mem_of_getElem? hNode) with
      ⟨_, _, hTest⟩
    exact absurd (congrArg NodeKind.tag hKind) hTest

/- The call that stores has the type of the element. -/
theorem lower_keeps_types_storeItem :
    ∃ after node',
      lower ⟨#[]⟩ {} ⟨4⟩ storeItem = .ok ⟨5⟩ after ∧
        after.tree.get? ⟨5⟩ = some node' ∧
        node'.ty = some ⟨12⟩ := by
  rcases (lower_keeps_types start_storeItem run_lower_storeItem
      (typed_storeItem _)).1 with
    ⟨node, node', hNode, hNode', hTy⟩
  cases hNode
  exact ⟨_, node', run_lower_storeItem, hNode', hTy⟩

end Arrays

end Lowering
