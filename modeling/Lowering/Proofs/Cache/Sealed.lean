import Lowering.Proofs.Cache.Closed
import Lowering.Proofs.Cache.Orderly
import Lowering.Proofs.Cache.WrapElement

/-
  This file states when an operation seals the cache: it
  leaves a closed cache closed, and with live handles from the
  caller it never fails for want of a handle or of an end. It
  proves this of wrapping host bindings, over a table without
  circular ones.

  What an operation makes is made of what it found or made
  before, and the handles of that are live by then.

  Key definitions include:
    * `CacheError.Lost`
    * `Cache.Sealed`
    * `Cache.Stored`

  Main results:
    * `Cache.sealed_wrapHostType`
    * `Cache.sealed_wrapExecutable`
    * `Cache.sealed_synthesize`
    * `Cache.sealed_wrapHostElement`
-/

namespace Lowering

/-
  A failure that no live handle leads to: a handle is stale,
  in either form of the operation, or a search has no end.
-/
def CacheError.Lost : CacheError → Prop
  | violation (.staleHandle _) => True
  | fault (.contract (.staleHandle _)) => True
  | fault .endless => True
  | _ => False

theorem ElementData.forall_mem_types
    {data : ElementData}
    {P : TypeId → Prop} :
    (∀ ty ∈ data.types, P ty) ↔
      (∀ ty, data.ty = some ty → P ty) ∧
      (∀ ty ∈ data.kind.types, P ty) ∧
      ∀ use ∈ data.annotations, P use.annotationType := by
  simp only [types, List.mem_append, List.mem_map,
    Option.mem_toList, or_imp, forall_and, and_assoc,
    forall_exists_index, and_imp, forall_apply_eq_imp_iff₂]

theorem ElementData.forall_mem_elements
    {data : ElementData}
    {P : ElementId → Prop} :
    (∀ id ∈ data.elements, P id) ↔
      (∀ id, data.enclosing = some id → P id) ∧
      ∀ id ∈ data.kind.elements, P id := by
  simp only [elements, List.mem_append, Option.mem_toList,
    or_imp, forall_and]

namespace Cache

variable {table : BindingTable}
variable {careful : Prop}

/-
  An operation seals the cache and keeps its promise; with
  careful callers it does not lose its way.
-/
abbrev Sealed
    {α : Type}
    (careful : Prop)
    (operation : CacheM α)
    (cache : Cache)
    (Promise : α → Cache → Prop) : Prop :=
  Behaves (Seals careful) (fun error => careful → ¬ error.Lost)
    operation cache Promise

------------------------------------------------------------
-- Single Steps
------------------------------------------------------------

section Steps

variable {cache : Cache}

theorem sealed_intern (text : String) (cache : Cache) :
    Sealed careful (intern text) cache fun _ _ => True where
  follows := seals_text text
  answer := fun _ _ _ => trivial
  failure := by
    intro error after hRun
    cases hRun

theorem sealed_addType
    {kind : TypeKind}
    {origin : TypeOrigin}
    (hParts : careful → ∀ part ∈ kind.parts, cache.HasType part)
    (hOwner : careful → ∀ element,
      origin = .generated element → cache.HasElement element) :
    Sealed careful (addType kind origin) cache
      fun ty after => after.HasType ty where
  follows := seals_type hParts hOwner
  answer := by
    intro ty after hRun
    cases hRun
    exact hasType_of_get? (Generation.get?_push_next _ _)
  failure := by
    intro error after hRun
    cases hRun

theorem sealed_addElement
    {data : ElementData}
    (hTypes : careful → ∀ ty ∈ data.types, cache.HasType ty)
    (hElements : careful → ∀ id ∈ data.elements,
      cache.HasElement id)
    (hClass : data.origin = .generated →
      ElementFamily.type.accepts data.kind = false) :
    Sealed careful (addElement data) cache
      fun id after => after.HasElement id where
  follows := seals_element hTypes hElements hClass
  answer := by
    intro id after hRun
    cases hRun
    exact ⟨data, Generation.get?_push_next _ _⟩
  failure := by
    intro error after hRun
    cases hRun

theorem sealed_modifyElement
    {id : ElementId}
    {edit : ElementEdit}
    (hStep : Seals careful cache (cache.editElement id edit)) :
    Sealed careful (modifyElement id edit) cache
      fun _ after => Grown cache after where
  follows := hStep
  answer := by
    intro answer after hRun
    cases hRun
    exact hStep.grown
  failure := by
    intro error after hRun
    cases hRun

/- Whatever is remembered of methods is no part of wrappers. -/
private theorem sealed_executables
    (change :
      List (ElementId × TypeId) → List (ElementId × TypeId))
    (cache : Cache) :
    Sealed careful
      (modify fun cache => { cache with
        executables := change cache.executables }) cache
      fun _ after => Grown cache after where
  follows := seals_executables (change cache.executables)
  answer := by
    intro answer after hRun
    cases hRun
    exact (@seals_executables careful cache _).grown
  failure := by
    intro error after hRun
    cases hRun

theorem sealed_rememberExecutable
    (method : ElementId)
    (ty : TypeId)
    (cache : Cache) :
    Sealed careful (rememberExecutable method ty) cache
      fun _ after => Grown cache after :=
  sealed_executables ((method, ty) :: ·) cache

theorem sealed_forgetExecutable
    (method : ElementId)
    (cache : Cache) :
    Sealed careful (forgetExecutable method) cache
      fun _ after => Grown cache after :=
  sealed_executables (·.filter (·.1 ≠ method)) cache

theorem sealed_refuse
    {α : Type}
    {cause : ContractViolation}
    {Promise : α → Cache → Prop}
    (hCause : ¬ (CacheError.violation cause).Lost) :
    Sealed careful (CacheM.refuse cause : CacheM α) cache
      Promise :=
  .throw (Seals.isHistory careful) fun _ => hCause

/- What is wrong with a table is not a want of handles. -/
theorem sealed_typeBinding (id : BindingId) :
    Sealed careful (consult (table.typeBinding id)) cache
      fun binding after =>
        after = cache ∧ table.typeBinding id = .ok binding := by
  apply Behaves.consult (Seals.isHistory careful)
  intro cause hCause _
  unfold BindingTable.typeBinding at hCause
  split at hCause <;> cases hCause <;> exact not_false

theorem sealed_methodBinding (id : BindingId) :
    Sealed careful (consult (table.methodBinding id)) cache
      fun _ after => after = cache := by
  apply (Behaves.consult (Seals.isHistory careful) ?_).promise
  · exact fun _ _ _ hRead => hRead.1
  · intro cause hCause _
    unfold BindingTable.methodBinding at hCause
    split at hCause <;> cases hCause
    exact not_false

theorem sealed_annotationType (id : BindingId) :
    Sealed careful (consult (table.annotationType id)) cache
      fun _ after => after = cache := by
  apply (Behaves.consult (Seals.isHistory careful) ?_).promise
  · exact fun _ _ _ hRead => hRead.1
  · intro cause hCause _
    unfold BindingTable.annotationType at hCause
    split at hCause <;> cases hCause
    exact not_false

/- A live element is read. -/
theorem sealed_element
    {id : ElementId}
    (hLive : careful → cache.HasElement id) :
    Sealed careful (CacheM.inspect (·.element id)) cache
      fun data after =>
        after = cache ∧ cache.element id = .ok data := by
  apply Behaves.inspect (Seals.isHistory careful)
  intro error hError hCareful
  rcases hLive hCareful with ⟨data, hData⟩
  cases (element_eq_ok_iff.mpr hData).symm.trans hError

/- A live element is refused only for its family. -/
theorem elementOf_not_lost
    {family : ElementFamily}
    {id : ElementId}
    {error : CacheError}
    (hLive : cache.HasElement id)
    (hError : cache.elementOf family id = .error error) :
    ¬ error.Lost := by
  rcases hLive with ⟨data, hData⟩
  unfold elementOf at hError
  rw [element_eq_ok_iff.mpr hData] at hError
  change (if family.accepts data.kind = true then _
    else _) = _ at hError
  split at hError
  · cases hError
  · cases hError
    unfold wrongElementKind nameText
    cases cache.names.lookup data.name <;> exact not_false

theorem sealed_elementOf
    {family : ElementFamily}
    {id : ElementId}
    (hLive : careful → cache.HasElement id) :
    Sealed careful (CacheM.inspect (·.elementOf family id)) cache
      fun data after =>
        after = cache ∧ cache.elementOf family id = .ok data := by
  apply Behaves.inspect (Seals.isHistory careful)
  exact fun _ hError hCareful =>
    elementOf_not_lost (hLive hCareful) hError

end Steps

------------------------------------------------------------
-- Types
------------------------------------------------------------

/- Every item of a list is wrapped as a live type. -/
private theorem sealed_types
    {α : Type}
    {operation : α → CacheM TypeId}
    (items : List α)
    (hEach : ∀ item ∈ items, ∀ cache,
      Sealed careful (operation item) cache
        fun ty after => after.HasType ty)
    (cache : Cache) :
    Sealed careful (items.mapM operation) cache
      fun types after => ∀ ty ∈ types, after.HasType ty := by
  have hKept : ∀ {first second : Cache},
      Seals careful first second → ∀ {ty : TypeId},
        first.HasType ty → second.HasType ty :=
    fun hSeals _ hType => hType.mono hSeals.grown
  exact Behaves.mapM_forall (Seals.isHistory careful)
    (fun _ _ => trivial) hKept items
    (fun item hMem state _ => hEach item hMem state) trivial

/- The kind of a binding is made of live types. -/
private theorem sealed_kindOfType
    {wrap : BindingId → CacheM TypeId}
    {binding : TypeBinding}
    (id : BindingId)
    (hWrap : ∀ part,
      binding.component = some part ∨ part ∈ binding.bounds →
        ∀ cache, Sealed careful (wrap part) cache
          fun ty after => after.HasType ty)
    (cache : Cache) :
    Sealed careful (kindOfType table wrap id binding) cache
      fun kind after => ∀ part ∈ kind.parts,
        after.HasType part := by
  have hHistory := Seals.isHistory careful
  have hName : ∀ build : Name → TypeKind,
      (∀ name, (build name).parts = []) →
        Sealed careful (build <$> intern binding.name) cache
          fun kind after => ∀ part ∈ kind.parts,
            after.HasType part := by
    intro build hNone
    apply Behaves.map hHistory
    apply (sealed_intern binding.name cache).promise
    intro name after _ _ part hPart
    rw [hNone] at hPart
    cases hPart
  rw [kindOfType_eq]
  cases hForm : binding.form with
  | array =>
      simp only []
      cases hComponent : binding.component with
      | none => exact sealed_refuse not_false
      | some component =>
          apply Behaves.map hHistory
          apply (hWrap component (Or.inl hComponent) cache).promise
          intro ty after _ hType part hPart
          rw [List.mem_singleton.mp hPart]
          exact hType
  | intersection =>
      apply Behaves.map hHistory
      exact sealed_types binding.bounds
        (fun part hMem => hWrap part (Or.inr hMem)) cache
  | native => exact hName .native fun _ => rfl
  | void =>
      apply Behaves.pure hHistory
      intro part hPart
      cases hPart
  | primitive =>
      simp only []
      cases PrimitiveKind.ofBinaryName? binding.binaryName with
      | none => exact sealed_refuse not_false
      | some kind =>
          apply Behaves.pure hHistory
          intro part hPart
          cases hPart
  | typeVariable => exact hName .typeVariable fun _ => rfl
  | wildcard =>
      apply Behaves.map hHistory
      have hBound : Sealed careful
          (binding.bounds.head?.mapM wrap) cache
          fun bound after => ∀ made, bound = some made →
            after.HasType made := by
        apply Behaves.optionMapM hHistory
        intro bound hHead
        exact hWrap bound (Or.inr (List.mem_of_head? hHead))
          cache
      apply hBound.promise
      intro bound after _ hMade part hPart
      exact hMade part (Option.mem_toList.mp hPart)
  | declared => exact hName .declared fun _ => rfl

/- The depth of one more than there are bindings suffices. -/
theorem sealed_wrapHostType
    (hAcyclic : table.Acyclic)
    (id : BindingId) :
    ∀ cache, Sealed careful (wrapHostType table id) cache
      fun ty after => after.HasType ty := by
  have hHistory := Seals.isHistory careful
  apply induction_within_depth
    (P := fun depth id => ∀ cache, Sealed careful
      (wrapHostTypeWithin table depth id) cache
      fun ty after => after.HasType ty)
    hAcyclic.consists table.ids ?_ ?_ _ table.card_ids_lt id
  · rintro id part ⟨binding, hGet, _⟩
    exact BindingTable.mem_ids_of_get? hGet
  · intro depth id hParts cache
    unfold wrapHostTypeWithin
    apply Behaves.get hHistory
    cases hFound : cache.typeOf? id with
    | some ty =>
        rcases get?_of_typeOf? hFound with ⟨data, hData, _⟩
        exact .pure hHistory (hasType_of_get? hData)
    | none =>
        simp only []
        apply (sealed_typeBinding id).bind hHistory
        rintro binding _ _ _ ⟨rfl, hBinding⟩
        have hGet := typeBinding_eq_ok hBinding
        apply (sealed_kindOfType id (fun part hPart =>
          hParts part ⟨binding, hGet, hPart⟩) _).bind hHistory
        intro kind middle _ _ hKind
        apply sealed_addType fun _ => hKind
        intro _ element hOrigin
        cases hOrigin

theorem sealed_wrapReturnType
    (hAcyclic : table.Acyclic)
    (binding : MethodBinding)
    (cache : Cache) :
    Sealed careful (wrapReturnType table binding) cache
      fun ty after => after.HasType ty := by
  unfold wrapReturnType
  cases binding.returnType with
  | none =>
      exact .pure (Seals.isHistory careful) (hasType_noType cache)
  | some id => exact sealed_wrapHostType hAcyclic id cache

theorem sealed_wrapExecutable
    (hAcyclic : table.Acyclic)
    (id : BindingId)
    (cache : Cache) :
    Sealed careful (wrapExecutable table id) cache
      fun ty after => after.HasType ty := by
  have hHistory := Seals.isHistory careful
  unfold wrapExecutable
  apply Behaves.get hHistory
  cases hFound : cache.executableOf? id with
  | some ty =>
      rcases get?_of_executableOf? hFound with ⟨data, hData, _⟩
      exact .pure hHistory (hasType_of_get? hData)
  | none =>
      simp only []
      apply (sealed_methodBinding id).bind hHistory
      rintro binding _ _ _ rfl
      apply (sealed_types binding.parameterTypes
        (fun param _ => sealed_wrapHostType hAcyclic param)
        _).bind hHistory
      intro params middle _ _ hParams
      apply (sealed_wrapReturnType hAcyclic binding middle).bind
        hHistory
      intro returnType after _ hSeals hReturn
      apply sealed_addType
      · intro _ part hPart
        rcases List.mem_append.mp hPart with hParam | hLast
        · exact (hParams part hParam).mono hSeals.grown
        · rw [List.mem_singleton.mp hLast]
          exact hReturn
      · intro _ element hOrigin
        cases hOrigin

/- A shape is made of live types. -/
theorem sealed_synthesize
    {kind : TypeKind}
    {cache : Cache}
    (hParts : careful → ∀ part ∈ kind.parts,
      cache.HasType part) :
    Sealed careful (synthesize kind) cache
      fun ty after => after.HasType ty := by
  have hHistory := Seals.isHistory careful
  unfold synthesize
  apply Behaves.get hHistory
  cases hFound : cache.shapes.get? kind with
  | some ty =>
      exact .pure hHistory (hasType_of_get? (get?_of_shape? hFound))
  | none =>
      apply sealed_addType hParts
      intro _ element hOrigin
      cases hOrigin

theorem sealed_nativeType
    (text : String)
    (cache : Cache) :
    Sealed careful (nativeType text) cache
      fun ty after => after.HasType ty := by
  unfold nativeType
  apply (sealed_intern text cache).bind (Seals.isHistory careful)
  intro name after _ _ _
  apply sealed_synthesize
  intro _ part hPart
  cases hPart

theorem sealed_pointerType
    {pointee : TypeId}
    {cache : Cache}
    (hPointee : careful → cache.HasType pointee) :
    Sealed careful (pointerType pointee) cache
      fun ty after => after.HasType ty := by
  apply sealed_synthesize
  intro hCareful part hPart
  rw [List.mem_singleton.mp hPart]
  exact hPointee hCareful

theorem sealed_syntheticArrayType
    {component : TypeId}
    {cache : Cache}
    (hComponent : careful → cache.HasType component) :
    Sealed careful (syntheticArrayType component) cache
      fun ty after => after.HasType ty := by
  apply sealed_synthesize
  intro hCareful part hPart
  rw [List.mem_singleton.mp hPart]
  exact hComponent hCareful

theorem sealed_primitiveType
    (hAcyclic : table.Acyclic)
    (kind : PrimitiveKind)
    (cache : Cache) :
    Sealed careful (primitiveType table kind) cache
      fun _ _ => True where
  follows := (sealed_wrapHostType hAcyclic _ cache).follows.fatal
  answer := fun _ _ _ => trivial
  failure := by
    intro error after hRun
    rcases run_primitiveType table kind cache with
      ⟨ty, cache', hOk, _⟩
    rw [hOk] at hRun
    cases hRun

------------------------------------------------------------
-- Host Elements
------------------------------------------------------------

theorem sealed_wrapUses
    (hAcyclic : table.Acyclic)
    (annotations : List BindingId)
    (cache : Cache) :
    Sealed careful (wrapUses table annotations) cache
      fun uses after => ∀ use ∈ uses,
        after.HasType use.annotationType := by
  have hHistory := Seals.isHistory careful
  have hKept : ∀ {first second : Cache},
      Seals careful first second →
        ∀ {use : AnnotationUse},
          first.HasType use.annotationType →
            second.HasType use.annotationType :=
    fun hSeals _ hType => hType.mono hSeals.grown
  unfold wrapUses
  apply Behaves.mapM_forall hHistory (fun _ _ => trivial) hKept
    annotations ?_ trivial
  intro use _ state _
  unfold wrapUse
  apply (sealed_annotationType use).bind hHistory
  rintro type _ _ _ rfl
  apply (sealed_wrapHostType hAcyclic type _).bind hHistory
  intro ty after _ _ hType
  exact .pure hHistory hType

/- What is stored in an element is live. -/
structure Stored (cache : Cache) (data : ElementData) : Prop where
  types : ∀ ty ∈ data.types, cache.HasType ty
  elements : ∀ id ∈ data.elements, cache.HasElement id

section Describing

variable {wrap : BindingId → CacheM ElementId}
variable (hAcyclic : table.Acyclic)

private theorem sealed_declaring
    {declaring : Option BindingId}
    (hWrap : ∀ owner, declaring = some owner →
      ∀ cache, Sealed careful (wrap owner) cache
        fun element after => after.HasElement element)
    (cache : Cache) :
    Sealed careful (declaring.mapM wrap) cache
      fun enclosing after => ∀ owner,
        enclosing = some owner → after.HasElement owner :=
  Behaves.optionMapM (Seals.isHistory careful) declaring
    fun owner hSome => hWrap owner hSome cache

include hAcyclic

/- The element of a type stores its type. -/
private theorem sealed_describeType
    (id : BindingId)
    {binding : TypeBinding}
    (hWrap : ∀ owner, binding.declaring = some owner →
      ∀ cache, Sealed careful (wrap owner) cache
        fun element after => after.HasElement element)
    (cache : Cache) :
    Sealed careful (describeType table wrap id binding) cache
      fun data after =>
        after.Stored data ∧ data.origin = .host id := by
  have hHistory := Seals.isHistory careful
  unfold describeType
  apply (sealed_intern _ cache).bind hHistory
  intro name cache₁ _ _ _
  apply (sealed_declaring hWrap cache₁).bind hHistory
  intro enclosing cache₂ _ _ hEnclosing
  apply (sealed_wrapHostType hAcyclic id cache₂).bind hHistory
  intro ty cache₃ _ hSeals₃ hTy
  apply (sealed_wrapUses hAcyclic _ cache₃).bind hHistory
  intro uses cache₄ _ hSeals₄ hUses
  apply Behaves.pure hHistory
  refine ⟨⟨?_, ?_⟩, rfl⟩
  · rw [ElementData.forall_mem_types]
    refine ⟨?_, ?_, hUses⟩
    · rintro _ ⟨⟩
      exact hTy.mono hSeals₄.grown
    · split <;> simp [ElementKind.types]
  · rw [ElementData.forall_mem_elements]
    refine ⟨?_, ?_⟩
    · intro owner hOwner
      exact ((hEnclosing owner hOwner).mono hSeals₃.grown).mono
        hSeals₄.grown
    · split <;> simp [ElementKind.elements]

/- The element of a method stores its type and its result. -/
private theorem sealed_describeMethod
    (id : BindingId)
    {binding : MethodBinding}
    (hWrap : ∀ owner, binding.declaring = some owner →
      ∀ cache, Sealed careful (wrap owner) cache
        fun element after => after.HasElement element)
    (cache : Cache) :
    Sealed careful (describeMethod table wrap id binding) cache
      fun data after =>
        after.Stored data ∧ data.origin = .host id := by
  have hHistory := Seals.isHistory careful
  unfold describeMethod
  apply (sealed_declaring hWrap cache).bind hHistory
  intro enclosing cache₁ _ _ hEnclosing
  apply (sealed_wrapExecutable hAcyclic id cache₁).bind hHistory
  intro ty cache₂ _ hSeals₂ hTy
  apply (sealed_wrapReturnType hAcyclic binding cache₂).bind
    hHistory
  intro returnType cache₃ _ hSeals₃ hReturn
  apply (sealed_intern _ cache₃).bind hHistory
  intro name cache₄ _ hSeals₄ _
  apply (sealed_wrapUses hAcyclic _ cache₄).bind hHistory
  intro uses cache₅ _ hSeals₅ hUses
  have hLast : Grown cache₃ cache₅ :=
    hSeals₄.grown.trans hSeals₅.grown
  have hSince : Grown cache₂ cache₅ := hSeals₃.grown.trans hLast
  apply Behaves.pure hHistory
  refine ⟨⟨?_, ?_⟩, rfl⟩
  · rw [ElementData.forall_mem_types]
    refine ⟨?_, ?_, hUses⟩
    · rintro _ ⟨⟩
      exact hTy.mono hSince
    · intro type hType
      rw [List.mem_singleton.mp hType]
      exact hReturn.mono hLast
  · rw [ElementData.forall_mem_elements]
    refine ⟨?_, ?_⟩
    · intro owner hOwner
      exact ((hEnclosing owner hOwner).mono hSeals₂.grown).mono
        hSince
    · intro param hParam
      cases hParam

/- The element of a variable stores its type, if it has one. -/
private theorem sealed_describeVariable
    (id : BindingId)
    {binding : VariableBinding}
    (hWrap : ∀ owner, binding.declaring = some owner →
      ∀ cache, Sealed careful (wrap owner) cache
        fun element after => after.HasElement element)
    (cache : Cache) :
    Sealed careful (describeVariable table wrap id binding) cache
      fun data after =>
        after.Stored data ∧ data.origin = .host id := by
  have hHistory := Seals.isHistory careful
  have hType : Sealed careful
      (binding.ty.mapM (wrapHostType table)) cache
      fun ty after => ∀ type, ty = some type →
        after.HasType type :=
    Behaves.optionMapM hHistory binding.ty
      fun type _ => sealed_wrapHostType hAcyclic type cache
  unfold describeVariable
  apply hType.bind hHistory
  intro ty cache₁ _ _ hTy
  apply (sealed_intern _ cache₁).bind hHistory
  intro name cache₂ _ hSeals₂ _
  apply (sealed_declaring hWrap cache₂).bind hHistory
  intro enclosing cache₃ _ hSeals₃ hEnclosing
  apply (sealed_wrapUses hAcyclic _ cache₃).bind hHistory
  intro uses cache₄ _ hSeals₄ hUses
  apply Behaves.pure hHistory
  refine ⟨⟨?_, ?_⟩, rfl⟩
  · rw [ElementData.forall_mem_types]
    refine ⟨?_, ?_, hUses⟩
    · intro type hSome
      exact (((hTy type hSome).mono hSeals₂.grown).mono
        hSeals₃.grown).mono hSeals₄.grown
    · intro type hMem
      cases hMem
  · rw [ElementData.forall_mem_elements]
    refine ⟨?_, ?_⟩
    · intro owner hOwner
      exact (hEnclosing owner hOwner).mono hSeals₄.grown
    · intro param hParam
      cases hParam

/- An element is described in live handles. -/
private theorem sealed_describeHost
    {id : BindingId}
    (hWrap : ∀ owner, table.Declares id owner →
      ∀ cache, Sealed careful (wrap owner) cache
        fun element after => after.HasElement element)
    (cache : Cache) :
    Sealed careful (describeHost table wrap id) cache
      fun data after =>
        after.Stored data ∧ data.origin = .host id := by
  have hHistory := Seals.isHistory careful
  unfold describeHost
  cases hGet : table.get? id with
  | none => exact sealed_refuse not_false
  | some host =>
      cases host with
      | type binding =>
          apply sealed_describeType hAcyclic id ?_ cache
          intro owner hOwner
          exact hWrap owner (Or.inl ⟨binding, hGet, hOwner⟩)
      | method binding =>
          apply sealed_describeMethod hAcyclic id ?_ cache
          intro owner hOwner
          exact hWrap owner
            (Or.inr (Or.inl ⟨binding, hGet, hOwner⟩))
      | «variable» binding =>
          apply sealed_describeVariable hAcyclic id ?_ cache
          intro owner hOwner
          exact hWrap owner
            (Or.inr (Or.inr ⟨binding, hGet, hOwner⟩))
      | package name =>
          simp only [describePackage]
          apply (sealed_intern _ cache).bind hHistory
          intro name cache₁ _ _ _
          apply Behaves.pure hHistory
          exact ⟨⟨by simp [ElementData.types, ElementKind.types],
            by simp [ElementData.elements, ElementKind.elements]⟩,
            rfl⟩
      | annotationUse type => exact sealed_refuse not_false

end Describing

theorem sealed_wrapHostElement
    (hAcyclic : table.Acyclic)
    (id : BindingId) :
    ∀ cache, Sealed careful (wrapHostElement table id) cache
      fun element after => after.HasElement element := by
  have hHistory := Seals.isHistory careful
  apply induction_within_depth
    (P := fun depth id => ∀ cache, Sealed careful
      (wrapHostElementWithin table depth id) cache
      fun element after => after.HasElement element)
    hAcyclic.declares table.ids ?_ ?_ _ table.card_ids_lt id
  · rintro id owner (hOwner | hOwner | hOwner)
    all_goals
      rcases hOwner with ⟨binding, hGet, _⟩
      exact BindingTable.mem_ids_of_get? hGet
  · intro depth id ih cache
    unfold wrapHostElementWithin
    apply Behaves.get hHistory
    cases hFound : cache.hostElement? id with
    | some element =>
        rcases get?_of_hostElement? hFound with ⟨data, hData, _⟩
        exact .pure hHistory ⟨data, hData⟩
    | none =>
        simp only []
        apply (sealed_describeHost hAcyclic ih cache).bind hHistory
        rintro data after _ _ ⟨hStored, hOrigin⟩
        apply sealed_addElement (fun _ => hStored.types)
          (fun _ => hStored.elements)
        intro hGenerated
        rw [hOrigin] at hGenerated
        cases hGenerated

end Cache

end Lowering
