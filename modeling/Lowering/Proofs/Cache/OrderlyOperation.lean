import Lowering.Proofs.Cache.Orderly
import Lowering.Proofs.Cache.Request

/-
  This file proves that every operation of the cache behaves
  in order, over a table without circular bindings and asked
  in names of the cache.

  An operation that insists on the family of an element reads
  the name of an element that is of another one. That name is
  known in a cache that is spelled in its own names.

  Main results:
    * `Cache.orderly_wrapHostElement`
    * `Cache.orderly_wrapType`
    * `Cache.orderly_wrapElement`
    * `Cache.orderly_wrapPackageDeclaration`
    * `Cache.orderly_executableTypeOf`
    * `Cache.orderly_answer`
-/

namespace Lowering

namespace Cache

variable {table : BindingTable}
variable {own : Prop}

------------------------------------------------------------
-- Parts Of An Element
------------------------------------------------------------

private theorem orderly_wrapUses
    (hAcyclic : table.Acyclic)
    (annotations : List BindingId)
    (cache : Cache) :
    Orderly table own (wrapUses table annotations) cache
      fun _ _ => True := by
  apply Orderly.forEach
  intro use _ middle
  unfold wrapUse
  apply (Orderly.consult (table.annotationType use)).bind
  intro type after _ _ _
  apply (orderly_wrapHostType hAcyclic type after).bind
  intro ty _ _ _ _
  exact .pure trivial

/- An element is described in a name that was interned. -/
private theorem orderly_describeHost
    {wrap : BindingId → CacheM ElementId}
    {id : BindingId}
    (hAcyclic : table.Acyclic)
    (hWrap : ∀ owner, table.Declares id owner →
      ∀ cache, Orderly table own (wrap owner) cache
        fun _ _ => True)
    (cache : Cache) :
    Orderly table own (describeHost table wrap id) cache
      fun data after => after.Knows data.name := by
  have hIntern : ∀ (text : String) (cache : Cache),
      Orderly table own (intern text) cache
        fun name after => after.Knows name :=
    fun text cache => (orderly_intern text cache).promise
      fun _ _ _ hFound => knows_of_find? hFound
  have hDeclaring : ∀ declaring : Option BindingId,
      (∀ owner, declaring = some owner →
        table.Declares id owner) →
        ∀ cache, Orderly table own (declaring.mapM wrap) cache
          fun _ _ => True :=
    fun declaring hOwner => Orderly.forOption declaring
      fun owner hSome => hWrap owner (hOwner owner hSome)
  unfold describeHost
  cases hGet : table.get? id with
  | none => exact .refuse _
  | some host =>
      cases host with
      | type binding =>
          simp only [describeType]
          apply (hIntern _ cache).bind
          intro name cache₁ _ _ hKnows
          apply (hDeclaring binding.declaring (fun owner hOwner =>
            Or.inl ⟨binding, hGet, hOwner⟩) cache₁).bind
          intro enclosing cache₂ _ hMoves₂ _
          apply (orderly_wrapHostType hAcyclic id cache₂).bind
          intro ty cache₃ _ hMoves₃ _
          apply (orderly_wrapUses hAcyclic _ cache₃).bind
          intro annotations cache₄ _ hMoves₄ _
          apply Orderly.pure
          exact ((hKnows.mono hMoves₂.grown).mono
            hMoves₃.grown).mono hMoves₄.grown
      | method binding =>
          simp only [describeMethod]
          apply (hDeclaring binding.declaring (fun owner hOwner =>
            Or.inr (Or.inl ⟨binding, hGet, hOwner⟩)) cache).bind
          intro enclosing cache₁ _ _ _
          apply (orderly_wrapExecutable hAcyclic id cache₁).bind
          intro ty cache₂ _ _ _
          apply (orderly_wrapReturnType hAcyclic binding
            cache₂).bind
          intro returnType cache₃ _ _ _
          apply (hIntern _ cache₃).bind
          intro name cache₄ _ _ hKnows
          apply (orderly_wrapUses hAcyclic _ cache₄).bind
          intro annotations cache₅ _ hMoves _
          exact .pure (hKnows.mono hMoves.grown)
      | «variable» binding =>
          simp only [describeVariable]
          have hType : Orderly table own
              (binding.ty.mapM (wrapHostType table)) cache
              fun _ _ => True :=
            Orderly.forOption binding.ty (fun type _ cache =>
              (orderly_wrapHostType hAcyclic type cache).loose)
              cache
          apply hType.bind
          intro ty cache₁ _ _ _
          apply (hIntern _ cache₁).bind
          intro name cache₂ _ _ hKnows
          apply (hDeclaring binding.declaring (fun owner hOwner =>
            Or.inr (Or.inr ⟨binding, hGet, hOwner⟩)) cache₂).bind
          intro enclosing cache₃ _ hMoves₃ _
          apply (orderly_wrapUses hAcyclic _ cache₃).bind
          intro annotations cache₄ _ hMoves₄ _
          exact .pure
            ((hKnows.mono hMoves₃.grown).mono hMoves₄.grown)
      | package name =>
          simp only [describePackage]
          apply (hIntern _ cache).bind
          intro name cache₁ _ _ hKnows
          exact .pure hKnows
      | annotationUse type => exact .refuse _

/- The element that is added is spelled in a known name. -/
private theorem orderly_addElement
    {cache : Cache}
    {data : ElementData}
    (hKnows : own → cache.Knows data.name) :
    Orderly table own (addElement data) cache
      fun _ _ => True where
  moves := (Move.element cache data hKnows).moves
  answer := fun _ _ _ => trivial
  refusal := by
    intro _ error after hRun
    cases hRun

/-
  Wrapping a binding as an element is orderly to every depth
  that is beyond the number of bindings.
-/
theorem orderly_wrapHostElement
    (hAcyclic : table.Acyclic)
    (id : BindingId) :
    ∀ cache, Orderly table own (wrapHostElement table id) cache
      fun _ _ => True := by
  apply induction_within_depth
    (P := fun depth id => ∀ cache, Orderly table own
      (wrapHostElementWithin table depth id) cache
      fun _ _ => True)
    hAcyclic.declares table.ids ?_ ?_ _ table.card_ids_lt id
  · rintro id owner (hOwner | hOwner | hOwner)
    all_goals
      rcases hOwner with ⟨binding, hGet, _⟩
      exact BindingTable.mem_ids_of_get? hGet
  · intro depth id ih cache
    unfold wrapHostElementWithin
    apply Orderly.get
    cases cache.hostElement? id with
    | some element => exact .pure trivial
    | none =>
        simp only []
        apply (orderly_describeHost hAcyclic ih cache).bind
        intro data after _ _ hKnows
        exact orderly_addElement fun _ => hKnows

------------------------------------------------------------
-- Reading Elements
------------------------------------------------------------

theorem element_refused
    {cache : Cache}
    {id : ElementId}
    {error : CacheError}
    (hElement : cache.element id = .error error) :
    ∃ cause, error = .violation cause := by
  unfold Cache.element at hElement
  cases hGet : cache.elements.get? id.raw with
  | none =>
      rw [hGet] at hElement
      cases hElement
      exact ⟨_, rfl⟩
  | some data =>
      rw [hGet] at hElement
      cases hElement

theorem wrongElementKind_refused
    {cache : Cache}
    {data : ElementData}
    (hKnows : cache.Knows data.name)
    (family : ElementFamily) :
    ∃ cause,
      cache.wrongElementKind data family =
        .violation cause := by
  rcases nameText_ok hKnows with ⟨text, hText⟩
  unfold wrongElementKind
  rw [hText]
  exact ⟨_, rfl⟩

/- An element of another family is refused by its name. -/
theorem elementOf_refused
    {cache : Cache}
    {family : ElementFamily}
    {id : ElementId}
    {error : CacheError}
    (hSpelled : cache.Spelled)
    (hElement : cache.elementOf family id = .error error) :
    ∃ cause, error = .violation cause := by
  unfold elementOf at hElement
  cases hFound : cache.element id with
  | error cause =>
      rw [hFound] at hElement
      cases hElement
      exact element_refused hFound
  | ok data =>
      rw [hFound] at hElement
      change (if family.accepts data.kind = true then _
        else _) = _ at hElement
      split at hElement
      · cases hElement
      · cases hElement
        exact wrongElementKind_refused (hSpelled.elements _ _
          (element_eq_ok_iff.mp hFound)) family

private theorem orderly_element
    (id : ElementId)
    (cache : Cache) :
    Orderly table own (CacheM.inspect (·.element id)) cache
      fun data after =>
        after = cache ∧ cache.element id = .ok data :=
  .inspect fun _ _ hElement => element_refused hElement

private theorem orderly_elementOf
    {cache : Cache}
    (hSpelled : own → cache.Spelled)
    (family : ElementFamily)
    (id : ElementId) :
    Orderly table own (CacheM.inspect (·.elementOf family id))
      cache fun data after =>
        after = cache ∧ cache.elementOf family id = .ok data :=
  .inspect fun hOwn _ hElement =>
    elementOf_refused (hSpelled hOwn) hElement

------------------------------------------------------------
-- Bindings Of Any Sort
------------------------------------------------------------

private theorem orderly_packageElement
    {name : Name}
    {cache : Cache}
    (hKnows : own → cache.Knows name) :
    Orderly table own (packageElement name) cache
      fun _ _ => True := by
  unfold packageElement
  apply Orderly.get
  split
  · exact .pure trivial
  · exact orderly_addElement hKnows

theorem orderly_wrapType
    (hAcyclic : table.Acyclic)
    {binding : Binding}
    {cache : Cache}
    (hKnows : own → ∀ name ∈ binding.names, cache.Knows name) :
    Orderly table own (wrapType table binding) cache
      fun _ _ => True := by
  induction binding generalizing cache with
  | host id =>
      unfold wrapType
      exact (orderly_wrapHostType hAcyclic id cache).loose
  | generated binding =>
      rcases binding with ⟨element, family, name⟩
      cases family with
      | type =>
          unfold wrapType
          apply (orderly_element element cache).bind
          intro data after _ _ _
          cases data.ty with
          | some ty => exact .pure trivial
          | none => exact .refuse _
      | method =>
          unfold wrapType
          exact .refuse _
      | «variable» =>
          unfold wrapType
          exact .refuse _
  | generatedPackage name =>
      unfold wrapType
      exact .refuse _
  | nativeType name =>
      unfold wrapType
      exact orderly_synthesize hKnows
  | pointer pointee ih =>
      unfold wrapType
      apply (ih hKnows).bind
      intro ty after _ _ _
      exact orderly_pointerType ty after
  | pointerToUnbound =>
      unfold wrapType
      exact orderly_pointerType nullType cache

theorem orderly_wrapElement
    (hAcyclic : table.Acyclic)
    {binding : Binding}
    {cache : Cache}
    (hKnows : own → ∀ name ∈ binding.names, cache.Knows name) :
    Orderly table own (wrapElement table binding) cache
      fun _ _ => True := by
  unfold wrapElement
  cases binding with
  | host id => exact orderly_wrapHostElement hAcyclic id cache
  | generated binding =>
      apply (orderly_element binding.element cache).bind
      intro data after _ _ _
      exact .pure trivial
  | generatedPackage name =>
      apply orderly_packageElement
      intro hOwn
      exact hKnows hOwn name (by simp [Binding.names])
  | nativeType name => exact .refuse _
  | pointer pointee => exact .refuse _
  | pointerToUnbound => exact .refuse _

theorem orderly_wrapElementOf
    (hAcyclic : table.Acyclic)
    {binding : Binding}
    {cache : Cache}
    (hSpelled : own → cache.Spelled)
    (hKnows : own → ∀ name ∈ binding.names, cache.Knows name)
    (family : ElementFamily) :
    Orderly table own (wrapElementOf table family binding) cache
      fun _ _ => True := by
  unfold wrapElementOf
  apply (orderly_wrapElement hAcyclic hKnows).bind
  intro element middle _ hMoves _
  apply (orderly_elementOf (fun hOwn =>
    hMoves.spelled hOwn (hSpelled hOwn)) family element).bind
  intro data after _ _ _
  exact .pure trivial

------------------------------------------------------------
-- Package Declarations
------------------------------------------------------------

/- Only a package that has no annotations gets some. -/
theorem orderly_wrapPackageDeclaration
    (hAcyclic : table.Acyclic)
    {cache : Cache}
    (hSpelled : own → cache.Spelled)
    (id : BindingId)
    (annotations : List BindingId) :
    Orderly table own
      (wrapPackageDeclaration table id annotations) cache
      fun _ _ => True := by
  unfold wrapPackageDeclaration
  apply (orderly_wrapElementOf hAcyclic hSpelled
    (by simp [Binding.names]) .package).bind
  intro element cache₁ hWrap _ _
  rcases accepts_of_wrapElementOf hWrap with
    ⟨package, hPackage, hAccepts⟩
  apply (orderly_element element cache₁).bind
  rintro data cache₂ _ _ ⟨hSame, hElement⟩
  subst hSame
  rcases element_eq_ok_iff.mp hElement ▸ hPackage with ⟨rfl⟩
  simp only []
  split
  · next hNone =>
    simp only [Bool.and_eq_true, List.isEmpty_iff] at hNone
    apply (orderly_wrapUses hAcyclic annotations cache₂).bind
    intro found cache₃ hRun _ _
    have hModify : Orderly table own
        (modifyElement element (.annotations found)) cache₃
        fun _ _ => True := by
      refine ⟨Move.moves (Move.modified _ _ _ ?_ fun _ => rfl),
        fun _ _ _ => trivial, ?_⟩
      · intro old hOld
        have hUses : Follows (TypesOnly False)
            (wrapUses table annotations) cache₂ :=
          follows_wrapUses False.elim annotations cache₂
        replace hUses := hUses.run_ok hRun
        have hSame : cache₃.elements = cache₂.elements :=
          hUses.elements
        rw [hSame, element_eq_ok_iff.mp hElement] at hOld
        cases hOld
        exact kept_annotated hAccepts hNone.1 found
      · intro _ error after hFail
        cases hFail
    apply hModify.bind
    intro _ after _ _ _
    exact .pure trivial
  · exact .pure trivial

------------------------------------------------------------
-- Generated Elements
------------------------------------------------------------

/- A class is declared by one move, with its type. -/
theorem orderly_newTypeElement
    (text : String)
    (enclosing : Option ElementId)
    (modifiers : Modifiers)
    (cache : Cache) :
    Orderly table own (newTypeElement text enclosing modifiers)
      cache fun _ _ => True := by
  unfold newTypeElement
  apply (orderly_intern text cache).bind
  intro name middle _ _ hFound
  have hMove := @Move.declared table own middle {
      name
      kind := .type
      origin := .generated
      modifiers
      enclosing
      ty := some ⟨middle.types.next⟩ }
    rfl rfl fun _ => knows_of_find? hFound
  refine ⟨hMove.moves, fun _ _ _ => trivial, ?_⟩
  intro _ error after hRun
  cases hRun

theorem orderly_newField
    (text : String)
    (ty : TypeId)
    (declaring : ElementId)
    (modifiers : Modifiers)
    (cache : Cache) :
    Orderly table own (newField text ty declaring modifiers)
      cache fun _ _ => True := by
  unfold newField
  apply (orderly_intern text cache).bind
  intro name middle _ _ hFound
  exact orderly_addElement fun _ => knows_of_find? hFound

theorem orderly_newMethod
    (selector : String)
    (declaring : ElementId)
    (returnType : TypeId)
    (modifiers : Modifiers)
    (cache : Cache) :
    Orderly table own
      (newMethod selector declaring returnType modifiers) cache
      fun _ _ => True := by
  unfold newMethod
  apply (orderly_intern _ cache).bind
  intro name middle _ _ hFound
  apply (orderly_intern selector middle).bind
  intro full after _ hMoves _
  exact orderly_addElement fun _ =>
    (knows_of_find? hFound).mono hMoves.grown

theorem orderly_newParameter
    {cache : Cache}
    (hSpelled : own → cache.Spelled)
    (method : ElementId)
    (text : String)
    (ty : TypeId) :
    Orderly table own (newParameter method text ty) cache
      fun _ _ => True := by
  unfold newParameter
  apply (orderly_elementOf hSpelled .executable method).bind
  rintro data cache₁ _ _ ⟨rfl, hElement⟩
  apply (orderly_intern text cache₁).bind
  intro name cache₂ hName _ hFound
  have hBefore := hasArity_of_elementOf hElement
  have hArity : ∃ arity, cache₂.HasArity method arity := by
    cases hName
    exact hBefore
  have hMove := @Move.parameter table own cache₂ method name ty
    hArity fun _ => knows_of_find? hFound
  refine ⟨hMove.moves, fun _ _ _ => trivial, ?_⟩
  intro _ error after hRun
  cases hRun

/- The type of a method is made only if the method is live. -/
theorem orderly_executableTypeOf
    {cache : Cache}
    (hSpelled : own → cache.Spelled)
    (method : ElementId) :
    Orderly table own (executableTypeOf method) cache
      fun _ _ => True := by
  unfold executableTypeOf
  apply (orderly_elementOf hSpelled .executable method).bind
  rintro data middle _ _ ⟨hSame, hElement⟩
  subst hSame
  rcases elementOf_eq_ok hElement with ⟨hLive, _⟩
  split
  · exact .pure trivial
  · next selector params returnType hKind _ =>
    apply Orderly.get
    split
    · exact .pure trivial
    · next hFound =>
      have hTypes : Orderly table own
          (params.mapM parameterType) middle
          fun _ _ => True := by
        apply Orderly.forEach
        intro param _ state
        unfold parameterType
        apply (orderly_element param state).bind
        intro found _ _ _ _
        exact .pure trivial
      apply hTypes.bind
      intro types after hRead _ _
      rcases run_parameterTypes_eq_ok hRead with ⟨hLength, rfl⟩
      have hMove := @Move.executable table own _ method types
        returnType ⟨data, selector, params, returnType, hLive,
          hKind, hLength.symm⟩ hFound
      refine ⟨hMove.moves, fun _ _ _ => trivial, ?_⟩
      intro _ error last hRun
      cases hRun
  · apply Orderly.get
    refine ⟨Follows.throw (Moves.isHistory table own) _ _, ?_, ?_⟩
    · intro answer after hRun
      cases hRun
    · intro hOwn error after hRun
      cases hRun
      exact wrongElementKind_refused
        ((hSpelled hOwn).elements _ _ hLive) .executable

------------------------------------------------------------
-- Operations
------------------------------------------------------------

/- The value primitives are always wrapped. -/
theorem orderly_primitiveType
    (hAcyclic : table.Acyclic)
    (kind : PrimitiveKind)
    (cache : Cache) :
    Orderly table own (primitiveType table kind) cache
      fun _ _ => True where
  moves := (orderly_wrapHostType hAcyclic _ cache).moves.fatal
  answer := fun _ _ _ => trivial
  refusal := by
    intro _ error after hRun
    rcases run_primitiveType table kind cache with
      ⟨ty, cache', hOk, _⟩
    rw [hOk] at hRun
    cases hRun

/- Every operation behaves in order. -/
theorem orderly_answer
    (hAcyclic : table.Acyclic)
    {cache : Cache}
    (hSpelled : own → cache.Spelled)
    (operation : Operation)
    (hKnows : own →
      ∀ name ∈ operation.names, cache.Knows name) :
    Orderly table own (operation.answer table) cache
      fun _ _ => True := by
  cases operation with
  | intern text =>
      apply Orderly.map
      cases text with
      | none => exact .refuse _
      | some text => exact (orderly_intern text cache).loose
  | wrapType binding => exact .map (orderly_wrapType hAcyclic hKnows)
  | wrapExecutable id =>
      exact .map (orderly_wrapExecutable hAcyclic id cache)
  | wrapElement binding =>
      exact .map (orderly_wrapElement hAcyclic hKnows)
  | wrapElementOf family binding =>
      exact .map
        (orderly_wrapElementOf hAcyclic hSpelled hKnows family)
  | wrapPackageDeclaration id annotations =>
      exact .map (orderly_wrapPackageDeclaration
        hAcyclic hSpelled id annotations)
  | packageElement name =>
      apply Orderly.map
      apply orderly_packageElement
      intro hOwn
      exact hKnows hOwn name List.mem_cons_self
  | nativeType text => exact .map (orderly_nativeType text cache)
  | pointerType pointee =>
      exact .map (orderly_pointerType pointee cache)
  | syntheticArrayType component =>
      exact .map (orderly_syntheticArrayType component cache)
  | primitiveType kind =>
      exact .map (orderly_primitiveType hAcyclic kind cache)
  | newTypeElement text enclosing modifiers =>
      exact .map
        (orderly_newTypeElement text enclosing modifiers cache)
  | newField text ty declaring modifiers =>
      exact .map
        (orderly_newField text ty declaring modifiers cache)
  | newMethod selector declaring returnType modifiers =>
      exact .map (orderly_newMethod
        selector declaring returnType modifiers cache)
  | newParameter method text ty =>
      exact .map (orderly_newParameter hSpelled method text ty)
  | executableTypeOf method =>
      exact .map (orderly_executableTypeOf hSpelled method)

end Cache

end Lowering
