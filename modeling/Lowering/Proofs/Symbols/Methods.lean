import Lowering.Proofs.Cache.MethodTypes
import Lowering.Proofs.Symbols.Choices

/-
  This file proves what a runtime method is made of: the class
  that encloses it, its selector, and the types of its
  parameters, in order.

  A method is made when its class is first asked for its
  selector. Whoever asks later gets the same method, whatever
  parameters are asked for then.

  Key definitions include:
    * `Cache.parameterTypes?`
    * `Cache.IsMethodOf`

  Main results:
    * `Cache.Adds.parameterTypes?`
    * `Cache.run_method`
-/

namespace Lowering

namespace Cache

------------------------------------------------------------
-- Signatures
------------------------------------------------------------

/- The types of some elements; it is a mistake to have none. -/
def typesOf?
    (cache : Cache)
    (elements : List ElementId) : Option (List TypeId) :=
  elements.mapM fun element =>
    (cache.elements.get? element.raw).map
      (·.ty.getD noType)

/- The types of the parameters of a method. -/
def parameterTypes?
    (cache : Cache)
    (method : ElementId) : Option (List TypeId) := do
  let data ← cache.elements.get? method.raw
  match data.kind with
  | .executable _ params _ => cache.typesOf? params
  | _ => none

/- A live element is the method of a class for a selector. -/
def IsMethodOf
    (cache : Cache)
    (method cls : ElementId)
    (selector : String) : Prop :=
  ∃ data name params returnType,
    cache.elements.get? method.raw = some data ∧
      data.enclosing = some cls ∧
      data.kind = .executable (some name) params returnType ∧
      cache.names.text? name = some selector

/- Elements keep their types. -/
theorem Grown.typesOf?
    {before after : Cache}
    (hGrown : Grown before after)
    {elements : List ElementId}
    {types : List TypeId}
    (hTypes : before.typesOf? elements = some types) :
    after.typesOf? elements = some types := by
  unfold Cache.typesOf? at hTypes ⊢
  induction elements generalizing types with
  | nil => exact hTypes
  | cons element elements ih =>
      rw [List.mapM_cons] at hTypes ⊢
      rcases Option.bind_eq_some_iff.mp hTypes with
        ⟨first, hFirst, hRest⟩
      rcases Option.bind_eq_some_iff.mp hRest with
        ⟨rest, hRest, hLast⟩
      rcases Option.map_eq_some_iff.mp hFirst with
        ⟨data, hData, hTy⟩
      rcases hGrown.element? hData with ⟨data', hData', hKept⟩
      rw [ih hRest, hData', Option.map_some, hKept.ty, hTy]
      exact hLast

/- A method stays that of its class and its selector. -/
theorem IsMethodOf.mono
    {before after : Cache}
    {method cls : ElementId}
    {selector : String}
    (hGrown : Grown before after)
    (hMethod : before.IsMethodOf method cls selector) :
    after.IsMethodOf method cls selector := by
  rcases hMethod with
    ⟨data, name, params, returnType, hData, hClass, hKind,
      hText⟩
  rcases hGrown.element? hData with ⟨data', hData', hKept⟩
  have hExtended := hKept.kind
  rw [hKind] at hExtended
  have hStill : ∃ params',
      data'.kind =
        .executable (some name) params' returnType := by
    generalize data'.kind = kind at hExtended
    cases hExtended with
    | same => exact ⟨params, rfl⟩
    | parameters _ _ added _ => exact ⟨params ++ added, rfl⟩
  rcases hStill with ⟨params', hKind'⟩
  exact ⟨data', name, params', returnType, hData',
    hKept.enclosing.trans hClass, hKind',
    hGrown.names _ _ hText⟩

/- Where elements are only added, signatures stay. -/
theorem Adds.parameterTypes?
    {before after : Cache}
    (hAdds : Adds before after)
    {method : ElementId}
    {types : List TypeId}
    (hTypes : before.parameterTypes? method = some types) :
    after.parameterTypes? method = some types := by
  unfold Cache.parameterTypes? at hTypes ⊢
  rcases Option.bind_eq_some_iff.mp hTypes with
    ⟨data, hData, hParams⟩
  refine Option.bind_eq_some_iff.mpr
    ⟨data, hAdds.get? hData, ?_⟩
  split at hParams
  · exact hAdds.changes.grown.typesOf? hParams
  · exact absurd hParams (by simp)

------------------------------------------------------------
-- Making Methods
------------------------------------------------------------

/- The types of parameters are those that they are given. -/
private theorem typesOf?_of_isParameter
    {cache : Cache}
    {method : ElementId}
    {params : List ElementId}
    {types : List TypeId}
    (hParams : List.Forall₂ (cache.IsParameter method)
      params types) :
    cache.typesOf? params = some types := by
  unfold typesOf?
  induction hParams with
  | nil => exact List.mapM_nil
  | @cons param ty params types hParam _ ih =>
      rcases hParam with ⟨data, hData, _, _, hTy⟩
      rw [List.mapM_cons, hData, ih, Option.map_some, hTy]
      rfl

private theorem HasSignature.parameterTypes?
    {cache : Cache}
    {method : ElementId}
    {types : List TypeId}
    {returnType : TypeId}
    (hMethod : cache.HasSignature method types returnType) :
    cache.parameterTypes? method = some types := by
  rcases hMethod with
    ⟨data, selector, params, hData, hKind, hParams⟩
  unfold Cache.parameterTypes?
  rw [hData]
  show (match data.kind with
    | .executable _ params _ => cache.typesOf? params
    | _ => none) = _
  rw [hKind]
  exact typesOf?_of_isParameter hParams

/- A new method has its class, its selector, no parameters. -/
private theorem run_newMethod
    (selector : String)
    (declaring : ElementId)
    (returnType : TypeId)
    (modifiers : Modifiers)
    (cache : Cache) :
    ∃ method after,
      newMethod selector declaring returnType modifiers cache =
          .ok method after ∧
        Adds cache after ∧
        cache.elements.next ≤ method.raw ∧
        after.IsMethodOf method declaring selector ∧
        after.HasSignature method [] returnType := by
  have hChanges := @follows_newMethod False selector declaring
    returnType modifiers cache
  refine ⟨_, _, rfl, ⟨hChanges.run_ok rfl,
    Generation.Grown.push (fun _ => rfl) _ _⟩,
    Nat.le_refl _, ?_, ?_⟩
  · exact ⟨_, _, _, _, Generation.get?_push_next _ _, rfl, rfl,
      Interner.text?_of_find? (Interner.find?_intern _ _)⟩
  · exact ⟨_, _, _, Generation.get?_push_next _ _, rfl, .nil⟩

/- Parameters are appended to a method one after the other. -/
private theorem run_newParameters
    {cache : Cache}
    {method : ElementId}
    {types : List TypeId}
    {returnType : TypeId}
    (params : List (String × TypeId))
    (hMethod : cache.HasSignature method types returnType) :
    ∃ after,
      (params.forM fun (name, ty) => do
        let _ ← CacheM.fatal (newParameter method name ty))
          cache = .ok () after ∧
        after.HasSignature method
          (types ++ params.map (·.2)) returnType ∧
        ∀ handle data,
          handle ≠ method.raw →
            cache.elements.get? handle = some data →
              after.elements.get? handle = some data := by
  induction params generalizing cache types with
  | nil =>
      refine ⟨cache, rfl, ?_, fun _ _ _ hFound => hFound⟩
      rw [List.map_nil, List.append_nil]
      exact hMethod
  | cons param params ih =>
      rcases hMethod.run_newParameter param.1 param.2 with
        ⟨made, middle, hRun, hStill, hOthers⟩
      rcases ih hStill with ⟨after, hRest, hLast, hOthers'⟩
      refine ⟨after, ?_, ?_, ?_⟩
      · have hFirst : (do
            let _ ← CacheM.fatal
              (newParameter method param.1 param.2) :
                CacheM Unit) cache = .ok () middle := by
          rw [run_bind_ok (run_fatal_ok hRun)]
          rfl
        show ((do
          let _ ← CacheM.fatal
            (newParameter method param.1 param.2) :
              CacheM Unit) >>= fun _ => _) cache = _
        rw [run_bind_ok hFirst]
        exact hRest
      · rw [List.append_assoc] at hLast
        exact hLast
      · intro handle data hNe hData
        exact hOthers' handle data hNe
          (hOthers handle data hNe hData)

theorem follows_newParameters
    (method : ElementId)
    (params : List (String × TypeId))
    (cache : Cache) :
    Follows (Changes False)
      (params.forM fun (name, ty) => do
        let _ ← CacheM.fatal (newParameter method name ty))
      cache := by
  have hHistory := Changes.isHistory False
  apply Follows.forM hHistory
  intro param _ state
  apply ((follows_newParameter method param.1 param.2
    state).fatal).bind hHistory
  intro _ _ _
  exact Follows.pure hHistory _ _

theorem follows_method
    (members : RuntimeMembers)
    (cls : ElementId)
    (selector : String)
    (returnType : TypeId)
    (modifiers : Modifiers)
    (params : List (String × TypeId))
    (cache : Cache) :
    Follows (Changes False)
      (members.method cls selector returnType modifiers params)
      cache := by
  have hHistory := Changes.isHistory False
  unfold RuntimeMembers.method
  apply (follows_intern selector cache).bind hHistory
  intro name named _
  simp only []
  cases members.methods.lookup (cls, name) with
  | some method => exact Follows.pure hHistory _ _
  | none =>
      apply (follows_newMethod selector cls returnType
        modifiers named).bind hHistory
      intro method middle _
      apply (follows_newParameters method params middle).bind
        hHistory
      intro _ _ _
      exact Follows.pure hHistory _ _

/-
  A class always has a method for a selector. If none was
  recorded, the new one has the parameters that are asked for.
-/
theorem run_method
    (members : RuntimeMembers)
    (cls : ElementId)
    (selector : String)
    (returnType : TypeId)
    (modifiers : Modifiers)
    (params : List (String × TypeId))
    (cache : Cache) :
    ∃ name method members' after,
      members.method cls selector returnType modifiers params
          cache = .ok (method, members') after ∧
        Adds cache after ∧
        after.names.find? selector = some name ∧
        ((members.methods.lookup (cls, name) = some method ∧
            members' = members) ∨
          (members.methods.lookup (cls, name) = none ∧
            members' = { members with
              methods := ((cls, name), method) ::
                members.methods } ∧
            after.IsMethodOf method cls selector ∧
            after.parameterTypes? method =
              some (params.map (·.2)))) := by
  have hChanges := follows_method members cls selector
    returnType modifiers params cache
  have hIntern : ∃ name named,
      intern selector cache = .ok name named ∧
        named.names.find? selector = some name ∧
        Adds cache named := by
    exact ⟨_, _, rfl, Interner.find?_intern _ _,
      ((@typesOnly_intern False selector
        cache).run_ok rfl).adds⟩
  rcases hIntern with ⟨name, named, hIntern, hName, hNamed⟩
  cases hFound : members.methods.lookup (cls, name) with
  | some method =>
      refine ⟨name, method, members, named, ?_, hNamed, hName,
        Or.inl ⟨hFound, rfl⟩⟩
      unfold RuntimeMembers.method
      rw [run_bind_ok hIntern]
      simp only [hFound]
      rfl
  | none =>
      rcases run_newMethod selector cls returnType modifiers
          named with
        ⟨method, middle, hMethod, hAdds, hNew, hIs, hNone⟩
      rcases run_newParameters params hNone with
        ⟨after, hParams, hAll, hOthers⟩
      have hRun : members.method cls selector returnType
          modifiers params cache =
            .ok (method, { members with
              methods := ((cls, name), method) ::
                members.methods }) after := by
        unfold RuntimeMembers.method
        rw [run_bind_ok hIntern]
        simp only [hFound]
        rw [run_bind_ok hMethod, run_bind_ok hParams]
        rfl
      have hGrown := ((follows_newParameters method params
        middle).run_ok hParams).grown
      refine ⟨name, method, _, after, hRun, ?_, ?_,
        Or.inr ⟨hFound, rfl, hIs.mono hGrown, ?_⟩⟩
      · refine ⟨hChanges.run_ok hRun, ?_⟩
        refine ⟨hGrown.elements.base.trans
          ((hAdds.elements.base).trans hNamed.elements.base),
          ?_⟩
        intro handle data hData
        have hBound := (Generation.bounds_of_get?
          (hNamed.get? hData)).2
        refine ⟨data, ?_, rfl⟩
        apply hOthers handle data (by omega)
        exact hAdds.get? (hNamed.get? hData)
      · exact (hAdds.changes.grown.trans hGrown).names.find?
          hName
      · rw [List.nil_append] at hAll
        exact hAll.parameterTypes?

end Cache

end Lowering
