import Mathlib.Data.List.Forall2
import Lowering.Proofs.Cache.Additions
import Lowering.Proofs.Cache.Steps

/-
  This file proves that the executable type of a generated
  method is never out of date: it has the types of the
  parameters that the method has when it is asked for.

  The type is remembered when it is made, and forgotten when
  the method gets a parameter. A forgotten type stays live and
  stays what it is, but it is not answered again.

  Key definitions include:
    * `Cache.IsParameter`
    * `Cache.HasSignature`
    * `Cache.Signed`
    * `Cache.Step.parameter?`

  Main results:
    * `Cache.Signed.perform`
    * `Cache.Signed.run_executableTypeOf`
    * `Cache.HasSignature.run_newParameter`
    * `Cache.HasSignature.advanceAll`
    * `Cache.executable_types_are_up_to_date`
-/

namespace Lowering

namespace Cache

variable {cache before after : Cache}

------------------------------------------------------------
-- Signatures
------------------------------------------------------------

/- A live element is a parameter of a method, of a type. -/
def IsParameter
    (cache : Cache)
    (method param : ElementId)
    (ty : TypeId) : Prop :=
  ∃ data,
    cache.elements.get? param.raw = some data ∧
      data.kind = .variable false ∧
      data.enclosing = some method ∧
      data.ty = some ty

/- A live element is a method of some types, one by one. -/
def HasSignature
    (cache : Cache)
    (method : ElementId)
    (types : List TypeId)
    (returnType : TypeId) : Prop :=
  ∃ data selector params,
    cache.elements.get? method.raw = some data ∧
      data.kind = .executable selector params returnType ∧
      List.Forall₂ (cache.IsParameter method) params types

theorem IsParameter.mono
    (hGrown : Grown before after)
    {method param : ElementId}
    {ty : TypeId}
    (hParam : before.IsParameter method param ty) :
    after.IsParameter method param ty := by
  rcases hParam with ⟨data, hData, hKind, hEnclosing, hTy⟩
  rcases hGrown.element? hData with ⟨data', hData', hKept⟩
  refine ⟨data', hData', ?_, hKept.enclosing.trans hEnclosing,
    hKept.ty.trans hTy⟩
  have hExtended := hKept.kind
  rw [hKind] at hExtended
  generalize data'.kind = kind at hExtended
  cases hExtended
  rfl

theorem isParameter_all_mono
    (hGrown : Grown before after)
    {method : ElementId}
    {params : List ElementId}
    {types : List TypeId}
    (hParams : List.Forall₂ (before.IsParameter method)
      params types) :
    List.Forall₂ (after.IsParameter method) params types :=
  hParams.imp fun _ _ hParam => hParam.mono hGrown

/- A parameter has one type, so parameters have one list. -/
theorem isParameter_all_unique
    {method : ElementId}
    {params : List ElementId}
    {types types' : List TypeId}
    (hTypes : List.Forall₂ (cache.IsParameter method)
      params types)
    (hTypes' : List.Forall₂ (cache.IsParameter method)
      params types') :
    types = types' := by
  refine List.right_unique_forall₂' ?_ hTypes hTypes'
  rintro param ty ty' ⟨data, hData, _, _, hTy⟩
    ⟨data', hData', _, _, hTy'⟩
  cases hData.symm.trans hData'
  exact Option.some.inj (hTy.symm.trans hTy')

/- The types of parameters are read one after the other. -/
theorem run_parameterTypes
    {method : ElementId}
    {params : List ElementId}
    {types : List TypeId}
    (hParams : List.Forall₂ (cache.IsParameter method)
      params types) :
    params.mapM parameterType cache = .ok types cache := by
  induction hParams with
  | nil =>
      rw [List.mapM_nil]
      rfl
  | @cons param ty params types hParam _ ih =>
      rcases hParam with ⟨data, hData, _, _, hTy⟩
      have hRead : parameterType param cache = .ok ty cache := by
        unfold parameterType
        rw [run_bind_ok (run_inspectCache_ok
          (element_eq_ok_iff.mpr hData)), hTy]
        rfl
      rw [List.mapM_cons, run_bind_ok hRead, run_bind_ok ih]
      rfl

------------------------------------------------------------
-- Signed Caches
------------------------------------------------------------

/-
  Methods have parameters that are there, generated methods
  have no type of their own, and a type that was made for a
  generated method has the types of the parameters that came
  first.
-/
structure Signed (cache : Cache) : Prop where
  methods : ∀ (method : ElementId) data selector params
      returnType,
    cache.elements.get? method.raw = some data →
      data.kind = .executable selector params returnType →
        ∃ types, List.Forall₂ (cache.IsParameter method)
          params types
  untyped : ∀ (method : ElementId) data selector params
      returnType,
    cache.elements.get? method.raw = some data →
      data.kind = .executable selector params returnType →
        data.origin = .generated → data.ty = none
  types : ∀ handle types returnType method,
    cache.types.get? handle =
        some ⟨.executable types returnType,
          .generated method⟩ →
      ∃ data selector params more,
        cache.elements.get? method.raw = some data ∧
          data.kind =
            .executable selector (params ++ more) returnType ∧
          List.Forall₂ (cache.IsParameter method) params types

/- What a type was made for stays as the cache grows. -/
private theorem types_mono
    (hGrown : Grown before after)
    {types : List TypeId}
    {returnType : TypeId}
    {method : ElementId}
    (hTypes : ∃ data selector params more,
      before.elements.get? method.raw = some data ∧
        data.kind =
          .executable selector (params ++ more) returnType ∧
        List.Forall₂ (before.IsParameter method)
          params types) :
    ∃ data selector params more,
      after.elements.get? method.raw = some data ∧
        data.kind =
          .executable selector (params ++ more) returnType ∧
        List.Forall₂ (after.IsParameter method)
          params types := by
  rcases hTypes with
    ⟨data, selector, params, more, hData, hKind, hParams⟩
  rcases hGrown.element? hData with ⟨data', hData', hKept⟩
  have hStill := isParameter_all_mono hGrown hParams
  have hExtended := hKept.kind
  rw [hKind] at hExtended
  generalize hKind' : data'.kind = kind at hExtended
  cases hExtended with
  | same =>
      exact ⟨data', selector, params, more, hData', hKind',
        hStill⟩
  | parameters _ _ added _ =>
      rw [List.append_assoc] at hKind'
      exact ⟨data', selector, params, more ++ added, hData',
        hKind', hStill⟩

/- A cache without wrappers is signed. -/
private theorem signed_of_empty
    (hTypes : cache.types.items = #[])
    (hElements : cache.elements.items = #[]) :
    cache.Signed := by
  refine ⟨?_, ?_, ?_⟩
  · intro method data selector params returnType hData
    exact (Generation.get?_ne_of_empty hElements hData).elim
  · intro method data selector params returnType hData
    exact (Generation.get?_ne_of_empty hElements hData).elim
  · intro handle types returnType method hType
    exact (Generation.get?_ne_of_empty hTypes hType).elim

/- New methods have no parameters, and new types are others. -/
private theorem Signed.makes
    {table : BindingTable}
    (hSigned : before.Signed)
    (hMakes : Makes table before after) :
    after.Signed where
  methods := by
    intro method data selector params returnType hData hKind
    rcases hMakes.plain _ _ hData with hOld | hPlain
    · rcases hSigned.methods method data selector params
          returnType hOld hKind with ⟨types, hTypes⟩
      exact ⟨types,
        isParameter_all_mono hMakes.changes.grown hTypes⟩
    · cases (hPlain.methods _ _ _ hKind).1
      exact ⟨[], .nil⟩
  untyped := by
    intro method data selector params returnType hData hKind
    rcases hMakes.plain _ _ hData with hOld | hPlain
    · exact hSigned.untyped method data selector params
        returnType hOld hKind
    · exact (hPlain.methods _ _ _ hKind).2
  types := by
    intro handle types returnType method hType
    rcases hMakes.types _ _ hType with hOld | hOther
    · exact types_mono hMakes.changes.grown
        (hSigned.types handle types returnType method hOld)
    · cases hOther method rfl

/- A parameter is appended, and its type to the signature. -/
theorem HasSignature.withParameter
    {method : ElementId}
    {types : List TypeId}
    {returnType : TypeId}
    (name : Name)
    (ty : TypeId)
    (hMethod : cache.HasSignature method types returnType) :
    (cache.withParameter method name ty).HasSignature method
      (types ++ [ty]) returnType := by
  rcases hMethod with
    ⟨data, selector, params, hData, hKind, hParams⟩
  have hGrown := grown_withParameter cache method name ty
  have hLow := (Generation.bounds_of_get? hData).2
  refine ⟨{ data with
      kind := data.kind.addParameter ⟨cache.elements.next⟩ },
    selector, params ++ [⟨cache.elements.next⟩], ?_, ?_, ?_⟩
  · rw [get?_withParameter hData, if_pos rfl]
  · rw [hKind]
    rfl
  · refine List.rel_append (isParameter_all_mono hGrown hParams)
      (.cons ⟨parameterElement method name ty, ?_, rfl, rfl,
        rfl⟩ .nil)
    rw [get?_withParameter hData,
      if_neg (Nat.ne_of_gt hLow), if_pos rfl]

/- What has got a parameter is a method, and was one before. -/
private theorem executable_of_addParameter
    {param : ElementId}
    {kind : ElementKind}
    {selector : Option Name}
    {params : List ElementId}
    {returnType : TypeId}
    (hKind : kind.addParameter param =
      .executable selector params returnType) :
    ∃ old, kind = .executable selector old returnType := by
  cases kind with
  | executable selector' old returnType' =>
      cases hKind
      exact ⟨old, rfl⟩
  | type => cases hKind
  | «variable» isField => cases hKind
  | package => cases hKind
  | typeParameter => cases hKind

private theorem Signed.withParameter
    {method : ElementId}
    {data : ElementData}
    (hSigned : cache.Signed)
    (hLive : cache.elements.get? method.raw = some data)
    (name : Name)
    (ty : TypeId) :
    (cache.withParameter method name ty).Signed := by
  have hGrown := grown_withParameter cache method name ty
  refine ⟨?_, ?_, ?_⟩
  · intro other found selector params returnType hFound hKind
    have hOther := hFound
    rw [get?_withParameter hLive] at hFound
    split at hFound
    · next hRaw =>
      cases eq_of_raw hRaw
      cases hFound
      rcases executable_of_addParameter hKind with ⟨old, hOld⟩
      rcases hSigned.methods method data selector old returnType
        hLive hOld with ⟨types, hTypes⟩
      have hBefore : cache.HasSignature method types
          returnType :=
        ⟨data, selector, old, hLive, hOld, hTypes⟩
      rcases hBefore.withParameter name ty with
        ⟨found, _, _, hFound, hKind', hParams⟩
      cases hOther.symm.trans hFound
      cases hKind.symm.trans hKind'
      exact ⟨_, hParams⟩
    · split at hFound
      · cases hFound
        cases hKind
      · rcases hSigned.methods other found selector params
          returnType hFound hKind with ⟨types, hTypes⟩
        exact ⟨types, isParameter_all_mono hGrown hTypes⟩
  · intro other found selector params returnType hFound hKind
      hOrigin
    rw [get?_withParameter hLive] at hFound
    split at hFound
    · cases hFound
      rcases executable_of_addParameter hKind with ⟨old, hOld⟩
      exact hSigned.untyped method data selector old returnType
        hLive hOld hOrigin
    · split at hFound
      · cases hFound
        cases hKind
      · exact hSigned.untyped other found selector params
          returnType hFound hKind hOrigin
  · intro handle types returnType other hType
    exact types_mono hGrown
      (hSigned.types handle types returnType other hType)

/- Annotations are no matter of signatures. -/
private theorem Signed.withAnnotations
    (hSigned : cache.Signed)
    (element : ElementId)
    (annotations : List AnnotationUse)
    (hGrown : Grown cache
      (cache.withAnnotations element annotations)) :
    (cache.withAnnotations element annotations).Signed := by
  have hOld : ∀ {other : ElementId} {found},
      (cache.withAnnotations element annotations).elements.get?
          other.raw = some found →
        ∃ old, cache.elements.get? other.raw = some old ∧
          found.kind = old.kind ∧ found.origin = old.origin ∧
          found.ty = old.ty := by
    intro other found hFound
    rw [get?_withAnnotations] at hFound
    split at hFound
    · rcases Option.map_eq_some_iff.mp hFound with
        ⟨old, hData, rfl⟩
      exact ⟨old, hData, rfl, rfl, rfl⟩
    · exact ⟨found, hFound, rfl, rfl, rfl⟩
  refine ⟨?_, ?_, ?_⟩
  · intro other found selector params returnType hFound hKind
    rcases hOld hFound with ⟨old, hData, hSame, _, _⟩
    rcases hSigned.methods other old selector params returnType
      hData (hSame ▸ hKind) with ⟨types, hTypes⟩
    exact ⟨types, isParameter_all_mono hGrown hTypes⟩
  · intro other found selector params returnType hFound hKind
      hOrigin
    rcases hOld hFound with ⟨old, hData, hSame, hFrom, hTy⟩
    rw [hTy]
    exact hSigned.untyped other old selector params returnType
      hData (hSame ▸ hKind) (hFrom ▸ hOrigin)
  · intro handle types returnType other hType
    exact types_mono hGrown
      (hSigned.types handle types returnType other hType)

/- A type that is made for the parameters that there are. -/
private theorem Signed.withExecutable
    {method : ElementId}
    {data : ElementData}
    {selector : Option Name}
    {params : List ElementId}
    {types : List TypeId}
    {returnType : TypeId}
    (hSigned : cache.Signed)
    (hData : cache.elements.get? method.raw = some data)
    (hKind : data.kind = .executable selector params returnType)
    (hTypes : List.Forall₂ (cache.IsParameter method)
      params types) :
    (cache.withExecutable method types returnType).Signed where
  methods := hSigned.methods
  untyped := hSigned.untyped
  types := by
    intro handle types' returnType' other hType
    rcases get?_push_cases hType with ⟨_, hNew⟩ | hOld
    · cases hNew
      refine ⟨data, selector, params, [], hData, ?_, hTypes⟩
      rw [List.append_nil]
      exact hKind
    · exact hSigned.types handle types' returnType' other hOld

/- Every operation leaves a signed cache signed. -/
theorem Signed.perform
    (hSigned : cache.Signed)
    (table : BindingTable)
    (operation : Operation) :
    (finalState (operation.perform table cache)).Signed := by
  have hEffect := effect_perform table operation cache
  generalize finalState (operation.perform table cache) = after
    at hEffect
  cases hEffect with
  | makes hMakes => exact hSigned.makes hMakes
  | parameter hRead hSpelled =>
      rcases makes_named table hRead hSpelled with
        ⟨hNamed, hLive⟩
      exact (hSigned.makes hNamed).withParameter hLive _ _
  | annotations hWrapped hData hPackage hBare _ hResolved =>
      rcases makes_resolved hWrapped hData hResolved with
        ⟨hMakes, hLive⟩
      exact (hSigned.makes hMakes).withAnnotations _ _
        (grown_withAnnotations hLive hPackage hBare _)
  | executable hLive hKind hUntyped hMissing hRead =>
      rcases hSigned.methods _ _ _ _ _ hLive hKind with
        ⟨types, hTypes⟩
      cases (run_parameterTypes hTypes).symm.trans hRead
      exact hSigned.withExecutable hLive hKind hTypes

/- Every cache is signed. -/
theorem Reached.signed
    {state : BindingTable × Cache}
    (hReached : Reached state) :
    state.2.Signed :=
  hReached.keeps (fun _ cache => cache.Signed)
    (fun _ => signed_of_empty rfl rfl)
    (fun table _ operation hSigned =>
      hSigned.perform table operation)
    (fun _ _ _ hSigned => hSigned)
    (fun _ _ _ => signed_of_empty rfl rfl)

------------------------------------------------------------
-- Asking For The Type
------------------------------------------------------------

section Asking

variable {method : ElementId}
variable {data : ElementData}
variable {selector : Option Name}
variable {params : List ElementId}
variable {types : List TypeId}
variable {returnType : TypeId}

private theorem elementOf_method
    (hData : cache.elements.get? method.raw = some data)
    (hKind : data.kind =
      .executable selector params returnType) :
    cache.elementOf .executable method = .ok data := by
  unfold elementOf
  rw [bind_ok (element_eq_ok_iff.mpr hData), hKind]
  rfl

/- A type that is remembered is answered. -/
private theorem run_executableTypeOf_found
    (hData : cache.elements.get? method.raw = some data)
    (hKind : data.kind = .executable selector params returnType)
    (hUntyped : data.ty = none)
    {ty : TypeId}
    (hFound : cache.executables.lookup method = some ty) :
    executableTypeOf method cache = .ok ty cache := by
  unfold executableTypeOf
  rw [run_bind_ok (run_inspectCache_ok
    (elementOf_method hData hKind))]
  simp only [hKind, hUntyped]
  rw [run_bind_ok (run_get cache)]
  simp only [hFound]
  rfl

/- A type is made for the parameters if none is remembered. -/
private theorem run_executableTypeOf_missing
    (hData : cache.elements.get? method.raw = some data)
    (hKind : data.kind = .executable selector params returnType)
    (hUntyped : data.ty = none)
    (hTypes : List.Forall₂ (cache.IsParameter method)
      params types)
    (hMissing : cache.executables.lookup method = none) :
    executableTypeOf method cache =
      .ok ⟨cache.types.next⟩
        (cache.withExecutable method types returnType) := by
  unfold executableTypeOf
  rw [run_bind_ok (run_inspectCache_ok
    (elementOf_method hData hKind))]
  simp only [hKind, hUntyped]
  rw [run_bind_ok (run_get cache)]
  simp only [hMissing]
  rw [run_bind_ok (run_parameterTypes hTypes)]
  rfl

/- A remembered type is of the parameters that there are. -/
private theorem Signed.type?_of_lookup
    (hSigned : cache.Signed)
    (hSound : cache.Sound)
    (hData : cache.elements.get? method.raw = some data)
    (hKind : data.kind = .executable selector params returnType)
    (hTypes : List.Forall₂ (cache.IsParameter method)
      params types)
    {ty : TypeId}
    (hFound : cache.executables.lookup method = some ty) :
    cache.type? ty =
      some ⟨.executable types returnType,
        .generated method⟩ := by
  rcases hSound.current.executables method ty hFound with
    ⟨made, returned, hType, hArity⟩
  rcases hSigned.types _ _ _ _ hType with
    ⟨found, _, front, more, hFoundData, hFoundKind, hMade⟩
  cases hData.symm.trans hFoundData
  rw [hKind] at hFoundKind
  cases hFoundKind
  have hLength : (front ++ more).length = made.length :=
    HasArity.unique
      ⟨data, selector, _, returnType, hData, hKind, rfl⟩ hArity
  have hNone : more = [] := by
    rw [List.length_append, hMade.length_eq] at hLength
    exact List.length_eq_zero_iff.mp (by omega)
  rw [hNone, List.append_nil] at hTypes
  cases isParameter_all_unique hMade hTypes
  exact hSound.type?_of_get? hType

/-
  The executable type of a generated method is made of the
  types of its parameters, whether it is remembered or made.
-/
theorem Signed.run_executableTypeOf
    (hSigned : cache.Signed)
    (hSound : cache.Sound)
    (hData : cache.elements.get? method.raw = some data)
    (hGenerated : data.origin = .generated)
    (hKind : data.kind = .executable selector params returnType)
    (hTypes : List.Forall₂ (cache.IsParameter method)
      params types) :
    ∃ ty after,
      executableTypeOf method cache = .ok ty after ∧
        after.elements = cache.elements ∧
        after.type? ty =
          some ⟨.executable types returnType,
            .generated method⟩ := by
  have hUntyped := hSigned.untyped method data selector params
    returnType hData hKind hGenerated
  cases hFound : cache.executables.lookup method with
  | some ty =>
      exact ⟨ty, cache,
        run_executableTypeOf_found hData hKind hUntyped hFound,
        rfl, hSigned.type?_of_lookup hSound hData hKind hTypes
          hFound⟩
  | none =>
      refine ⟨⟨cache.types.next⟩, _,
        run_executableTypeOf_missing hData hKind hUntyped hTypes
          hFound, rfl, ?_⟩
      apply (type?_eq_some_iff ?_).mpr
      · exact Or.inr
          (Or.inr (Generation.get?_push_next _ _))
      · exact hSound.base

/- The type of a method for all its parameters is the only one. -/
private theorem Current.eq_of_signature
    (hCurrent : cache.Current)
    (hMethod : cache.HasSignature method types returnType)
    {ty ty' : TypeId}
    (hType : cache.type? ty =
      some ⟨.executable types returnType, .generated method⟩)
    (hType' : cache.type? ty' =
      some ⟨.executable types returnType, .generated method⟩) :
    ty = ty' := by
  rcases hMethod with
    ⟨data, selector, params, hData, hKind, hParams⟩
  have hArity : cache.HasArity method types.length :=
    ⟨data, selector, params, returnType, hData, hKind,
      hParams.length_eq⟩
  have hLookup : ∀ {found : TypeId},
      cache.type? found =
          some ⟨.executable types returnType,
            .generated method⟩ →
        cache.executables.lookup method = some found := by
    intro found hFound
    rcases hCurrent.types _ _ _ _ (get?_of_generated hFound rfl)
      with ⟨arity, hOther, _, hSame⟩
    exact hSame (hArity.unique hOther)
  exact Option.some.inj
    ((hLookup hType).symm.trans (hLookup hType'))

end Asking

------------------------------------------------------------
-- Parameters In Steps
------------------------------------------------------------

/- The type of the parameter that a step gives to a method. -/
def Step.parameter?
    (method : ElementId) : Step → Option TypeId
  | .perform (.newParameter other _ ty) =>
    if other = method then some ty else none
  | _ => none

/- A method of which nothing was said has its signature still. -/
private theorem HasSignature.keep
    {method : ElementId}
    {types : List TypeId}
    {returnType : TypeId}
    (hMethod : before.HasSignature method types returnType)
    (hGrown : Grown before after)
    (hKept : ∀ data,
      before.elements.get? method.raw = some data →
        ∃ data', after.elements.get? method.raw = some data' ∧
          data'.kind = data.kind) :
    after.HasSignature method types returnType := by
  rcases hMethod with
    ⟨data, selector, params, hData, hKind, hParams⟩
  rcases hKept data hData with ⟨data', hData', hSame⟩
  exact ⟨data', selector, params, hData', hSame.trans hKind,
    isParameter_all_mono hGrown hParams⟩

/-
  A parameter is appended to a method that is there, and no
  other element that was there changes.
-/
theorem HasSignature.run_newParameter
    {method : ElementId}
    {types : List TypeId}
    {returnType : TypeId}
    (hMethod : cache.HasSignature method types returnType)
    (text : String)
    (ty : TypeId) :
    ∃ param after,
      newParameter method text ty cache = .ok param after ∧
        after.HasSignature method (types ++ [ty]) returnType ∧
        ∀ handle data,
          handle ≠ method.raw →
            cache.elements.get? handle = some data →
              after.elements.get? handle = some data := by
  have hLive := hMethod
  rcases hLive with ⟨data, selector, params, hData, hKind, _⟩
  rcases run_newParameter_ok (elementOf_method hData hKind) text
    ty with ⟨name, named, hName, hRun⟩
  have hNamed := (adds_intern text cache).run_ok hName
  refine ⟨_, _, hRun, ?_, ?_⟩
  · apply HasSignature.withParameter
    exact hMethod.keep hNamed.changes.grown
      fun data hData => ⟨data, hNamed.get? hData, rfl⟩
  · intro handle found hOther hFound
    have hStill := hNamed.get? hFound
    rw [get?_withParameter (hNamed.get? hData), if_neg hOther,
      if_neg (Nat.ne_of_lt (Generation.bounds_of_get? hStill).2)]
    exact hStill

/- Operations that give a method no parameter leave it alone. -/
private theorem HasSignature.perform
    {method : ElementId}
    {types : List TypeId}
    {returnType : TypeId}
    (hMethod : cache.HasSignature method types returnType)
    (table : BindingTable)
    {operation : Operation}
    (hOther :
      (Step.perform operation).parameter? method = none) :
    HasSignature (finalState (operation.perform table cache))
      method types returnType := by
  have hEffect := effect_perform table operation cache
  generalize finalState (operation.perform table cache) = after
    at hEffect
  cases hEffect with
  | makes hMakes =>
      exact hMethod.keep hMakes.changes.grown
        fun data hData => ⟨data, hMakes.get? hData, rfl⟩
  | @parameter other _ _ _ named name data hRead hSpelled =>
      rcases makes_named table hRead hSpelled with
        ⟨hNamed, hLive⟩
      have hDistinct : method.raw ≠ other.raw := by
        intro hRaw
        cases eq_of_raw hRaw
        simp [Step.parameter?] at hOther
      apply HasSignature.keep hMethod (hNamed.changes.grown.trans
        (grown_withParameter _ _ _ _))
      intro data hData
      have hStill := hNamed.get? hData
      refine ⟨data, ?_, rfl⟩
      rw [get?_withParameter hLive, if_neg hDistinct,
        if_neg (Nat.ne_of_lt
          (Generation.bounds_of_get? hStill).2)]
      exact hStill
  | @annotations _ _ _ _ last element _ found hWrapped hData
      hPackage hBare _ hResolved =>
      rcases makes_resolved hWrapped hData hResolved with
        ⟨hMakes, hLive⟩
      apply hMethod.keep (hMakes.changes.grown.trans
        (grown_withAnnotations hLive hPackage hBare _))
      intro data hData
      have hStill := hMakes.get? hData
      rw [get?_withAnnotations, hStill]
      split
      · exact ⟨_, rfl, rfl⟩
      · exact ⟨_, rfl, rfl⟩
  | executable => exact hMethod

/- A step appends the parameter that it gives, if any. -/
theorem HasSignature.advance
    {state : BindingTable × Cache}
    {method : ElementId}
    {types : List TypeId}
    {returnType : TypeId}
    (hMethod : state.2.HasSignature method types returnType)
    {step : Step}
    (hStep : step ≠ .reset) :
    (Cache.advance state step).2.HasSignature method
      (types ++ (step.parameter? method).toList) returnType := by
  cases hParam : step.parameter? method with
  | none =>
      rw [Option.toList_none, List.append_nil]
      cases step with
      | perform operation => exact hMethod.perform _ hParam
      | add binding => exact hMethod
      | reset => exact absurd rfl hStep
  | some ty =>
      unfold Step.parameter? at hParam
      split at hParam
      · next other text given =>
        split at hParam
        · next hSame =>
          cases hSame
          cases hParam
          rcases hMethod.run_newParameter text ty with
            ⟨_, after, hRun, hGiven, _⟩
          have hAnswer : (Operation.newParameter method text
              ty).answer state.1 state.2 = .ok _ after :=
            run_map_ok _ hRun
          unfold Cache.advance
          simp only [finalState_of_answer hAnswer]
          exact hGiven
        · cases hParam
      · cases hParam

/- Without a reset, parameters are appended one by one. -/
theorem HasSignature.advanceAll
    {state : BindingTable × Cache}
    {method : ElementId}
    {types : List TypeId}
    {returnType : TypeId}
    (hMethod : state.2.HasSignature method types returnType)
    {steps : List Step}
    (hSteps : .reset ∉ steps) :
    (Cache.advanceAll state steps).2.HasSignature method
      (types ++ steps.filterMap (·.parameter? method))
      returnType := by
  induction steps generalizing state types with
  | nil =>
      rw [List.filterMap_nil, List.append_nil]
      exact hMethod
  | cons step steps ih =>
      rw [List.mem_cons, not_or] at hSteps
      have hRest := ih (hMethod.advance (Ne.symm hSteps.1))
        hSteps.2
      have hTypes :
          (step :: steps).filterMap (·.parameter? method) =
            (step.parameter? method).toList ++
              steps.filterMap (·.parameter? method) := by
        rw [List.filterMap_cons]
        cases step.parameter? method <;> rfl
      rw [hTypes, ← List.append_assoc]
      exact hRest

------------------------------------------------------------
-- The Type At Any Time
------------------------------------------------------------

/- The binding of an executable type is that of its method. -/
private theorem bindingOfType_method
    {table : BindingTable}
    {ty : TypeId}
    {types : List TypeId}
    {returnType : TypeId}
    {method : ElementId}
    {data : ElementData}
    (hType : cache.type? ty =
      some ⟨.executable types returnType, .generated method⟩)
    (hData : cache.element method = .ok data) :
    cache.bindingOfType table ty =
      .ok (some (.generated ⟨method, .method, data.name⟩)) := by
  unfold bindingOfType bindingOfTypeWithin
  rw [bind_ok (typeData_eq_ok_iff.mpr hType)]
  simp only [bind_ok hData]
  rfl

private theorem unwrap_method
    {method : ElementId}
    {data : ElementData}
    {selector : Option Name}
    {params : List ElementId}
    {returnType : TypeId}
    (hData : cache.element method = .ok data)
    (hGenerated : data.origin = .generated)
    (hKind : data.kind =
      .executable selector params returnType) :
    cache.unwrap method =
      .ok (.generated ⟨method, .method, data.name⟩) := by
  unfold unwrap
  rw [bind_ok hData]
  simp only [hGenerated, hKind]
  rfl

/- Asking for the type of a method is a step. -/
private theorem later_executableTypeOf
    {state : BindingTable × Cache}
    {method : ElementId}
    {ty : TypeId}
    (hRun : executableTypeOf method state.2 = .ok ty after) :
    Later state (state.1, after) := by
  have hAnswer : (Operation.executableTypeOf method).answer
      state.1 state.2 = .ok (.type ty) after := run_map_ok _ hRun
  exact later_of_answer hAnswer

/- A method that is gone has no type. -/
private theorem executableTypeOf_ne_of_stale
    {method : ElementId}
    (hStale : cache.elements.get? method.raw = none)
    (ty : TypeId) :
    executableTypeOf method cache ≠ .ok ty after := by
  intro hRun
  unfold executableTypeOf at hRun
  rcases run_bind_eq_ok hRun with ⟨data, _, hInspect, _⟩
  have hData := (run_inspectCache_eq_ok hInspect).1
  rw [(elementOf_eq_ok hData).1] at hStale
  cases hStale

/- A generated method that is there has a type at any time. -/
private theorem HasSignature.run_executableTypeOf
    {state : BindingTable × Cache}
    {method : ElementId}
    {data : ElementData}
    {types : List TypeId}
    {returnType : TypeId}
    (hReached : Reached state)
    (hMethod : state.2.HasSignature method types returnType)
    (hData : state.2.elements.get? method.raw = some data)
    (hGenerated : data.origin = .generated) :
    ∃ ty after,
      executableTypeOf method state.2 = .ok ty after ∧
        after.elements = state.2.elements ∧
        after.type? ty =
          some ⟨.executable types returnType,
            .generated method⟩ := by
  rcases hMethod with
    ⟨found, selector, params, hFound, hKind, hParams⟩
  cases hData.symm.trans hFound
  exact hReached.signed.run_executableTypeOf hReached.sound
    hData hGenerated hKind hParams

/- What is answered for such a method after more steps. -/
private theorem HasSignature.run_executableTypeOf_later
    {state : BindingTable × Cache}
    {method : ElementId}
    {data : ElementData}
    {types : List TypeId}
    {returnType : TypeId}
    (hReached : Reached state)
    (hMethod : state.2.HasSignature method types returnType)
    (hData : state.2.elements.get? method.raw = some data)
    (hGenerated : data.origin = .generated)
    {steps : List Step}
    (hSteps : .reset ∉ steps) :
    ∃ ty last,
      executableTypeOf method
            (Cache.advanceAll state steps).2 =
          .ok ty last ∧
        Later state
          ((Cache.advanceAll state steps).1, last) ∧
        last.HasSignature method
          (types ++ steps.filterMap (·.parameter? method))
          returnType ∧
        last.type? ty =
          some ⟨.executable
            (types ++ steps.filterMap (·.parameter? method))
            returnType, .generated method⟩ := by
  have hLater := later_advanceAll hSteps state
  rcases hLater.grown.element? hData with
    ⟨data', hData', hKept⟩
  have hMethod' := hMethod.advanceAll hSteps
  rcases HasSignature.run_executableTypeOf
    (reached_advanceAll hReached steps) hMethod' hData'
    (hKept.origin.trans hGenerated) with
    ⟨ty, last, hRun, hElements, hType⟩
  have hLast := later_executableTypeOf hRun
  refine ⟨ty, last, hRun, hLater.trans hLast, ?_, hType⟩
  apply hMethod'.keep hLast.grown
  intro found hFound
  rw [hElements]
  exact ⟨found, hFound, rfl⟩

/-
  The type that a method has is answered again as long as the
  method got no parameter, and not after a reset.
-/
private theorem HasSignature.same_type_iff
    {state : BindingTable × Cache}
    {method : ElementId}
    {data : ElementData}
    {types : List TypeId}
    {returnType ty : TypeId}
    (hReached : Reached state)
    (hMethod : state.2.HasSignature method types returnType)
    (hData : state.2.elements.get? method.raw = some data)
    (hGenerated : data.origin = .generated)
    (hType : state.2.type? ty =
      some ⟨.executable types returnType, .generated method⟩)
    (steps : List Step) :
    (∃ last, executableTypeOf method
        (Cache.advanceAll state steps).2 = .ok ty last) ↔
      steps.filterMap (·.parameter? method) = [] ∧
        .reset ∉ steps := by
  constructor
  · rintro ⟨last, hSame⟩
    by_cases hReset : .reset ∈ steps
    · exact (executableTypeOf_ne_of_stale
        (stale_of_reset hData hReset) ty hSame).elim
    · rcases hMethod.run_executableTypeOf_later hReached hData
          hGenerated hReset with
        ⟨ty', last', hRun, hLater, _, hType'⟩
      cases hSame.symm.trans hRun
      rw [hLater.grown.type? hType] at hType'
      simp only [Option.some.injEq, TypeData.mk.injEq,
        TypeKind.executable.injEq, and_true,
        List.self_eq_append_right] at hType'
      exact ⟨hType', hReset⟩
  · rintro ⟨hNone, hSteps⟩
    rcases hMethod.run_executableTypeOf_later hReached hData
        hGenerated hSteps with
      ⟨ty', last, hRun, hLater, hLast, hType'⟩
    rw [hNone, List.append_nil] at hLast hType'
    have hSound := (hReached.later hLater).sound
    cases hSound.current.eq_of_signature hLast
      (hLater.grown.type? hType) hType'
    exact ⟨last, hRun⟩

/-
  A generated method has, at any time, an executable type of
  the types of its parameters, in their order, that leads back
  to the method. Through any steps without a reset the type
  stays what it is, and the type that is answered after them
  has the types of the parameters that they gave to the method
  besides. It is the same type if and only if they gave it
  none, and were without a reset.
-/
theorem executable_types_are_up_to_date
    {table : BindingTable}
    {cache : Cache}
    {method : ElementId}
    {data : ElementData}
    {selector : Option Name}
    {params : List ElementId}
    {returnType : TypeId}
    (hReached : Reached (table, cache))
    (hMethod : cache.element method = .ok data)
    (hGenerated : data.origin = .generated)
    (hKind : data.kind =
      .executable selector params returnType) :
    ∃ types ty after,
      List.Forall₂ (cache.IsParameter method) params types ∧
      executableTypeOf method cache = .ok ty after ∧
      after.typeData ty =
        .ok ⟨.executable types returnType,
          .generated method⟩ ∧
      after.bindingOfType table ty =
        .ok (some (.generated ⟨method, .method, data.name⟩)) ∧
      after.unwrap method =
        .ok (.generated ⟨method, .method, data.name⟩) ∧
      ∀ (steps : List Step) later,
        advanceAll (table, after) steps = later →
          (.reset ∉ steps →
            later.2.typeData ty =
                .ok ⟨.executable types returnType,
                  .generated method⟩ ∧
              ∃ ty' last,
                executableTypeOf method later.2 =
                    .ok ty' last ∧
                  last.typeData ty' =
                    .ok ⟨.executable
                      (types ++
                        steps.filterMap (·.parameter? method))
                      returnType, .generated method⟩) ∧
          ((∃ last, executableTypeOf method later.2 =
              .ok ty last) ↔
            steps.filterMap (·.parameter? method) = [] ∧
              .reset ∉ steps) := by
  have hLive := element_eq_ok_iff.mp hMethod
  rcases hReached.signed.methods method data selector params
    returnType hLive hKind with ⟨types, hTypes⟩
  have hSignature : cache.HasSignature method types
      returnType :=
    ⟨data, selector, params, hLive, hKind, hTypes⟩
  rcases hSignature.run_executableTypeOf hReached hLive
    hGenerated with ⟨ty, after, hRun, hElements, hType⟩
  have hFirst : Later (table, cache) (table, after) :=
    later_executableTypeOf hRun
  have hMethod' : after.element method = .ok data := by
    rw [element_eq_ok_iff, hElements]
    exact hLive
  have hLive' := element_eq_ok_iff.mp hMethod'
  have hSignature' : after.HasSignature method types
      returnType :=
    ⟨data, selector, params, hLive', hKind,
      isParameter_all_mono hFirst.grown hTypes⟩
  refine ⟨types, ty, after, hTypes, hRun,
    typeData_eq_ok_iff.mpr hType,
    bindingOfType_method hType hMethod',
    unwrap_method hMethod' hGenerated hKind, ?_⟩
  rintro steps later rfl
  refine ⟨?_, hSignature'.same_type_iff (hReached.later hFirst)
    hLive' hGenerated hType steps⟩
  intro hSteps
  have hLater := later_advanceAll hSteps (table, after)
  rcases hSignature'.run_executableTypeOf_later
    (hReached.later hFirst) hLive' hGenerated hSteps with
    ⟨ty', last, hRun', _, _, hType'⟩
  exact ⟨typeData_eq_ok_iff.mpr (hLater.grown.type? hType),
    ty', last, hRun', typeData_eq_ok_iff.mpr hType'⟩

/- A class with a method that has got one parameter. -/
def oneParameter : Cache :=
  performAll ⟨#[]⟩
    [.primitiveType .int,
      .newTypeElement "C" none {},
      .newMethod "add:to:" ⟨0⟩ ⟨2⟩ {},
      .newParameter ⟨1⟩ "a" ⟨2⟩] {}

/- The method of the class. -/
def oneParameterMethod : ElementData where
  name := ⟨2⟩
  kind := .executable (some ⟨3⟩) [⟨2⟩] ⟨2⟩
  origin := .generated
  enclosing := some ⟨0⟩

/-
  When the method has got a second parameter, it gets another
  type, and the first one is still there.
-/
theorem executable_types_are_up_to_date_secondParameter :
    ∃ ty after ty' last,
      executableTypeOf ⟨1⟩ oneParameter = .ok ty after ∧
        executableTypeOf ⟨1⟩
            (advanceAll (⟨#[]⟩, after) [.perform
              (.newParameter ⟨1⟩ "b" nullType)]).2 =
          .ok ty' last ∧
        last.typeData ty' =
          .ok ⟨.executable [⟨2⟩, nullType] ⟨2⟩,
            .generated ⟨1⟩⟩ ∧
        ty' ≠ ty := by
  have hReached : Reached (⟨#[]⟩, oneParameter) :=
    .later (.new _) (Later.performAll _ (.same _ _))
  have hMethod : oneParameter.element ⟨1⟩ =
      .ok oneParameterMethod :=
    element_eq_ok_iff.mpr (by decide +kernel)
  rcases executable_types_are_up_to_date hReached hMethod rfl
    rfl with
    ⟨types, ty, after, hParams, hRun, _, _, _, hSteps⟩
  rcases hSteps [.perform (.newParameter ⟨1⟩ "b" nullType)] _
    rfl with ⟨hLater, hSame⟩
  rcases hLater (by simp) with
    ⟨_, ty', last, hRun', hType⟩
  have hInt : types = [⟨2⟩] := by
    apply isParameter_all_unique hParams
    exact .cons ⟨parameterElement ⟨1⟩ ⟨4⟩ ⟨2⟩,
      by decide +kernel, rfl, rfl, rfl⟩ .nil
  subst hInt
  refine ⟨ty, after, ty', last, hRun, hRun', hType, ?_⟩
  rintro rfl
  cases (hSame.mp ⟨last, hRun'⟩).1

end Cache

end Lowering
