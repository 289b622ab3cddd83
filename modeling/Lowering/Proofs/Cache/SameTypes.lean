import Lowering.Environment
import Lowering.Proofs.Coupled
import Lowering.Proofs.Cache.Live
import Lowering.Proofs.Cache.WrapType

/-
  This file proves that caches which hold the same types
  answer alike whatever is asked about types, and give out the
  same types where types are made that have no name: pointers,
  synthetic arrays, value primitives and arrays over these.

  The names and the elements of the two caches may differ. It
  is only to write a type out that names are looked up, and
  for that both caches must have grown from one in which the
  type could be written out.

  Key definitions include:
    * `Cache.SameTypes`

  Main results:
    * `Cache.SameTypes.display`
    * `Cache.SameTypes.pointerType`
    * `Cache.SameTypes.primitiveType`
    * `Cache.SameTypes.wrapArrayOver`
-/

namespace Lowering

namespace Cache

/- The same types at the same handles. -/
def SameTypes (cache cache' : Cache) : Prop :=
  cache'.types = cache.types

/- One type of both caches, which still hold the same. -/
def OneType
    (ty : TypeId)
    (cache : Cache)
    (ty' : TypeId)
    (cache' : Cache) : Prop :=
  ty = ty' ∧ SameTypes cache cache'

namespace SameTypes

variable {cache cache' : Cache}

------------------------------------------------------------
-- Questions
------------------------------------------------------------

section Questions

variable (hSame : SameTypes cache cache')

include hSame

theorem type? (ty : TypeId) :
    cache.type? ty = cache'.type? ty := by
  unfold Cache.type?
  rw [hSame]

theorem typeData (ty : TypeId) :
    cache.typeData ty = cache'.typeData ty := by
  unfold Cache.typeData
  rw [hSame.type?]

theorem findType? (property : TypeData → Bool) :
    cache.findType? property = cache'.findType? property := by
  unfold Cache.findType?
  rw [hSame]

theorem typeOf? (id : BindingId) :
    cache.typeOf? id = cache'.typeOf? id := by
  rw [typeOf?_eq, typeOf?_eq, hSame.findType?]

theorem shape? (kind : TypeKind) :
    cache.shapes.get? kind = cache'.shapes.get? kind := by
  rw [shape?_eq, shape?_eq, hSame.findType?]

theorem isPrimitive (ty : TypeId) :
    cache.isPrimitive ty = cache'.isPrimitive ty := by
  unfold Cache.isPrimitive
  rw [hSame.typeData]

theorem componentType (ty : TypeId) :
    cache.componentType ty = cache'.componentType ty := by
  unfold Cache.componentType
  rw [hSame.typeData]

theorem primitiveKind (ty : TypeId) :
    cache.primitiveKind ty = cache'.primitiveKind ty := by
  unfold Cache.primitiveKind
  rw [hSame.typeData]

/- The word of a value primitive rests on its type alone. -/
theorem categoryName
    {ty : TypeId}
    (hPrimitive : cache.isPrimitive ty = .ok true) :
    cache.categoryName ty = cache'.categoryName ty := by
  have hKind : ∃ kind,
      cache.primitiveKind ty = .ok (some kind) := by
    unfold Cache.isPrimitive at hPrimitive
    unfold Cache.primitiveKind
    cases hData : cache.typeData ty with
    | error error =>
        rw [hData] at hPrimitive
        cases hPrimitive
    | ok data =>
        rw [hData] at hPrimitive
        have hIs : data.kind.isPrimitive = true :=
          Except.ok.inj hPrimitive
        cases hCase : data.kind with
        | primitive kind =>
            refine ⟨kind, ?_⟩
            show Except.ok data.kind.primitive? = _
            rw [hCase]
            rfl
        | _ => simp [hCase, TypeKind.isPrimitive] at hIs
  rcases hKind with ⟨kind, hKind⟩
  unfold Cache.categoryName
  rw [← hSame.primitiveKind, hKind]
  rfl

end Questions

------------------------------------------------------------
-- Types In Writing
------------------------------------------------------------

/- A known name has its text in every later cache. -/
private theorem nameText_of_known
    {before after : Cache}
    (hGrown : before.names.Grown after.names)
    {name : Name}
    {text : String}
    (hText : before.names.text? name = some text) :
    after.nameText name = .ok text := by
  unfold Cache.nameText Interner.lookup
  rw [hGrown name text hText]
  rfl

private theorem mapM_congr
    {α β ε : Type}
    {first second : α → Except ε β}
    {items : List α}
    (hEach : ∀ item ∈ items, first item = second item) :
    items.mapM first = items.mapM second := by
  induction items with
  | nil => rfl
  | cons item items ih =>
      rw [List.mapM_cons, List.mapM_cons,
        hEach item List.mem_cons_self,
        ih fun other hMem =>
          hEach other (List.mem_cons_of_mem _ hMem)]

/-
  What could be written out before is written the same. The
  induction is on how the type is made, for its names are only
  known of the types that it is made of.
-/
private theorem displayWithin
    {before : Cache}
    (hSame : SameTypes cache cache')
    (hGrown : before.Grown cache)
    (hGrown' : before.Grown cache')
    {ty : TypeId}
    (hWritten : before.Written ty)
    (depth : Nat) :
    cache.displayWithin depth ty =
      cache'.displayWithin depth ty := by
  induction hWritten generalizing depth with
  | @dropped ty hBefore =>
      cases depth with
      | zero => rfl
      | succ depth =>
          have hStored : cache'.types.get? ty.raw = none := by
            unfold Generation.get?
            rw [if_pos (hGrown'.types.base ▸ hBefore)]
          unfold Cache.displayWithin
          rw [hSame.type?]
          unfold Cache.type?
          rw [hStored]
          split_ifs <;> rfl
  | @intro ty data hType hSpelled _ ih =>
      cases depth with
      | zero => rfl
      | succ depth =>
          have hName : ∀ name ∈ data.kind.names,
              cache.nameText name = cache'.nameText name := by
            intro name hMem
            rcases Option.isSome_iff_exists.mp
              (hSpelled name hMem) with ⟨text, hText⟩
            rw [nameText_of_known hGrown.names hText,
              nameText_of_known hGrown'.names hText]
          have hPart : ∀ part ∈ data.kind.parts,
              cache.displayWithin depth part =
                cache'.displayWithin depth part :=
            fun part hMem => ih part hMem depth
          unfold Cache.displayWithin
          simp only [hGrown.type? hType, hGrown'.type? hType]
          cases hKind : data.kind with
          | array component =>
              simp only [hKind, TypeKind.parts] at hPart
              simp only [hPart component (by simp)]
          | declared name =>
              simp only [hKind, TypeKind.names] at hName
              simp only [hName name (by simp)]
          | primitive kind => rfl
          | typeVariable name =>
              simp only [hKind, TypeKind.names] at hName
              simp only [hName name (by simp)]
          | wildcard bound =>
              cases bound with
              | none => rfl
              | some bound =>
                  simp only [hKind, TypeKind.parts] at hPart
                  simp only [hPart bound (by simp)]
          | intersection bounds =>
              simp only [hKind, TypeKind.parts] at hPart
              simp only [mapM_congr hPart]
          | executable params returnType =>
              simp only [hKind, TypeKind.parts] at hPart
              have hParams := mapM_congr fun part hMem =>
                hPart part (List.mem_append_left _ hMem)
              simp only [hParams, hPart returnType (by simp)]
          | native name =>
              simp only [hKind, TypeKind.names] at hName
              simp only [hName name (by simp)]
          | pointer pointee =>
              simp only [hKind, TypeKind.parts] at hPart
              simp only [hPart pointee (by simp)]
          | noType => rfl
          | nullType => rfl

theorem display
    {before : Cache}
    (hSame : SameTypes cache cache')
    (hGrown : before.Grown cache)
    (hGrown' : before.Grown cache')
    {ty : TypeId}
    (hWritten : before.Written ty) :
    cache.display ty = cache'.display ty := by
  unfold Cache.display
  rw [hSame]
  exact displayWithin hSame hGrown hGrown' hWritten _

------------------------------------------------------------
-- Making Types
------------------------------------------------------------

theorem addType
    (hSame : SameTypes cache cache')
    (kind : TypeKind)
    (origin : TypeOrigin) :
    Coupled OneType (Cache.addType kind origin cache)
      (Cache.addType kind origin cache') := by
  refine .ok ⟨?_, ?_⟩
  · show TypeId.mk _ = TypeId.mk _
    rw [hSame]
  · show Generation.push _ _ = Generation.push _ _
    rw [hSame]

/- What is found, or else made, is one type of both. -/
private theorem findOrMake
    (hSame : SameTypes cache cache')
    {find : Cache → Option TypeId}
    (hFind : find cache = find cache')
    {make : CacheM TypeId}
    (hMake : Coupled OneType (make cache) (make cache')) :
    Coupled OneType
      ((do
        match find (← get) with
        | some ty => return ty
        | none => make : CacheM TypeId) cache)
      ((do
        match find (← get) with
        | some ty => return ty
        | none => make : CacheM TypeId) cache') := by
  rw [run_bind_ok (run_get cache), run_bind_ok (run_get cache'),
    ← hFind]
  cases find cache with
  | some ty => exact .ok ⟨rfl, hSame⟩
  | none => exact hMake

private theorem synthesize
    (hSame : SameTypes cache cache')
    (kind : TypeKind) :
    Coupled OneType (Cache.synthesize kind cache)
      (Cache.synthesize kind cache') :=
  findOrMake hSame (hSame.shape? kind)
    (hSame.addType kind .synthetic)

theorem pointerType
    (hSame : SameTypes cache cache')
    (pointee : TypeId) :
    Coupled OneType (Cache.pointerType pointee cache)
      (Cache.pointerType pointee cache') :=
  hSame.synthesize _

theorem syntheticArrayType
    (hSame : SameTypes cache cache')
    (component : TypeId) :
    Coupled OneType (Cache.syntheticArrayType component cache)
      (Cache.syntheticArrayType component cache') :=
  hSame.synthesize _

section Wrapping

variable {table : BindingTable}

/- A binding is one type of both if its kind is one. -/
private theorem wrapHostTypeWithin
    (hSame : SameTypes cache cache')
    {depth : Nat}
    {id : BindingId}
    {binding : TypeBinding}
    (hBinding : table.get? id = some (.type binding))
    (hKind : Coupled
      (fun kind after kind' after' =>
        kind = kind' ∧ SameTypes after after')
      (kindOfType table (Cache.wrapHostTypeWithin table depth)
        id binding cache)
      (kindOfType table (Cache.wrapHostTypeWithin table depth)
        id binding cache')) :
    Coupled OneType
      (Cache.wrapHostTypeWithin table (depth + 1) id cache)
      (Cache.wrapHostTypeWithin table (depth + 1) id
        cache') := by
  have hRead : ∀ state : Cache,
      consult (table.typeBinding id) state =
        .ok binding state := by
    intro state
    unfold BindingTable.typeBinding
    rw [hBinding]
    rfl
  apply findOrMake hSame (hSame.typeOf? id)
  rw [run_bind_ok (hRead cache), run_bind_ok (hRead cache')]
  apply hKind.bind
  rintro kind after _ after' ⟨rfl, hAfter⟩
  exact addType hAfter kind (.host id)

private theorem wrapPrimitive
    (hSame : SameTypes cache cache')
    (depth : Nat)
    (kind : PrimitiveKind) :
    Coupled OneType
      (Cache.wrapHostTypeWithin table (depth + 1)
        (BindingTable.primitive kind) cache)
      (Cache.wrapHostTypeWithin table (depth + 1)
        (BindingTable.primitive kind) cache') := by
  apply hSame.wrapHostTypeWithin (table.get?_primitive kind)
  exact .of_ok (run_kindOfType_primitive _ _ _ _ _)
    (run_kindOfType_primitive _ _ _ _ _) ⟨rfl, hSame⟩

/- The type of a value primitive. -/
theorem primitiveType
    (hSame : SameTypes cache cache')
    (kind : PrimitiveKind) :
    Coupled OneType (Cache.primitiveType table kind cache)
      (Cache.primitiveType table kind cache') :=
  (hSame.wrapPrimitive table.size kind).fatal

/- The array over a value primitive that the host reported. -/
theorem wrapArrayOver
    (hSame : SameTypes cache cache')
    {kind : PrimitiveKind}
    {id : BindingId}
    {binding : TypeBinding}
    (hBinding : table.get? id = some (.type binding))
    (hArray : binding.flags.isArray = true)
    (hOver :
      binding.component = some (BindingTable.primitive kind)) :
    Coupled OneType (Cache.wrapHostType table id cache)
      (Cache.wrapHostType table id cache') := by
  have hSize : table.size = (table.size - 1) + 1 := by
    unfold BindingTable.size
    have hFixed : BindingTable.fixed.length = 9 := rfl
    omega
  apply hSame.wrapHostTypeWithin hBinding
  unfold kindOfType
  rw [if_pos hArray]
  simp only [hOver]
  rw [map_eq_pure_bind, hSize]
  apply (hSame.wrapPrimitive _ kind).bind
  rintro component after _ after' ⟨rfl, hAfter⟩
  exact .ok ⟨rfl, hAfter⟩

end Wrapping

end SameTypes

end Cache

end Lowering
