import Mathlib.Data.List.Basic
import Lowering.Cache.Display
import Lowering.Proofs.Cache.Change

/-
  This file defines when a type is live, down to the innermost
  component of an array, and when it can be written out, and
  proves that writing it out then comes to an end.

  A type that can be written out does not contain itself, so
  there are no more types within each other than there are
  live handles, and the depth to which types are written out
  suffices.

  Key definitions include:
    * `TypeKind.names`
    * `TypeKind.parts`
    * `Cache.MadeOf`
    * `Cache.Written`
    * `Cache.Live`

  Main results:
    * `Cache.Live.mono`
    * `Cache.displayWithin_eq_error`
    * `Cache.Live.display`
    * `Cache.Live.display_mono`
-/

namespace Lowering

namespace TypeKind

/- The names by which a type is spelled. -/
def names : TypeKind → List Name
  | declared name => [name]
  | typeVariable name => [name]
  | native name => [name]
  | _ => []

/- The types that a type is made of. -/
def parts : TypeKind → List TypeId
  | array component => [component]
  | wildcard bound => bound.toList
  | intersection bounds => bounds
  | executable params returnType => params ++ [returnType]
  | pointer pointee => [pointee]
  | _ => []

end TypeKind

namespace Cache

/-
  A type can be written out if its names are those of the
  cache and what it is made of can be. A handle that was given
  out before the last reset is written as such.
-/
inductive Written (cache : Cache) : TypeId → Prop
  | dropped
      {ty : TypeId}
      (before : ty.raw < cache.types.base) :
      Written cache ty
  | intro
      {ty : TypeId}
      {data : TypeData}
      (typed : cache.type? ty = some data)
      (spelled : ∀ name ∈ data.kind.names,
        (cache.names.text? name).isSome)
      (parts : ∀ part ∈ data.kind.parts, Written cache part) :
      Written cache ty

/-
  A type is live if its handle is, and if it is an array, its
  component is live too.
-/
inductive Live (cache : Cache) : TypeId → Prop
  | intro
      {ty : TypeId}
      {data : TypeData}
      (typed : cache.type? ty = some data)
      (written : cache.Written ty)
      (component : ∀ component,
        data.kind.component? = some component →
          Live cache component) :
      Live cache ty

variable {cache : Cache}

theorem Live.typed
    {ty : TypeId}
    (hLive : cache.Live ty) :
    ∃ data, cache.type? ty = some data := by
  cases hLive with
  | intro hType _ _ => exact ⟨_, hType⟩

theorem Live.written
    {ty : TypeId}
    (hLive : cache.Live ty) :
    cache.Written ty := by
  cases hLive with
  | intro _ hWritten _ => exact hWritten

/- The component of a live array is live. -/
theorem Live.component
    {ty component : TypeId}
    {data : TypeData}
    (hLive : cache.Live ty)
    (hType : cache.type? ty = some data)
    (hComponent : data.kind.component? = some component) :
    cache.Live component := by
  cases hLive with
  | intro hType' _ hLive =>
      rw [hType] at hType'
      cases hType'
      exact hLive component hComponent

/- A live type that is made of nothing. -/
theorem Live.of_atom
    {ty : TypeId}
    {data : TypeData}
    (hType : cache.type? ty = some data)
    (hNames : data.kind.names = [])
    (hParts : data.kind.parts = [])
    (hComponent : data.kind.component? = none) :
    cache.Live ty := by
  refine .intro hType (.intro hType ?_ ?_) ?_
  · simp [hNames]
  · simp [hParts]
  · simp [hComponent]

/- What can be written out can be until the cache is reset. -/
theorem Written.mono
    {after : Cache}
    {ty : TypeId}
    (hGrown : Grown cache after)
    (hWritten : cache.Written ty) :
    after.Written ty := by
  induction hWritten with
  | dropped hBefore =>
      refine .dropped ?_
      rw [hGrown.types.base]
      exact hBefore
  | intro hType hSpelled _ ih =>
      refine .intro (hGrown.type? hType) ?_ ih
      intro name hName
      rcases Option.isSome_iff_exists.mp (hSpelled name hName)
        with ⟨text, hText⟩
      rw [hGrown.names name text hText]
      rfl

/- A live type stays live until the cache is reset. -/
theorem Live.mono
    {after : Cache}
    {ty : TypeId}
    (hGrown : Grown cache after)
    (hLive : cache.Live ty) :
    after.Live ty := by
  induction hLive with
  | intro hType hWritten _ ih =>
      exact .intro (hGrown.type? hType) (hWritten.mono hGrown)
        ih

------------------------------------------------------------
-- Types Within Types
------------------------------------------------------------

/- A type is made of another. -/
def MadeOf (cache : Cache) (whole part : TypeId) : Prop :=
  ∃ data, cache.type? whole = some data ∧
    part ∈ data.kind.parts

/- A type that is made of others was made since the reset. -/
theorem get?_of_part
    {ty part : TypeId}
    {data : TypeData}
    (hType : cache.type? ty = some data)
    (hPart : part ∈ data.kind.parts) :
    cache.types.get? ty.raw = some data := by
  unfold Cache.type? at hType
  split at hType
  · rw [← Option.some.inj hType] at hPart
    simp [TypeKind.parts] at hPart
  · split at hType
    · rw [← Option.some.inj hType] at hPart
      simp [TypeKind.parts] at hPart
    · exact hType

/- A type that can be written out is not made of itself. -/
private theorem Written.not_madeOf_itself
    {ty : TypeId}
    (hWritten : cache.Written ty) :
    ¬ Relation.TransGen (MadeOf cache) ty ty := by
  induction hWritten with
  | dropped hBefore =>
      intro hCycle
      rcases Relation.TransGen.head'_iff.mp hCycle with
        ⟨part, ⟨data, hType, hPart⟩, _⟩
      have hBounds := Generation.bounds_of_get?
        (get?_of_part hType hPart)
      omega
  | @intro ty data hType _ _ ih =>
      intro hCycle
      rcases Relation.TransGen.head'_iff.mp hCycle with
        ⟨part, ⟨data', hType', hPart⟩, hRest⟩
      rw [hType] at hType'
      cases hType'
      apply ih part hPart
      exact Relation.TransGen.tail' hRest ⟨data, hType, hPart⟩

theorem nameText_ok
    {name : Name}
    (hKnown : (cache.names.text? name).isSome) :
    ∃ text, cache.nameText name = .ok text := by
  rcases Option.isSome_iff_exists.mp hKnown with ⟨text, hText⟩
  refine ⟨text, ?_⟩
  unfold nameText Interner.lookup
  rw [hText]
  rfl

/- A text is wanting only if the name is not known. -/
theorem nameText_eq_error
    {name : Name}
    {error : CacheError}
    (hError : cache.nameText name = .error error) :
    cache.names.text? name = none ∧
      error = .fault (.foreignName ⟨name⟩) := by
  unfold nameText Interner.lookup at hError
  cases hText : cache.names.text? name with
  | some text =>
      rw [hText] at hError
      cases hError
  | none =>
      rw [hText] at hError
      cases hError
      exact ⟨rfl, rfl⟩

/-
  A type that cannot be written out has a name that cannot, or
  is made of a type that cannot, one level less deep. What is
  not live is written as such.
-/
theorem displayWithin_eq_error
    {depth : Nat}
    {ty : TypeId}
    {error : CacheError}
    (hError : cache.displayWithin (depth + 1) ty =
      .error error) :
    ∃ data, cache.type? ty = some data ∧
      ((∃ name ∈ data.kind.names,
        cache.nameText name = .error error) ∨
      ∃ part ∈ data.kind.parts,
        cache.displayWithin depth part = .error error) := by
  unfold displayWithin at hError
  cases hType : cache.type? ty with
  | none =>
      rw [hType] at hError
      cases hError
  | some data =>
      rw [hType] at hError
      refine ⟨data, rfl, ?_⟩
      simp only [] at hError
      cases hKind : data.kind with
      | array component =>
          simp only [hKind] at hError
          refine Or.inr ⟨component, List.mem_cons_self, ?_⟩
          exact eq_error_of_bind (fun _ => ⟨_, rfl⟩) hError
      | declared name =>
          simp only [hKind] at hError
          exact Or.inl ⟨name, List.mem_cons_self, hError⟩
      | primitive kind =>
          simp only [hKind] at hError
          cases hError
      | typeVariable name =>
          simp only [hKind] at hError
          exact Or.inl ⟨name, List.mem_cons_self, hError⟩
      | wildcard bound =>
          cases bound with
          | none =>
              simp only [hKind] at hError
              cases hError
          | some bound =>
              simp only [hKind] at hError
              refine Or.inr ⟨bound, List.mem_cons_self, ?_⟩
              exact eq_error_of_bind (fun _ => ⟨_, rfl⟩) hError
      | intersection bounds =>
          simp only [hKind] at hError
          exact Or.inr (exists_of_mapM_error
            (eq_error_of_bind (fun _ => ⟨_, rfl⟩) hError))
      | executable params returnType =>
          simp only [hKind] at hError
          right
          rcases bind_eq_error hError with
            hParams | ⟨texts, _, hRest⟩
          · rcases exists_of_mapM_error hParams with
              ⟨param, hMem, hParam⟩
            exact ⟨param, List.mem_append_left _ hMem, hParam⟩
          · refine ⟨returnType, by simp [TypeKind.parts], ?_⟩
            exact eq_error_of_bind (fun _ => ⟨_, rfl⟩) hRest
      | native name =>
          simp only [hKind] at hError
          exact Or.inl ⟨name, List.mem_cons_self, hError⟩
      | pointer pointee =>
          simp only [hKind] at hError
          refine Or.inr ⟨pointee, List.mem_cons_self, ?_⟩
          exact eq_error_of_bind (fun _ => ⟨_, rfl⟩) hError
      | noType =>
          simp only [hKind] at hError
          cases hError
      | nullType =>
          simp only [hKind] at hError
          cases hError

/-
  A type can be written out one level deeper than all that it
  is made of.
-/
private theorem displayWithin_step
    {depth : Nat}
    {ty : TypeId}
    (hSpelled : ∀ data, cache.type? ty = some data →
      ∀ name ∈ data.kind.names,
        (cache.names.text? name).isSome)
    (hParts : ∀ part, cache.MadeOf ty part →
      ∃ text, cache.displayWithin depth part = .ok text) :
    ∃ text, cache.displayWithin (depth + 1) ty = .ok text := by
  cases hRun : cache.displayWithin (depth + 1) ty with
  | ok text => exact ⟨text, rfl⟩
  | error error =>
      rcases displayWithin_eq_error hRun with
        ⟨data, hType, ⟨name, hMem, hName⟩ | ⟨part, hMem, hFail⟩⟩
      · rcases nameText_ok (hSpelled data hType name hMem) with
          ⟨text, hText⟩
        cases hText.symm.trans hName
      · rcases hParts part ⟨data, hType, hMem⟩ with
          ⟨text, hText⟩
        cases hText.symm.trans hFail

/-
  A type can be written out to a depth of one more than there
  are handles among which all types within it are.
-/
private theorem displayWithin_ok
    {ty : TypeId}
    (hWritten : cache.Written ty)
    (handles : List Nat)
    (hWithin : ∀ other data,
      Relation.ReflTransGen (MadeOf cache) ty other →
        cache.types.get? other.raw = some data →
          other.raw ∈ handles)
    {depth : Nat}
    (hDepth : handles.length < depth) :
    ∃ text, cache.displayWithin depth ty = .ok text := by
  induction hWritten generalizing handles depth with
  | @dropped ty hBefore =>
      rcases depth with _ | depth
      · exact absurd hDepth (Nat.not_lt_zero _)
      have hStored : cache.types.get? ty.raw = none := by
        cases hGet : cache.types.get? ty.raw with
        | none => rfl
        | some data =>
            have hBounds := Generation.bounds_of_get? hGet
            omega
      unfold displayWithin Cache.type?
      rw [hStored]
      split_ifs <;> exact ⟨_, rfl⟩
  | @intro ty data hType hSpelled hParts ih =>
      have hWritten : cache.Written ty :=
        .intro hType hSpelled hParts
      rcases depth with _ | depth
      · exact absurd hDepth (Nat.not_lt_zero _)
      apply displayWithin_step
      · intro data' hType'
        rw [hType] at hType'
        cases hType'
        exact hSpelled
      rintro part ⟨data', hType', hMem⟩
      rw [hType] at hType'
      cases hType'
      have hIn : ty.raw ∈ handles :=
        hWithin ty data Relation.ReflTransGen.refl
          (get?_of_part hType hMem)
      apply ih part hMem (handles.erase ty.raw)
      · intro other found hReach hFound
        have hNe : other.raw ≠ ty.raw := by
          intro hEq
          have hSame : other = ty := by
            cases other
            cases ty
            exact congrArg TypeId.mk hEq
          rw [hSame] at hReach
          exact hWritten.not_madeOf_itself
            (Relation.TransGen.head' ⟨data, hType, hMem⟩ hReach)
        apply (List.mem_erase_of_ne hNe).mpr
        exact hWithin other found
          (Relation.ReflTransGen.head ⟨data, hType, hMem⟩
            hReach) hFound
      · have hLess := List.length_erase_of_mem hIn
        have hSome := List.length_pos_of_mem hIn
        omega

/- A live type can be written out. -/
theorem Live.display
    {ty : TypeId}
    (hLive : cache.Live ty) :
    ∃ text, cache.display ty = .ok text := by
  unfold Cache.display
  apply displayWithin_ok hLive.written
    (List.range' cache.types.base cache.types.size)
  · intro other data _ hData
    have hBounds := Generation.bounds_of_get? hData
    unfold Generation.next at hBounds
    rw [List.mem_range'_1]
    exact hBounds
  · rw [List.length_range']
    exact Nat.lt_succ_self _

------------------------------------------------------------
-- Texts That Last
------------------------------------------------------------

section Texts

variable {after : Cache}

/- What a type is made of can be written out if the type can. -/
theorem Written.part
    {ty part : TypeId}
    {data : TypeData}
    (hWritten : cache.Written ty)
    (hType : cache.type? ty = some data)
    (hPart : part ∈ data.kind.parts) :
    cache.Written part := by
  cases hWritten with
  | dropped hBefore =>
      have hBounds := Generation.bounds_of_get?
        (get?_of_part hType hPart)
      omega
  | intro hType' _ hParts =>
      rw [hType] at hType'
      cases hType'
      exact hParts part hPart

private theorem nameText_mono
    (hGrown : Grown cache after)
    {name : Name}
    {text : String}
    (hText : cache.nameText name = .ok text) :
    after.nameText name = .ok text := by
  unfold nameText Interner.lookup at hText ⊢
  cases hName : cache.names.text? name with
  | none =>
      rw [hName] at hText
      cases hText
  | some found =>
      rw [hName] at hText
      rw [hGrown.names name found hName]
      exact hText

/- What is not live of what can be written out never is. -/
private theorem type?_eq_none_mono
    (hGrown : Grown cache after)
    {ty : TypeId}
    (hWritten : cache.Written ty)
    (hNone : cache.type? ty = none) :
    after.type? ty = none := by
  cases hWritten with
  | intro hType _ _ =>
      rw [hNone] at hType
      cases hType
  | dropped hBefore =>
      unfold Cache.type? at hNone ⊢
      split at hNone
      · cases hNone
      · next hNoType =>
        split at hNone
        · cases hNone
        · next hNullType =>
          rw [if_neg hNoType, if_neg hNullType]
          cases hGet : after.types.get? ty.raw with
          | none => rfl
          | some data =>
              have hBounds := Generation.bounds_of_get? hGet
              have hBase := hGrown.types.base
              omega

/-
  The text of a type stays the same until the cache is reset,
  however much deeper it may be written out.
-/
private theorem displayWithin_mono
    (hGrown : Grown cache after)
    {depth depth' : Nat}
    {ty : TypeId}
    {text : String}
    (hWritten : cache.Written ty)
    (hDepth : depth ≤ depth')
    (hText : cache.displayWithin depth ty = .ok text) :
    after.displayWithin depth' ty = .ok text := by
  induction depth generalizing depth' ty text with
  | zero => cases hText
  | succ depth ih =>
      rcases depth' with _ | depth'
      · exact absurd hDepth (Nat.not_succ_le_zero _)
      have hLess := Nat.le_of_succ_le_succ hDepth
      cases hType : cache.type? ty with
      | none =>
          have hType' := type?_eq_none_mono hGrown hWritten hType
          unfold displayWithin at hText ⊢
          rw [hType] at hText
          rw [hType']
          exact hText
      | some data =>
          have hPart {part : TypeId} {text : String}
              (hMem : part ∈ data.kind.parts)
              (hIs : cache.displayWithin depth part =
                .ok text) :
              after.displayWithin depth' part = .ok text :=
            ih (hWritten.part hType hMem) hLess hIs
          unfold displayWithin at hText ⊢
          rw [hType] at hText
          rw [hGrown.type? hType]
          simp only [] at hText ⊢
          cases hKind : data.kind <;>
            simp only [hKind] at hText ⊢
          case array component =>
              rcases bind_eq_ok hText with ⟨inner, hInner, hLast⟩
              rw [bind_ok (hPart (by simp [hKind, TypeKind.parts])
                hInner)]
              exact hLast
          case declared name => exact nameText_mono hGrown hText
          case typeVariable name => exact nameText_mono hGrown hText
          case native name => exact nameText_mono hGrown hText
          case wildcard bound =>
              cases bound with
              | none => exact hText
              | some bound =>
                  rcases bind_eq_ok hText with
                    ⟨inner, hInner, hLast⟩
                  simp only []
                  rw [bind_ok (hPart
                    (by simp [hKind, TypeKind.parts]) hInner)]
                  exact hLast
          case intersection bounds =>
              rcases bind_eq_ok hText with
                ⟨inner, hInner, hLast⟩
              rw [bind_ok (mapM_eq_ok (fun bound hMem _ =>
                hPart (by simpa [hKind, TypeKind.parts] using hMem))
                hInner)]
              exact hLast
          case executable params returnType =>
              rcases bind_eq_ok hText with
                ⟨inner, hInner, hRest⟩
              rcases bind_eq_ok hRest with
                ⟨result, hResult, hLast⟩
              rw [bind_ok (mapM_eq_ok (fun bound hMem _ =>
                hPart (by simp [hKind, TypeKind.parts, hMem]))
                hInner), bind_ok (hPart
                  (by simp [hKind, TypeKind.parts]) hResult)]
              exact hLast
          case pointer pointee =>
              rcases bind_eq_ok hText with ⟨inner, hInner, hLast⟩
              rw [bind_ok (hPart (by simp [hKind, TypeKind.parts])
                hInner)]
              exact hLast
          all_goals exact hText

/- A live type is written out the same until a reset. -/
theorem Live.display_mono
    (hGrown : Grown cache after)
    {ty : TypeId}
    (hLive : cache.Live ty) :
    after.display ty = cache.display ty := by
  rcases hLive.display with ⟨text, hText⟩
  rw [hText]
  unfold Cache.display at hText ⊢
  apply displayWithin_mono hGrown hLive.written _ hText
  have hBase := hGrown.types.base
  have hSize := hGrown.types.next_le
  unfold Generation.next Generation.size at *
  omega

end Texts

end Cache

end Lowering
