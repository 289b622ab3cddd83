import Lowering.Proofs.Symbols.Session
import Lowering.Proofs.Arrays.Lookup

/-
  This file describes what lowering asks the runtime for: a
  method of a class, by its selector, with parameters of some
  types. What is wanted determines all three.

  Symbols evolve when wanted methods are recorded, and nothing
  else happens to those that were recorded before. Since a
  method is looked up by its class and its selector only, it
  answers all that wants the two, with the parameters that were
  first asked for.

  Key definitions include:
    * `Arrays.Wanted`
    * `Arrays.Request`
    * `Arrays.Wanted.request?`
    * `Arrays.Answers`
    * `Arrays.Evolved`

  Main results:
    * `Arrays.Wanted.stable_request?`
    * `Arrays.Evolved.isHistory`
-/

namespace Lowering

namespace Arrays

open Symbols

------------------------------------------------------------
-- Requests
------------------------------------------------------------

/- What a construct on arrays wants of the runtime. -/
inductive Wanted
  /- An array of given elements. -/
  | elements (array : TypeId) (retained : Bool)
  /- An array of one length. -/
  | length (array : TypeId) (retained : Bool)
  /- Nested arrays of several lengths. -/
  | lengths
      (array : TypeId)
      (dimensions : Nat)
      (retained : Bool)
  /- A type test. -/
  | test
  deriving DecidableEq, Inhabited, Repr

/- A method that is asked for. -/
structure Request where
  cls : ElementId
  selector : String
  /- The types of the parameters. -/
  types : List TypeId
  deriving DecidableEq, Inhabited, Repr

section Lookups

variable (symbols : Symbols)

/- The type of the last parameter of a factory, if any. -/
def objectTypes? (primitive : Bool) : Option (List TypeId) :=
  if primitive then
    some []
  else
    (iosClassType? symbols).map ([·])

/- The request for a factory of arrays over a component. -/
def factoryRequest?
    (component : TypeId)
    (form : CreationForm)
    (retained primitive : Bool)
    (types : List TypeId) : Option Request := do
  let cls ← symbols.arrayClass? component
  let object ← objectTypes? symbols primitive
  return {
    cls
    selector := form.selector retained primitive
    types := types ++ object }

/- The method that is asked for. -/
def Wanted.request? : Wanted → Option Request
  | elements array retained => do
    let component ← component? symbols array
    let primitive ← isPrimitive? symbols component
    let category ← category? symbols component primitive
    let values ← symbols.synthetic? (.pointer component)
    let int ← symbols.primitiveType? .int
    factoryRequest? symbols component (.elements category)
      retained primitive [values, int]
  | length array retained => do
    let component ← component? symbols array
    let primitive ← isPrimitive? symbols component
    let int ← symbols.primitiveType? .int
    factoryRequest? symbols component .length
      retained primitive [int]
  | lengths array dimensions retained => do
    let component ← innermost? symbols array dimensions
    let primitive ← isPrimitive? symbols component
    let int ← symbols.primitiveType? .int
    let lengths ← symbols.synthetic? (.pointer int)
    factoryRequest? symbols component .lengths
      retained primitive [int, lengths]
  | test =>
    some {
      cls := symbols.env.iosClass
      selector := "isInstance"
      types := [symbols.env.idType] }

end Lookups

theorem stable_objectTypes? (primitive : Bool) :
    Stable (objectTypes? · primitive) := by
  unfold objectTypes?
  cases primitive with
  | true => exact stable_pure _
  | false => exact stable_iosClassType?.map _

theorem stable_factoryRequest?
    (component : TypeId)
    (form : CreationForm)
    (retained primitive : Bool)
    (types : List TypeId) :
    Stable (factoryRequest? · component form retained primitive
      types) :=
  (stable_arrayClass? component).bind fun _ =>
    (stable_objectTypes? primitive).bind fun _ => stable_pure _

/- What is wanted stays the same request. -/
theorem Wanted.stable_request? (wanted : Wanted) :
    Stable wanted.request? := by
  cases wanted with
  | elements array retained =>
      exact (stable_component? array).bind fun component =>
        (stable_isPrimitive? component).bind fun primitive =>
        (stable_category? component primitive).bind fun _ =>
        (stable_synthetic? _).bind fun _ =>
        (stable_primitiveType? .int).bind fun _ =>
        stable_factoryRequest? component _ retained primitive _
  | length array retained =>
      exact (stable_component? array).bind fun component =>
        (stable_isPrimitive? component).bind fun primitive =>
        (stable_primitiveType? .int).bind fun _ =>
        stable_factoryRequest? component _ retained primitive _
  | lengths array dimensions retained =>
      exact (stable_innermost? array dimensions).bind
        fun component =>
        (stable_isPrimitive? component).bind fun primitive =>
        (stable_primitiveType? .int).bind fun _ =>
        (stable_synthetic? _).bind fun _ =>
        stable_factoryRequest? component _ retained primitive _
  | test =>
      intro before after request hGrown hFound
      simp only [request?, hGrown.iosClass, hGrown.idType]
        at hFound ⊢
      exact hFound

section Equations

variable {symbols : Symbols}
variable {array component values int lengths : TypeId}
variable {retained primitive : Bool}

theorem request?_elements
    {category : String}
    (hComponent : component? symbols array = some component)
    (hPrimitive : isPrimitive? symbols component =
      some primitive)
    (hCategory : category? symbols component primitive =
      some category)
    (hValues : symbols.synthetic? (.pointer component) =
      some values)
    (hInt : symbols.primitiveType? .int = some int) :
    (Wanted.elements array retained).request? symbols =
      factoryRequest? symbols component (.elements category)
        retained primitive [values, int] := by
  simp only [Wanted.request?, hComponent, hPrimitive,
    hCategory, hValues, hInt, Option.bind_eq_bind,
    Option.bind_some]

theorem request?_length
    (hComponent : component? symbols array = some component)
    (hPrimitive : isPrimitive? symbols component =
      some primitive)
    (hInt : symbols.primitiveType? .int = some int) :
    (Wanted.length array retained).request? symbols =
      factoryRequest? symbols component .length
        retained primitive [int] := by
  simp only [Wanted.request?, hComponent, hPrimitive, hInt,
    Option.bind_eq_bind, Option.bind_some]

theorem request?_lengths
    {dimensions : Nat}
    (hComponent : innermost? symbols array dimensions =
      some component)
    (hPrimitive : isPrimitive? symbols component =
      some primitive)
    (hInt : symbols.primitiveType? .int = some int)
    (hLengths : symbols.synthetic? (.pointer int) =
      some lengths) :
    (Wanted.lengths array dimensions retained).request?
        symbols =
      factoryRequest? symbols component .lengths
        retained primitive [int, lengths] := by
  simp only [Wanted.request?, hComponent, hPrimitive, hInt,
    hLengths, Option.bind_eq_bind, Option.bind_some]

end Equations

------------------------------------------------------------
-- Evolution
------------------------------------------------------------

/-
  A method answers something that was wanted: it belongs to the
  class, has the selector, and has the parameters that were
  asked for.
-/
def Answers
    (want : Wanted → Prop)
    (symbols : Symbols)
    (cls : ElementId)
    (name : Name)
    (method : ElementId) : Prop :=
  ∃ wanted request,
    want wanted ∧
      wanted.request? symbols = some request ∧
      request.cls = cls ∧
      symbols.text? name = some request.selector ∧
      symbols.cache.IsMethodOf method cls request.selector ∧
      symbols.cache.parameterTypes? method =
        some request.types

/-
  Later symbols of a session: elements were only added, and
  each method that is recorded since answers something that was
  wanted.
-/
structure Evolved
    (table : BindingTable)
    (want : Wanted → Prop)
    (before after : Symbols) : Prop where
  session : Session table before → Session table after
  grown : before.Grown after
  adds : before.cache.Adds after.cache
  ready : before.Ready → after.Ready
  methods : ∀ cls name method,
    after.env.members.methods.lookup (cls, name) =
        some method →
      before.env.members.methods.lookup (cls, name) =
          some method ∨
        Answers want after cls name method

section Evolution

variable {table : BindingTable}
variable {want want' : Wanted → Prop}
variable {before after symbols : Symbols}

/- Answers stay so where their parameters stay. -/
theorem Answers.mono
    {cls method : ElementId}
    {name : Name}
    (hGrown : before.Grown after)
    (hKept : ∀ types,
      before.cache.parameterTypes? method = some types →
        after.cache.parameterTypes? method = some types)
    (hWant : ∀ wanted, want wanted → want' wanted)
    (hAnswers : Answers want before cls name method) :
    Answers want' after cls name method := by
  rcases hAnswers with
    ⟨wanted, request, hWanted, hRequest, hClass, hText, hIs,
      hTypes⟩
  exact ⟨wanted, request, hWant wanted hWanted,
    wanted.stable_request? _ _ _ hGrown hRequest, hClass,
    stable_text? name _ _ _ hGrown hText,
    hIs.mono hGrown.cache, hKept _ hTypes⟩

theorem Evolved.isHistory
    (table : BindingTable)
    (want : Wanted → Prop) :
    IsHistory (Evolved table want) where
  refl := fun _ => {
    session := fun hSession => hSession
    grown := Grown.refl _
    adds := Cache.Adds.isHistory.refl _
    ready := fun hReady => hReady
    methods := fun _ _ _ hFound => Or.inl hFound }
  trans := by
    intro first second third hFirst hSecond
    refine ⟨fun hSession =>
        hSecond.session (hFirst.session hSession),
      hFirst.grown.trans hSecond.grown,
      Cache.Adds.isHistory.trans hFirst.adds hSecond.adds,
      fun hReady => hSecond.ready (hFirst.ready hReady), ?_⟩
    intro cls name method hFound
    rcases hSecond.methods cls name method hFound with
      hMiddle | hNew
    · rcases hFirst.methods cls name method hMiddle with
        hOld | hNew
      · exact Or.inl hOld
      · exact Or.inr (hNew.mono hSecond.grown
          (fun _ => hSecond.adds.parameterTypes?)
          fun _ hWanted => hWanted)
    · exact Or.inr hNew

/- What is wanted may be more. -/
theorem Evolved.mono
    (hEvolved : Evolved table want before after)
    (hWant : ∀ wanted, want wanted → want' wanted) :
    Evolved table want' before after := by
  refine ⟨hEvolved.session, hEvolved.grown, hEvolved.adds,
    hEvolved.ready, ?_⟩
  intro cls name method hFound
  rcases hEvolved.methods cls name method hFound with
    hOld | hNew
  · exact Or.inl hOld
  · exact Or.inr (hNew.mono (Grown.refl _)
      (fun _ hTypes => hTypes) hWant)

/- Where only the cache was worked on, no method is new. -/
theorem Evolved.ofCache
    {cache : Cache}
    (hWorks : Cache.Works table symbols.cache cache) :
    Evolved table want symbols ⟨cache, symbols.env⟩ where
  session := fun hSession => hSession.later hWorks.later
  grown := Grown.ofCache hWorks.adds.changes.grown
  adds := hWorks.adds
  ready := fun hReady => hReady.ofCache
    (hWorks.adds.changes.sound hReady.sound)
    hWorks.adds.changes.grown
  methods := fun _ _ _ hFound => Or.inl hFound

end Evolution

end Arrays

end Lowering
