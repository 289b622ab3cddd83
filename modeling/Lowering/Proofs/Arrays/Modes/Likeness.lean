import Lowering.Workspace
import Lowering.Proofs.Symbols.Abreast
import Lowering.Proofs.Tree.Alike

/-
  This file states which names and elements stand for which in
  two runs from one workspace that differ in how they manage
  memory.

  Names stand for each other if they have the same text. An
  element that was there at the start stands for itself, and a
  member that was made since stands for the member that the
  other run made for the same class. Only a call of a factory
  has another method: where the first run has a selector that
  begins with `array`, the second has one that begins with
  `newArray` and goes on the same.

  Key definitions include:
    * `Title.IsCreation`
    * `Arrays.SameElement`
    * `Arrays.NodeElement`
    * `Arrays.likeness`

  Main results:
    * `Arrays.SameElement.unique`
    * `Arrays.SameElement.title`
    * `Arrays.likeness_allows`
-/

namespace Lowering

------------------------------------------------------------
-- What Is Known At The Start
------------------------------------------------------------

/- The title of a factory whose result is not retained. -/
def Title.IsCreation (title : Title) : Prop :=
  ∃ rest, title.selector = some ("array" ++ rest)

/-
  An element that a cache has given out: one with a title, or
  one from before the last reset.
-/
def Cache.Told (cache : Cache) (id : ElementId) : Prop :=
  id.raw < cache.elements.base ∨
    ∃ title, cache.title? id = some title

/- An element stands in some node of a tree. -/
def Tree.Mentions (tree : Tree) (id : ElementId) : Prop :=
  ∃ n node, tree.get? n = some node ∧ id ∈ node.elements

namespace Cache.Told

variable {cache : Cache} {id : ElementId}

/- It was given out before any that is made later. -/
theorem lt_next
    (hTold : cache.Told id) :
    id.raw < cache.elements.next := by
  rcases hTold with hDropped | ⟨title, hTitle⟩
  · unfold Generation.next
    omega
  · exact lt_next_of_title? hTitle

/- Its title never changes, not even from none to some. -/
theorem title?_eq
    {after : Cache}
    (hTold : cache.Told id)
    (hGrown : cache.Grown after) :
    after.title? id = cache.title? id := by
  rcases hTold with hDropped | ⟨title, hTitle⟩
  · unfold Cache.title? Generation.get?
    rw [if_pos (hGrown.elements.base ▸ hDropped),
      if_pos hDropped]
    rfl
  · rw [hGrown.title? hTitle, hTitle]

end Cache.Told

------------------------------------------------------------
-- Members Of The Start
------------------------------------------------------------

namespace Symbols

variable {start symbols : Symbols}
variable {cls id : ElementId}

section Told

variable (hAdds : Adds start symbols)
variable (hTold : start.cache.Told id)

include hAdds hTold

/-
  A method that is no new one was found at the start, by a
  selector that was known.
-/
theorem Adds.method?_of_told
    (hEntitled : start.Entitled)
    {selector : String}
    (hFound : symbols.method? cls selector = some id) :
    start.method? cls selector = some id := by
  rcases Option.bind_eq_some_iff.mp hFound with
    ⟨name, hName, hMethod⟩
  have hOld : start.env.members.methods.lookup (cls, name) =
      some id := by
    rcases hAdds.methods cls name id hMethod with
      hOld | ⟨hNew, _⟩
    · exact hOld
    · exact absurd hTold.lt_next (Nat.not_lt.mpr hNew)
  rcases hEntitled.methods cls name id hOld with
    ⟨text, hText, _⟩
  have hNames := hAdds.grown.cache.names
  cases (hNames _ _ hText).symm.trans
    (Interner.text?_of_find? hName)
  cases hFind : start.cache.names.find? selector with
  | none =>
      exact absurd hText (Interner.text?_ne_of_find? hFind name)
  | some name' =>
      cases hName.symm.trans (hNames.find? hFind)
      exact Option.bind_eq_some_iff.mpr ⟨name, hFind, hOld⟩

/- So was a field. -/
theorem Adds.sizeField?_of_told
    (hFound : symbols.sizeField? cls = some id) :
    start.sizeField? cls = some id := by
  rcases hAdds.sizeFields cls id hFound with hOld | ⟨hNew, _⟩
  · exact hOld
  · exact absurd hTold.lt_next (Nat.not_lt.mpr hNew)

end Told

/- States that are abreast are so in both orders. -/
theorem Abreast.symm
    {symbols' : Symbols}
    (hAbreast : Abreast start symbols symbols') :
    Abreast start symbols' symbols where
  adds := hAbreast.adds'
  adds' := hAbreast.adds
  ready := hAbreast.ready'
  ready' := hAbreast.ready
  distinct := hAbreast.distinct'
  distinct' := hAbreast.distinct
  types := hAbreast.types.symm
  sizes := fun cls => (hAbreast.sizes cls).symm

/- A name stands for one name only. -/
theorem SameName.unique
    {symbols' : Symbols}
    (hAbreast : Abreast start symbols symbols')
    {name first second : Name}
    (hFirst : SameName symbols symbols' name first)
    (hSecond : SameName symbols symbols' name second) :
    first = second := by
  rcases hFirst with ⟨text, hText, hText'⟩
  rcases hSecond with ⟨other, hOther, hOther'⟩
  cases hText.symm.trans hOther
  exact hAbreast.distinct' _ _ _ hText' hOther'

theorem SameName.symm
    {symbols' : Symbols}
    {name name' : Name}
    (hSame : SameName symbols symbols' name name') :
    SameName symbols' symbols name' name := by
  rcases hSame with ⟨text, hText, hText'⟩
  exact ⟨text, hText', hText⟩

end Symbols

------------------------------------------------------------
-- Elements
------------------------------------------------------------

namespace Arrays

open Symbols

variable {start : Workspace}
variable {symbols symbols' : Symbols}
variable {id id' : ElementId}

/-
  Which elements are the same in two runs from one workspace.
  A factory whose result is not retained is so only if the
  tree already mentioned it at the start.
-/
inductive SameElement
    (start : Workspace)
    (symbols symbols' : Symbols) :
    ElementId → ElementId → Prop
  | kept
      {id : ElementId}
      (told : start.cache.Told id)
      (mentioned : ∀ title,
        start.cache.title? id = some title →
          title.IsCreation → start.tree.Mentions id) :
      SameElement start symbols symbols' id id
  | method
      {cls id id' : ElementId}
      {selector : String}
      (other : ∀ rest, selector ≠ "array" ++ rest)
      (found : symbols.method? cls selector = some id)
      (found' : symbols'.method? cls selector = some id') :
      SameElement start symbols symbols' id id'
  | sizeField
      {cls id id' : ElementId}
      (found : symbols.sizeField? cls = some id)
      (found' : symbols'.sizeField? cls = some id') :
      SameElement start symbols symbols' id id'

/-
  Which elements stand for which in a node: the same, or in a
  call of a method the two factories of one class.
-/
inductive NodeElement
    (start : Workspace)
    (symbols symbols' : Symbols) :
    NodeTag → ElementId → ElementId → Prop
  | same
      {tag : NodeTag}
      {id id' : ElementId}
      (same : SameElement start symbols symbols' id id') :
      NodeElement start symbols symbols' tag id id'
  | created
      {cls id id' : ElementId}
      {rest : String}
      (found :
        symbols.method? cls ("array" ++ rest) = some id)
      (found' :
        symbols'.method? cls ("newArray" ++ rest) = some id') :
      NodeElement start symbols symbols' .methodInvocation
        id id'

namespace SameElement

theorem symm
    (hSame : SameElement start symbols symbols' id id') :
    SameElement start symbols' symbols id' id := by
  cases hSame with
  | kept hTold hMentioned => exact .kept hTold hMentioned
  | method hOther hFound hFound' =>
      exact .method hOther hFound' hFound
  | sizeField hFound hFound' => exact .sizeField hFound' hFound

/- What is the same stays the same. -/
theorem mono
    {later later' : Symbols}
    (hGrown : Grown symbols later)
    (hGrown' : Grown symbols' later')
    (hSame : SameElement start symbols symbols' id id') :
    SameElement start later later' id id' := by
  cases hSame with
  | kept hTold hMentioned => exact .kept hTold hMentioned
  | method hOther hFound hFound' =>
      exact .method hOther
        (stable_method? _ _ _ _ _ hGrown hFound)
        (stable_method? _ _ _ _ _ hGrown' hFound')
  | sizeField hFound hFound' =>
      exact .sizeField (hGrown.sizeFields _ _ hFound)
        (hGrown'.sizeFields _ _ hFound')

/- A class of the start is the same in both. -/
theorem of_class
    (hClass : IsClass start.cache id) :
    SameElement start symbols symbols' id id := by
  rcases hClass with ⟨name, hTitle⟩
  refine .kept (Or.inr ⟨_, hTitle⟩) ?_
  rintro title hTitle' ⟨rest, hRest⟩
  cases hTitle.symm.trans hTitle'
  cases hRest

section Abreast

variable (hAbreast : Abreast start.symbols symbols symbols')
variable (hEntitled : start.symbols.Entitled)

include hAbreast hEntitled

/- The same elements have the same title. -/
theorem title
    (hSame : SameElement start symbols symbols' id id') :
    symbols.cache.title? id = symbols'.cache.title? id' := by
  have hNow := hEntitled.mono hAbreast.adds
  have hNow' := hEntitled.mono hAbreast.adds'
  cases hSame with
  | kept hTold =>
      exact (hTold.title?_eq hAbreast.adds.grown.cache).trans
        (hTold.title?_eq hAbreast.adds'.grown.cache).symm
  | method _ hFound hFound' =>
      rw [hNow.title_of_method? hFound,
        hNow'.title_of_method? hFound']
  | sizeField hFound hFound' =>
      rw [hNow.sizeFields _ _ hFound,
        hNow'.sizeFields _ _ hFound']

/- A factory that the tree did not mention is not the same. -/
theorem mentions
    (hSame : SameElement start symbols symbols' id id')
    {title : Title}
    (hTitle : symbols.cache.title? id = some title)
    (hCreation : title.IsCreation) :
    start.tree.Mentions id := by
  have hNow := hEntitled.mono hAbreast.adds
  cases hSame with
  | kept hTold hMentioned =>
      rw [hTold.title?_eq hAbreast.adds.grown.cache] at hTitle
      exact hMentioned title hTitle hCreation
  | method hOther hFound =>
      cases (hNow.title_of_method? hFound).symm.trans hTitle
      rcases hCreation with ⟨rest, hRest⟩
      exact absurd (Option.some.inj hRest) (hOther rest)
  | sizeField hFound =>
      cases (hNow.sizeFields _ _ hFound).symm.trans hTitle
      rcases hCreation with ⟨rest, hRest⟩
      cases hRest

/- What is found by both is found from what was there. -/
private theorem eq_of_kept
    (hTold : start.cache.Told id)
    (hSame : SameElement start symbols symbols' id id') :
    id' = id := by
  cases hSame with
  | kept => rfl
  | method _ hFound hFound' =>
      have hOld := hAbreast.adds.method?_of_told hTold
        hEntitled hFound
      have hStays := stable_method? _ _ _ _ _
        hAbreast.adds'.grown hOld
      exact Option.some.inj (hFound'.symm.trans hStays)
  | sizeField hFound hFound' =>
      have hOld := hAbreast.adds.sizeField?_of_told hTold hFound
      have hStays := hAbreast.adds'.grown.sizeFields _ _ hOld
      exact Option.some.inj (hFound'.symm.trans hStays)

/- An element stands for one element only. -/
theorem unique
    {first second : ElementId}
    (hFirst : SameElement start symbols symbols' id first)
    (hSecond : SameElement start symbols symbols' id second) :
    first = second := by
  have hNow := hEntitled.mono hAbreast.adds
  cases hFirst with
  | kept hTold =>
      exact (eq_of_kept hAbreast hEntitled hTold hSecond).symm
  | @method cls _ _ selector hOther hFound hFound' =>
      have hTitle := hNow.title_of_method? hFound
      cases hSecond with
      | kept hTold =>
          exact eq_of_kept hAbreast hEntitled hTold
            (.method hOther hFound hFound')
      | method _ hAgain hAgain' =>
          have hTitle' := hNow.title_of_method? hAgain
          rcases Title.ofMethod_inj (Option.some.inj
            (hTitle.symm.trans hTitle')) with ⟨rfl, rfl⟩
          exact Option.some.inj (hFound'.symm.trans hAgain')
      | sizeField hAgain =>
          have hTitle' := hNow.sizeFields _ _ hAgain
          exact absurd
            (Option.some.inj (hTitle.symm.trans hTitle'))
            (Title.ofMethod_ne_ofSize _ _ _)
  | sizeField hFound hFound' =>
      have hTitle := hNow.sizeFields _ _ hFound
      cases hSecond with
      | kept hTold =>
          exact eq_of_kept hAbreast hEntitled hTold
            (.sizeField hFound hFound')
      | method _ hAgain =>
          have hTitle' := hNow.title_of_method? hAgain
          exact absurd
            (Option.some.inj (hTitle'.symm.trans hTitle))
            (Title.ofMethod_ne_ofSize _ _ _)
      | sizeField hAgain hAgain' =>
          have hTitle' := hNow.sizeFields _ _ hAgain
          cases Title.ofSize_inj (Option.some.inj
            (hTitle.symm.trans hTitle'))
          exact Option.some.inj (hFound'.symm.trans hAgain')

end Abreast

end SameElement

------------------------------------------------------------
-- The Likeness Of Two Runs
------------------------------------------------------------

/-
  How the trees of two runs are alike. Of array creations it
  is also known that their types can be written out.
-/
def likeness
    (start : Workspace)
    (symbols symbols' : Symbols) : Likeness where
  name := SameName symbols symbols'
  element := NodeElement start symbols symbols'
  typed tag ty := tag = .arrayCreation →
    ∀ array, ty = some array → start.cache.Written array

/- Nothing is known of the types of other nodes. -/
theorem typed_likeness
    (tag : NodeTag)
    (ty : Option TypeId)
    (hTag : tag ≠ .arrayCreation) :
    (likeness start symbols symbols').typed tag ty :=
  fun hEq => absurd hEq hTag

/- Later symbols are like each other in all that was alike. -/
theorem likeness_allows
    {later later' : Symbols}
    (hGrown : Grown symbols later)
    (hGrown' : Grown symbols' later') :
    (likeness start later later').Allows
      (likeness start symbols symbols') where
  name := fun _ _ hSame => hSame.mono hGrown hGrown'
  element := by
    intro tag id id' hAlike
    cases hAlike with
    | same hSame => exact .same (hSame.mono hGrown hGrown')
    | created hFound hFound' =>
        exact .created
          (stable_method? _ _ _ _ _ hGrown hFound)
          (stable_method? _ _ _ _ _ hGrown' hFound')
  typed := fun _ _ hTyped => hTyped

end Arrays

end Lowering
