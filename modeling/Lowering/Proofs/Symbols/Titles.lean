import Lowering.Proofs.Symbols.Members

/-
  This file defines by what an element is told from others:
  the text of its name, the class that declares it and, if it
  is a runtime method, the text of its selector.

  Runtime members are recorded under what tells them apart,
  and are new when they are recorded. So no element is the
  member of two classes, nor a method for two selectors.

  Key definitions include:
    * `Title`
    * `Cache.title?`
    * `Symbols.Adds`
    * `Symbols.Entitled`

  Main results:
    * `Symbols.adds_runtimeMethod`
    * `Symbols.adds_sizeField`
    * `Symbols.Entitled.mono`
-/

namespace Lowering

------------------------------------------------------------
-- Titles
------------------------------------------------------------

/- The selector of a kind of element, which methods have. -/
def ElementKind.selector? : ElementKind → Option Name
  | executable selector _ _ => selector
  | _ => none

/- Parameters do not change a selector. -/
theorem ElementKind.Extended.selector?
    {first second : ElementKind}
    (hExtended : first.Extended second) :
    second.selector? = first.selector? := by
  cases hExtended <;> rfl

/- What tells an element from others, as text. -/
structure Title where
  name : String
  declaring : Option ElementId := none
  selector : Option String := none
  deriving DecidableEq, Repr

namespace Title

/- The title of a runtime method. -/
def ofMethod (cls : ElementId) (selector : String) : Title where
  name := Cache.selectorHead selector
  declaring := some cls
  selector := some selector

/- The title of the field for the size of an array. -/
def ofSize (cls : ElementId) : Title where
  name := "size"
  declaring := some cls

/- A method is told by its class and its selector. -/
theorem ofMethod_inj
    {cls cls' : ElementId}
    {selector selector' : String}
    (hEq : ofMethod cls selector = ofMethod cls' selector') :
    cls = cls' ∧ selector = selector' :=
  ⟨Option.some.inj (congrArg declaring hEq),
    Option.some.inj (congrArg Title.selector hEq)⟩

theorem ofSize_inj
    {cls cls' : ElementId}
    (hEq : ofSize cls = ofSize cls') :
    cls = cls' :=
  Option.some.inj (congrArg declaring hEq)

theorem ofMethod_ne_ofSize
    (cls cls' : ElementId)
    (selector : String) :
    ofMethod cls selector ≠ ofSize cls' := by
  intro hEq
  cases congrArg Title.selector hEq

end Title

namespace Cache

/- The title of a live element whose names are known. -/
def title? (cache : Cache) (id : ElementId) : Option Title := do
  let data ← cache.elements.get? id.raw
  let name ← cache.names.text? data.name
  match data.kind.selector? with
  | none => return { name, declaring := data.enclosing }
  | some selector =>
    let selector ← cache.names.text? selector
    return ⟨name, data.enclosing, selector⟩

variable {before after : Cache}

/- Titles stay until the cache is reset. -/
theorem Grown.title?
    (hGrown : Grown before after)
    {id : ElementId}
    {title : Title}
    (hTitle : before.title? id = some title) :
    after.title? id = some title := by
  unfold Cache.title? at hTitle ⊢
  rcases Option.bind_eq_some_iff.mp hTitle with
    ⟨data, hData, hRest⟩
  rcases Option.bind_eq_some_iff.mp hRest with
    ⟨name, hName, hLast⟩
  rcases hGrown.element? hData with ⟨data', hData', hKept⟩
  refine Option.bind_eq_some_iff.mpr ⟨data', hData', ?_⟩
  refine Option.bind_eq_some_iff.mpr ⟨name, ?_, ?_⟩
  · rw [hKept.name]
    exact hGrown.names _ _ hName
  · rw [hKept.kind.selector?, hKept.enclosing]
    cases hSelector : data.kind.selector? with
    | none =>
        rw [hSelector] at hLast
        exact hLast
    | some selector =>
        rw [hSelector] at hLast
        rcases Option.bind_eq_some_iff.mp hLast with
          ⟨text, hText, hEq⟩
        exact Option.bind_eq_some_iff.mpr
          ⟨text, hGrown.names _ _ hText, hEq⟩

/- What has a title is live. -/
theorem lt_next_of_title?
    {cache : Cache}
    {id : ElementId}
    {title : Title}
    (hTitle : cache.title? id = some title) :
    id.raw < cache.elements.next := by
  rcases Option.bind_eq_some_iff.mp hTitle with
    ⟨data, hData, _⟩
  exact (Generation.bounds_of_get? hData).2

/- What has the title of a method is that method. -/
theorem isMethodOf_of_title?
    {cache : Cache}
    {id cls : ElementId}
    {selector : String}
    (hTitle : cache.title? id = some (.ofMethod cls selector)) :
    cache.IsMethodOf id cls selector := by
  rcases Option.bind_eq_some_iff.mp hTitle with
    ⟨data, hData, hRest⟩
  rcases Option.bind_eq_some_iff.mp hRest with ⟨text, _, hLast⟩
  cases hKind : data.kind with
  | executable found params returnType =>
      rw [hKind] at hLast
      cases found with
      | none =>
          have hNone := congrArg Title.selector
            (Option.some.inj hLast)
          cases hNone
      | some name =>
          rcases Option.bind_eq_some_iff.mp hLast with
            ⟨known, hKnown, hEq⟩
          have hTitles := Option.some.inj hEq
          have hClass := congrArg Title.declaring hTitles
          have hSelector := congrArg Title.selector hTitles
          cases hSelector
          exact ⟨data, name, params, returnType, hData, hClass,
            hKind, hKnown⟩
  | _ =>
      rw [hKind] at hLast
      have hNone := congrArg Title.selector
        (Option.some.inj hLast)
      cases hNone

/- What has a title has a name. -/
theorem runtimeClass_of_title?
    {cache : Cache}
    {id : ElementId}
    {title : Title}
    (hTitle : cache.title? id = some title) :
    Symbols.RuntimeClass cache id := by
  rcases Option.bind_eq_some_iff.mp hTitle with
    ⟨data, hData, hRest⟩
  rcases Option.bind_eq_some_iff.mp hRest with ⟨name, hName, _⟩
  exact ⟨data, name, hData, hName⟩

end Cache

------------------------------------------------------------
-- Members And Their Titles
------------------------------------------------------------

namespace Cache

/- A new method has the title that it is asked for by. -/
private theorem run_newMethod_title
    (selector : String)
    (declaring : ElementId)
    (returnType : TypeId)
    (modifiers : Modifiers)
    (cache : Cache) :
    ∃ method after,
      newMethod selector declaring returnType modifiers cache =
          .ok method after ∧
        cache.elements.next ≤ method.raw ∧
        after.title? method =
          some (.ofMethod declaring selector) := by
  refine ⟨_, _, rfl, Nat.le_refl _, ?_⟩
  have hHead : ∀ head : String,
      ((cache.names.intern head).2.intern selector).2.text?
        (cache.names.intern head).1 = some head := fun head =>
    Interner.Grown.intern _ _ _ _
      (Interner.text?_of_find? (Interner.find?_intern _ _))
  refine Option.bind_eq_some_iff.mpr
    ⟨_, Generation.get?_push_next _ _, ?_⟩
  refine Option.bind_eq_some_iff.mpr ⟨_, hHead _, ?_⟩
  exact Option.bind_eq_some_iff.mpr ⟨selector,
    Interner.text?_of_find? (Interner.find?_intern _ _), rfl⟩

/- So has a new field. -/
private theorem title_newField
    {ty : TypeId}
    {cls field : ElementId}
    {modifiers : Modifiers}
    {cache after : Cache}
    (hRun : newField "size" ty cls modifiers cache =
      .ok field after) :
    cache.elements.next ≤ field.raw ∧
      after.title? field = some (.ofSize cls) := by
  cases hRun
  refine ⟨Nat.le_refl _, ?_⟩
  refine Option.bind_eq_some_iff.mpr
    ⟨_, Generation.get?_push_next _ _, ?_⟩
  exact Option.bind_eq_some_iff.mpr ⟨"size",
    Interner.text?_of_find? (Interner.find?_intern _ _), rfl⟩

/- A method is recorded only when it is new. -/
private theorem recorded_method
    {members members' : RuntimeMembers}
    {cls method : ElementId}
    {selector : String}
    {returnType : TypeId}
    {modifiers : Modifiers}
    {params : List (String × TypeId)}
    {cache after : Cache}
    (hRun : members.method cls selector returnType modifiers
      params cache = .ok (method, members') after) :
    members' = members ∨
      ∃ name,
        members' = { members with
          methods := ((cls, name), method) ::
            members.methods } ∧
        cache.elements.next ≤ method.raw ∧
        after.names.text? name = some selector ∧
        after.title? method =
          some (.ofMethod cls selector) := by
  unfold RuntimeMembers.method at hRun
  have hIntern : ∃ name named,
      intern selector cache = .ok name named ∧
        named.names.find? selector = some name ∧
        named.elements = cache.elements :=
    ⟨_, _, rfl, Interner.find?_intern _ _, rfl⟩
  rcases hIntern with ⟨name, named, hIntern, hName, hSame⟩
  rw [run_bind_ok hIntern] at hRun
  cases hFound : members.methods.lookup (cls, name) with
  | some known =>
      simp only [hFound] at hRun
      cases hRun
      exact Or.inl rfl
  | none =>
      simp only [hFound] at hRun
      rcases run_newMethod_title selector cls returnType modifiers
          named with ⟨made, middle, hMade, hNew, hTitle⟩
      have hMiddle : named.Grown middle :=
        ((@follows_newMethod False selector cls returnType
          modifiers named).run_ok hMade).grown
      rw [run_bind_ok hMade] at hRun
      rcases run_bind_eq_ok hRun with ⟨_, last, hParams, hLast⟩
      have hGrown : middle.Grown last :=
        ((follows_newParameters made params middle).run_ok
          hParams).grown
      cases hLast
      refine Or.inr ⟨name, rfl, ?_, ?_, hGrown.title? hTitle⟩
      · rw [← hSame]
        exact hNew
      · exact Interner.text?_of_find?
          ((hMiddle.trans hGrown).names.find? hName)

/-
  A field for a size is recorded only when it is new. All else
  that is made for it is its type.
-/
private theorem recorded_sizeField
    {members members' : RuntimeMembers}
    {table : BindingTable}
    {cls field : ElementId}
    {cache after : Cache}
    (hRun : members.sizeField table cls cache =
      .ok (field, members') after) :
    (members.sizeFields.lookup cls = some field ∧
        members' = members ∧ after = cache) ∨
      (members.sizeFields.lookup cls = none ∧
        members' = { members with
          sizeFields := (cls, field) :: members.sizeFields } ∧
        cache.elements.next ≤ field.raw ∧
        after.title? field = some (.ofSize cls) ∧
        ∃ int typed,
          primitiveType table .int cache = .ok int typed ∧
            after.types = typed.types) := by
  unfold RuntimeMembers.sizeField at hRun
  cases hFound : members.sizeFields.lookup cls with
  | some known =>
      simp only [hFound] at hRun
      cases hRun
      exact Or.inl ⟨rfl, rfl, rfl⟩
  | none =>
      simp only [hFound] at hRun
      rcases run_bind_eq_ok hRun with ⟨int, typed, hInt, hRest⟩
      have hTyped : cache.Grown typed :=
        ((@follows_primitiveType False table False.elim .int
          cache).run_ok hInt).changes.grown
      rcases run_bind_eq_ok hRest with ⟨made, last, hMade, hLast⟩
      cases hLast
      rcases title_newField hMade with ⟨hNew, hTitle⟩
      refine Or.inr ⟨rfl, rfl,
        Nat.le_trans hTyped.elements.next_le hNew, hTitle,
        int, typed, hInt, ?_⟩
      cases hMade
      rfl

/- No type is made for a method. -/
private theorem follows_method_types
    (members : RuntimeMembers)
    (cls : ElementId)
    (selector : String)
    (returnType : TypeId)
    (modifiers : Modifiers)
    (params : List (String × TypeId))
    (cache : Cache) :
    Follows (fun before after => after.types = before.types)
      (members.method cls selector returnType modifiers params)
      cache := by
  have hHistory : IsHistory fun before after : Cache =>
      after.types = before.types :=
    ⟨fun _ => rfl, fun hFirst hSecond => hSecond.trans hFirst⟩
  have hParam : ∀ (method : ElementId) (param : String × TypeId)
      (state : Cache),
      Follows (fun before after => after.types = before.types)
        (do
          let _ ← CacheM.fatal
            (newParameter method param.1 param.2) :
              CacheM Unit) state := by
    intro method param state
    have hNew : Follows
        (fun before after => after.types = before.types)
        (newParameter method param.1 param.2) state := by
      unfold newParameter
      apply (Follows.inspect hHistory _ state).bind hHistory
      intro _ _ _
      rfl
    apply hNew.fatal.bind hHistory
    intro _ _ _
    rfl
  unfold RuntimeMembers.method
  have hIntern : Follows
      (fun before after => after.types = before.types)
      (intern selector) cache := rfl
  apply hIntern.bind hHistory
  intro name named _
  simp only []
  cases members.methods.lookup (cls, name) with
  | some method => rfl
  | none =>
      have hMethod : Follows
          (fun before after => after.types = before.types)
          (newMethod selector cls returnType modifiers)
          named := rfl
      apply hMethod.bind hHistory
      intro method middle _
      apply (Follows.forM hHistory params
        (fun param _ => hParam method param) middle).bind
          hHistory
      intro _ _ _
      rfl

end Cache

------------------------------------------------------------
-- Added Members
------------------------------------------------------------

namespace Symbols

/-
  Later symbols, in which the members that were not recorded
  before are new and have the titles they are recorded under.
-/
structure Adds (before after : Symbols) : Prop where
  grown : Grown before after
  methods : ∀ cls name method,
    after.env.members.methods.lookup (cls, name) =
        some method →
      before.env.members.methods.lookup (cls, name) =
          some method ∨
        before.cache.elements.next ≤ method.raw ∧
          ∃ selector,
            after.text? name = some selector ∧
              after.cache.title? method =
                some (.ofMethod cls selector)
  sizeFields : ∀ cls field,
    after.env.members.sizeFields.lookup cls = some field →
      before.env.members.sizeFields.lookup cls = some field ∨
        before.cache.elements.next ≤ field.raw ∧
          after.cache.title? field = some (.ofSize cls)

/- Where no member is recorded, none is added. -/
theorem Adds.of_members
    {before after : Symbols}
    (hGrown : Grown before after)
    (hMembers : after.env.members = before.env.members) :
    Adds before after where
  grown := hGrown
  methods := by
    intro cls name method hFound
    rw [hMembers] at hFound
    exact Or.inl hFound
  sizeFields := by
    intro cls field hFound
    rw [hMembers] at hFound
    exact Or.inl hFound

theorem Adds.isHistory : IsHistory Adds where
  refl symbols := .of_members (Grown.refl symbols) rfl
  trans := by
    intro first second third hFirst hSecond
    have hNext := hFirst.grown.cache.elements.next_le
    refine ⟨hFirst.grown.trans hSecond.grown, ?_, ?_⟩
    · intro cls name method hFound
      rcases hSecond.methods cls name method hFound with
        hOld | ⟨hNew, hTold⟩
      · rcases hFirst.methods cls name method hOld with
          hOldest | ⟨hNew, selector, hText, hTitle⟩
        · exact Or.inl hOldest
        · exact Or.inr ⟨hNew, selector,
            hSecond.grown.cache.names _ _ hText,
            hSecond.grown.cache.title? hTitle⟩
      · exact Or.inr ⟨Nat.le_trans hNext hNew, hTold⟩
    · intro cls field hFound
      rcases hSecond.sizeFields cls field hFound with
        hOld | ⟨hNew, hTold⟩
      · rcases hFirst.sizeFields cls field hOld with
          hOldest | ⟨hNew, hTitle⟩
        · exact Or.inl hOldest
        · exact Or.inr ⟨hNew,
            hSecond.grown.cache.title? hTitle⟩
      · exact Or.inr ⟨Nat.le_trans hNext hNew, hTold⟩

/- Work on the members that has an answer is known by it. -/
private theorem onMembers_eq_ok
    {α : Type}
    {operation :
      RuntimeMembers → CacheM (α × RuntimeMembers)}
    {answer : α}
    {before after : Symbols}
    (hRun : onMembers operation before = .ok answer after) :
    ∃ members,
      operation before.env.members before.cache =
          .ok (answer, members) after.cache ∧
        after.env.members = members := by
  cases hWork : operation before.env.members before.cache with
  | ok found cache =>
      rcases found with ⟨found, members⟩
      rw [run_onMembers hWork] at hRun
      cases hRun
      exact ⟨members, rfl, rfl⟩
  | error error cache =>
      unfold onMembers at hRun
      rcases run_bind_eq_ok hRun with ⟨env, middle, hEnv, hRest⟩
      cases hEnv
      rcases run_bind_eq_ok hRest with ⟨found, _, hFound, _⟩
      rw [run_liftCache_error hWork] at hFound
      cases hFound

theorem adds_runtimeMethod
    {before after : Symbols}
    (hReady : before.Ready)
    {cls method : ElementId}
    {selector : String}
    {returnType : TypeId}
    {modifiers : Modifiers}
    {params : List (String × TypeId)}
    (hRun : runtimeMethod cls selector returnType modifiers
      params before = .ok method after) :
    Adds before after := by
  have hGrown := ((chooses_runtimeMethod hReady cls selector
    returnType modifiers params).run_ok hRun).1
  rcases onMembers_eq_ok hRun with ⟨members, hWork, hMembers⟩
  rcases Cache.recorded_method hWork with
    rfl | ⟨name, rfl, hNew, hText, hTitle⟩
  · exact .of_members hGrown hMembers
  refine ⟨hGrown, ?_, ?_⟩
  · intro cls' other found hFound
    rw [hMembers, List.lookup_cons] at hFound
    split at hFound
    · next hKey =>
      rw [beq_iff_eq, Prod.mk.injEq] at hKey
      rcases hKey with ⟨rfl, rfl⟩
      cases hFound
      exact Or.inr ⟨hNew, selector, hText, hTitle⟩
    · exact Or.inl hFound
  · intro cls' field hFound
    rw [hMembers] at hFound
    exact Or.inl hFound

theorem adds_sizeField
    {before after : Symbols}
    (hReady : before.Ready)
    {table : BindingTable}
    {cls field : ElementId}
    (hRun : sizeField table cls before = .ok field after) :
    Adds before after := by
  have hGrown := ((chooses_sizeField hReady table
    cls).run_ok hRun).1
  rcases onMembers_eq_ok hRun with ⟨members, hWork, hMembers⟩
  rcases Cache.recorded_sizeField hWork with
    ⟨_, rfl, _⟩ | ⟨_, rfl, hNew, hTitle, _⟩
  · exact .of_members hGrown hMembers
  refine ⟨hGrown, ?_, ?_⟩
  · intro cls' name method hFound
    rw [hMembers] at hFound
    exact Or.inl hFound
  · intro other found hFound
    rw [hMembers, List.lookup_cons] at hFound
    split at hFound
    · next hKey =>
      rw [beq_iff_eq] at hKey
      subst hKey
      cases hFound
      exact Or.inr ⟨hNew, hTitle⟩
    · exact Or.inl hFound

/- Neither a type nor a field for a size is made for a method. -/
theorem keeps_runtimeMethod
    {before after : Symbols}
    {cls method : ElementId}
    {selector : String}
    {returnType : TypeId}
    {modifiers : Modifiers}
    {params : List (String × TypeId)}
    (hRun : runtimeMethod cls selector returnType modifiers
      params before = .ok method after) :
    after.cache.types = before.cache.types ∧
      after.env.members.sizeFields =
        before.env.members.sizeFields := by
  rcases onMembers_eq_ok hRun with ⟨members, hWork, hMembers⟩
  refine ⟨(Cache.follows_method_types _ _ _ _ _ _ _).run_ok
    hWork, ?_⟩
  rw [hMembers]
  rcases Cache.recorded_method hWork with rfl | ⟨_, rfl, _⟩
  · rfl
  · rfl

/-
  A field for a size is found and nothing changes, or it is
  made, and with it the type `int`.
-/
theorem sizeField_eq_ok
    {before after : Symbols}
    {table : BindingTable}
    {cls field : ElementId}
    (hRun : sizeField table cls before = .ok field after) :
    (before.sizeField? cls = some field ∧
        after.env.members = before.env.members ∧
        after.cache = before.cache) ∨
      (before.sizeField? cls = none ∧
        after.env.members.sizeFields =
          (cls, field) :: before.env.members.sizeFields ∧
        ∃ int typed,
          Cache.primitiveType table .int before.cache =
              .ok int typed ∧
            after.cache.types = typed.types) := by
  rcases onMembers_eq_ok hRun with ⟨members, hWork, hMembers⟩
  rw [hMembers]
  rcases Cache.recorded_sizeField hWork with
    ⟨hFound, rfl, hSame⟩ | ⟨hNone, rfl, _, _, hTyped⟩
  · exact Or.inl ⟨hFound, rfl, hSame⟩
  · exact Or.inr ⟨hNone, rfl, hTyped⟩

------------------------------------------------------------
-- Entitled Symbols
------------------------------------------------------------

/- An element with a name, and with nothing that declares it. -/
def IsClass (cache : Cache) (cls : ElementId) : Prop :=
  ∃ name, cache.title? cls = some { name }

theorem IsClass.mono
    {before after : Cache}
    {cls : ElementId}
    (hGrown : before.Grown after)
    (hClass : IsClass before cls) :
    IsClass after cls := by
  rcases hClass with ⟨name, hTitle⟩
  exact ⟨name, hGrown.title? hTitle⟩

theorem IsClass.runtimeClass
    {cache : Cache}
    {cls : ElementId}
    (hClass : IsClass cache cls) :
    RuntimeClass cache cls := by
  rcases hClass with ⟨name, hTitle⟩
  exact Cache.runtimeClass_of_title? hTitle

/- The classes are such, and members have their titles. -/
structure Entitled (symbols : Symbols) : Prop where
  primitiveArrays : ∀ kind, IsClass symbols.cache
    (symbols.env.primitiveArrays kind)
  objectArray : IsClass symbols.cache symbols.env.objectArray
  iosClass : IsClass symbols.cache symbols.env.iosClass
  methods : ∀ cls name method,
    symbols.env.members.methods.lookup (cls, name) =
        some method →
      ∃ selector,
        symbols.text? name = some selector ∧
          symbols.cache.title? method =
            some (.ofMethod cls selector)
  sizeFields : ∀ cls field,
    symbols.env.members.sizeFields.lookup cls = some field →
      symbols.cache.title? field = some (.ofSize cls)

/- Symbols stay entitled while members are added. -/
theorem Entitled.mono
    {before after : Symbols}
    (hEntitled : before.Entitled)
    (hAdds : Adds before after) :
    after.Entitled where
  primitiveArrays := by
    intro kind
    rw [hAdds.grown.primitiveArrays]
    exact (hEntitled.primitiveArrays kind).mono
      hAdds.grown.cache
  objectArray := by
    rw [hAdds.grown.objectArray]
    exact hEntitled.objectArray.mono hAdds.grown.cache
  iosClass := by
    rw [hAdds.grown.iosClass]
    exact hEntitled.iosClass.mono hAdds.grown.cache
  methods := by
    intro cls name method hFound
    rcases hAdds.methods cls name method hFound with
      hOld | ⟨_, hTold⟩
    · rcases hEntitled.methods cls name method hOld with
        ⟨selector, hText, hTitle⟩
      exact ⟨selector, hAdds.grown.cache.names _ _ hText,
        hAdds.grown.cache.title? hTitle⟩
    · exact hTold
  sizeFields := by
    intro cls field hFound
    rcases hAdds.sizeFields cls field hFound with
      hOld | ⟨_, hTold⟩
    · exact hAdds.grown.cache.title?
        (hEntitled.sizeFields cls field hOld)
    · exact hTold

/- A method that is found has its title. -/
theorem Entitled.title_of_method?
    {symbols : Symbols}
    {cls method : ElementId}
    {selector : String}
    (hEntitled : symbols.Entitled)
    (hFound : symbols.method? cls selector = some method) :
    symbols.cache.title? method =
      some (.ofMethod cls selector) := by
  rcases Option.bind_eq_some_iff.mp hFound with
    ⟨name, hName, hMethod⟩
  rcases hEntitled.methods cls name method hMethod with
    ⟨text, hText, hTitle⟩
  cases hText.symm.trans (Interner.text?_of_find? hName)
  exact hTitle

end Symbols

end Lowering
