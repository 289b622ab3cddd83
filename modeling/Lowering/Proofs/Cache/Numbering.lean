import Mathlib.Data.List.Induction
import Lowering.Proofs.Cache.Steps

/-
  This file proves that an interner numbers texts for good. Two
  calls give one name exactly for one text; names count the
  texts in the order in which they were first given, from one
  on, the empty text apart; and a name is looked up as its text
  ever after.

  All of this is true of the interner of a cache. Whatever an
  operation of the cache does, it does to the names by calls,
  and a reset does nothing to them. Which calls these are is
  left open: what is proved holds for all calls that account
  for what became of the names.

  Key definitions include:
    * `Interner.call`
    * `Interner.Answered`
    * `NameCall.texts`
    * `NameCall.expected`
    * `Cache.Naming`

  Main results:
    * `Interner.Numbered.answered`
    * `Cache.exists_calls`
    * `Cache.names_are_numbered_for_good`
-/

namespace Lowering

------------------------------------------------------------
-- Calls
------------------------------------------------------------

/-
  A call for the name of a text, which the host may have failed
  to supply, and what it was answered.
-/
structure NameCall where
  text : Option String
  answer : Except InternError Name

namespace NameCall

/- The texts that were given, the empty one left out. -/
def given (calls : List NameCall) : List String :=
  (calls.filterMap (·.text)).filter (· ≠ "")

/-
  The texts that were given, each once, in the order in which
  they came first.
-/
def texts (calls : List NameCall) : List String :=
  (given calls).eraseDups

/- What a call is answered where texts have their places. -/
def expected
    (texts : List String) :
    Option String → Except InternError Name
  | some text =>
    .ok (if text = "" then .empty else ⟨texts.idxOf text + 1⟩)
  | none => .error .nullName

theorem given_append (calls later : List NameCall) :
    given (calls ++ later) = given calls ++ given later := by
  unfold given
  rw [List.filterMap_append, List.filter_append]

theorem mem_texts_iff
    {calls : List NameCall}
    {text : String} :
    text ∈ texts calls ↔
      text ≠ "" ∧ ∃ call ∈ calls, call.text = some text := by
  unfold texts given
  rw [List.mem_eraseDups, List.mem_filter, List.mem_filterMap]
  simp only [decide_eq_true_eq, and_comm]

/- What was given has no text, the empty one, or a place. -/
theorem mem_texts_of_mem
    {calls : List NameCall}
    {call : NameCall}
    (hMem : call ∈ calls) :
    ∀ text, call.text = some text →
      text = "" ∨ text ∈ texts calls := by
  intro text hText
  by_cases hEmpty : text = ""
  · exact .inl hEmpty
  · exact .inr (mem_texts_iff.mpr ⟨hEmpty, call, hMem, hText⟩)

/- A text keeps its place when others come after it. -/
theorem expected_append
    {texts : List String}
    {text : Option String}
    (later : List String)
    (hOld : ∀ found, text = some found →
      found = "" ∨ found ∈ texts) :
    expected (texts ++ later) text = expected texts text := by
  cases text with
  | none => rfl
  | some found =>
      rw [expected, expected]
      rcases hOld found rfl with hEmpty | hMem
      · rw [if_pos hEmpty, if_pos hEmpty]
      · rw [List.idxOf_append, if_pos hMem]

/- A text that was given before changes nothing. -/
theorem texts_concat_old
    {calls : List NameCall}
    {call : NameCall}
    (hOld : ∀ text, call.text = some text →
      text = "" ∨ text ∈ texts calls) :
    texts (calls ++ [call]) = texts calls := by
  have hNone : (given [call]).removeAll (given calls) = [] := by
    cases hText : call.text with
    | none => simp [given, hText]
    | some text =>
        have hGiven := hOld text hText
        rw [texts, List.mem_eraseDups] at hGiven
        by_cases hEmpty : text = ""
        · simp [given, hText, hEmpty]
        · rw [given, List.filterMap_cons_some hText]
          simp [hEmpty, List.removeAll,
            hGiven.resolve_left hEmpty]
  unfold texts
  rw [given_append, List.eraseDups_append, hNone,
    List.eraseDups_nil, List.append_nil]

/- A text that is given first comes last. -/
theorem texts_concat_new
    {calls : List NameCall}
    {text : String}
    {answer : Except InternError Name}
    (hText : text ≠ "")
    (hNew : text ∉ texts calls) :
    texts (calls ++ [⟨some text, answer⟩]) =
      texts calls ++ [text] := by
  unfold texts at hNew ⊢
  rw [List.mem_eraseDups] at hNew
  have hOne : given [⟨some text, answer⟩] = [text] := by
    simp [given, hText]
  rw [given_append, List.eraseDups_append, hOne]
  simp [List.removeAll, hNew, List.eraseDups_cons]

theorem nodup_texts (calls : List NameCall) :
    (texts calls).Nodup := by
  induction calls using List.reverseRecOn with
  | nil => exact List.nodup_nil
  | append_singleton calls call ih =>
      by_cases hOld : ∀ text, call.text = some text →
          text = "" ∨ text ∈ texts calls
      · rw [texts_concat_old hOld]
        exact ih
      · push Not at hOld
        rcases hOld with ⟨text, hText, hNe, hNew⟩
        rcases call with ⟨_, answer⟩
        cases hText
        rw [texts_concat_new hNe hNew, List.nodup_append]
        refine ⟨ih, List.nodup_singleton _, ?_⟩
        intro other hOther _ hMem hEq
        rw [List.mem_singleton] at hMem
        rw [hEq, hMem] at hOther
        exact hNew hOther

end NameCall

namespace Interner

/-
  What an interner answers to a call, and what becomes of it. A
  call that is refused changes nothing.
-/
def call
    (interner : Interner)
    (text : Option String) :
    Except InternError Name × Interner :=
  match interner.internOptional text with
  | .ok (name, later) => (.ok name, later)
  | .error error => (.error error, interner)

/- An interner answers calls, one after the other. -/
inductive Answered :
    Interner → List NameCall → Interner → Prop
  | start (interner : Interner) : Answered interner [] interner
  | next
      {first last : Interner}
      {calls : List NameCall}
      (answered : Answered first calls last)
      (text : Option String) :
      Answered first (calls ++ [⟨text, (last.call text).1⟩])
        (last.call text).2

theorem Answered.trans
    {first middle last : Interner}
    {calls later : List NameCall}
    (hFirst : Answered first calls middle)
    (hLater : Answered middle later last) :
    Answered first (calls ++ later) last := by
  induction hLater with
  | start =>
      rw [List.append_nil]
      exact hFirst
  | next _ text ih =>
      rw [← List.append_assoc]
      exact ih.next text

------------------------------------------------------------
-- Numbers
------------------------------------------------------------

/- A text is found at its place among the stored texts. -/
theorem find?_eq
    (interner : Interner)
    (text : String) :
    interner.find? text =
      if text = "" then
        some .empty
      else if text ∈ interner.texts.toList then
        some ⟨interner.texts.toList.idxOf text + 1⟩
      else
        none := by
  unfold find?
  rw [interner.indexed]
  rcases interner with ⟨⟨texts⟩, _, _⟩
  by_cases hEmpty : text = ""
  · rw [if_pos hEmpty, if_pos hEmpty]
  · rw [if_neg hEmpty, if_neg hEmpty, List.findIdx?_toArray,
      List.findIdx?_eq_guard_findIdx_lt]
    by_cases hMem : text ∈ texts
    · have hBound := List.idxOf_lt_length_iff.mpr hMem
      rw [List.idxOf] at hBound
      simp [Option.guard, hMem, hBound, List.idxOf]
    · have hBound := mt List.idxOf_lt_length_iff.mp hMem
      rw [List.idxOf] at hBound
      simp [Option.guard, hMem, hBound]

/-
  What calls on a new interner come to: it stores the texts
  that were given, and each call was answered by their places.
-/
structure Numbered
    (interner : Interner)
    (calls : List NameCall) : Prop where
  stored : interner.texts.toList = NameCall.texts calls
  answers : ∀ call ∈ calls,
    call.answer =
      NameCall.expected (NameCall.texts calls) call.text

namespace Numbered

variable {interner : Interner}
variable {calls : List NameCall}

theorem new : Numbered {} [] where
  stored := rfl
  answers := by simp

/- A call for a text that has a place is answered by it. -/
private theorem next_old
    {text : Option String}
    (hNumbered : interner.Numbered calls)
    (hOld : ∀ found, text = some found →
      found = "" ∨ found ∈ NameCall.texts calls)
    (hCall : interner.call text =
      (NameCall.expected (NameCall.texts calls) text,
        interner)) :
    (interner.call text).2.Numbered
      (calls ++ [⟨text, (interner.call text).1⟩]) := by
  have hTexts :
      NameCall.texts (calls ++ [⟨text, (interner.call text).1⟩]) =
        NameCall.texts calls :=
    NameCall.texts_concat_old hOld
  constructor
  · rw [hTexts, hCall]
    exact hNumbered.stored
  · rw [hTexts, hCall, List.forall_mem_append,
      List.forall_mem_singleton]
    exact ⟨hNumbered.answers, rfl⟩

/- A new text comes to be stored in the place after the last. -/
private theorem next_new
    {text : String}
    (hNumbered : interner.Numbered calls)
    (hText : text ≠ "")
    (hNew : text ∉ NameCall.texts calls) :
    (interner.call (some text)).2.Numbered
      (calls ++
        [⟨some text, (interner.call (some text)).1⟩]) := by
  have hStored := hNumbered.stored
  have hFind : interner.find? text = none := by
    rw [find?_eq, if_neg hText, hStored, if_neg hNew]
  have hIntern : interner.call (some text) =
      (.ok ⟨interner.texts.size + 1⟩, interner.store text) := by
    simp only [call, internOptional, intern, hFind]
  have hTexts :
      NameCall.texts (calls ++
          [⟨some text, (interner.call (some text)).1⟩]) =
        NameCall.texts calls ++ [text] :=
    NameCall.texts_concat_new hText hNew
  constructor
  · rw [hTexts, hIntern, Interner.store, Array.toList_push,
      hStored]
  · rw [hTexts, hIntern, List.forall_mem_append,
      List.forall_mem_singleton]
    constructor
    · intro call hMem
      rw [NameCall.expected_append [text]
        (NameCall.mem_texts_of_mem hMem)]
      exact hNumbered.answers call hMem
    · have hSize : interner.texts.size =
          (NameCall.texts calls).length := by
        rw [← hStored, Array.length_toList]
      simp [NameCall.expected, hText, List.idxOf_append, hNew,
        hSize]

/- A call keeps the texts numbered. -/
theorem next
    (hNumbered : interner.Numbered calls)
    (text : Option String) :
    (interner.call text).2.Numbered
      (calls ++ [⟨text, (interner.call text).1⟩]) := by
  cases text with
  | none => exact hNumbered.next_old (by simp) rfl
  | some text =>
      by_cases hOld : text = "" ∨ text ∈ NameCall.texts calls
      · have hFind : interner.find? text = some
            (if text = "" then .empty
              else ⟨(NameCall.texts calls).idxOf text + 1⟩) := by
          rw [find?_eq, hNumbered.stored]
          by_cases hEmpty : text = ""
          · rw [if_pos hEmpty, if_pos hEmpty]
          · rw [if_neg hEmpty, if_neg hEmpty,
              if_pos (hOld.resolve_left hEmpty)]
        apply hNumbered.next_old (by simpa using hOld)
        simp only [call, internOptional,
          intern_of_find? hFind, NameCall.expected]
      · rw [not_or] at hOld
        exact hNumbered.next_new hOld.1 hOld.2

/- Calls keep the texts numbered, however many there are. -/
theorem answered
    {last : Interner}
    {later : List NameCall}
    (hNumbered : interner.Numbered calls)
    (hAnswered : Answered interner later last) :
    last.Numbered (calls ++ later) := by
  induction hAnswered with
  | start =>
      rw [List.append_nil]
      exact hNumbered
  | next _ text ih =>
      rw [← List.append_assoc]
      exact ih.next text

/- Each name that was given is looked up as its text. -/
theorem text?_of_answer
    {text : String}
    {name : Name}
    (hNumbered : interner.Numbered calls)
    (hCall : ⟨some text, .ok name⟩ ∈ calls) :
    interner.text? name = some text := by
  have hAnswer := hNumbered.answers _ hCall
  rw [NameCall.expected, Except.ok.injEq] at hAnswer
  rw [hAnswer]
  rcases NameCall.mem_texts_of_mem hCall text rfl with
    rfl | hMem
  · rfl
  · have hNe := (NameCall.mem_texts_iff.mp hMem).1
    rw [if_neg hNe]
    show interner.texts[_]? = some text
    rw [← Array.getElem?_toList, hNumbered.stored]
    exact List.getElem?_idxOf hMem

theorem lookup_of_answer
    {text : String}
    {name : Name}
    (hNumbered : interner.Numbered calls)
    (hCall : ⟨some text, .ok name⟩ ∈ calls) :
    interner.lookup name = .ok text := by
  unfold lookup
  rw [hNumbered.text?_of_answer hCall]

/- Names are the same exactly where the texts are. -/
theorem name_eq_iff
    {text text' : String}
    {name name' : Name}
    (hNumbered : interner.Numbered calls)
    (hCall : ⟨some text, .ok name⟩ ∈ calls)
    (hCall' : ⟨some text', .ok name'⟩ ∈ calls) :
    name = name' ↔ text = text' := by
  constructor
  · rintro rfl
    have hText := hNumbered.text?_of_answer hCall
    rw [hNumbered.text?_of_answer hCall'] at hText
    exact (Option.some.inj hText).symm
  · rintro rfl
    have hAnswer := hNumbered.answers _ hCall
    have hAnswer' := hNumbered.answers _ hCall'
    rw [← hAnswer'] at hAnswer
    exact Except.ok.inj hAnswer

theorem size_eq (hNumbered : interner.Numbered calls) :
    interner.size = (NameCall.texts calls).length := by
  rw [← hNumbered.stored, Array.length_toList]
  rfl

end Numbered

/- The names that an interner has no text for. -/
theorem text?_eq_none_iff
    {interner : Interner}
    {name : Name} :
    interner.text? name = none ↔ interner.size < name.raw := by
  rcases name with ⟨_ | index⟩
  · simp [text?]
  · show interner.texts[index]? = none ↔
      interner.texts.size < index + 1
    rw [Array.getElem?_eq_none_iff, Nat.lt_succ_iff]

end Interner

------------------------------------------------------------
-- Names Of A Cache
------------------------------------------------------------

namespace Cache

/-
  A history of a table and a cache, and the calls that were
  made on its interner in the course of it. They can be made
  directly. For an operation, failed or not, they are any calls
  that lead from the names before it to those after it.
-/
inductive Naming :
    BindingTable × Cache → List NameCall →
      BindingTable × Cache → Prop
  | start (state : BindingTable × Cache) : Naming state [] state
  | call
      {first : BindingTable × Cache}
      {table : BindingTable}
      {cache : Cache}
      {calls : List NameCall}
      (naming : Naming first calls (table, cache))
      (text : Option String) :
      Naming first
        (calls ++ [⟨text, (cache.names.call text).1⟩])
        (table,
          { cache with names := (cache.names.call text).2 })
  | perform
      {first : BindingTable × Cache}
      {table : BindingTable}
      {cache : Cache}
      {calls made : List NameCall}
      (naming : Naming first calls (table, cache))
      (operation : Operation)
      (answered : cache.names.Answered made
        (finalState (operation.perform table cache)).names) :
      Naming first (calls ++ made)
        (table, finalState (operation.perform table cache))
  | add
      {first : BindingTable × Cache}
      {table : BindingTable}
      {cache : Cache}
      {calls : List NameCall}
      (naming : Naming first calls (table, cache))
      (binding : HostBinding) :
      Naming first calls ((table.add binding).2, cache)
  | reset
      {first : BindingTable × Cache}
      {table : BindingTable}
      {cache : Cache}
      {calls : List NameCall}
      (naming : Naming first calls (table, cache)) :
      Naming first calls (table, cache.reset)

/- In a history, the interner answers the calls in turn. -/
theorem Naming.answered
    {first last : BindingTable × Cache}
    {calls : List NameCall}
    (hNaming : Naming first calls last) :
    first.2.names.Answered calls last.2.names := by
  induction hNaming with
  | start => exact .start _
  | call _ text ih => exact ih.next text
  | perform _ _ hAnswered ih => exact ih.trans hAnswered
  | add _ _ ih => exact ih
  | reset _ ih => exact ih

/- The one change of names is a call. -/
private theorem exists_calls_of_change
    {strict : Prop}
    {before after : Cache}
    (hChange : Change strict before after) :
    ∃ made, before.names.Answered made after.names := by
  cases hChange with
  | text text => exact ⟨_, (Interner.Answered.start _).next text⟩
  | type => exact ⟨[], .start _⟩
  | element => exact ⟨[], .start _⟩
  | declared => exact ⟨[], .start _⟩
  | executable => exact ⟨[], .start _⟩
  | parameter => exact ⟨[], .start _⟩
  | modified => exact ⟨[], .start _⟩

private theorem exists_calls_of_changes
    {strict : Prop}
    {before after : Cache}
    (hChanges : Changes strict before after) :
    ∃ made, before.names.Answered made after.names := by
  induction hChanges with
  | refl => exact ⟨[], .start _⟩
  | tail _ hChange ih =>
      rcases ih with ⟨made, hMade⟩
      rcases exists_calls_of_change hChange with ⟨last, hLast⟩
      exact ⟨made ++ last, hMade.trans hLast⟩

/- What an operation does to the names, it does by calls. -/
theorem exists_calls
    (operation : Operation)
    (table : BindingTable)
    (cache : Cache) :
    ∃ made, cache.names.Answered made
      (finalState (operation.perform table cache)).names :=
  @exists_calls_of_changes False _ _
    (follows_perform False.elim operation cache)

/-
  In every history of a new cache, calls on its interner give
  one name exactly for one text, whoever makes them and however
  often the cache is reset. The name that was given for a text
  is looked up as that text ever after. Texts are numbered from
  one on in the order in which they came first, the empty text
  by zero, and the interner stores each of the others once; it
  knows no text for higher numbers. A call without a text is
  refused, and changes nothing.
-/
theorem names_are_numbered_for_good
    {table : BindingTable}
    {calls later : List NameCall}
    {now after : BindingTable × Cache}
    (hNow : Naming (table, {}) calls now)
    (hAfter : Naming now later after) :
    (∀ operation : Operation, ∃ made,
      Naming (table, {}) (calls ++ made)
        (now.1, finalState (operation.perform now.1 now.2))) ∧
      (∀ text text' name name',
        ⟨some text, .ok name⟩ ∈ calls ++ later →
          ⟨some text', .ok name'⟩ ∈ calls ++ later →
            (name = name' ↔ text = text')) ∧
      (∀ text name, ⟨some text, .ok name⟩ ∈ calls →
        now.2.names.lookup name = .ok text ∧
          after.2.names.lookup name = .ok text) ∧
      (∀ call ∈ calls,
        call.answer =
          NameCall.expected (NameCall.texts calls) call.text) ∧
      now.2.names.texts.toList = NameCall.texts calls ∧
      now.2.names.texts.toList.Nodup ∧
      "" ∉ now.2.names.texts.toList ∧
      now.2.names.size = (NameCall.texts calls).length ∧
      (∀ name, now.2.names.text? name = none ↔
        now.2.names.size < name.raw) ∧
      now.2.names.call none =
        (.error .nullName, now.2.names) ∧
      internOptional none now.2 =
        .error (.violation (.intern .nullName)) now.2 := by
  have hNumbered : now.2.names.Numbered calls :=
    Interner.Numbered.new.answered hNow.answered
  have hLater : after.2.names.Numbered (calls ++ later) :=
    hNumbered.answered hAfter.answered
  have hStored := hNumbered.stored
  refine ⟨?_, ?_, ?_, hNumbered.answers, hStored, ?_, ?_,
    hNumbered.size_eq, fun _ => Interner.text?_eq_none_iff, rfl,
    rfl⟩
  · intro operation
    rcases exists_calls operation now.1 now.2 with
      ⟨made, hMade⟩
    exact ⟨made, hNow.perform operation hMade⟩
  · intro text text' name name' hCall hCall'
    exact hLater.name_eq_iff hCall hCall'
  · intro text name hCall
    exact ⟨hNumbered.lookup_of_answer hCall,
      hLater.lookup_of_answer (List.mem_append_left _ hCall)⟩
  · rw [hStored]
    exact NameCall.nodup_texts calls
  · rw [hStored, NameCall.mem_texts_iff]
    exact fun hEmpty => hEmpty.1 rfl

/- The names when one text was seen. -/
def oneName : Interner :=
  (Interner.intern {} "a").2

/- A cache with names for two texts, and a type for one. -/
def twoNames : Cache :=
  performAll ⟨#[]⟩ [.nativeType "b"] { names := oneName }

/-
  One name is asked for directly, and one by an operation. The
  type that it makes is dropped by a reset.
-/
theorem naming_twoNames :
    Naming (⟨#[]⟩, {})
      [⟨some "a", .ok ⟨1⟩⟩, ⟨some "b", .ok ⟨2⟩⟩]
      (⟨#[]⟩, twoNames.reset) := by
  have hCall : Interner.call {} (some "a") =
      (.ok ⟨1⟩, oneName) := by
    with_unfolding_all rfl
  have hMade : oneName.call (some "b") =
      (.ok ⟨2⟩, twoNames.names) := by
    with_unfolding_all rfl
  have hFirst := (Naming.start (⟨#[]⟩, {})).call (some "a")
  rw [hCall] at hFirst
  have hAnswered :=
    (Interner.Answered.start oneName).next (some "b")
  rw [hMade] at hAnswered
  have hSecond := hFirst.perform (.nativeType "b") hAnswered
  exact hSecond.reset

/- After the reset, both names are what they were. -/
theorem names_are_numbered_for_good_twoNames :
    Naming (⟨#[]⟩, {})
        [⟨some "a", .ok ⟨1⟩⟩, ⟨some "b", .ok ⟨2⟩⟩]
        (⟨#[]⟩, twoNames.reset) ∧
      Naming (⟨#[]⟩, twoNames.reset)
        [⟨some "a", .ok ⟨1⟩⟩, ⟨none, .error .nullName⟩]
        (⟨#[]⟩, twoNames.reset) ∧
      twoNames.reset.names.lookup ⟨2⟩ = .ok "b" ∧
      twoNames.reset.names.size = 2 := by
  have hAgain : twoNames.reset.names.call (some "a") =
      (.ok ⟨1⟩, twoNames.reset.names) := by
    with_unfolding_all rfl
  have hLater := (Naming.start (⟨#[]⟩, twoNames.reset)).call
    (some "a")
  rw [hAgain] at hLater
  have hAfter := hLater.call none
  rcases names_are_numbered_for_good naming_twoNames hAfter with
    ⟨_, _, hLookup, _, _, _, _, _, _⟩
  exact ⟨naming_twoNames, hAfter,
    (hLookup "b" ⟨2⟩ (by simp)).1, by decide +kernel⟩

end Cache

end Lowering
