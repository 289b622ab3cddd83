import Lowering.Proofs.Arrays.Tracks

/-
  This file describes an environment that lowering has been
  using since it was created: runs of the pass, those that
  failed too, and between them work on the cache that leaves
  alone what the recorded methods take.

  All methods of such an environment were recorded by a run.
  Each one answers what some node wanted, with the parameters
  that were asked for on its behalf.

  Key definitions include:
    * `Arrays.Answered`
    * `Arrays.InUse`

  Main results:
    * `Arrays.InUse.session`
    * `Arrays.InUse.answered`
-/

namespace Lowering

namespace Arrays

open Symbols

------------------------------------------------------------
-- Answered Symbols
------------------------------------------------------------

/- Each recorded method answers something that was wanted. -/
def Answered
    (want : Wanted → Prop)
    (symbols : Symbols) : Prop :=
  ∀ cls name method,
    symbols.env.members.methods.lookup (cls, name) =
        some method →
      Answers want symbols cls name method

section Answered

variable {table : BindingTable}
variable {want want' : Wanted → Prop}
variable {before after symbols : Symbols}

/- What symbols evolve by is answered in the end. -/
theorem Evolved.answered
    (hEvolved : Evolved table want before after)
    (hWant : ∀ wanted, want wanted → want' wanted)
    (hAnswered : Answered want' before) :
    Answered want' after := by
  intro cls name method hFound
  rcases hEvolved.methods cls name method hFound with
    hOld | hNew
  · exact (hAnswered cls name method hOld).mono hEvolved.grown
      (fun _ => hEvolved.adds.parameterTypes?)
      fun _ hWanted => hWanted
  · exact hNew.mono (Grown.refl _) (fun _ hTypes => hTypes)
      hWant

end Answered

------------------------------------------------------------
-- Environments That Are Lowered With
------------------------------------------------------------

/- The symbols of an environment that only runs record in. -/
inductive InUse : BindingTable → Symbols → Prop
  | created
      {table : BindingTable}
      {cache cache' : Cache}
      {env : Environment}
      (reached : Cache.Reached (table, cache))
      (run : Environment.create cache = .ok env cache') :
      InUse table ⟨cache', env⟩
  | later
      {table table' : BindingTable}
      {symbols : Symbols}
      {cache : Cache}
      (in_use : InUse table symbols)
      (later : Cache.Later (table, symbols.cache)
        (table', cache))
      (kept : ∀ key method,
        symbols.env.members.methods.lookup key =
            some method →
          cache.parameterTypes? method =
            symbols.cache.parameterTypes? method) :
      InUse table' ⟨cache, symbols.env⟩
  | lowered
      {table : BindingTable}
      {workspace : Workspace}
      (in_use : InUse table workspace.symbols)
      (options : Options)
      (root : NodeId) :
      InUse table
        (finalState
          (lower table options root workspace)).symbols

theorem InUse.of_create?
    {table : BindingTable}
    {cache : Cache}
    {symbols : Symbols}
    (hReached : Cache.Reached (table, cache))
    (hCreate : create? cache = some symbols) :
    InUse table symbols := by
  unfold create? at hCreate
  split at hCreate
  · next hRun =>
    cases hCreate
    exact .created hReached hRun
  · exact absurd hCreate (by simp)

section InUse

variable {table : BindingTable}
variable {symbols : Symbols}

/- What runs leave is still the symbols of the session. -/
theorem InUse.session
    (hInUse : InUse table symbols) :
    Session table symbols := by
  induction hInUse with
  | created hReached hRun => exact .created hReached hRun
  | later _ hLater _ ih => exact .later ih hLater
  | lowered _ options root ih =>
      exact session_lower ih options root

/- Each recorded method answers what some node wanted. -/
theorem InUse.answered
    (hInUse : InUse table symbols) :
    Answered (fun _ => True) symbols := by
  induction hInUse with
  | @created table cache cache' env _ hRun =>
      intro cls name method hFound
      have hNone : List.lookup (cls, name)
          env.members.methods = some method := hFound
      rw [members_of_create hRun] at hNone
      exact absurd hNone (by simp)
  | @later table table' symbols cache _ hLater hKept ih =>
      have hGrown : symbols.Grown ⟨cache, symbols.env⟩ :=
        Grown.ofCache (hLater.changes False.elim).grown
      intro cls name method hFound
      apply (ih cls name method hFound).mono hGrown
      · intro types hTypes
        rw [← hTypes]
        exact hKept (cls, name) method hFound
      · exact fun _ hWanted => hWanted
  | lowered hInUse options root ih =>
      exact (follows_lower _ options root _
        hInUse.session.ready).answered (fun _ _ => trivial) ih

end InUse

end Arrays

end Lowering
