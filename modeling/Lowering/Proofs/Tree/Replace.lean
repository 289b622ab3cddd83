import Lowering.Proofs.Tree.Build

/-
  This file proves what it means to put one subtree into the
  place of another, and that such replacements compose: one
  after the other at the same place, and of a child within the
  subtree of its owner.

  A replacement shows outside of the replaced subtree only in
  the owner, which lists the new root where it listed the old.

  Key definitions include:
    * `Tree.Standing`
    * `Tree.Replaced`

  Main results:
    * `Tree.Replaced.trans`
    * `Tree.Replaced.ofChild`
    * `Tree.Replaced.standing`
    * `Tree.Building.replace`
    * `Tree.Standing.isAssigned_child`
    * `Tree.Replaced.isAssigned`
-/

namespace Lowering

namespace Tree

open Placed (idsAll)

------------------------------------------------------------
-- Lists Of Children
------------------------------------------------------------

private theorem replace_cons_ne
    {old first : NodeId}
    (new : NodeId)
    (items : List NodeId)
    (hNe : old ≠ first) :
    (first :: items).replace old new =
      first :: items.replace old new := by
  rw [List.replace_cons, beq_eq_false_iff_ne.mpr hNe]

theorem replace_self
    (items : List NodeId)
    (item : NodeId) :
    items.replace item item = items := by
  induction items with
  | nil => rfl
  | cons first items ih =>
      by_cases hEq : item = first
      · rw [hEq, List.replace_cons_self]
      · rw [replace_cons_ne _ _ hEq, ih]

private theorem replace_replace
    {items : List NodeId}
    {first second third : NodeId}
    (hFresh : second = first ∨ second ∉ items) :
    (items.replace first second).replace second third =
      items.replace first third := by
  rcases hFresh with hEq | hFresh
  · rw [hEq, replace_self]
  induction items with
  | nil => rfl
  | cons item items ih =>
      rw [List.mem_cons, not_or] at hFresh
      by_cases hEq : first = item
      · rw [hEq, List.replace_cons_self, List.replace_cons_self,
          List.replace_cons_self]
      · rw [replace_cons_ne _ _ hEq, replace_cons_ne _ _ hEq,
          replace_cons_ne _ _ hFresh.1, ih hFresh.2]

theorem mem_of_mem_replace
    {items : List NodeId}
    {old new item : NodeId}
    (hMem : item ∈ items.replace old new) :
    item ∈ items ∨ item = new := by
  induction items with
  | nil => exact absurd hMem (by simp)
  | cons first items ih =>
      by_cases hEq : old = first
      · rw [hEq, List.replace_cons_self, List.mem_cons] at hMem
        rcases hMem with hNew | hRest
        · exact Or.inr hNew
        · exact Or.inl (List.mem_cons_of_mem _ hRest)
      · rw [replace_cons_ne _ _ hEq, List.mem_cons] at hMem
        rcases hMem with hFirst | hRest
        · exact Or.inl (by simp [hFirst])
        · rcases ih hRest with hOld | hNew
          · exact Or.inl (List.mem_cons_of_mem _ hOld)
          · exact Or.inr hNew

theorem mem_replace
    {items : List NodeId}
    {old : NodeId}
    (new : NodeId)
    (hMem : old ∈ items) :
    new ∈ items.replace old new := by
  induction items with
  | nil => exact absurd hMem List.not_mem_nil
  | cons first items ih =>
      by_cases hEq : old = first
      · rw [hEq, List.replace_cons_self]
        exact List.mem_cons_self
      · rw [replace_cons_ne _ _ hEq]
        rcases List.mem_cons.mp hMem with hFirst | hRest
        · exact absurd hFirst hEq
        · exact List.mem_cons_of_mem _ (ih hRest)

theorem mem_replace_of_ne
    {items : List NodeId}
    {old item : NodeId}
    (new : NodeId)
    (hMem : item ∈ items)
    (hNe : item ≠ old) :
    item ∈ items.replace old new := by
  induction items with
  | nil => exact absurd hMem List.not_mem_nil
  | cons first items ih =>
      by_cases hEq : old = first
      · rw [hEq, List.replace_cons_self]
        rcases List.mem_cons.mp hMem with hFirst | hRest
        · exact absurd (hFirst.trans hEq.symm) hNe
        · exact List.mem_cons_of_mem _ hRest
      · rw [replace_cons_ne _ _ hEq]
        rcases List.mem_cons.mp hMem with hFirst | hRest
        · rw [hFirst]
          exact List.mem_cons_self
        · exact List.mem_cons_of_mem _ (ih hRest)

/- Replacing an item is putting another in and taking it out. -/
theorem perm_replace
    {items : List NodeId}
    {old : NodeId}
    (new : NodeId)
    (hMem : old ∈ items) :
    (items.replace old new).Perm (new :: items.erase old) := by
  induction items with
  | nil => exact absurd hMem List.not_mem_nil
  | cons first items ih =>
      by_cases hEq : old = first
      · rw [hEq, List.replace_cons_self, List.erase_cons_head]
      · rcases List.mem_cons.mp hMem with hFirst | hRest
        · exact absurd hFirst hEq
        rw [replace_cons_ne _ _ hEq, List.erase_cons_tail
          (by simpa using fun hSame => hEq hSame.symm)]
        exact ((ih hRest).cons first).trans
          (List.Perm.swap new first _)

private theorem replace_middle
    {front back : List NodeId}
    {old : NodeId}
    (new : NodeId)
    (hNotMem : old ∉ front) :
    (front ++ old :: back).replace old new =
      front ++ new :: back := by
  induction front with
  | nil => exact List.replace_cons_self
  | cons first front ih =>
      rw [List.mem_cons, not_or] at hNotMem
      rw [List.cons_append, replace_cons_ne _ _ hNotMem.1,
        ih hNotMem.2, List.cons_append]

------------------------------------------------------------
-- Standing
------------------------------------------------------------

/-
  A subtree stands in a store: it is held, no place occurs in
  it twice, and its owner, if it has one, lies outside of it
  and lists its root.
-/
structure Standing (tree : Tree) (placed : Placed) : Prop where
  holds : tree.Holds placed
  nodup : placed.ids.Nodup
  outside : ∀ owner, tree.owner? placed.id = some owner →
    owner ∉ placed.ids
  listed : ∀ owner, tree.owner? placed.id = some owner →
    ∃ stored,
      tree.get? owner = some stored ∧
        placed.id ∈ stored.kind.children ∧
        ∀ n ∈ stored.kind.children, n.raw < tree.size

/- The children of a standing subtree stand. -/
theorem Standing.child
    {tree : Tree}
    {id : NodeId}
    {label : Label}
    {children : List Placed}
    {child : Placed}
    (hStanding : tree.Standing (.node id label children))
    (hMem : child ∈ children) :
    tree.Standing child := by
  have hHolds := hStanding.holds
  have hNodup := hStanding.nodup
  rw [Placed.ids_node, List.nodup_cons] at hNodup
  have hOwner := hHolds.owner?_child hMem
  refine ⟨hHolds.child hMem,
    Placed.nodup_ids_of_mem hNodup.2 hMem, ?_, ?_⟩
  · intro owner hOwned hIn
    rw [hOwner] at hOwned
    rw [← Option.some.inj hOwned] at hIn
    exact hNodup.1 (Placed.ids_subset_idsAll hMem hIn)
  · intro owner hOwned
    rw [hOwner] at hOwned
    rcases hHolds.stored with ⟨stored, hAt, _, hListed⟩
    rw [← Option.some.inj hOwned]
    refine ⟨stored, hAt, ?_, ?_⟩
    · rw [hListed]
      exact List.mem_map.mpr ⟨child, hMem, rfl⟩
    · intro n hListedN
      rw [hListed] at hListedN
      rcases List.mem_map.mp hListedN with ⟨other, hOther, rfl⟩
      exact (hHolds.child hOther).id_lt_size

/-
  What lies in a child, or is new, lies apart from the siblings
  of the child and from the node.
-/
theorem Standing.apart_of_child
    {tree : Tree}
    {id : NodeId}
    {label : Label}
    {front rest : List Placed}
    {child : Placed}
    {n : NodeId}
    (hStanding : tree.Standing
      (.node id label (front ++ child :: rest)))
    (hFrom : n ∈ child.ids ∨ tree.size ≤ n.raw) :
    n ∉ Placed.idsAll rest ∧ n ≠ id := by
  have hNodup := hStanding.nodup
  have hOld := hStanding.holds.lt_size
  simp only [Placed.ids_node, Placed.idsAll_append,
    Placed.idsAll_cons] at hNodup hOld
  rw [List.nodup_cons, List.nodup_append, List.nodup_append]
    at hNodup
  rcases hNodup with ⟨hId, _, ⟨_, _, hApart⟩, _⟩
  rcases hFrom with hIn | hNew
  · refine ⟨fun hRest => hApart n hIn n hRest rfl, ?_⟩
    rintro rfl
    simp [hIn] at hId
  · refine ⟨fun hRest => ?_, ?_⟩
    · have hBound := hOld n (by simp [hRest])
      omega
    · rintro rfl
      have hBound := hOld n (by simp)
      omega

------------------------------------------------------------
-- Replacements
------------------------------------------------------------

/- A subtree has taken the place of another. -/
structure Replaced
    (before after : Tree)
    (old new : Placed) : Prop where
  grown : before.size ≤ after.size
  holds : after.Holds new
  nodup : new.ids.Nodup
  origin : ∀ n ∈ new.ids, n ∈ old.ids ∨ before.size ≤ n.raw
  place : new.id = old.id ∨ before.size ≤ new.id.raw
  owner : after.owner? new.id = before.owner? old.id
  kept : ∀ n : NodeId, n.raw < before.size →
    n ∉ old.ids → before.owner? old.id ≠ some n →
      after.get? n = before.get? n
  relisted : ∀ owner stored,
    before.owner? old.id = some owner →
      before.get? owner = some stored →
        ∃ stored',
          after.get? owner = some stored' ∧
            stored'.label = stored.label ∧
            stored'.parent = stored.parent ∧
            stored'.kind.children =
              stored.kind.children.replace old.id new.id

namespace Replaced

variable {before middle after : Tree}
variable {old new newer : Placed}

/- A subtree that stays has taken its own place. -/
theorem refl
    (hStanding : before.Standing old) :
    Replaced before before old old where
  grown := Nat.le_refl _
  holds := hStanding.holds
  nodup := hStanding.nodup
  origin := fun _ hMem => Or.inl hMem
  place := Or.inl rfl
  owner := rfl
  kept := fun _ _ _ _ => rfl
  relisted := by
    intro owner stored _ hAt
    exact ⟨stored, hAt, rfl, rfl, (replace_self _ _).symm⟩

/- A subtree in the place of one that stood stands. -/
theorem standing
    (hReplaced : Replaced before after old new)
    (hStanding : before.Standing old) :
    after.Standing new := by
  refine ⟨hReplaced.holds, hReplaced.nodup, ?_, ?_⟩
  · intro owner hOwner hIn
    rw [hReplaced.owner] at hOwner
    rcases hStanding.listed owner hOwner with ⟨stored, hAt, _⟩
    rcases hReplaced.origin owner hIn with hOld | hNew
    · exact hStanding.outside owner hOwner hOld
    · have hBound := lt_size_of_get? hAt
      omega
  · intro owner hOwner
    rw [hReplaced.owner] at hOwner
    rcases hStanding.listed owner hOwner with
      ⟨stored, hAt, hListed, hBound⟩
    rcases hReplaced.relisted owner stored hOwner hAt with
      ⟨stored', hAt', _, _, hChildren⟩
    refine ⟨stored', hAt', ?_, ?_⟩
    · rw [hChildren]
      exact mem_replace _ hListed
    · intro n hMem
      rw [hChildren] at hMem
      rcases mem_of_mem_replace hMem with hOld | hNew
      · exact Nat.lt_of_lt_of_le (hBound n hOld) hReplaced.grown
      · rw [hNew]
        exact hReplaced.holds.id_lt_size

/- Replacements at one place compose. -/
theorem trans
    (hStanding : before.Standing old)
    (hFirst : Replaced before middle old new)
    (hSecond : Replaced middle after new newer) :
    Replaced before after old newer := by
  refine ⟨?_, hSecond.holds, hSecond.nodup, ?_, ?_, ?_, ?_, ?_⟩
  · exact Nat.le_trans hFirst.grown hSecond.grown
  · intro n hMem
    rcases hSecond.origin n hMem with hOld | hNew
    · exact hFirst.origin n hOld
    · exact Or.inr (Nat.le_trans hFirst.grown hNew)
  · rcases hSecond.place with hEq | hNew
    · rw [hEq]
      exact hFirst.place
    · exact Or.inr (Nat.le_trans hFirst.grown hNew)
  · rw [hSecond.owner, hFirst.owner]
  · intro n hOld hNotMem hNotOwner
    have hStill := hFirst.kept n hOld hNotMem hNotOwner
    have hOld' : n.raw < middle.size :=
      Nat.lt_of_lt_of_le hOld hFirst.grown
    rw [hSecond.kept n hOld' ?_ ?_, hStill]
    · intro hMem
      rcases hFirst.origin n hMem with hIn | hNew
      · exact hNotMem hIn
      · omega
    · rw [hFirst.owner]
      exact hNotOwner
  · intro owner stored hOwner hAt
    rcases hFirst.relisted owner stored hOwner hAt with
      ⟨stored', hAt', hLabel, hParent, hChildren⟩
    rw [← hFirst.owner] at hOwner
    rcases hSecond.relisted owner stored' hOwner hAt' with
      ⟨stored'', hAt'', hLabel', hParent', hChildren'⟩
    refine ⟨stored'', hAt'', hLabel'.trans hLabel,
      hParent'.trans hParent, ?_⟩
    rw [hChildren', hChildren]
    apply replace_replace
    rcases hFirst.place with hEq | hNew
    · exact Or.inl hEq
    · right
      intro hMem
      rw [hFirst.owner] at hOwner
      rcases hStanding.listed owner hOwner with
        ⟨found, hFound, _, hBound⟩
      rw [hAt] at hFound
      rw [← Option.some.inj hFound] at hBound
      have hLow := hBound _ hMem
      omega

section Child

variable {id : NodeId}
variable {label : Label}
variable {front back : List Placed}

/- What lies apart from a child and its owner is kept. -/
theorem kept_of_child
    (hStanding : before.Standing
      (.node id label (front ++ old :: back)))
    (hReplaced : Replaced before after old new)
    {n : NodeId}
    (hOld : n.raw < before.size)
    (hNot : n ∉ old.ids)
    (hNe : n ≠ id) :
    after.get? n = before.get? n := by
  apply hReplaced.kept n hOld hNot
  rw [hStanding.holds.owner?_child (by simp)]
  intro hEq
  exact hNe (Option.some.inj hEq).symm

/- The places of a child lie apart from all other places. -/
private theorem child_apart
    (hStanding : before.Standing
      (.node id label (front ++ old :: back))) :
    (id :: idsAll (front ++ back)).Nodup ∧
      (∀ n ∈ old.ids, n ∉ id :: idsAll (front ++ back)) ∧
      ∀ n ∈ id :: idsAll (front ++ back),
        n.raw < before.size := by
  have hIds := Placed.perm_ids_child id label front back old
  have hNodup := hIds.nodup_iff.mp hStanding.nodup
  rw [List.nodup_append] at hNodup
  refine ⟨hNodup.2.1, ?_, ?_⟩
  · intro n hOld hIn
    exact hNodup.2.2 n hOld n hIn rfl
  · intro n hMem
    apply hStanding.holds.lt_size n
    exact hIds.mem_iff.mpr (List.mem_append_right _ hMem)

/- The node above a child that was replaced holds the new one. -/
private theorem holds_above
    (hStanding : before.Standing
      (.node id label (front ++ old :: back)))
    (hReplaced : Replaced before after old new) :
    after.Holds (.node id label (front ++ new :: back)) ∧
      after.owner? id = before.owner? id := by
  have hHolds := hStanding.holds
  have hOwner : before.owner? old.id = some id :=
    hHolds.owner?_child (by simp)
  rcases child_apart hStanding with ⟨hRest, hApart, hBound⟩
  rcases hHolds.stored with ⟨stored, hAt, hLabel, hListed⟩
  rcases hReplaced.relisted id stored hOwner hAt with
    ⟨stored', hAt', hLabel', hParent', hChildren'⟩
  have hSibling : ∀ n ∈ idsAll (front ++ back),
      after.get? n = before.get? n := by
    intro n hMem
    have hIn := List.mem_cons_of_mem id hMem
    apply hReplaced.kept_of_child hStanding (hBound n hIn)
    · exact fun hOld => hApart n hOld hIn
    · rintro rfl
      exact (List.nodup_cons.mp hRest).1 hMem
  refine ⟨.node hAt' (hLabel'.trans hLabel) ?_ ?_ ?_, ?_⟩
  · rw [hChildren', hListed]
    simp only [Placed.children_node, List.map_append,
      List.map_cons]
    apply replace_middle
    intro hMem
    rcases List.mem_map.mp hMem with ⟨other, hOther, hEq⟩
    apply hApart old.id old.id_mem_ids
    rw [← hEq]
    exact List.mem_cons_of_mem _ (Placed.id_mem_idsAll
      (List.mem_append_left _ hOther))
  · intro child hMem
    rcases List.mem_cons.mp (List.perm_middle.mem_iff.mp hMem)
      with rfl | hOther
    · rw [hReplaced.owner, hOwner]
    · rw [owner?, hSibling _ (Placed.id_mem_idsAll hOther)]
      exact hHolds.owner?_child (List.perm_middle.mem_iff.mpr
        (List.mem_cons_of_mem _ hOther))
  · intro child hMem
    rcases List.mem_cons.mp (List.perm_middle.mem_iff.mp hMem)
      with rfl | hOther
    · exact hReplaced.holds
    · apply (hHolds.child (List.perm_middle.mem_iff.mpr
        (List.mem_cons_of_mem _ hOther))).frame
      intro n hId
      exact hSibling n (Placed.ids_subset_idsAll hOther hId)
  · rw [Placed.id_node] at hAt
    rw [owner?_of_get? hAt', owner?_of_get? hAt, hParent']

/-
  A replacement of a child is one of the whole subtree, in
  which the root and the other children stay.
-/
theorem ofChild
    (hStanding : before.Standing
      (.node id label (front ++ old :: back)))
    (hReplaced : Replaced before after old new) :
    Replaced before after
      (.node id label (front ++ old :: back))
      (.node id label (front ++ new :: back)) := by
  have hOldIds := Placed.perm_ids_child id label front back old
  have hNewIds := Placed.perm_ids_child id label front back new
  rcases child_apart hStanding with ⟨hRest, hApart, hBound⟩
  rcases holds_above hStanding hReplaced with
    ⟨hHolds, hOwner⟩
  have hKept : ∀ n : NodeId, n.raw < before.size →
      n ∉ (Placed.node id label (front ++ old :: back)).ids →
        after.get? n = before.get? n := by
    intro n hLow hNotMem
    rw [hOldIds.mem_iff, List.mem_append, List.mem_cons, not_or,
      not_or] at hNotMem
    exact hReplaced.kept_of_child hStanding hLow hNotMem.1
      hNotMem.2.1
  refine ⟨hReplaced.grown, hHolds, ?_, ?_, Or.inl rfl, hOwner,
    ?_, ?_⟩
  · rw [hNewIds.nodup_iff, List.nodup_append]
    refine ⟨hReplaced.nodup, hRest, ?_⟩
    rintro n hMem _ hIn rfl
    rcases hReplaced.origin n hMem with hOld | hNew
    · exact hApart n hOld hIn
    · have hLow := hBound n hIn
      omega
  · intro n hMem
    rw [hNewIds.mem_iff, List.mem_append] at hMem
    rw [hOldIds.mem_iff, List.mem_append]
    rcases hMem with hChild | hIn
    · exact (hReplaced.origin n hChild).imp_left Or.inl
    · exact Or.inl (Or.inr hIn)
  · intro n hLow hNotMem _
    exact hKept n hLow hNotMem
  · intro owner found hOwned hFound
    have hOutside := hStanding.outside owner hOwned
    refine ⟨found, ?_, rfl, rfl, (replace_self _ _).symm⟩
    rw [hKept owner (lt_size_of_get? hFound) hOutside]
    exact hFound

end Child

end Replaced

------------------------------------------------------------
-- Replacing By What Was Built
------------------------------------------------------------

/-
  A new tree was built beside a standing subtree, of parts of
  it. The root of the subtree is none of them and is as it was,
  and so is what lies outside of the subtree.
-/
private structure Beside
    (before now : Tree)
    (old new : Placed) : Prop where
  standing : before.Standing old
  grown : before.size ≤ now.size
  holds : now.Holds new
  free : now.owner? new.id = none
  nodup : new.ids.Nodup
  origin : ∀ n ∈ new.ids, n ∈ old.ids ∨ before.size ≤ n.raw
  fresh : before.size ≤ new.id.raw
  root : old.id ∉ new.ids
  rootKept : now.get? old.id = before.get? old.id
  kept : ∀ n : NodeId, n.raw < before.size →
    n ∉ old.ids → now.get? n = before.get? n

private theorem Building.beside
    {before now : Tree}
    {moved : List NodeId}
    {old new : Placed}
    (hBuilding : Building before now moved [new])
    (hStanding : before.Standing old)
    (hMoved : ∀ n ∈ moved, n ∈ old.ids ∧ n ≠ old.id)
    (hFresh : before.size ≤ new.id.raw) :
    Beside before now old new := by
  have hIds : idsAll [new] = new.ids := by simp
  have hOldBound := hStanding.holds.id_lt_size
  have hRoot : old.id ∉ idsAll [new] := by
    apply hBuilding.not_mem hOldBound
    intro hIn
    exact (hMoved _ hIn).2 rfl
  refine ⟨hStanding, hBuilding.grown,
    hBuilding.holds new (by simp), hBuilding.free new (by simp),
    ?_, ?_, hFresh, ?_, hBuilding.kept _ hOldBound hRoot, ?_⟩
  · rw [← hIds]
    exact hBuilding.nodup
  · intro n hMem
    rw [← hIds] at hMem
    exact (hBuilding.origin n hMem).imp_left
      fun hIn => (hMoved n hIn).1
  · rw [← hIds]
    exact hRoot
  · intro n hBound hNotMem
    apply hBuilding.kept n hBound
    apply hBuilding.not_mem hBound
    intro hIn
    exact hNotMem (hMoved n hIn).1

namespace Beside

variable {before now after : Tree}
variable {old new : Placed}

private theorem ne
    (hBeside : Beside before now old new) :
    old.id ≠ new.id := by
  intro hEq
  apply hBeside.root
  rw [hEq]
  exact new.id_mem_ids

private theorem owner?_root
    (hBeside : Beside before now old new) :
    now.owner? old.id = before.owner? old.id := by
  rw [owner?, owner?, hBeside.rootKept]

/- The owner of the subtree is not built upon. -/
private theorem not_mem_owner
    (hBeside : Beside before now old new)
    {owner : NodeId}
    (hOwner : before.owner? old.id = some owner) :
    owner ∉ new.ids := by
  intro hMem
  rcases hBeside.standing.listed owner hOwner with
    ⟨stored, hAt, _⟩
  rcases hBeside.origin owner hMem with hIn | hNew
  · exact hBeside.standing.outside owner hOwner hIn
  · have hBound := lt_size_of_get? hAt
    omega

/- A subtree without owner has no place to be taken. -/
private theorem replaced_free
    (hBeside : Beside before now old new)
    (hOwner : before.owner? old.id = none) :
    Replaced before now old new where
  grown := hBeside.grown
  holds := hBeside.holds
  nodup := hBeside.nodup
  origin := hBeside.origin
  place := Or.inr hBeside.fresh
  owner := hBeside.free.trans hOwner.symm
  kept := fun n hBound hNotMem _ =>
    hBeside.kept n hBound hNotMem
  relisted := by
    intro owner stored hOwned
    rw [hOwner] at hOwned
    exact absurd hOwned (by simp)

/- The owner of the subtree lists the new tree instead. -/
private theorem replaced_owned
    {owner : NodeId}
    (hBeside : Beside before now old new)
    (hOwner : before.owner? old.id = some owner)
    (hEdited : Edited now after (relink old.id new.id owner)) :
    Replaced before after old new := by
  have hOutside := hBeside.standing.outside owner hOwner
  have hOwnerNew := hBeside.not_mem_owner hOwner
  have hOwnerOld : owner ≠ old.id := by
    rintro rfl
    exact hOutside old.id_mem_ids
  have hOwnerNe : owner ≠ new.id := by
    rintro rfl
    exact hOwnerNew new.id_mem_ids
  have hSame : ∀ n, n ≠ old.id → n ≠ new.id →
      n ≠ owner → after.get? n = now.get? n := by
    intro n hOld hNew hNotOwner
    rw [hEdited.get?]
    unfold relink
    simp only [hOld, hNew, hNotOwner, if_false, Option.map_id']
  refine ⟨?_, ?_, hBeside.nodup, hBeside.origin,
    Or.inr hBeside.fresh, ?_, ?_, ?_⟩
  · rw [hEdited.size]
    exact hBeside.grown
  · apply hBeside.holds.reown (some owner) hBeside.nodup
    · rw [hEdited.get?]
      unfold relink
      simp only [if_true, hOwnerNe.symm, if_false]
    · intro n hMem hNotRoot
      apply hSame n ?_ hNotRoot
      · rintro rfl
        exact hOwnerNew hMem
      · rintro rfl
        exact hBeside.root hMem
  · rcases hBeside.holds.stored with ⟨root, hRoot, _, _⟩
    rw [hOwner, owner?_of_get? (hEdited.get?_some hRoot)]
    unfold relink
    simp only [if_true]
  · intro n hBound hNotMem hNotOwner
    rw [hSame n ?_ ?_ ?_, hBeside.kept n hBound hNotMem]
    · rintro rfl
      exact hNotMem old.id_mem_ids
    · rintro rfl
      exact Nat.not_le.mpr hBound hBeside.fresh
    · rintro rfl
      exact hNotOwner hOwner
  · intro owner' stored hOwned hAt
    rw [hOwner] at hOwned
    cases hOwned
    have hAtNow : now.get? owner = some stored := by
      rw [hBeside.kept owner (lt_size_of_get? hAt) hOutside, hAt]
    have hLength :
        (stored.kind.children.replace old.id new.id).length =
          stored.kind.children.length :=
      List.length_replace
    refine ⟨_, hEdited.get?_some hAtNow, ?_, ?_, ?_⟩
    · unfold relink Node.label
      simp only [if_true, NodeKind.shape_withChildren _ hLength]
    · unfold relink
      simp only [hOwnerNe, hOwnerOld, if_false]
    · unfold relink
      simp only [if_true,
        NodeKind.children_withChildren _ hLength]

end Beside

/-
  A new tree, built from parts of a standing subtree, can be
  put into the place of that subtree.
-/
theorem Building.replace
    {before now : Tree}
    {moved : List NodeId}
    {old new : Placed}
    (hBuilding : Building before now moved [new])
    (hStanding : before.Standing old)
    (hMoved : ∀ n ∈ moved, n ∈ old.ids ∧ n ≠ old.id)
    (hFresh : before.size ≤ new.id.raw) :
    ∃ after,
      replaceWith old.id new.id now = .ok () after ∧
        Replaced before after old new := by
  have hBeside := hBuilding.beside hStanding hMoved hFresh
  cases hOwner : before.owner? old.id with
  | none =>
      refine ⟨now, ?_, hBeside.replaced_free hOwner⟩
      apply run_replaceWith_free hBeside.ne
      · exact Nat.lt_of_lt_of_le hStanding.holds.id_lt_size
          hBeside.grown
      · rw [hBeside.owner?_root, hOwner]
  | some owner =>
      rcases hStanding.listed owner hOwner with
        ⟨stored, hAt, hListed, _⟩
      have hAtNow : now.get? owner = some stored := by
        rw [hBeside.kept owner (lt_size_of_get? hAt)
          (hStanding.outside owner hOwner), hAt]
      rcases run_replaceWith hBeside.ne
          hBeside.holds.id_lt_size
          (hBeside.owner?_root.trans hOwner) hAtNow hListed with
        ⟨after, hRun, hEdited⟩
      exact ⟨after, hRun,
        hBeside.replaced_owned hOwner hEdited⟩

------------------------------------------------------------
-- Assigned Places
------------------------------------------------------------

/- A subtree without owner is not assigned to. -/
theorem isAssigned_free
    {tree : Tree}
    {id : NodeId}
    {node : Node}
    (hNode : tree.get? id = some node)
    (hFree : tree.owner? id = none) :
    tree.isAssigned id = .ok false := by
  rw [owner?_of_get? hNode] at hFree
  unfold isAssigned
  simp only [node_eq_ok hNode, bind, Except.bind, hFree]
  rfl

/- An owned subtree is assigned to if its owner does so. -/
theorem isAssigned_owned
    {tree : Tree}
    {id owner : NodeId}
    {node stored : Node}
    (hNode : tree.get? id = some node)
    (hOwner : tree.owner? id = some owner)
    (hStored : tree.get? owner = some stored) :
    tree.isAssigned id = .ok (stored.kind.assigns id) := by
  rw [owner?_of_get? hNode] at hOwner
  unfold isAssigned
  simp only [node_eq_ok hNode, bind, Except.bind, hOwner,
    node_eq_ok hStored]
  rfl

/- Whether a standing subtree is assigned to can be told. -/
theorem Standing.isAssigned_ok
    {tree : Tree}
    {placed : Placed}
    (hStanding : tree.Standing placed) :
    ∃ assigned, tree.isAssigned placed.id = .ok assigned := by
  rcases hStanding.holds.stored with ⟨node, hNode, _, _⟩
  cases hOwner : tree.owner? placed.id with
  | none => exact ⟨false, isAssigned_free hNode hOwner⟩
  | some owner =>
      rcases hStanding.listed owner hOwner with
        ⟨stored, hStored, _⟩
      exact ⟨_, isAssigned_owned hNode hOwner hStored⟩

/- Only the first child of a subtree can be assigned to. -/
theorem Standing.isAssigned_child
    {tree : Tree}
    {id : NodeId}
    {label : Label}
    {front back : List Placed}
    {child : Placed}
    (hStanding : tree.Standing
      (.node id label (front ++ child :: back))) :
    tree.isAssigned child.id =
      .ok (label.shape.assignsFirst && front.isEmpty) := by
  have hHolds := hStanding.holds
  have hMem : child ∈ front ++ child :: back := by simp
  rcases hHolds.stored with ⟨stored, hAt, hLabel, hListed⟩
  rcases (hHolds.child hMem).stored with ⟨node, hNode, _, _⟩
  rw [isAssigned_owned hNode (hHolds.owner?_child hMem) hAt]
  have hIn : child.id ∈ stored.kind.children := by
    rw [hListed]
    exact List.mem_map.mpr ⟨child, hMem, rfl⟩
  have hShape : stored.kind.shape = label.shape :=
    congrArg Label.shape hLabel
  rw [NodeKind.assigns_eq stored.kind hIn, hShape, hListed]
  congr 2
  cases front with
  | nil => simp
  | cons first front =>
      have hNodup := hStanding.nodup
      rw [Placed.ids_node, List.nodup_cons,
        Placed.idsAll_append, List.nodup_append] at hNodup
      have hNe : first.id ≠ child.id :=
        hNodup.2.2.2 first.id (Placed.id_mem_idsAll (by simp))
          child.id (Placed.id_mem_idsAll (by simp))
      simp [hNe]

/- What takes the place of an item is first where it was. -/
private theorem head?_replace
    {items : List NodeId}
    {old new : NodeId}
    (hFresh : new = old ∨ new ∉ items) :
    (items.replace old new).head? = some new ↔
      items.head? = some old := by
  rcases items with _ | ⟨first, items⟩
  · simp
  by_cases hEq : old = first
  · rw [hEq, List.replace_cons_self]
    simp
  · rw [replace_cons_ne _ _ hEq, List.head?_cons,
      List.head?_cons, Option.some.injEq, Option.some.injEq]
    refine iff_of_false ?_ fun hFirst => hEq hFirst.symm
    rintro rfl
    rcases hFresh with hSame | hOut
    · exact hEq hSame.symm
    · exact hOut List.mem_cons_self

/- What takes a place is assigned to as what was there. -/
theorem Replaced.isAssigned
    {before after : Tree}
    {old new : Placed}
    (hReplaced : Replaced before after old new)
    (hStanding : before.Standing old) :
    after.isAssigned new.id = before.isAssigned old.id := by
  rcases hStanding.holds.stored with ⟨node, hNode, _, _⟩
  rcases hReplaced.holds.stored with ⟨node', hNode', _, _⟩
  have hOwner' := hReplaced.owner
  cases hOwner : before.owner? old.id with
  | none =>
      rw [hOwner] at hOwner'
      rw [isAssigned_free hNode hOwner,
        isAssigned_free hNode' hOwner']
  | some owner =>
      rw [hOwner] at hOwner'
      rcases hStanding.listed owner hOwner with
        ⟨stored, hAt, hListed, hBound⟩
      rcases hReplaced.relisted owner stored hOwner hAt with
        ⟨stored', hAt', hLabel, _, hChildren⟩
      have hListed' : new.id ∈ stored'.kind.children := by
        rw [hChildren]
        exact mem_replace _ hListed
      have hFresh : new.id = old.id ∨
          new.id ∉ stored.kind.children := by
        refine hReplaced.place.imp_right fun hNew hIn => ?_
        have hLt := hBound _ hIn
        omega
      have hShape : stored'.kind.shape = stored.kind.shape :=
        congrArg Label.shape hLabel
      rw [isAssigned_owned hNode hOwner hAt,
        isAssigned_owned hNode' hOwner' hAt',
        NodeKind.assigns_eq _ hListed,
        NodeKind.assigns_eq _ hListed', hShape, hChildren,
        decide_eq_decide.mpr (head?_replace hFresh)]

end Tree

end Lowering
