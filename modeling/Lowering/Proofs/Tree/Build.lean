import Lowering.Tree.Copy
import Lowering.Proofs.Tree.View

/-
  This file proves how new subtrees are built. While they are
  built, the store holds them as free trees with no place in
  common, and whatever is not part of them is as it was before
  building began. Their places are new ones and those that
  were moved out of the old tree.

  There is one rule for each way to go on building: making a
  node, copying a subtree, moving a subtree, and asking a
  moved subtree for a retained result.

  Key definitions include:
    * `Placed.retain`
    * `Tree.Building`

  Main results:
    * `Tree.Building.allocNext`
    * `Tree.Building.copyShown`
    * `Tree.Building.copy`
    * `Tree.Building.take`
    * `Tree.Building.retainLast`
-/

namespace Lowering

/- A label whose node was asked for a retained result. -/
def Label.retain (label : Label) : Label :=
  { label with shape := label.shape.retain }

/- The label of a node that may be handed over retained. -/
abbrev Label.retainIf (handed : Bool) (label : Label) : Label :=
  if handed then label.retain else label

/- A tree whose root was asked for a retained result. -/
def Placed.retain : Placed → Placed
  | .node id label children => .node id label.retain children

/- A view whose root was asked for a retained result. -/
def View.retain : View → View
  | .node label children => .node label.retain children

@[simp] theorem Placed.id_retain (placed : Placed) :
    placed.retain.id = placed.id := by
  cases placed
  rfl

@[simp] theorem Placed.ids_retain (placed : Placed) :
    placed.retain.ids = placed.ids := by
  cases placed
  simp [Placed.retain]

@[simp] theorem Placed.view_retain (placed : Placed) :
    placed.retain.view = placed.view.retain := by
  cases placed
  simp [Placed.retain, View.retain]

namespace Tree

open Placed (idsAll)

/- A held tree whose root is asked for a retained result. -/
private theorem Holds.retain
    {now after : Tree}
    {source : Placed}
    {stored : Node}
    (hHolds : now.Holds source)
    (hNodup : source.ids.Nodup)
    (hAt : now.get? source.id = some stored)
    (hAt' : after.get? source.id =
      some { stored with kind := stored.kind.retain })
    (hSame : ∀ n ∈ source.ids, n ≠ source.id →
      after.get? n = now.get? n) :
    after.Holds source.retain := by
  rcases hHolds.of_get? hAt with ⟨hLabel, hListed⟩
  cases source with
  | node id label children =>
      rw [Placed.ids_node, List.nodup_cons] at hNodup
      have hHeld := hHolds.relabel hAt'
        (by simpa using hListed) (by
          intro n hMem
          refine hSame n (by simp [hMem]) ?_
          rintro rfl
          exact hNodup.1 hMem)
      have hRetained :
          Node.label { stored with kind := stored.kind.retain } =
            label.retain := by
        rw [Placed.label_node] at hLabel
        rw [← hLabel]
        simp [Node.label, Label.retain]
      rw [hRetained] at hHeld
      exact hHeld

/- What a new node is not made of is as before. -/
private theorem Extended.get?_of_not_mem
    {now after : Tree}
    {node : Node}
    (hExtended : Extended now after node)
    {n : NodeId}
    (hOld : n.raw < now.size)
    (hNot : n ∉ node.kind.children) :
    after.get? n = now.get? n := by
  rw [hExtended.older n hOld]
  simp only [hNot, if_false, Option.map_id']

/- Held trees are held below a node that is made of them. -/
private theorem Extended.held
    {now after : Tree}
    {made : List Placed}
    {node : Node}
    (hExtended : Extended now after node)
    (hHolds : ∀ placed ∈ made, now.Holds placed)
    (hNodup : (idsAll made).Nodup)
    (hChildren : node.kind.children = made.map (·.id))
    {placed : Placed}
    (hMem : placed ∈ made) :
    after.Holds placed ∧
      after.owner? placed.id = some ⟨now.size⟩ := by
  have hNow := hHolds placed hMem
  rcases hNow.stored with ⟨stored, hAt, _, _⟩
  have hOwned : after.get? placed.id =
      some { stored with parent := some ⟨now.size⟩ } := by
    have hIn : placed.id ∈ node.kind.children := by
      rw [hChildren]
      exact List.mem_map.mpr ⟨placed, hMem, rfl⟩
    rw [hExtended.older _ (lt_size_of_get? hAt), hAt]
    simp only [hIn, if_true, Option.map_some]
  refine ⟨?_, owner?_of_get? hOwned⟩
  apply hNow.reown (some ⟨now.size⟩)
    (Placed.nodup_ids_of_mem hNodup hMem)
  · rw [hOwned, hAt]
    rfl
  · intro n hId hNe
    apply hExtended.get?_of_not_mem (hNow.lt_size n hId)
    intro hChild
    rw [hChildren] at hChild
    rcases List.mem_map.mp hChild with ⟨other, hOther, rfl⟩
    have hEq := Placed.eq_of_id_mem_ids hNodup hMem hOther hId
    exact hNe (congrArg Placed.id hEq)

/-
  The state of building: free trees without a common place,
  and nothing else changed.
-/
structure Building
    (before now : Tree)
    (moved : List NodeId)
    (trees : List Placed) : Prop where
  grown : before.size ≤ now.size
  holds : ∀ placed ∈ trees, now.Holds placed
  free : ∀ placed ∈ trees, now.owner? placed.id = none
  nodup : (idsAll trees).Nodup
  origin : ∀ n ∈ idsAll trees,
    n ∈ moved ∨ before.size ≤ n.raw
  kept : ∀ n : NodeId, n.raw < before.size →
    n ∉ idsAll trees → now.get? n = before.get? n

namespace Building

variable {before now : Tree}
variable {moved : List NodeId}
variable {trees made : List Placed}

/- Before building, nothing is built. -/
theorem start (tree : Tree) : Building tree tree [] [] where
  grown := Nat.le_refl _
  holds := by simp
  free := by simp
  nodup := by simp
  origin := by simp
  kept := by simp

/- The order of the trees does not matter. -/
theorem perm
    {others : List Placed}
    (hBuilding : Building before now moved trees)
    (hPerm : trees.Perm others) :
    Building before now moved others := by
  have hIds := Placed.perm_idsAll hPerm
  refine ⟨hBuilding.grown, ?_, ?_, ?_, ?_, ?_⟩
  · intro placed hMem
    exact hBuilding.holds placed (hPerm.mem_iff.mpr hMem)
  · intro placed hMem
    exact hBuilding.free placed (hPerm.mem_iff.mpr hMem)
  · exact hIds.nodup_iff.mp hBuilding.nodup
  · intro n hMem
    exact hBuilding.origin n (hIds.mem_iff.mpr hMem)
  · intro n hOld hMem
    apply hBuilding.kept n hOld
    intro hIn
    exact hMem (hIds.mem_iff.mp hIn)

theorem lt_size
    (hBuilding : Building before now moved trees)
    {n : NodeId}
    (hMem : n ∈ idsAll trees) :
    n.raw < now.size := by
  rcases Placed.mem_idsAll.mp hMem with ⟨placed, hPlaced, hId⟩
  exact (hBuilding.holds placed hPlaced).lt_size n hId

/- What was there and was not moved is not built upon. -/
theorem not_mem
    (hBuilding : Building before now moved trees)
    {n : NodeId}
    (hOld : n.raw < before.size)
    (hStill : n ∉ moved) :
    n ∉ idsAll trees := by
  intro hMem
  rcases hBuilding.origin n hMem with hMoved | hNew
  · exact hStill hMoved
  · omega

/- A subtree that was not moved is still held. -/
theorem holds_before
    (hBuilding : Building before now moved trees)
    {source : Placed}
    (hSource : before.Holds source)
    (hStill : ∀ n ∈ source.ids, n ∉ moved) :
    now.Holds source := by
  apply hSource.frame
  intro n hMem
  have hOld := hSource.lt_size n hMem
  exact hBuilding.kept n hOld
    (hBuilding.not_mem hOld (hStill n hMem))

------------------------------------------------------------
-- One Step
------------------------------------------------------------

/-
  A step of building puts one tree behind the others. It may
  use up the trees that were built last, and it changes no node
  but those of the tree it puts there. So the other trees are
  held as before, and what is not built upon is as it was.
-/
private theorem putLast
    {after : Tree}
    {moved' : List NodeId}
    {last : Placed}
    (hBuilding : Building before now moved (trees ++ made))
    (hGrown : now.size ≤ after.size)
    (hMoved : ∀ n ∈ moved, n ∈ moved')
    (hHolds : after.Holds last)
    (hFree : after.owner? last.id = none)
    (hNodup : last.ids.Nodup)
    (hApart : ∀ n ∈ last.ids, n ∉ idsAll trees)
    (hOrigin : ∀ n ∈ last.ids, n ∈ moved' ∨ before.size ≤ n.raw)
    (hUsed : ∀ n ∈ idsAll made, n ∈ last.ids)
    (hSame : ∀ n : NodeId, n.raw < now.size →
      n ∉ last.ids → after.get? n = now.get? n) :
    Building before after moved' (trees ++ [last]) := by
  have hOther : ∀ n ∈ idsAll trees,
      after.get? n = now.get? n := by
    intro n hMem
    apply hSame n (hBuilding.lt_size (by simp [hMem]))
    intro hIn
    exact hApart n hIn hMem
  have hIds : idsAll (trees ++ [last]) =
      idsAll trees ++ last.ids := by
    simp
  have hNodupAll := hBuilding.nodup
  rw [Placed.idsAll_append, List.nodup_append] at hNodupAll
  refine ⟨Nat.le_trans hBuilding.grown hGrown, ?_, ?_, ?_, ?_,
    ?_⟩
  · intro placed hMem
    rcases List.mem_append.mp hMem with hOld | hNew
    · apply (hBuilding.holds placed (by simp [hOld])).frame
      intro n hId
      exact hOther n (Placed.ids_subset_idsAll hOld hId)
    · rw [List.mem_singleton.mp hNew]
      exact hHolds
  · intro placed hMem
    rcases List.mem_append.mp hMem with hOld | hNew
    · rw [owner?, hOther _ (Placed.id_mem_idsAll hOld)]
      exact hBuilding.free placed (by simp [hOld])
    · rw [List.mem_singleton.mp hNew]
      exact hFree
  · rw [hIds, List.nodup_append]
    refine ⟨hNodupAll.1, hNodup, ?_⟩
    intro n hOld m hMem hEq
    rw [hEq] at hOld
    exact hApart m hMem hOld
  · intro n hMem
    rw [hIds] at hMem
    rcases List.mem_append.mp hMem with hOld | hNew
    · exact (hBuilding.origin n (by simp [hOld])).imp_left
        (hMoved n)
    · exact hOrigin n hNew
  · intro n hOld hMem
    rw [hIds, List.mem_append, not_or] at hMem
    rw [hSame n (Nat.lt_of_lt_of_le hOld hBuilding.grown)
      hMem.2]
    apply hBuilding.kept n hOld
    rw [Placed.idsAll_append, List.mem_append, not_or]
    exact ⟨hMem.1, fun hIn => hMem.2 (hUsed n hIn)⟩

------------------------------------------------------------
-- Making A Node
------------------------------------------------------------

/-
  The last trees can be put under a new node, whose place is
  the next one.
-/
theorem allocNext
    (kind : NodeKind NodeId)
    (ty : Option TypeId)
    (element : Option ElementId)
    (hBuilding : Building before now moved (trees ++ made))
    (hChildren : kind.children = made.map (·.id)) :
    ∃ after,
      Tree.alloc kind ty element now = .ok ⟨now.size⟩ after ∧
        after.size = now.size + 1 ∧
        Building before after moved
          (trees ++
            [.node ⟨now.size⟩ ⟨kind.shape, ty, element⟩ made])
    := by
  have hNodup := hBuilding.nodup
  rw [Placed.idsAll_append, List.nodup_append] at hNodup
  rcases hNodup with ⟨hNodupTrees, hNodupMade, hApart⟩
  have hHolds : ∀ placed ∈ made, now.Holds placed := by
    intro placed hMem
    exact hBuilding.holds placed (List.mem_append_right _ hMem)
  have hBound : ∀ n ∈ kind.children, n.raw < now.size := by
    intro n hMem
    rw [hChildren] at hMem
    rcases List.mem_map.mp hMem with ⟨placed, hPlaced, rfl⟩
    exact (hHolds placed hPlaced).id_lt_size
  have hFree : ∀ n ∈ kind.children, now.owner? n = none := by
    intro n hMem
    rw [hChildren] at hMem
    rcases List.mem_map.mp hMem with ⟨placed, hPlaced, rfl⟩
    exact hBuilding.free placed
      (List.mem_append_right _ hPlaced)
  have hRoots : kind.children.Nodup := by
    rw [hChildren]
    exact Placed.nodup_map_id hNodupMade
  rcases run_alloc kind ty element hBound hFree hRoots with
    ⟨after, hRun, hExtended⟩
  refine ⟨after, hRun, hExtended.size, ?_⟩
  have hHeld {placed : Placed} (hMem : placed ∈ made) :=
    hExtended.held hHolds hNodupMade hChildren hMem
  have hNew : (⟨now.size⟩ : NodeId) ∉
      idsAll (trees ++ made) := by
    intro hMem
    exact Nat.lt_irrefl _ (hBuilding.lt_size hMem)
  rw [Placed.idsAll_append, List.mem_append, not_or] at hNew
  apply hBuilding.putLast
  · rw [hExtended.size]
    exact Nat.le_succ _
  · exact fun _ hMem => hMem
  · exact .node hExtended.made rfl hChildren
      (fun child hMem => (hHeld hMem).2)
      (fun child hMem => (hHeld hMem).1)
  · exact owner?_of_get? hExtended.made
  · rw [Placed.ids_node, List.nodup_cons]
    exact ⟨hNew.2, hNodupMade⟩
  · intro n hMem hOld
    rw [Placed.ids_node] at hMem
    rcases List.mem_cons.mp hMem with rfl | hBelow
    · exact hNew.1 hOld
    · exact hApart n hOld n hBelow rfl
  · intro n hMem
    rw [Placed.ids_node] at hMem
    rcases List.mem_cons.mp hMem with rfl | hBelow
    · exact Or.inr hBuilding.grown
    · exact hBuilding.origin n (by simp [hBelow])
  · intro n hMem
    simp [hMem]
  · intro n hOld hMem
    apply hExtended.get?_of_not_mem hOld
    intro hChild
    rw [hChildren] at hChild
    rcases List.mem_map.mp hChild with ⟨placed, hPlaced, rfl⟩
    rw [Placed.ids_node] at hMem
    exact hMem (List.mem_cons_of_mem _
      (Placed.id_mem_idsAll hPlaced))

/- The place of the new node is none of the old ones. -/
theorem alloc
    (kind : NodeKind NodeId)
    (ty : Option TypeId)
    (element : Option ElementId)
    (hBuilding : Building before now moved (trees ++ made))
    (hChildren : kind.children = made.map (·.id)) :
    ∃ after id,
      Tree.alloc kind ty element now = .ok id after ∧
        before.size ≤ id.raw ∧
        Building before after moved
          (trees ++ [.node id ⟨kind.shape, ty, element⟩ made]) := by
  rcases hBuilding.allocNext kind ty element hChildren with
    ⟨after, hRun, _, hAfter⟩
  exact ⟨after, _, hRun, hBuilding.grown, hAfter⟩

------------------------------------------------------------
-- Copying
------------------------------------------------------------

/-
  A copy of a list, given that each item can be copied. The
  store grows by what the copies of the items make it grow.
-/
private theorem copyEach
    {operation : NodeId → TreeM NodeId}
    (sources : List Placed)
    (hCopy : ∀ source ∈ sources, ∀ {now : Tree} {trees},
      Building before now moved trees →
        ∃ after copy,
          operation source.id now = .ok copy.id after ∧
            copy.view = source.view ∧
            after.size = now.size + source.ids.length ∧
            Building before after moved (trees ++ [copy]))
    (hBuilding : Building before now moved trees) :
    ∃ after copies,
      (sources.map (·.id)).mapM operation now =
          .ok (copies.map (·.id)) after ∧
        copies.map (·.view) = sources.map (·.view) ∧
        after.size = now.size + (idsAll sources).length ∧
        Building before after moved (trees ++ copies) := by
  induction sources generalizing now trees with
  | nil =>
      refine ⟨now, [], rfl, rfl, by simp, ?_⟩
      rw [List.append_nil]
      exact hBuilding
  | cons source sources ih =>
      rcases hCopy source (by simp) hBuilding with
        ⟨middle, copy, hRun, hView, hSize, hMiddle⟩
      rcases ih (fun other hMem => hCopy other (by simp [hMem]))
          hMiddle with
        ⟨after, copies, hRunAll, hViews, hSizes, hAfter⟩
      refine ⟨after, copy :: copies, ?_, ?_, ?_, ?_⟩
      · rw [List.map_cons, List.mapM_cons, run_bind_ok hRun,
          run_bind_ok hRunAll]
        rfl
      · rw [List.map_cons, List.map_cons, hView, hViews]
      · rw [Placed.idsAll_cons, List.length_append]
        omega
      · rw [List.append_assoc, List.singleton_append] at hAfter
        exact hAfter

/-
  A copy has the view of what it was made of and shares no
  place with it. Its root is the last node that is made. What
  is copied may have a place more than once, which is copied
  as often, and its nodes may be owned by any others.
-/
private theorem copyWithin
    (source : Placed)
    {depth : Nat}
    (hSource : before.Shows source)
    (hDepth : source.height ≤ depth)
    (hStill : ∀ n ∈ source.ids, n ∉ moved)
    (hBuilding : Building before now moved trees) :
    ∃ after copy,
      deepCopyWithin depth source.id now = .ok copy.id after ∧
        copy.view = source.view ∧
        after.size = now.size + source.ids.length ∧
        copy.id.raw + 1 = after.size ∧
        Building before after moved (trees ++ [copy]) := by
  induction hSource generalizing depth now trees with
  | @node id label children stored hAt hLabel hListed hBelow ih =>
      rw [Placed.height_node] at hDepth
      rcases depth with _ | depth
      · omega
      have hOld := lt_size_of_get? hAt
      have hNow : now.get? id = some stored := by
        rw [hBuilding.kept id hOld
          (hBuilding.not_mem hOld (hStill id (by simp)))]
        exact hAt
      have hCopy : ∀ child ∈ children, ∀ {now : Tree} {trees},
          Building before now moved trees →
            ∃ after copy,
              deepCopyWithin depth child.id now =
                  .ok copy.id after ∧
                copy.view = child.view ∧
                after.size = now.size + child.ids.length ∧
                Building before after moved
                  (trees ++ [copy]) := by
        intro child hMem now trees hNow
        have hHeight : child.height ≤ depth := by
          have hHighest := Placed.height_le_of_mem hMem
          omega
        rcases ih child hMem hHeight
            (fun n hId =>
              hStill n (Placed.ids_child_subset hMem hId))
            hNow with
          ⟨after, copy, hRun, hView, hSize, _, hAfter⟩
        exact ⟨after, copy, hRun, hView, hSize, hAfter⟩
      rcases copyEach children hCopy hBuilding with
        ⟨middle, copies, hRun, hViews, hSize, hMiddle⟩
      have hLength : (copies.map (·.id)).length =
          stored.kind.children.length := by
        have hCount := congrArg List.length hViews
        simp only [List.length_map] at hCount
        simp only [hListed, List.length_map, hCount]
      rcases hMiddle.allocNext
          (stored.kind.withChildren (copies.map (·.id)))
          stored.ty stored.element
          (NodeKind.children_withChildren _ hLength) with
        ⟨after, hAlloc, hLast, hAfter⟩
      refine ⟨after, .node ⟨middle.size⟩ _ copies, ?_, ?_, ?_,
        hLast.symm, hAfter⟩
      · unfold deepCopyWithin
        rw [Placed.id_node,
          run_bind_ok (run_inspect_ok (node_eq_ok hNow)),
          hListed, run_bind_ok hRun]
        exact hAlloc
      · rw [Placed.view_node, Placed.view_node, hViews,
          NodeKind.shape_withChildren _ hLength]
        exact congrArg (View.node · _) hLabel
      · rw [Placed.ids_node, List.length_cons]
        omega

/-
  What is shown can be copied where it was not moved. The depth
  suffices if no path is longer than there are nodes.
-/
theorem copyShown
    (hBuilding : Building before now moved trees)
    {source : Placed}
    (hSource : before.Shows source)
    (hHeight : source.height ≤ before.size + 1)
    (hStill : ∀ n ∈ source.ids, n ∉ moved) :
    ∃ after copy,
      deepCopy source.id now = .ok copy.id after ∧
        copy.view = source.view ∧
        after.size = now.size + source.ids.length ∧
        copy.id.raw + 1 = after.size ∧
        Building before after moved (trees ++ [copy]) := by
  have hDepth : source.height ≤ now.size + 1 := by
    have hGrown := hBuilding.grown
    omega
  rcases copyWithin source hSource hDepth hStill hBuilding with
    ⟨after, copied, hRun, hCopied⟩
  refine ⟨after, copied, ?_, hCopied⟩
  unfold deepCopy
  rw [run_bind_ok (run_get now)]
  exact hRun

/- A subtree that was not moved can be copied. -/
theorem copy
    (hBuilding : Building before now moved trees)
    {source : Placed}
    (hSource : before.Holds source)
    (hNodup : source.ids.Nodup)
    (hStill : ∀ n ∈ source.ids, n ∉ moved) :
    ∃ after copy,
      deepCopy source.id now = .ok copy.id after ∧
        copy.view = source.view ∧
        Building before after moved (trees ++ [copy]) := by
  have hHeight := Nat.le_succ_of_le (hSource.height_le hNodup)
  rcases hBuilding.copyShown hSource.shows hHeight hStill with
    ⟨after, copied, hRun, hView, _, _, hAfter⟩
  exact ⟨after, copied, hRun, hView, hAfter⟩

/- Several subtrees can be copied one after the other. -/
theorem copies
    (hBuilding : Building before now moved trees)
    {sources : List Placed}
    (hSources : ∀ source ∈ sources, before.Holds source)
    (hNodup : (idsAll sources).Nodup)
    (hStill : ∀ n ∈ idsAll sources, n ∉ moved) :
    ∃ after copies,
      (sources.map (·.id)).mapM deepCopy now =
          .ok (copies.map (·.id)) after ∧
        copies.map (·.view) = sources.map (·.view) ∧
        Building before after moved (trees ++ copies) := by
  have hEach : ∀ source ∈ sources, ∀ {now : Tree} {trees},
      Building before now moved trees →
        ∃ after copy,
          deepCopy source.id now = .ok copy.id after ∧
            copy.view = source.view ∧
            after.size = now.size + source.ids.length ∧
            Building before after moved (trees ++ [copy]) := by
    intro source hMem now trees hNow
    have hSource := hSources source hMem
    have hHeight := hSource.height_le
      (Placed.nodup_ids_of_mem hNodup hMem)
    rcases hNow.copyShown hSource.shows
        (Nat.le_succ_of_le hHeight) (fun n hId =>
          hStill n (Placed.ids_subset_idsAll hMem hId)) with
      ⟨after, copied, hRun, hView, hSize, _, hAfter⟩
    exact ⟨after, copied, hRun, hView, hSize, hAfter⟩
  rcases copyEach sources hEach hBuilding with
    ⟨after, copied, hRun, hViews, _, hAfter⟩
  exact ⟨after, copied, hRun, hViews, hAfter⟩

------------------------------------------------------------
-- Moving
------------------------------------------------------------

/- A subtree of the old tree can be taken out of it. -/
theorem take
    (hBuilding : Building before now moved trees)
    {source : Placed}
    (hSource : before.Holds source)
    (hNodup : source.ids.Nodup)
    (hStill : ∀ n ∈ source.ids, n ∉ moved) :
    ∃ after,
      Tree.take source.id now = .ok source.id after ∧
        Building before after (moved ++ source.ids)
          (trees ++ [source]) := by
  have hNow := hBuilding.holds_before hSource hStill
  have hApart : ∀ n ∈ source.ids, n ∉ idsAll trees := by
    intro n hId
    exact hBuilding.not_mem (hSource.lt_size n hId)
      (hStill n hId)
  rcases run_take hNow.id_lt_size with ⟨after, hRun, hEdited⟩
  have hSame : ∀ n, n ≠ source.id →
      after.get? n = now.get? n := by
    intro n hNe
    rw [hEdited.get?]
    simp only [hNe, if_false, Option.map_id']
  have hAll : Building before now moved (trees ++ []) := by
    rw [List.append_nil]
    exact hBuilding
  refine ⟨after, hRun, ?_⟩
  apply hAll.putLast
  · exact Nat.le_of_eq hEdited.size.symm
  · exact fun _ hMem => List.mem_append_left _ hMem
  · apply hNow.reown none hNodup
    · rw [hEdited.get?]
      simp only [if_true]
    · intro n _ hNe
      exact hSame n hNe
  · rcases hNow.stored with ⟨stored, hAt, _, _⟩
    rw [owner?_of_get? (hEdited.get?_some hAt)]
    simp only [if_true]
  · exact hNodup
  · exact hApart
  · exact fun _ hMem => Or.inl (List.mem_append_right _ hMem)
  · simp
  · intro n _ hMem
    apply hSame
    rintro rfl
    exact hMem source.id_mem_ids

/- The tree built last can be asked for a retained result. -/
theorem retainLast
    {source : Placed}
    (hBuilding : Building before now moved (trees ++ [source])) :
    ∃ after,
      retainResult source.id now =
          .ok (if source.label.shape.canRetain then
            some source.id else none) after ∧
        Building before after moved
          (trees ++ [source.retain]) := by
  have hNow := hBuilding.holds source (by simp)
  rcases hNow.stored with ⟨stored, hAt, hLabel, hListed⟩
  rcases run_retainResult hAt with ⟨after, hRun, hEdited⟩
  have hNodup := hBuilding.nodup
  simp only [Placed.idsAll_append, Placed.idsAll_cons,
    Placed.idsAll_nil, List.append_nil] at hNodup
  rw [List.nodup_append] at hNodup
  rcases hNodup with ⟨_, hNodupSource, hApart⟩
  have hSame : ∀ n, n ≠ source.id →
      after.get? n = now.get? n := by
    intro n hNe
    rw [hEdited.get?]
    simp only [hNe, if_false, Option.map_id']
  have hShape : stored.kind.shape = source.label.shape :=
    congrArg Label.shape hLabel
  have hAt' := hEdited.get?_some hAt
  simp only [if_true] at hAt'
  refine ⟨after, ?_, ?_⟩
  · rw [hRun, ← NodeKind.canRetain_shape, hShape]
  apply hBuilding.putLast
  · exact Nat.le_of_eq hEdited.size.symm
  · exact fun _ hMem => hMem
  · exact hNow.retain hNodupSource hAt hAt' fun n _ => hSame n
  · rw [Placed.id_retain, owner?_of_get? hAt']
    have hFree := hBuilding.free source (by simp)
    rw [owner?_of_get? hAt] at hFree
    exact hFree
  · rw [Placed.ids_retain]
    exact hNodupSource
  · intro n hMem hOld
    rw [Placed.ids_retain] at hMem
    exact hApart n hOld n hMem rfl
  · intro n hMem
    rw [Placed.ids_retain] at hMem
    exact hBuilding.origin n (by simp [hMem])
  · simp
  · intro n _ hMem
    apply hSame
    rintro rfl
    rw [Placed.ids_retain] at hMem
    exact hMem source.id_mem_ids

end Building

end Tree

end Lowering
