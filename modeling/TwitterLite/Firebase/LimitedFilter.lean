import TwitterLite.Firebase.Index

/-!
# The window of a limited query

A limited query keeps the first children in its range, seen from the side it is anchored to. The
client computes this window in two ways. From a whole node it drops the children outside the window
one after the other (`FLimitedFilter.updateFullNode`). When one child changes it edits the old
window (`FLimitedFilter.updateChildIn`): a child that leaves a full window is replaced by the next
one behind it, which is looked up in the complete node (`calculateNextNodeAfterPost`), and a child
that enters a full window pushes out the last one.

The purpose of both is a window in the sense of `Window.IsFirst`. Here the first way is shown to
meet it (`FLimitedFilter.holdsWindow_updateFullNode`); the second one is the subject of
`TwitterLite.Firebase.WindowUpdates`.

## Main definitions

* `TwitterLite.FRangedFilter`, `TwitterLite.FRangedFilter.matchesKey`, `TwitterLite.FLimitedFilter`.
* `TwitterLite.FLimitedFilter.updateFullNode`, `TwitterLite.FLimitedFilter.updateChildIn`.
* `TwitterLite.calculateNextNodeAfterPost`.
* `TwitterLite.FLimitedFilter.HoldsWindow`.

## Main results

* `TwitterLite.FLimitedFilter.holdsWindow_updateFullNode`.

Source: `FLimitedFilter.m`, lines 35–263; `FRangedFilter.m`, lines 33–73; `FIndexedFilter.m`,
lines 40–105; `FWriteTree.m`, lines 416–457.
-/

namespace TwitterLite

open Comparator Window

/-- `FRangedFilter`: what the index looks at, and the ends of the range. -/
structure FRangedFilter (ν : Type*) where
  indexValue : ν → IndexValue
  startPost : FNamedNode
  endPost : FNamedNode

/-- `FLimitedFilter`: a range, and the size of the window on the side where it is anchored. -/
structure FLimitedFilter (ν : Type*) extends FRangedFilter ν where
  limit : ℕ
  reverse : Bool
  limit_pos : 0 < limit

/-- `FWriteTree.calculateNextNodeAfterPost` on the complete children of a node: the first one behind
a child, in the direction of the query. -/
def calculateNextNodeAfterPost {ν : Type*} (indexValue : ν → IndexValue) (reverse : Bool)
    (toIterate : List (Child ν)) (post : Child ν) : Option (Child ν) :=
  toIterate.foldl (fun currentNext child =>
    if directed reverse (indexOrder indexValue).compare child post = .gt ∧
        currentNext.all fun next =>
          directed reverse (indexOrder indexValue).compare child next = .lt
    then some child else currentNext) none

/-- `FRangedFilter.matchesKey:andNode:`. -/
def FRangedFilter.matchesKey {ν : Type*} (filter : FRangedFilter ν) (child : Child ν) : Bool :=
  compareNamedNode filter.startPost (child.named filter.indexValue) ≠ .gt ∧
    compareNamedNode (child.named filter.indexValue) filter.endPost ≠ .gt

/-- The range between two ranks. -/
theorem FRangedFilter.matchesKey_iff {ν : Type*} {filter : FRangedFilter ν} {child : Child ν} :
    filter.matchesKey child = true ↔
      filter.startPost.rank ≤ (child.named filter.indexValue).rank ∧
        (child.named filter.indexValue).rank ≤ filter.endPost.rank := by
  rw [matchesKey, decide_eq_true_eq, isRank_compareNamedNode.ne_gt_iff,
    isRank_compareNamedNode.ne_gt_iff]

namespace FLimitedFilter

variable {ν : Type*} (filter : FLimitedFilter ν)

/-- The post with which the enumeration of a whole node begins. -/
def firstPost : FNamedNode := if filter.reverse then filter.endPost else filter.startPost

/-- The post with which the enumeration of a whole node ends. -/
def lastPost : FNamedNode := if filter.reverse then filter.startPost else filter.endPost

/-- The comparator of the index in the direction of the query. -/
def compareKey (a b : FNamedNode) : Ordering := directed filter.reverse compareNamedNode a b

/-! ### The direction of the query -/

/-- The first child comes before the second one in the direction of the query. -/
abbrev ahead (a b : Child ν) : Prop :=
  before (directed filter.reverse (indexOrder filter.indexValue).compare) a b

instance : IsStrictOrder (Child ν) filter.ahead :=
  (indexOrder filter.indexValue).isStrictOrder filter.reverse

theorem isRank_index : IsRank (indexOrder filter.indexValue).compare
    fun child => (child.named filter.indexValue).rank :=
  isRank_compareNamedNode.comap (Child.named filter.indexValue)

theorem ahead_or_ahead {a b : Child ν} (h : ¬ SameKey a.name b.name) :
    filter.ahead a b ∨ filter.ahead b a := by
  have hdecided := (indexOrder filter.indexValue).decided a b h
  unfold ahead before directed
  cases filter.reverse with
  | false => exact hdecided
  | true => exact hdecided.symm

theorem ahead_of_not_ahead {a b : Child ν} (hkey : ¬ SameKey a.name b.name)
    (h : ¬ filter.ahead a b) : filter.ahead b a :=
  (filter.ahead_or_ahead hkey).resolve_left h

/-- The range has no gap. -/
theorem matchesKey_of_between {a b child : Child ν} (ha : filter.matchesKey a = true)
    (hb : filter.matchesKey b = true) (hac : filter.ahead a child) (hcb : filter.ahead child b) :
    filter.matchesKey child = true := by
  rw [FRangedFilter.matchesKey_iff] at ha hb ⊢
  unfold ahead before directed at hac hcb
  cases hreverse : filter.reverse with
  | false =>
    simp only [hreverse, Bool.false_eq_true, if_false, filter.isRank_index.lt_iff] at hac hcb
    exact ⟨ha.1.trans hac.le, hcb.le.trans hb.2⟩
  | true =>
    simp only [hreverse, if_true, filter.isRank_index.lt_iff] at hac hcb
    exact ⟨hb.1.trans hcb.le, hac.le.trans ha.2⟩

/-- Where the enumeration begins and where it ends, in the direction of the query. -/
theorem matchesKey_iff_compareKey {child : Child ν} : filter.matchesKey child = true ↔
    filter.compareKey filter.firstPost (child.named filter.indexValue) ≠ .gt ∧
      filter.compareKey (child.named filter.indexValue) filter.lastPost ≠ .gt := by
  rw [FRangedFilter.matchesKey, decide_eq_true_eq]
  unfold compareKey directed firstPost lastPost
  cases filter.reverse with
  | false => rfl
  | true => exact and_comm

/-- What comes behind the beginning of the range stays behind it. -/
theorem compareKey_ne_gt_of_ahead {post : FNamedNode} {a b : Child ν}
    (ha : filter.compareKey post (a.named filter.indexValue) ≠ .gt) (hab : filter.ahead a b) :
    filter.compareKey post (b.named filter.indexValue) ≠ .gt := by
  unfold compareKey directed at ha ⊢
  unfold ahead before directed at hab
  cases hreverse : filter.reverse with
  | false =>
    simp only [hreverse, Bool.false_eq_true, if_false, filter.isRank_index.lt_iff,
      isRank_compareNamedNode.ne_gt_iff] at ha hab ⊢
    exact ha.trans hab.le
  | true =>
    simp only [hreverse, if_true, filter.isRank_index.lt_iff,
      isRank_compareNamedNode.ne_gt_iff] at ha hab ⊢
    exact hab.le.trans ha

/-- The child is in the window of the part that ends with it if it is in the range and there is room
for it. -/
theorem take_filter_concat (limit : ℕ) (done : List (Child ν)) (child : Child ν) :
    ((done ++ [child]).filter filter.matchesKey).take limit =
      (done.filter filter.matchesKey).take limit ++
        if filter.matchesKey child = true ∧
            ((done.filter filter.matchesKey).take limit).length < limit then [child] else [] := by
  rw [List.filter_append, List.length_take]
  by_cases hmatch : filter.matchesKey child = true
  · rw [List.filter_cons_of_pos hmatch, List.filter_nil, List.take_append]
    split_ifs with hroom
    · have hone : 1 ≤ limit - (done.filter filter.matchesKey).length := by omega
      rw [List.take_of_length_le (l := [child]) (by simpa using hone)]
    · have hnone : limit - (done.filter filter.matchesKey).length = 0 := by
        have := not_and.mp hroom hmatch
        omega
      rw [hnone, List.take_zero]
  · rw [List.filter_cons_of_neg hmatch, List.filter_nil, if_neg fun hand => hmatch hand.1,
      List.append_nil, List.append_nil]

variable [EmptyCollection ν]

/-- The children of an indexed node come one after the other. -/
theorem pairwise_enumerate (snap : FIndexedNode filter.indexValue) :
    (snap.enumerate filter.reverse).Pairwise filter.ahead := by
  have hsorted := snap.sorted
  unfold ChildSet.enumerate ahead before directed
  cases filter.reverse with
  | false => exact hsorted
  | true => exact List.pairwise_reverse.mpr hsorted

theorem mem_enumerate {snap : FIndexedNode filter.indexValue} {child : Child ν} :
    child ∈ snap.enumerate filter.reverse ↔ child ∈ snap.children := by
  unfold ChildSet.enumerate
  cases filter.reverse with
  | false => rfl
  | true => exact List.mem_reverse

variable [DecidableEq ν]

/-! ### From a whole node -/

/-- The block that `updateFullNode` runs for each child: whether the start was found, how many
children were kept, and what is left of the node. -/
def updateFullNodeBlock
    (state : Bool × ℕ × FIndexedNode filter.indexValue) (child : Child ν) :
    Bool × ℕ × FIndexedNode filter.indexValue :=
  let (foundStartPost, count, filtered) := state
  let foundStartPost :=
    foundStartPost || filter.compareKey filter.firstPost (child.named filter.indexValue) ≠ .gt
  let inRange := foundStartPost && decide (count < filter.limit) &&
    filter.compareKey (child.named filter.indexValue) filter.lastPost ≠ .gt
  if inRange then (foundStartPost, count + 1, filtered)
  else (foundStartPost, count, filtered.updateChild child.name ∅)

/-- `FLimitedFilter.updateFullNode:withNewNode:`. -/
def updateFullNode (newSnap : FIndexedNode filter.indexValue) : FIndexedNode filter.indexValue :=
  ((newSnap.enumerate filter.reverse).foldl filter.updateFullNodeBlock (false, 0, newSnap)).2.2

/-! ### From one child -/

/-- `FIndexedFilter.updateChildIn:`. -/
def indexedUpdateChildIn (oldSnap : FIndexedNode filter.indexValue) (newChild : Child ν) :
    FIndexedNode filter.indexValue :=
  if oldSnap.getImmediateChild newChild.name = newChild.node then oldSnap
  else oldSnap.updateChild newChild.name newChild.node

/-- `FLimitedFilter.fullLimitUpdateNode:`; `source` is the next child behind a given one. -/
def fullLimitUpdateNode (oldIndexed : FIndexedNode filter.indexValue) (newChild : Child ν)
    (source : Child ν → Option (Child ν)) (windowBoundary : Child ν) :
    FIndexedNode filter.indexValue :=
  let inRange := filter.matchesKey newChild
  if oldIndexed.hasChild newChild.name then
    let nextChild := (source windowBoundary).bind fun next =>
      if next.name = newChild.name ∨ oldIndexed.hasChild next.name then source next else some next
    let remainsInWindow := inRange && decide (newChild.node ≠ ∅) && nextChild.all fun next =>
      filter.compareKey (next.named filter.indexValue) (newChild.named filter.indexValue) ≠ .lt
    if remainsInWindow then oldIndexed.updateChild newChild.name newChild.node
    else
      let newIndexed := oldIndexed.updateChild newChild.name ∅
      match nextChild with
      | some next =>
        if filter.matchesKey next then newIndexed.updateChild next.name next.node else newIndexed
      | none => newIndexed
  else if newChild.node = ∅ then oldIndexed
  else if inRange then
    if filter.compareKey (windowBoundary.named filter.indexValue)
        (newChild.named filter.indexValue) ≠ .lt then
      (oldIndexed.updateChild newChild.name newChild.node).updateChild windowBoundary.name ∅
    else oldIndexed
  else oldIndexed

/-- The last child of the window in the direction of the query. -/
def windowBoundary (snap : FIndexedNode filter.indexValue) : Option (Child ν) :=
  if filter.reverse then snap.firstChild else snap.lastChild

/-- The child as a filter takes it in: an empty node if it is out of the range. -/
def filtered (newChild : Child ν) : Child ν :=
  if filter.matchesKey newChild then newChild else ⟨newChild.name, ∅⟩

/-- `FLimitedFilter.updateChildIn:`. A full window has a last child. -/
def updateChildIn (oldSnap : FIndexedNode filter.indexValue) (newChild : Child ν)
    (source : Child ν → Option (Child ν)) : FIndexedNode filter.indexValue :=
  let newChild := filter.filtered newChild
  if oldSnap.getImmediateChild newChild.name = newChild.node then oldSnap
  else if oldSnap.numChildren < filter.limit then filter.indexedUpdateChildIn oldSnap newChild
  else
    match filter.windowBoundary oldSnap with
    | some windowBoundary => filter.fullLimitUpdateNode oldSnap newChild source windowBoundary
    | none => oldSnap

/-! ### The window of a whole node -/

/-- The children of a node that are in the range. -/
def inRange (children : List (Child ν)) : Set (Child ν) :=
  {child | child ∈ children ∧ filter.matchesKey child = true}

/-- The snapshot holds the window of the node. -/
def HoldsWindow (children : List (Child ν)) (snap : FIndexedNode filter.indexValue) : Prop :=
  IsFirst filter.ahead filter.limit (filter.inRange children) (snap.enumerate filter.reverse)

/-- What the block has done after a part of the enumeration. -/
structure Enumerated (newSnap : FIndexedNode filter.indexValue) (done : List (Child ν))
    (state : Bool × ℕ × FIndexedNode filter.indexValue) : Prop where
  found_iff : state.1 = true ↔ ∃ child ∈ done,
    filter.compareKey filter.firstPost (child.named filter.indexValue) ≠ .gt
  count_eq : state.2.1 = ((done.filter filter.matchesKey).take filter.limit).length
  mem_iff : ∀ child, child ∈ state.2.2.children ↔ child ∈ newSnap.children ∧
    (child ∈ done → child ∈ (done.filter filter.matchesKey).take filter.limit)

variable {newSnap : FIndexedNode filter.indexValue} {done : List (Child ν)} {child : Child ν}
  {state : Bool × ℕ × FIndexedNode filter.indexValue}

theorem Enumerated.mem_updateChild (h : filter.Enumerated newSnap done state)
    (hchild : child ∈ newSnap.children) (a : Child ν) :
    a ∈ (state.2.2.updateChild child.name ∅).children ↔ a ∈ newSnap.children ∧ a ≠ child ∧
      (a ∈ done → a ∈ (done.filter filter.matchesKey).take filter.limit) := by
  rw [ChildSet.mem_updateChild, h.mem_iff]
  simp only [ne_eq, not_true_eq_false, false_and, or_false]
  constructor
  · rintro ⟨⟨ha, hdone⟩, hkey⟩
    exact ⟨ha, fun heq => hkey (heq ▸ SameKey.refl _), hdone⟩
  · rintro ⟨ha, hne, hdone⟩
    exact ⟨⟨ha, hdone⟩, fun hkey => hne (newSnap.eq_of_sameKey ha hchild hkey)⟩

/-- The block keeps a child if it is in the range and the window is not full. -/
theorem Enumerated.block (h : filter.Enumerated newSnap done state)
    (hahead : ∀ a ∈ done, filter.ahead a child) (hchild : child ∈ newSnap.children) :
    filter.Enumerated newSnap (done ++ [child]) (filter.updateFullNodeBlock state child) := by
  have hnot : child ∉ done := fun hmem => irrefl_of filter.ahead child (hahead child hmem)
  have htake := filter.take_filter_concat filter.limit done child
  have hstart : (∃ a ∈ done ++ [child],
      filter.compareKey filter.firstPost (a.named filter.indexValue) ≠ .gt) ↔
        filter.compareKey filter.firstPost (child.named filter.indexValue) ≠ .gt := by
    refine ⟨?_, fun hstart => ⟨child, List.mem_concat_self, hstart⟩⟩
    rintro ⟨a, ha, hstart⟩
    rcases List.mem_append.mp ha with ha | ha
    · exact filter.compareKey_ne_gt_of_ahead hstart (hahead a ha)
    · exact List.mem_singleton.mp ha ▸ hstart
  have hfound : (state.1 || decide
      (filter.compareKey filter.firstPost (child.named filter.indexValue) ≠ .gt)) = true ↔
        ∃ a ∈ done ++ [child],
          filter.compareKey filter.firstPost (a.named filter.indexValue) ≠ .gt := by
    rw [Bool.or_eq_true, decide_eq_true_eq, h.found_iff]
    refine ⟨?_, fun hex => .inr (hstart.mp hex)⟩
    rintro (⟨a, ha, hle⟩ | hle)
    · exact ⟨a, List.mem_append_left _ ha, hle⟩
    · exact hstart.mpr hle
  have hinRange : ((state.1 || decide
      (filter.compareKey filter.firstPost (child.named filter.indexValue) ≠ .gt)) &&
        decide (state.2.1 < filter.limit) && decide
          (filter.compareKey (child.named filter.indexValue) filter.lastPost ≠ .gt)) = true ↔
      filter.matchesKey child = true ∧
        ((done.filter filter.matchesKey).take filter.limit).length < filter.limit := by
    rw [Bool.and_eq_true, Bool.and_eq_true, hfound, hstart, filter.matchesKey_iff_compareKey,
      decide_eq_true_eq, decide_eq_true_eq, h.count_eq]
    tauto
  rw [updateFullNodeBlock]
  split_ifs with hin
  · rw [if_pos (hinRange.mp hin)] at htake
    refine ⟨hfound, ?_, fun a => ?_⟩
    · rw [htake, List.length_append, List.length_singleton, h.count_eq]
    · rw [h.mem_iff, htake, List.mem_append, List.mem_append, List.mem_singleton]
      refine and_congr_right fun _ => ⟨?_, ?_⟩
      · rintro hdone (ha | rfl)
        · exact .inl (hdone ha)
        · exact .inr rfl
      · intro hdone ha
        refine (hdone (.inl ha)).resolve_right ?_
        rintro rfl
        exact hnot ha
  · rw [if_neg (mt hinRange.mpr hin), List.append_nil] at htake
    refine ⟨hfound, ?_, fun a => ?_⟩
    · rw [htake, h.count_eq]
    · rw [h.mem_updateChild filter hchild, htake, List.mem_append, List.mem_singleton]
      refine and_congr_right fun _ => ⟨?_, ?_⟩
      · rintro ⟨hne, hdone⟩ (ha | rfl)
        · exact hdone ha
        · exact absurd rfl hne
      · refine fun hdone => ⟨?_, fun ha => hdone (.inl ha)⟩
        rintro rfl
        have hmem := hdone (.inr rfl)
        exact hnot (List.mem_of_mem_filter (List.mem_of_mem_take hmem))

theorem enumerated_of_prefix (newSnap : FIndexedNode filter.indexValue) {done : List (Child ν)}
    (hdone : done <+: newSnap.enumerate filter.reverse) :
    filter.Enumerated newSnap done
      (done.foldl filter.updateFullNodeBlock (false, 0, newSnap)) := by
  induction done using List.reverseRecOn with
  | nil => exact ⟨by simp, by simp, by simp⟩
  | append_singleton done child ih =>
    have hsorted := (filter.pairwise_enumerate newSnap).sublist hdone.sublist
    have hmem := hdone.subset List.mem_concat_self
    rw [List.foldl_append, List.foldl_cons, List.foldl_nil]
    refine (ih ((List.prefix_append done [child]).trans hdone)).block filter ?_ ?_
    · exact fun a ha => (List.pairwise_append.mp hsorted).2.2 a ha child (List.mem_singleton_self _)
    · exact filter.mem_enumerate.mp hmem

/-- What the full filter leaves, in the direction of the query. -/
theorem enumerate_updateFullNode (newSnap : FIndexedNode filter.indexValue) :
    (filter.updateFullNode newSnap).enumerate filter.reverse =
      ((newSnap.enumerate filter.reverse).filter filter.matchesKey).take filter.limit := by
  have henumerated := filter.enumerated_of_prefix newSnap List.prefix_rfl
  have hfilter := (filter.pairwise_enumerate newSnap).filter filter.matchesKey
  refine eq_of_mem_iff (filter.pairwise_enumerate _)
    (hfilter.sublist (List.take_sublist filter.limit _)) fun child => ?_
  rw [filter.mem_enumerate, updateFullNode, henumerated.mem_iff, filter.mem_enumerate]
  refine ⟨fun h => h.2 h.1, fun h => ⟨?_, fun _ => h⟩⟩
  exact filter.mem_enumerate.mp (List.mem_of_mem_filter (List.mem_of_mem_take h))

/-- **The full filter.** What is left of a whole node is the window on its children. -/
theorem holdsWindow_updateFullNode (newSnap : FIndexedNode filter.indexValue) :
    filter.HoldsWindow newSnap.children (filter.updateFullNode newSnap) := by
  have hfilter := (filter.pairwise_enumerate newSnap).filter filter.matchesKey
  rw [HoldsWindow, enumerate_updateFullNode]
  refine isFirst_take hfilter fun child => ?_
  rw [List.mem_filter, filter.mem_enumerate]
  rfl

end FLimitedFilter

end TwitterLite
