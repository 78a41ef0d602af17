import TwitterLite.Common.Database
import TwitterLite.Firebase.Keys
import TwitterLite.Library.Window

/-!
# Indexes and indexed nodes

A query orders the children of a node by an index: by what `FLeafNode.compare`, `FChildrenNode`'s
and `FMaxNode`'s say of the nodes at the path of the index, and children of equal value by their
keys. These comparisons distinguish an empty node, the values of leaves, nodes with children and the
greatest node (`IndexValue`). The comparator of an index is ranked (`isRank_compareNamedNode`), so
it arranges all named nodes.

The children of a node are kept twice: in a dictionary by key (`FChildrenNode`) and in a set by
index (`FIndexedNode`). Both are `ChildSet`s: arranged by their comparator, without an empty child,
and without two keys that the dictionary does not tell apart.

## Main definitions

* `TwitterLite.IndexValue`, `TwitterLite.IndexValue.compare`.
* `TwitterLite.FNamedNode`, `TwitterLite.compareNamedNode`.
* `TwitterLite.ChildOrder`, `TwitterLite.ChildSet`, `TwitterLite.ChildSet.updateChild`,
  `TwitterLite.ChildSet.ensureIndexed`.

## Main results

* `TwitterLite.isRank_compareNamedNode`.
* `TwitterLite.ChildSet.mem_updateChild`.

Source: `FLeafNode.m`, lines 209–269; `FChildrenNode.m`, lines 118–142 and 282–301; `FMaxNode.m`,
lines 40–46; `FPathIndex.m`, lines 41–70; `FIndexedNode.m`, lines 71–158; `FNamedNode.m`.
-/

namespace TwitterLite

open Comparator Window

/-! ### Comparing nodes -/

/-- A node, as far as `compare:` tells nodes apart. -/
inductive IndexValue where
  | empty
  | leaf (value : Leaf)
  | children
  | max
  deriving DecidableEq, Repr

instance : EmptyCollection IndexValue := ⟨.empty⟩

/-- The position in `FLeafNode.valueTypeOrder`. -/
def Leaf.typeIndex : Leaf → ℕ
  | .bool _ => 1
  | .number _ => 2
  | .string _ => 3

/-- `FLeafNode.compareToLeafNode`. -/
def Leaf.compareToLeafNode (a b : Leaf) : Ordering :=
  match a, b with
  | .bool x, .bool y => compare x y
  | .number x, .number y => compare x y
  | .string x, .string y => lexCompare (fun u v => compare u.toNat v.toNat) (utf16 x) (utf16 y)
  | a, b => if a.typeIndex > b.typeIndex then .gt else .lt

/-- `compare:` of `FLeafNode`, `FChildrenNode` and `FMaxNode`. -/
def IndexValue.compare (a b : IndexValue) : Ordering :=
  match a, b with
  | .leaf _, .empty => .gt
  | .leaf _, .children => .lt
  | .leaf _, .max => .lt
  | .leaf x, .leaf y => x.compareToLeafNode y
  | .empty, .empty => .eq
  | .empty, _ => .lt
  | .children, .leaf _ => .gt
  | .children, .empty => .gt
  | .children, .max => .lt
  | .children, .children => .eq
  | .max, .max => .eq
  | .max, _ => .gt

/-- The rank of a leaf: its type, and its value there. -/
def Leaf.rank : Leaf → ℕ ×ₗ ℚ ×ₗ List ℕ
  | .bool value => toLex (1, toLex (if value then 1 else 0, []))
  | .number value => toLex (2, toLex (value, []))
  | .string value => toLex (3, toLex (0, (utf16 value).map UInt16.toNat))

/-- The rank of a node. -/
def IndexValue.rank : IndexValue → ℕ ×ₗ ℕ ×ₗ ℚ ×ₗ List ℕ
  | .empty => toLex (0, toLex (0, toLex (0, [])))
  | .leaf value => toLex (1, value.rank)
  | .children => toLex (2, toLex (0, toLex (0, [])))
  | .max => toLex (3, toLex (0, toLex (0, [])))

theorem isRank_compareToLeafNode : IsRank Leaf.compareToLeafNode Leaf.rank := by
  intro a b
  cases a with
  | bool x =>
    cases b with
    | bool y =>
      refine compares_toLex_right (compares_toLex_left ?_ []) 1
      have hlt : (0 : ℚ) < 1 := zero_lt_one
      cases x <;> cases y
      exacts [rfl, hlt, hlt, rfl]
    | number y => exact toLex_lt_toLex_of_lt (by decide) _ _
    | string y => exact toLex_lt_toLex_of_lt (by decide) _ _
  | number x =>
    cases b with
    | bool y => exact toLex_lt_toLex_of_lt (by decide) _ _
    | number y => exact compares_toLex_right (compares_toLex_left ((compare_iff x y).mp rfl) []) 2
    | string y => exact toLex_lt_toLex_of_lt (by decide) _ _
  | string x =>
    cases b with
    | bool y => exact toLex_lt_toLex_of_lt (by decide) _ _
    | number y => exact toLex_lt_toLex_of_lt (by decide) _ _
    | string y =>
      have hlex := isRank_compareUnits.lexCompare (utf16 x) (utf16 y)
      exact compares_toLex_right (compares_toLex_right hlex 0) 3

theorem isRank_compare : IsRank IndexValue.compare IndexValue.rank := by
  intro a b
  cases a with
  | empty =>
    cases b with
    | empty => rfl
    | leaf y => exact toLex_lt_toLex_of_lt (by decide) _ _
    | children => exact toLex_lt_toLex_of_lt (by decide) _ _
    | max => exact toLex_lt_toLex_of_lt (by decide) _ _
  | leaf x =>
    cases b with
    | empty => exact toLex_lt_toLex_of_lt (by decide) _ _
    | leaf y => exact compares_toLex_right (isRank_compareToLeafNode x y) 1
    | children => exact toLex_lt_toLex_of_lt (by decide) _ _
    | max => exact toLex_lt_toLex_of_lt (by decide) _ _
  | children =>
    cases b with
    | empty => exact toLex_lt_toLex_of_lt (by decide) _ _
    | leaf y => exact toLex_lt_toLex_of_lt (by decide) _ _
    | children => rfl
    | max => exact toLex_lt_toLex_of_lt (by decide) _ _
  | max =>
    cases b with
    | empty => exact toLex_lt_toLex_of_lt (by decide) _ _
    | leaf y => exact toLex_lt_toLex_of_lt (by decide) _ _
    | children => exact toLex_lt_toLex_of_lt (by decide) _ _
    | max => rfl

/-! ### Named nodes -/

/-- `FNamedNode`: a key, and what the index looks at in the node. -/
structure FNamedNode where
  name : FKey
  value : IndexValue
  deriving DecidableEq, Repr

/-- `compareNamedNode:toNamedNode:` of an index: by value, and then by key. -/
def compareNamedNode (a b : FNamedNode) : Ordering :=
  let indexCmp := a.value.compare b.value
  if indexCmp = .eq then compareKey a.name b.name else indexCmp

/-- The rank of a named node. -/
def FNamedNode.rank (a : FNamedNode) :
    (ℕ ×ₗ ℕ ×ₗ ℚ ×ₗ List ℕ) ×ₗ (ℕ ×ₗ ℤ ×ₗ ℕ ×ₗ List ℕ) :=
  toLex (a.value.rank, keyRank a.name)

/-- **The comparator of an index arranges all named nodes.** -/
theorem isRank_compareNamedNode : IsRank compareNamedNode FNamedNode.rank := by
  intro a b
  have hthen : compareNamedNode a b =
      (a.value.compare b.value).then (compareKey a.name b.name) := by
    unfold compareNamedNode
    cases a.value.compare b.value <;> rfl
  rw [hthen]
  exact (isRank_compare.comap FNamedNode.value).then (isRank_compareKey.comap FNamedNode.name) a b

/-! ### The children of a node -/

/-- A child: its name and its node. -/
@[ext] structure Child (ν : Type*) where
  name : String
  node : ν
  deriving DecidableEq, Repr

/-- The dictionaries of the client do not tell the names apart. -/
def SameKey (a b : String) : Prop := compareKey (.name a) (.name b) = .eq

instance : DecidableRel SameKey := fun a b =>
  inferInstanceAs (Decidable (compareKey (.name a) (.name b) = .eq))

theorem sameKey_iff {a b : String} : SameKey a b ↔ keyRank (.name a) = keyRank (.name b) :=
  isRank_compareKey.eq_iff

theorem SameKey.refl (a : String) : SameKey a a := sameKey_iff.mpr rfl

theorem SameKey.symm {a b : String} (h : SameKey a b) : SameKey b a :=
  sameKey_iff.mpr (sameKey_iff.mp h).symm

theorem SameKey.trans {a b c : String} (h : SameKey a b) (h' : SameKey b c) : SameKey a c :=
  sameKey_iff.mpr ((sameKey_iff.mp h).trans (sameKey_iff.mp h'))

/-- An arrangement of children by a ranked comparator that confuses no more than their keys. -/
structure ChildOrder (ν : Type*) where
  compare : Child ν → Child ν → Ordering
  isStrictOrder : ∀ reverse, IsStrictOrder (Child ν) (before (directed reverse compare))
  decided : ∀ a b, ¬ SameKey a.name b.name → before compare a b ∨ before compare b a

variable {ν : Type*}

/-- The order of the dictionary of an `FChildrenNode`. -/
def keyOrder (ν : Type*) : ChildOrder ν where
  compare a b := compareKey (.name a.name) (.name b.name)
  isStrictOrder := (isRank_compareKey.comap fun a : Child ν => .name a.name).isStrictOrder_directed
  decided _ _ := (isRank_compareKey.comap fun a : Child ν => .name a.name).before_or_before

/-- A child as the index sees it. -/
def Child.named (indexValue : ν → IndexValue) (child : Child ν) : FNamedNode :=
  ⟨.name child.name, indexValue child.node⟩

/-- The order of an index; `indexValue` is what it looks at in a node. -/
def indexOrder (indexValue : ν → IndexValue) : ChildOrder ν where
  compare a b := compareNamedNode (a.named indexValue) (b.named indexValue)
  isStrictOrder :=
    (isRank_compareNamedNode.comap (Child.named indexValue)).isStrictOrder_directed
  decided a b hkey := by
    refine (isRank_compareNamedNode.comap (Child.named indexValue)).before_or_before fun heq => ?_
    have hrank := (isRank_compareNamedNode.comap (Child.named indexValue)).eq_iff.mp heq
    exact hkey (sameKey_iff.mpr (Prod.ext_iff.mp (toLex_inj.mp hrank)).2)

/-- Sorting arranges children whose keys the dictionary tells apart. -/
theorem ChildOrder.pairwise_insertionSort (order : ChildOrder ν) {children : List (Child ν)}
    (apart : children.Pairwise fun a b => ¬ SameKey a.name b.name) :
    (children.insertionSort (before order.compare)).Pairwise (before order.compare) := by
  have : IsStrictOrder (Child ν) (before order.compare) := order.isStrictOrder false
  induction children with
  | nil => exact List.Pairwise.nil
  | cons child children ih =>
    obtain ⟨hchild, hchildren⟩ := List.pairwise_cons.mp apart
    refine pairwise_orderedInsert (ih hchildren) fun other hother => ?_
    exact order.decided child other (hchild other ((List.mem_insertionSort _).mp hother))

/-- The children of a node in an order. -/
@[ext] structure ChildSet (ν : Type*) [EmptyCollection ν] (order : ChildOrder ν) where
  children : List (Child ν)
  sorted : children.Pairwise (before order.compare)
  apart : children.Pairwise fun a b => ¬ SameKey a.name b.name
  nonempty : ∀ child ∈ children, child.node ≠ ∅

/-- `FChildrenNode`: the children in a dictionary by key. -/
abbrev FChildrenNode (ν : Type*) [EmptyCollection ν] := ChildSet ν (keyOrder ν)

/-- `FIndexedNode`: the children in a set by index. -/
abbrev FIndexedNode [EmptyCollection ν] (indexValue : ν → IndexValue) :=
  ChildSet ν (indexOrder indexValue)

namespace ChildSet

variable [EmptyCollection ν] {order : ChildOrder ν} (s : ChildSet ν order)

/-- The children of an empty node. -/
def empty (order : ChildOrder ν) : ChildSet ν order :=
  ⟨[], .nil, .nil, fun _ hc => absurd hc List.not_mem_nil⟩

/-- `getImmediateChild:`, an empty node where there is no child. -/
def getImmediateChild (key : String) : ν :=
  ((s.children.find? fun child => SameKey key child.name).map Child.node).getD ∅

/-- `numChildren`. -/
def numChildren : ℕ := s.children.length

/-- `firstChild`. -/
def firstChild : Option (Child ν) := s.children.head?

/-- `lastChild`. -/
def lastChild : Option (Child ν) := s.children.getLast?

/-- The children in a direction, as `enumerateChildrenReverse:` lists them. -/
def enumerate (reverse : Bool) : List (Child ν) :=
  if reverse then s.children.reverse else s.children

theorem length_enumerate (reverse : Bool) : (s.enumerate reverse).length = s.numChildren := by
  unfold enumerate
  cases reverse with
  | false => rfl
  | true => exact List.length_reverse

theorem eq_of_sameKey {a b : Child ν} (ha : a ∈ s.children) (hb : b ∈ s.children)
    (h : SameKey a.name b.name) : a = b := by
  have : Std.Symm fun a b : Child ν => ¬ SameKey a.name b.name := ⟨fun _ _ hab hba => hab hba.symm⟩
  by_contra hne
  exact s.apart.forall ha hb hne h

theorem getImmediateChild_of_mem {key : String} {child : Child ν} (hc : child ∈ s.children)
    (hkey : SameKey key child.name) : s.getImmediateChild key = child.node := by
  cases hfind : s.children.find? fun child => SameKey key child.name with
  | none => exact absurd (List.find?_eq_none.mp hfind child hc) (by simpa using hkey)
  | some found =>
    have hfound : SameKey key found.name := by simpa using List.find?_some hfind
    have heq := s.eq_of_sameKey (List.mem_of_find?_eq_some hfind) hc (hfound.symm.trans hkey)
    rw [getImmediateChild, hfind, heq]
    rfl

theorem getImmediateChild_eq_empty {key : String}
    (h : ∀ child ∈ s.children, ¬ SameKey key child.name) : s.getImmediateChild key = ∅ := by
  rw [getImmediateChild, List.find?_eq_none.mpr (by simpa using h)]
  rfl

theorem exists_of_getImmediateChild_ne {key : String} (h : s.getImmediateChild key ≠ ∅) :
    ∃ child ∈ s.children, SameKey key child.name ∧ child.node = s.getImmediateChild key := by
  by_contra hnone
  refine h (s.getImmediateChild_eq_empty fun child hc hkey => hnone ?_)
  exact ⟨child, hc, hkey, (s.getImmediateChild_of_mem hc hkey).symm⟩

/-- The children with other keys. -/
def others (key : String) : List (Child ν) :=
  s.children.filter fun child => ¬ SameKey child.name key

theorem mem_others {key : String} {child : Child ν} :
    child ∈ s.others key ↔ child ∈ s.children ∧ ¬ SameKey child.name key := by
  simp [others]

theorem others_decided (key : String) (node : ν) : ∀ child ∈ s.others key,
    before order.compare ⟨key, node⟩ child ∨ before order.compare child ⟨key, node⟩ := by
  intro child hc
  have hkey := (s.mem_others.mp hc).2
  exact order.decided ⟨key, node⟩ child fun h => hkey h.symm

/-- `ensureIndexed`: the children of a dictionary, sorted by an index. -/
def ensureIndexed (node : FChildrenNode ν) (indexValue : ν → IndexValue) :
    FIndexedNode indexValue where
  children := node.children.insertionSort (before (indexOrder indexValue).compare)
  sorted := (indexOrder indexValue).pairwise_insertionSort node.apart
  apart := ((List.perm_insertionSort _ _).pairwise_iff fun hab hba => hab hba.symm).mpr node.apart
  nonempty child hc := node.nonempty child ((List.mem_insertionSort _).mp hc)

theorem mem_ensureIndexed {node : FChildrenNode ν} {indexValue : ν → IndexValue}
    {child : Child ν} :
    child ∈ (node.ensureIndexed indexValue).children ↔ child ∈ node.children :=
  List.mem_insertionSort _

variable [DecidableEq ν]

/-- `hasChild:`. -/
def hasChild (key : String) : Bool := s.getImmediateChild key ≠ ∅

theorem hasChild_iff {key : String} :
    s.hasChild key = true ↔ ∃ child ∈ s.children, SameKey key child.name := by
  rw [hasChild, decide_eq_true_eq]
  constructor
  · intro h
    obtain ⟨child, hc, hkey, -⟩ := s.exists_of_getImmediateChild_ne h
    exact ⟨child, hc, hkey⟩
  · rintro ⟨child, hc, hkey⟩
    rw [s.getImmediateChild_of_mem hc hkey]
    exact s.nonempty child hc

/-- `updateImmediateChild:withNewChild:`, and `updateChild:withNewChild:` of an indexed node: an
empty node removes the child. -/
def updateChild (key : String) (newChild : ν) : ChildSet ν order where
  children :=
    if newChild = ∅ then s.others key
    else (s.others key).orderedInsert (before order.compare) ⟨key, newChild⟩
  sorted := by
    have : IsStrictOrder (Child ν) (before order.compare) := order.isStrictOrder false
    have hothers : (s.others key).Pairwise (before order.compare) := s.sorted.filter _
    split_ifs
    · exact hothers
    · exact pairwise_orderedInsert hothers (s.others_decided key newChild)
  apart := by
    have hothers : (s.others key).Pairwise fun a b => ¬ SameKey a.name b.name := s.apart.filter _
    split_ifs
    · exact hothers
    · refine ((List.perm_orderedInsert _ _ _).pairwise_iff fun hab hba => hab hba.symm).mpr ?_
      exact List.pairwise_cons.mpr ⟨fun child hc h => (s.mem_others.mp hc).2 h.symm, hothers⟩
  nonempty := by
    intro child hc
    split_ifs at hc with hempty
    · exact s.nonempty child (s.mem_others.mp hc).1
    · rcases (List.mem_orderedInsert _).mp hc with rfl | hc
      · exact hempty
      · exact s.nonempty child (s.mem_others.mp hc).1

/-- **What an update leaves**: the children with other keys, and the new child. -/
theorem mem_updateChild {key : String} {newChild : ν} {child : Child ν} :
    child ∈ (s.updateChild key newChild).children ↔
      (child ∈ s.children ∧ ¬ SameKey child.name key) ∨
        newChild ≠ ∅ ∧ child = ⟨key, newChild⟩ := by
  rw [updateChild]
  split_ifs with hempty
  · simp [mem_others, hempty]
  · rw [List.mem_orderedInsert, mem_others]
    simp [hempty, or_comm]

theorem numChildren_updateChild_empty_le (key : String) :
    (s.updateChild key ∅).numChildren ≤ s.numChildren := by
  have hchildren : (s.updateChild key ∅).children = s.others key := if_pos rfl
  rw [numChildren, hchildren]
  exact List.length_filter_le _ _

theorem numChildren_updateChild_le (key : String) (newChild : ν) :
    (s.updateChild key newChild).numChildren ≤ s.numChildren + 1 := by
  have hothers : (s.others key).length ≤ s.children.length := List.length_filter_le _ _
  rw [numChildren, updateChild]
  split_ifs
  · exact hothers.trans (Nat.le_succ _)
  · rw [List.orderedInsert_length]
    exact Nat.succ_le_succ hothers

end ChildSet

end TwitterLite
