import Mathlib.Data.List.Basic
import Mathlib.Data.List.Pairwise
import Mathlib.Data.List.Infix
import Mathlib.Data.List.Dedup

/-!
# Trees given by the paths of their leaves

A tree without empty nodes is determined by the paths of its leaves and the values there: no leaf
lies on the path of another one. Removing a path removes the leaves at and below it, and nodes
that become empty go with their last leaf, since they were never listed. The subtree at a path
keeps the leaves at and below it, with the rest of their paths.

Setting a path replaces what is at and below it, and a leaf above it. A node with distinct keys is
built by setting its children one after the other (`PathTree.object`), and its children are what was
set (`PathTree.subtree_setAll`).

Removing a path leaves the subtrees beside it alone (`PathTree.subtree_remove_of_not_isPrefix`) and
removes the rest of the path from those above it (`PathTree.subtree_remove_append`). It removes one
child and nothing else if it names that child, or if what it removes happens to be all that there
is (`PathTree.removesOnly_remove_iff`).

## Main definitions

* `PathTree`, `PathTree.subtree`, `PathTree.remove`, `PathTree.leafAt`, `PathTree.keys`.
* `PathTree.leaf`, `PathTree.set`, `PathTree.setAll`, `PathTree.object`.
* `PathTree.RemovesOnly`.

## Main results

* `PathTree.leafAt_subtree`, `PathTree.subtree_set_append`, `PathTree.subtree_setAll`,
  `PathTree.keys_object_perm`.
* `PathTree.subtree_remove_of_not_isPrefix`, `PathTree.subtree_remove_append`.
* `PathTree.removesOnly_remove_iff`.
-/

/-- A finite tree, as the list of its leaves with their paths. -/
@[ext]
structure PathTree (κ ν : Type*) where
  leaves : List (List κ × ν)
  incomparable : leaves.Pairwise fun a b => ¬ a.1 <+: b.1 ∧ ¬ b.1 <+: a.1

namespace PathTree

variable {κ ν : Type*}

/-- The tree without leaves. -/
def empty : PathTree κ ν := ⟨[], List.Pairwise.nil⟩

theorem eq_empty_iff {t : PathTree κ ν} : t = empty ↔ ∀ leaf, leaf ∉ t.leaves := by
  rw [PathTree.ext_iff, ← List.eq_nil_iff_forall_not_mem]
  rfl

variable {t : PathTree κ ν}

/-- No leaf lies below another one. -/
theorem eq_of_isPrefix {a b : List κ × ν} (ha : a ∈ t.leaves) (hb : b ∈ t.leaves)
    (hab : a.1 <+: b.1) : a = b := by
  by_contra hne
  have : Std.Symm fun a b : List κ × ν => ¬ a.1 <+: b.1 ∧ ¬ b.1 <+: a.1 := ⟨fun _ _ h => h.symm⟩
  exact (t.incomparable.forall ha hb hne).1 hab

variable [DecidableEq κ]

/-- The leaves at and below a path, with the rest of their paths. -/
def subtree (p : List κ) (t : PathTree κ ν) : PathTree κ ν where
  leaves := t.leaves.filterMap fun leaf => (leaf.1.dropPrefix? p).map fun rest => (rest, leaf.2)
  incomparable := by
    refine List.pairwise_filterMap.mpr (t.incomparable.imp fun {a b} hab => ?_)
    simp only [Option.map_eq_some_iff, List.dropPrefix?_eq_some_iff, beq_iff_eq]
    rintro _ ⟨r, ⟨_, ha, rfl⟩, rfl⟩ _ ⟨r', ⟨_, hb, rfl⟩, rfl⟩
    simpa only [ha, hb, List.prefix_append_right_inj] using hab

/-- The tree without the leaves at and below a path. -/
def remove (p : List κ) (t : PathTree κ ν) : PathTree κ ν where
  leaves := t.leaves.filter fun leaf => ¬ p <+: leaf.1
  incomparable := t.incomparable.sublist List.filter_sublist

/-- The value of the leaf at a path. -/
def leafAt (p : List κ) (t : PathTree κ ν) : Option ν :=
  (t.leaves.find? fun leaf => leaf.1 = p).map Prod.snd

/-- The first components of the paths. -/
def keys (t : PathTree κ ν) : List κ := (t.leaves.filterMap fun leaf => leaf.1.head?).dedup

variable {p q r : List κ}

theorem mem_subtree {leaf : List κ × ν} :
    leaf ∈ (subtree p t).leaves ↔ (p ++ leaf.1, leaf.2) ∈ t.leaves := by
  simp only [subtree, List.mem_filterMap, Option.map_eq_some_iff, List.dropPrefix?_eq_some_iff,
    beq_iff_eq]
  constructor
  · rintro ⟨⟨_, v⟩, hmem, rest, ⟨_, rfl, rfl⟩, rfl⟩
    exact hmem
  · exact fun hmem => ⟨_, hmem, _, ⟨_, rfl, rfl⟩, rfl⟩

theorem mem_remove {leaf : List κ × ν} :
    leaf ∈ (remove p t).leaves ↔ leaf ∈ t.leaves ∧ ¬ p <+: leaf.1 := by
  rw [remove, List.mem_filter, decide_eq_true_eq]

theorem mem_keys {k : κ} : k ∈ t.keys ↔ ∃ rest v, (k :: rest, v) ∈ t.leaves := by
  simp only [keys, List.mem_dedup, List.mem_filterMap, List.head?_eq_some_iff]
  constructor
  · rintro ⟨⟨_, v⟩, hmem, rest, rfl⟩
    exact ⟨rest, v, hmem⟩
  · exact fun ⟨rest, v, hmem⟩ => ⟨_, hmem, rest, rfl⟩

/-- A key is a child that is not empty. -/
theorem mem_keys_iff {k : κ} : k ∈ t.keys ↔ subtree [k] t ≠ empty := by
  rw [mem_keys, ne_eq, eq_empty_iff, not_forall]
  simp only [not_not, mem_subtree, List.singleton_append, Prod.exists]

theorem mem_of_leafAt {v : ν} (h : t.leafAt p = some v) : (p, v) ∈ t.leaves := by
  obtain ⟨⟨path, v'⟩, hfind, rfl⟩ := Option.map_eq_some_iff.mp h
  obtain rfl : path = p := by simpa using List.find?_some hfind
  exact List.mem_of_find?_eq_some hfind

theorem leafAt_eq_some_iff {v : ν} : t.leafAt p = some v ↔ (p, v) ∈ t.leaves := by
  refine ⟨mem_of_leafAt, fun hmem => ?_⟩
  cases hleaf : t.leafAt p with
  | none =>
    have hnone := List.find?_eq_none.mp (Option.map_eq_none_iff.mp hleaf) _ hmem
    simp at hnone
  | some v' => rw [eq_of_isPrefix (mem_of_leafAt hleaf) hmem List.prefix_rfl |> Prod.mk.inj |>.2]

/-- The leaves of a subtree are leaves of the tree. -/
theorem leafAt_subtree : (subtree q t).leafAt p = t.leafAt (q ++ p) :=
  Option.ext fun v => by rw [leafAt_eq_some_iff, leafAt_eq_some_iff, mem_subtree]

@[simp] theorem remove_nil : remove [] t = empty := by
  rw [eq_empty_iff]
  exact fun leaf hmem => (mem_remove.mp hmem).2 List.nil_prefix

/-- Removing a path leaves nothing exactly if every leaf lies at or below it. -/
theorem remove_eq_empty_iff : remove p t = empty ↔ ∀ leaf ∈ t.leaves, p <+: leaf.1 := by
  simp only [eq_empty_iff, mem_remove, not_and, not_not]

theorem isPrefix_of_dropPrefix? {rest : List κ} (h : p.dropPrefix? q = some rest) : q <+: p := by
  obtain ⟨_, hp, heq⟩ := List.dropPrefix?_eq_some_iff.mp h
  obtain rfl := beq_iff_eq.mp heq
  exact hp ▸ List.prefix_append _ _

/-! ### The frame of a removal -/

/-- The subtrees beside a removed path are left alone. -/
theorem subtree_remove_of_not_isPrefix (hpq : ¬ p <+: q) (hqp : ¬ q <+: p) :
    subtree q (remove p t) = subtree q t := by
  refine PathTree.ext ?_
  change (t.leaves.filter _).filterMap _ = t.leaves.filterMap _
  rw [List.filterMap_filter]
  refine List.filterMap_congr fun leaf _ => ?_
  by_cases hp : p <+: leaf.1
  · have hq : leaf.1.dropPrefix? q = none := by
      refine Option.eq_none_iff_forall_ne_some.mpr fun rest hrest => ?_
      obtain ⟨_, hleaf, heq⟩ := List.dropPrefix?_eq_some_iff.mp hrest
      obtain rfl := beq_iff_eq.mp heq
      rcases List.prefix_or_prefix_of_prefix hp (hleaf ▸ List.prefix_append _ rest) with h | h
      · exact hpq h
      · exact hqp h
    simp [hp, hq]
  · simp [hp]

/-- From a subtree above it the rest of a removed path is removed. -/
theorem subtree_remove_append : subtree q (remove (q ++ r) t) = remove r (subtree q t) := by
  refine PathTree.ext ?_
  change (t.leaves.filter _).filterMap _ = (t.leaves.filterMap _).filter _
  rw [List.filterMap_filter, List.filter_filterMap]
  refine List.filterMap_congr fun leaf _ => ?_
  cases hq : leaf.1.dropPrefix? q with
  | none => simp
  | some rest =>
    obtain ⟨_, hleaf, heq⟩ := List.dropPrefix?_eq_some_iff.mp hq
    obtain rfl := beq_iff_eq.mp heq
    simp only [hleaf, List.prefix_append_right_inj, Option.map_some, Option.filter]

/-- Nothing is left at a removed path. -/
@[simp] theorem subtree_remove_self : subtree p (remove p t) = empty := by
  have happend := subtree_remove_append (q := p) (r := []) (t := t)
  rwa [List.append_nil, remove_nil] at happend

/-! ### Setting a path -/

/-- The tree that is a single value. -/
def leaf (v : ν) : PathTree κ ν := ⟨[([], v)], List.pairwise_singleton _ _⟩

@[simp] theorem leafAt_leaf (v : ν) : (leaf v : PathTree κ ν).leafAt [] = some v :=
  leafAt_eq_some_iff.mpr (List.mem_singleton_self _)

@[simp] theorem subtree_empty : subtree p (empty : PathTree κ ν) = empty := rfl

/-- The tree with `value` at a path. A leaf above the path gives way, unless there is nothing to
set. -/
def set (p : List κ) (value t : PathTree κ ν) : PathTree κ ν where
  leaves := t.leaves.filter (fun leaf => ¬ p <+: leaf.1 ∧ (value.leaves = [] ∨ ¬ leaf.1 <+: p)) ++
    value.leaves.map fun leaf => (p ++ leaf.1, leaf.2)
  incomparable := by
    refine List.pairwise_append.mpr ⟨t.incomparable.sublist List.filter_sublist, ?_, ?_⟩
    · refine List.pairwise_map.mpr (value.incomparable.imp fun {a b} hab => ?_)
      simpa only [List.prefix_append_right_inj] using hab
    · intro a ha b hb
      obtain ⟨leaf, hleaf, rfl⟩ := List.mem_map.mp hb
      obtain ⟨hpa, hap⟩ := of_decide_eq_true (List.mem_filter.mp ha).2
      have hap : ¬ a.1 <+: p := hap.resolve_left (List.ne_nil_of_mem hleaf)
      refine ⟨fun h => ?_, fun h => hpa ((List.prefix_append p leaf.1).trans h)⟩
      exact (List.prefix_or_prefix_of_prefix h (List.prefix_append p leaf.1)).elim hap hpa

variable {value : PathTree κ ν}

/-- Below the set path is what was set, and nothing else. -/
theorem subtree_set_append : subtree q (set (q ++ r) value t) = set r value (subtree q t) := by
  refine PathTree.ext ?_
  change (t.leaves.filter _ ++ value.leaves.map _).filterMap _ =
    (t.leaves.filterMap _).filter _ ++ value.leaves.map _
  rw [List.filterMap_append, List.filterMap_filter, List.filter_filterMap, List.filterMap_map]
  congr 1
  · refine List.filterMap_congr fun leaf _ => ?_
    cases hq : leaf.1.dropPrefix? q with
    | none => simp
    | some rest =>
      obtain ⟨_, hleaf, heq⟩ := List.dropPrefix?_eq_some_iff.mp hq
      obtain rfl := beq_iff_eq.mp heq
      simp only [hleaf, List.prefix_append_right_inj, Option.map_some, Option.filter]
  · rw [← List.filterMap_eq_map]
    refine List.filterMap_congr fun leaf _ => ?_
    have hdrop : (q ++ r ++ leaf.1).dropPrefix? q = some (r ++ leaf.1) :=
      List.dropPrefix?_eq_some_iff.mpr ⟨q, by simp, by simp⟩
    simp only [Function.comp_apply, hdrop, Option.map_some]

@[simp] theorem set_nil : set [] value t = value := by
  refine PathTree.ext ?_
  simp [set]

theorem subtree_set_self : subtree p (set p value t) = value := by
  have happend := @subtree_set_append _ _ t _ p [] value
  rwa [List.append_nil, set_nil] at happend

/-- The subtrees beside a set path are left alone. -/
theorem subtree_set_of_not_isPrefix (hpq : ¬ p <+: q) (hqp : ¬ q <+: p) :
    subtree q (set p value t) = subtree q t := by
  refine PathTree.ext ?_
  change (t.leaves.filter _ ++ value.leaves.map _).filterMap _ = t.leaves.filterMap _
  have hnew : (value.leaves.map fun leaf => (p ++ leaf.1, leaf.2)).filterMap
      (fun leaf => (leaf.1.dropPrefix? q).map fun rest => (rest, leaf.2)) = [] := by
    refine List.filterMap_eq_nil_iff.mpr fun leaf hmem => ?_
    obtain ⟨leaf, -, rfl⟩ := List.mem_map.mp hmem
    refine Option.map_eq_none_iff.mpr (Option.eq_none_iff_forall_ne_some.mpr fun rest hrest => ?_)
    have hqleaf := isPrefix_of_dropPrefix? hrest
    exact (List.prefix_or_prefix_of_prefix hqleaf (List.prefix_append p leaf.1)).elim hqp hpq
  rw [List.filterMap_append, hnew, List.append_nil, List.filterMap_filter]
  refine List.filterMap_congr fun leaf _ => ?_
  cases hq : leaf.1.dropPrefix? q with
  | none => simp
  | some rest =>
    have hqleaf := isPrefix_of_dropPrefix? hq
    have hp : ¬ p <+: leaf.1 := fun h =>
      (List.prefix_or_prefix_of_prefix h hqleaf).elim hpq hqp
    have hleaf : ¬ leaf.1 <+: p := fun h => hqp (hqleaf.trans h)
    simp [hp, hleaf]

/-- Set a child, if there is something to set. -/
def setField (t : PathTree κ ν) (field : κ × Option (PathTree κ ν)) : PathTree κ ν :=
  match field.2 with
  | some value => set [field.1] value t
  | none => t

/-- The tree after some of its children have been set, one after the other. -/
def setAll (fields : List (κ × Option (PathTree κ ν))) (t : PathTree κ ν) : PathTree κ ν :=
  fields.foldl setField t

/-- The tree with the given children. -/
def object (fields : List (κ × Option (PathTree κ ν))) : PathTree κ ν := setAll fields empty

theorem subtree_setField_self (k : κ) (value : Option (PathTree κ ν)) :
    subtree [k] (setField t (k, value)) = value.getD (subtree [k] t) := by
  cases value with
  | none => rfl
  | some value => exact subtree_set_self

theorem subtree_setField_of_ne {k k' : κ} (h : k' ≠ k) (value : Option (PathTree κ ν)) :
    subtree [k'] (setField t (k, value)) = subtree [k'] t := by
  cases value with
  | none => rfl
  | some value =>
    exact subtree_set_of_not_isPrefix (fun hp => h (List.cons_prefix_cons.mp hp).1.symm)
      fun hp => h (List.cons_prefix_cons.mp hp).1

/-- **The children of a tree after setting some of them**: what was set, and else what was there. -/
theorem subtree_setAll {fields : List (κ × Option (PathTree κ ν))}
    (h : (fields.map Prod.fst).Nodup) (k : κ) :
    subtree [k] (setAll fields t) = ((fields.lookup k).join).getD (subtree [k] t) := by
  induction fields generalizing t with
  | nil => rfl
  | cons field fields ih =>
    obtain ⟨k₀, value⟩ := field
    obtain ⟨hnot, hnodup⟩ := List.nodup_cons.mp h
    rw [setAll, List.foldl_cons, ← setAll, ih hnodup, List.lookup_cons]
    by_cases hk : k = k₀
    · subst hk
      have hlookup : fields.lookup k = none := by
        refine List.lookup_eq_none_iff.mpr fun p hp => bne_iff_ne.mpr fun heq => hnot ?_
        have hmem : p.1 ∈ fields.map Prod.fst := List.mem_map_of_mem hp
        rwa [← heq] at hmem
      rw [hlookup, subtree_setField_self]
      cases value <;> simp
    · rw [subtree_setField_of_ne hk, beq_false_of_ne hk]

/-- The children of an object are its fields. -/
theorem subtree_object {fields : List (κ × Option (PathTree κ ν))}
    (h : (fields.map Prod.fst).Nodup) (k : κ) :
    subtree [k] (object fields) = ((fields.lookup k).join).getD empty := by
  rw [object, subtree_setAll h, subtree_empty]

theorem subtree_object_of_mem {fields : List (κ × Option (PathTree κ ν))}
    (h : (fields.map Prod.fst).Nodup) {k : κ} {value : Option (PathTree κ ν)}
    (hmem : (k, value) ∈ fields) : subtree [k] (object fields) = value.getD empty := by
  obtain ⟨before, after, rfl⟩ := List.append_of_mem hmem
  have hbefore : ∀ field ∈ before, k != field.1 := by
    intro field hfield
    rw [List.map_append, List.map_cons] at h
    have hdisjoint := (List.nodup_append.mp h).2.2 field.1 (List.mem_map_of_mem hfield)
    exact bne_iff_ne.mpr (hdisjoint k List.mem_cons_self).symm
  rw [subtree_object h, List.lookup_eq_some_iff.mpr ⟨before, after, rfl, hbefore⟩, Option.join_some]

theorem subtree_object_of_child {children : List (κ × PathTree κ ν)}
    (h : (children.map Prod.fst).Nodup) {child : κ × PathTree κ ν} (hchild : child ∈ children) :
    subtree [child.1] (object (children.map fun child => (child.1, some child.2))) = child.2 := by
  have hmem : (child.1, some child.2) ∈ children.map fun child => (child.1, some child.2) :=
    List.mem_map.mpr ⟨child, hchild, rfl⟩
  refine subtree_object_of_mem ?_ hmem
  rwa [List.map_map]

/-- The keys of a tree with given children, none of them empty, in some order. -/
theorem keys_object_perm {children : List (κ × PathTree κ ν)}
    (h : (children.map Prod.fst).Nodup) (hne : ∀ child ∈ children, child.2 ≠ empty) :
    (object (children.map fun child => (child.1, some child.2))).keys.Perm
      (children.map Prod.fst) := by
  have hfields : ((children.map fun child => (child.1, some child.2)).map Prod.fst).Nodup := by
    rwa [List.map_map]
  refine (List.perm_ext_iff_of_nodup (List.nodup_dedup _) h).mpr fun k => ?_
  rw [← keys, mem_keys_iff]
  constructor
  · intro hk
    by_contra hnot
    have hlookup : (children.map fun child => (child.1, some child.2)).lookup k = none := by
      refine List.lookup_eq_none_iff.mpr fun field hfield => bne_iff_ne.mpr fun heq => hnot ?_
      obtain ⟨child, hchild, rfl⟩ := List.mem_map.mp hfield
      exact heq ▸ List.mem_map_of_mem hchild
    rw [subtree_object hfields, hlookup] at hk
    exact hk rfl
  · intro hk
    obtain ⟨child, hchild, rfl⟩ := List.mem_map.mp hk
    rw [subtree_object_of_child h hchild]
    exact hne child hchild

/-! ### Removing one child -/

/-- `t'` is `t` without the child `k`: every other child is as it was. -/
structure RemovesOnly (k : κ) (t t' : PathTree κ ν) : Prop where
  subtree_eq_empty : subtree [k] t' = empty
  subtree_eq : ∀ k' ≠ k, subtree [k'] t' = subtree [k'] t

theorem keys_eq_singleton {k : κ} (hk : k ∈ t.keys) (h : ∀ k' ∈ t.keys, k' = k) : t.keys = [k] :=
  List.perm_singleton.mp <|
    (List.perm_ext_iff_of_nodup (List.nodup_dedup _) (List.nodup_singleton k)).mpr fun k' =>
      ⟨fun hk' => List.mem_singleton.mpr (h k' hk'), fun hk' => List.mem_singleton.mp hk' ▸ hk⟩

/-- If there is a leaf below `k`, every leaf is below `k` exactly if there is no other key. -/
theorem forall_singleton_prefix_iff {k : κ} (hk : k ∈ t.keys) :
    (∀ leaf ∈ t.leaves, [k] <+: leaf.1) ↔ t.keys = [k] := by
  constructor
  · refine fun h => keys_eq_singleton hk fun k' hk' => ?_
    obtain ⟨rest, v, hmem⟩ := mem_keys.mp hk'
    exact (List.cons_prefix_cons.mp (h _ hmem)).1.symm
  · rintro hkeys ⟨path, v⟩ hmem
    cases path with
    | nil =>
      -- a leaf at the root would be the whole tree
      obtain ⟨rest, v', hmem'⟩ := mem_keys.mp hk
      exact nomatch congrArg Prod.fst (eq_of_isPrefix hmem hmem' List.nil_prefix)
    | cons k' rest =>
      have hk' : k' ∈ t.keys := mem_keys.mpr ⟨rest, v, hmem⟩
      rw [hkeys, List.mem_singleton] at hk'
      exact List.cons_prefix_cons.mpr ⟨hk'.symm, List.nil_prefix⟩

theorem removesOnly_empty_iff {k : κ} (hk : k ∈ t.keys) :
    RemovesOnly k t empty ↔ t.keys = [k] := by
  constructor
  · refine fun h => keys_eq_singleton hk fun k' hk' => ?_
    by_contra hne
    exact mem_keys_iff.mp hk' (h.subtree_eq k' hne).symm
  · refine fun hkeys => ⟨rfl, fun k' hne => ?_⟩
    have hk' : k' ∉ t.keys := by
      rwa [hkeys, List.mem_singleton]
    exact (not_not.mp (mt mem_keys_iff.mpr hk')).symm

/-- **Removing a path removes one child and nothing else** if the path leads to that child, or
below it to everything the child holds, or if it is empty and the child is the only one. -/
theorem removesOnly_remove_iff {k : κ} (hk : k ∈ t.keys) :
    RemovesOnly k t (remove p t) ↔
      p = [] ∧ t.keys = [k] ∨
        ∃ rest, p = k :: rest ∧ ∀ leaf ∈ (subtree [k] t).leaves, rest <+: leaf.1 := by
  cases p with
  | nil =>
    rw [remove_nil, removesOnly_empty_iff hk]
    simp
  | cons k₀ rest =>
    have hbelow : subtree [k₀] (remove (k₀ :: rest) t) = remove rest (subtree [k₀] t) :=
      subtree_remove_append (q := [k₀])
    have hbeside {k' : κ} (hne : k' ≠ k₀) :
        subtree [k'] (remove (k₀ :: rest) t) = subtree [k'] t := by
      refine subtree_remove_of_not_isPrefix (fun h => ?_) fun h => ?_
      · exact hne (List.cons_prefix_cons.mp h).1.symm
      · exact hne (List.cons_prefix_cons.mp h).1
    by_cases hk₀ : k₀ = k
    · subst hk₀
      simp only [reduceCtorEq, false_and, false_or, List.cons.injEq, true_and, exists_eq_left']
      rw [← remove_eq_empty_iff, ← hbelow]
      exact ⟨fun h => h.subtree_eq_empty, fun h => ⟨h, fun k' hne => hbeside hne⟩⟩
    · refine iff_of_false (fun h => ?_) (by simp [hk₀])
      exact mem_keys_iff.mp hk ((hbeside (Ne.symm hk₀)).symm.trans h.subtree_eq_empty)

end PathTree
