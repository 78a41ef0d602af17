import TwitterLite.Library.LastWriter
import TwitterLite.Library.PathTree

/-!
# Values set at paths, one after the other

A list of writes, each with a path and the value that is set there, is replayed on a tree by setting
the values in order (`PathTree.replay`). What the writes say about a whole subtree can be known
without the tree: the last write at or above its path determines it, and the writes below that came
later are made in the value of that write (`PathTree.completeAt`). Where no write is at or above a
path, the leaf there is that of the tree, provided it is not displaced by something below it.

If no leaf lies above a written path, a leaf after the replay is found at the last write at or above
it, and otherwise in the tree (`PathTree.leafAt_replay`). So two lists of writes with the same last
writes have the same replay.

## Main definitions

* `PathTree.OpenAt`, `PathTree.place`.
* `PathTree.replay`, `PathTree.completeAt`, `PathTree.lastAt`, `PathTree.Compatible`.

## Main results

* `PathTree.subtree_replay`, `PathTree.leafAt_replay_of_not_isPrefix`.
* `PathTree.completeAt_drop_shadowed`.
* `PathTree.leafAt_replay`, `PathTree.leafAt_replay_congr`.
-/

namespace PathTree

variable {κ ν : Type*} [DecidableEq κ] {t t' value : PathTree κ ν} {p q r : List κ}

theorem dropPrefix?_append (s : List κ) :
    (p ++ s).dropPrefix? (p ++ q) = s.dropPrefix? q := by
  refine Option.ext fun rest => ?_
  simp only [List.dropPrefix?_eq_some_iff, beq_iff_eq, exists_eq_right, List.append_assoc,
    List.append_cancel_left_eq]

/-- A subtree of a subtree. -/
theorem subtree_subtree : subtree q (subtree p t) = subtree (p ++ q) t := by
  refine PathTree.ext ?_
  change (t.leaves.filterMap _).filterMap _ = t.leaves.filterMap _
  rw [List.filterMap_filterMap]
  refine List.filterMap_congr fun leaf _ => ?_
  cases hp : leaf.1.dropPrefix? p with
  | none =>
    have hpq : leaf.1.dropPrefix? (p ++ q) = none := by
      refine Option.eq_none_iff_forall_ne_some.mpr fun rest hrest => ?_
      obtain ⟨s, hs⟩ := (List.prefix_append p q).trans (isPrefix_of_dropPrefix? hrest)
      rw [← hs, List.dropPrefix?_append_of_beq s BEq.rfl] at hp
      exact nomatch hp
    rw [hpq]
    rfl
  | some rest =>
    obtain ⟨_, hleaf, heq⟩ := List.dropPrefix?_eq_some_iff.mp hp
    obtain rfl := beq_iff_eq.mp heq
    simp only [hleaf, dropPrefix?_append, Option.map_some, Option.bind_some]

theorem subtree_set_append_append : subtree (p ++ r) (set p value t) = subtree r value := by
  rw [← subtree_subtree, subtree_set_self]

theorem leafAt_eq_none_iff : t.leafAt p = none ↔ ∀ v, (p, v) ∉ t.leaves := by
  simp only [Option.eq_none_iff_forall_ne_some, ne_eq, leafAt_eq_some_iff]

/-! ### Setting and removing -/

/-- No leaf of the tree lies above a path. -/
def OpenAt (p : List κ) (t : PathTree κ ν) : Prop :=
  ∀ leaf ∈ t.leaves, leaf.1 <+: p → leaf.1 = p

theorem mem_set {leaf : List κ × ν} :
    leaf ∈ (set p value t).leaves ↔
      leaf ∈ t.leaves ∧ ¬ p <+: leaf.1 ∧ (value.leaves = [] ∨ ¬ leaf.1 <+: p) ∨
        ∃ rest, (rest, leaf.2) ∈ value.leaves ∧ p ++ rest = leaf.1 := by
  simp only [set, List.mem_append, List.mem_filter, decide_eq_true_eq, List.mem_map]
  refine or_congr Iff.rfl ⟨?_, ?_⟩
  · rintro ⟨⟨rest, v⟩, hmem, rfl⟩
    exact ⟨rest, hmem, rfl⟩
  · rintro ⟨rest, hmem, hleaf⟩
    exact ⟨_, hmem, Prod.ext hleaf rfl⟩

/-- Setting a value does not touch the leaves outside its path that it does not displace. -/
theorem leafAt_set_of_not_isPrefix (hpr : ¬ p <+: r) (hr : r <+: p → t.leafAt r = none) :
    (set p value t).leafAt r = t.leafAt r := by
  refine Option.ext fun v => ?_
  rw [leafAt_eq_some_iff, leafAt_eq_some_iff, mem_set]
  constructor
  · rintro (⟨hmem, -⟩ | ⟨rest, -, rfl⟩)
    · exact hmem
    · exact absurd (List.prefix_append p rest) hpr
  · refine fun hmem => .inl ⟨hmem, hpr, .inr fun hrp => ?_⟩
    exact leafAt_eq_none_iff.mp (hr hrp) v hmem

theorem leafAt_set_append : (set p value t).leafAt (p ++ r) = value.leafAt r := by
  rw [← leafAt_subtree, subtree_set_self]

/-- What is outside a path after a value has been set below it depends on what was outside. -/
theorem remove_set_congr (h : remove q t = remove q t') :
    remove q (set p value t) = remove q (set p value t') := by
  have hleaves : t.leaves.filter (fun leaf => ¬ q <+: leaf.1) =
      t'.leaves.filter (fun leaf => ¬ q <+: leaf.1) := congrArg leaves h
  refine PathTree.ext ?_
  simp only [remove, set, List.filter_append]
  rw [List.filter_comm, hleaves, List.filter_comm]

/-- Setting a value at a path forgets what was there before. -/
theorem set_congr (h : remove p t = remove p t') : set p value t = set p value t' := by
  have hfilter (t : PathTree κ ν) :
      t.leaves.filter (fun leaf => ¬ p <+: leaf.1 ∧ (value.leaves = [] ∨ ¬ leaf.1 <+: p)) =
        (remove p t).leaves.filter fun leaf => value.leaves = [] ∨ ¬ leaf.1 <+: p := by
    rw [remove, List.filter_filter]
    refine List.filter_congr fun leaf _ => ?_
    rw [Bool.decide_and, Bool.and_comm]
  refine PathTree.ext ?_
  change List.filter _ t.leaves ++ _ = List.filter _ t'.leaves ++ _
  rw [hfilter t, hfilter t', h]

/-- Outside a path nothing changes if a value is set below it that displaces no leaf above. -/
theorem remove_set_of_isPrefix (hqp : q <+: p) (ht : OpenAt p t) :
    remove q (set p value t) = remove q t := by
  refine PathTree.ext ?_
  simp only [remove, set, List.filter_append, List.filter_filter]
  have hnew : (value.leaves.map fun leaf => (p ++ leaf.1, leaf.2)).filter
      (fun leaf => ¬ q <+: leaf.1) = [] := by
    refine List.filter_eq_nil_iff.mpr fun leaf hleaf => ?_
    obtain ⟨leaf, -, rfl⟩ := List.mem_map.mp hleaf
    simpa using hqp.trans (List.prefix_append p leaf.1)
  rw [hnew, List.append_nil]
  refine List.filter_congr fun leaf hleaf => ?_
  by_cases hq : q <+: leaf.1
  · simp [hq]
  · have hp : ¬ p <+: leaf.1 := fun h => hq (hqp.trans h)
    have hup : ¬ leaf.1 <+: p := fun h => hq (ht leaf hleaf h ▸ hqp)
    simp [hq, hp, hup]

/-- The tree with a value at a path, and nothing else. -/
def place (p : List κ) (value : PathTree κ ν) : PathTree κ ν := set p value empty

theorem mem_place {leaf : List κ × ν} :
    leaf ∈ (place p value).leaves ↔ ∃ rest, (rest, leaf.2) ∈ value.leaves ∧ p ++ rest = leaf.1 := by
  rw [place, mem_set, or_iff_right]
  exact fun h => absurd h.1 List.not_mem_nil

/-! ### Replaying writes -/

/-- The tree after the writes have been made, one after the other. -/
def replay (writes : List (List κ × PathTree κ ν)) (t : PathTree κ ν) : PathTree κ ν :=
  writes.foldl (fun t write => set write.1 write.2 t) t

/-- What one more write says about the subtree at `r`. -/
def completeStep (r : List κ) (known : Option (PathTree κ ν)) (write : List κ × PathTree κ ν) :
    Option (PathTree κ ν) :=
  if write.1 <+: r then some (subtree (r.drop write.1.length) write.2)
  else if r <+: write.1 then known.map (set (write.1.drop r.length) write.2)
  else known

/-- The subtree at `r` as far as the writes alone determine it: as the last write at or above `r`
has it, with the later writes below `r` made in it. -/
def completeAt (r : List κ) (writes : List (List κ × PathTree κ ν)) : Option (PathTree κ ν) :=
  writes.foldl (completeStep r) none

variable {write : List κ × PathTree κ ν} {writes later : List (List κ × PathTree κ ν)}

theorem replay_append : replay (writes ++ later) t = replay later (replay writes t) :=
  List.foldl_append

@[simp] theorem completeAt_nil : completeAt r ([] : List (List κ × PathTree κ ν)) = none := rfl

theorem completeAt_append_singleton :
    completeAt r (writes ++ [write]) = completeStep r (completeAt r writes) write :=
  List.foldl_append

section Below

variable {known : Option (PathTree κ ν)}

/-- A write at or above `q` sets the whole subtree at `q ++ r`. -/
theorem completeStep_of_isPrefix (h : write.1 <+: q) :
    completeStep (q ++ r) known write =
      some (subtree r (subtree (q.drop write.1.length) write.2)) := by
  obtain ⟨rest, rfl⟩ := h
  rw [completeStep, if_pos ((List.prefix_append _ _).trans (List.prefix_append _ _)),
    List.append_assoc, List.drop_left, List.drop_left, subtree_subtree]

/-- For a write below `q` only the rest of its path counts. -/
theorem completeStep_append_append :
    completeStep (q ++ r) known (q ++ p, value) = completeStep r known (p, value) := by
  simp only [completeStep, List.prefix_append_right_inj, List.length_append,
    List.drop_length_add_append]

/-- A write beside `q` says nothing about what is below `q`. -/
theorem completeStep_of_not_isPrefix (hwq : ¬ write.1 <+: q) (hqw : ¬ q <+: write.1) :
    completeStep (q ++ r) known write = known := by
  have hbelow : ¬ write.1 <+: q ++ r := fun h =>
    (List.prefix_or_prefix_of_prefix h (List.prefix_append q r)).elim hwq hqw
  have habove : ¬ q ++ r <+: write.1 := fun h => hqw ((List.prefix_append q r).trans h)
  rw [completeStep, if_neg hbelow, if_neg habove]

end Below

/-- **What the writes determine is what their replay leaves**, on whatever tree. -/
theorem subtree_replay {node : PathTree κ ν} (h : completeAt r writes = some node) :
    subtree r (replay writes t) = node := by
  induction writes using List.reverseRecOn generalizing node with
  | nil => exact nomatch h
  | append_singleton writes write ih =>
    rw [completeAt_append_singleton, completeStep] at h
    rw [replay_append]
    change subtree r (set write.1 write.2 (replay writes t)) = node
    by_cases hr : write.1 <+: r
    · obtain ⟨rest, rfl⟩ := hr
      rw [if_pos (List.prefix_append _ _), List.drop_left, Option.some.injEq] at h
      rw [subtree_set_append_append, h]
    · rw [if_neg hr] at h
      by_cases hw : r <+: write.1
      · obtain ⟨rest, hrest⟩ := hw
        rw [if_pos ⟨rest, hrest⟩, Option.map_eq_some_iff] at h
        obtain ⟨known, hknown, rfl⟩ := h
        rw [← hrest, List.drop_left, subtree_set_append, ih hknown]
      · rw [if_neg hw] at h
        rw [subtree_set_of_not_isPrefix hr hw, ih h]

theorem completeAt_eq_none_iff :
    completeAt r writes = none ↔ ∀ write ∈ writes, ¬ write.1 <+: r := by
  induction writes using List.reverseRecOn with
  | nil => simp
  | append_singleton writes write ih =>
    rw [completeAt_append_singleton, completeStep, List.forall_mem_append,
      List.forall_mem_singleton, ← ih]
    by_cases hr : write.1 <+: r
    · simp [hr]
    · by_cases hw : r <+: write.1 <;> simp [hr, hw]

/-- Among writes of which none is below another, the one at or above a path determines it. -/
theorem completeAt_of_mem (h : writes.Pairwise fun a b => ¬ a.1 <+: b.1 ∧ ¬ b.1 <+: a.1)
    (hmem : write ∈ writes) (hr : write.1 <+: r) :
    completeAt r writes = some (subtree (r.drop write.1.length) write.2) := by
  induction writes using List.reverseRecOn with
  | nil => exact absurd hmem List.not_mem_nil
  | append_singleton writes last ih =>
    rw [completeAt_append_singleton, completeStep]
    obtain ⟨hpairwise, -, hlast⟩ := List.pairwise_append.mp h
    rcases List.mem_append.mp hmem with hbefore | hnew
    · obtain ⟨hwl, hlw⟩ := hlast write hbefore last (List.mem_singleton_self _)
      rw [ih hpairwise hbefore, if_neg fun hlr =>
        (List.prefix_or_prefix_of_prefix hr hlr).elim hwl hlw, if_neg fun hrl => hwl (hr.trans hrl)]
    · rw [← List.mem_singleton.mp hnew, if_pos hr]

/-- Writes beside `q` can be left out for what is at and below `q`. -/
theorem completeAt_filter {keep : List κ × PathTree κ ν → Bool}
    (h : ∀ write ∈ writes, keep write = false → ¬ write.1 <+: q ∧ ¬ q <+: write.1) :
    completeAt (q ++ r) (writes.filter keep) = completeAt (q ++ r) writes := by
  induction writes using List.reverseRecOn with
  | nil => rfl
  | append_singleton writes write ih =>
    rw [List.forall_mem_append, List.forall_mem_singleton] at h
    rw [List.filter_append, List.filter_singleton, completeAt_append_singleton, ← ih h.1]
    cases hkeep : keep write with
    | false =>
      rw [completeStep_of_not_isPrefix (h.2 hkeep).1 (h.2 hkeep).2, cond_false, List.append_nil]
    | true => rw [cond_true, completeAt_append_singleton]

/-- Where no write is at or above a path, the leaf is that of the tree, unless a value has been set
below it. -/
theorem leafAt_replay_of_not_isPrefix (h : ∀ write ∈ writes, ¬ write.1 <+: r)
    (hopen : ∀ write ∈ writes, OpenAt write.1 t) : (replay writes t).leafAt r = t.leafAt r := by
  induction writes using List.reverseRecOn with
  | nil => rfl
  | append_singleton writes write ih =>
    rw [List.forall_mem_append, List.forall_mem_singleton] at h hopen
    rw [replay_append]
    change (set write.1 write.2 (replay writes t)).leafAt r = t.leafAt r
    have hrest := ih h.1 hopen.1
    rw [leafAt_set_of_not_isPrefix h.2 fun hr => ?_, hrest]
    rw [hrest, leafAt_eq_none_iff]
    rintro v hmem
    exact h.2 ((hopen.2 _ hmem hr).symm ▸ List.prefix_rfl)

theorem mem_replay {leaf : List κ × ν} (h : leaf ∈ (replay writes t).leaves) :
    leaf ∈ t.leaves ∨ ∃ write ∈ writes, leaf ∈ (place write.1 write.2).leaves := by
  induction writes using List.reverseRecOn with
  | nil => exact .inl h
  | append_singleton writes write ih =>
    rw [replay_append] at h
    rcases mem_set.mp h with ⟨hmem, -⟩ | hnew
    · refine (ih hmem).imp_right fun ⟨write', hwrite', hleaf⟩ => ?_
      exact ⟨write', List.mem_append_left _ hwrite', hleaf⟩
    · exact .inr ⟨write, List.mem_append_right _ (List.mem_singleton_self _), mem_place.mpr hnew⟩

/-- Every leaf that the writes determine has been placed by one of them. -/
theorem mem_completeAt {node : PathTree κ ν} (h : completeAt r writes = some node)
    {leaf : List κ × ν} (hleaf : leaf ∈ node.leaves) :
    ∃ write ∈ writes, (r ++ leaf.1, leaf.2) ∈ (place write.1 write.2).leaves := by
  rw [← subtree_replay (t := empty) h, mem_subtree] at hleaf
  exact (mem_replay hleaf).resolve_left List.not_mem_nil

/-! ### Writes that a later one covers -/

variable {cover : List κ × PathTree κ ν} {known known' : Option (PathTree κ ν)}

theorem map_eq_map_of_imp {α β γ : Type*} {f : α → β} {g : α → γ} {x y : Option α}
    (himp : ∀ a b, f a = f b → g a = g b) (h : x.map f = y.map f) : x.map g = y.map g := by
  cases x with
  | none =>
    cases y with
    | none => rfl
    | some b => exact nomatch h
  | some a =>
    cases y with
    | none => exact nomatch h
    | some b => exact congrArg some (himp a b (Option.some.inj h))

theorem map_remove_completeStep (h : known.map (remove q) = known'.map (remove q)) :
    (completeStep r known write).map (remove q) = (completeStep r known' write).map (remove q) := by
  rw [completeStep, completeStep]
  split_ifs with hr hw
  · rfl
  · rw [Option.map_map, Option.map_map]
    exact map_eq_map_of_imp (fun _ _ => remove_set_congr) h
  · exact h

theorem map_remove_foldl (h : known.map (remove q) = known'.map (remove q)) :
    (writes.foldl (completeStep r) known).map (remove q) =
      (writes.foldl (completeStep r) known').map (remove q) := by
  induction writes generalizing known known' with
  | nil => exact h
  | cons write writes ih => exact ih (map_remove_completeStep h)

theorem completeStep_congr (h : known.map (remove q) = known'.map (remove q))
    (hq : write.1 = r ++ q) : completeStep r known write = completeStep r known' write := by
  have hmap : known.map (set q write.2) = known'.map (set q write.2) :=
    map_eq_map_of_imp (fun _ _ => set_congr) h
  rw [completeStep, completeStep, hq, List.drop_left, hmap, if_pos (List.prefix_append r q),
    if_pos (List.prefix_append r q)]

/-- **A write that a later one covers leaves no trace**, provided it displaced no leaf above it. -/
theorem completeAt_drop_shadowed (hcover : cover ∈ later) (hcovers : cover.1 <+: write.1)
    (hopen : ∀ earlier ∈ writes, OpenAt write.1 (place earlier.1 earlier.2)) :
    completeAt r (writes ++ write :: later) = completeAt r (writes ++ later) := by
  obtain ⟨between, after, rfl⟩ := List.append_of_mem hcover
  -- after the covering write it makes no difference whether `write` has been made
  suffices h : ∀ known, known = completeAt r writes →
      completeStep r (between.foldl (completeStep r) (completeStep r known write)) cover =
        completeStep r (between.foldl (completeStep r) known) cover by
    simp only [completeAt, List.foldl_append, List.foldl_cons] at h ⊢
    rw [h _ rfl]
  rintro known hknown
  by_cases hcr : cover.1 <+: r
  · simp only [completeStep, if_pos hcr]
  have hwr : ¬ write.1 <+: r := fun h => hcr (hcovers.trans h)
  by_cases hrc : r <+: cover.1
  · obtain ⟨rest, hrest⟩ := hrc
    refine completeStep_congr (map_remove_foldl ?_) hrest.symm
    obtain ⟨below, hbelow⟩ := hcovers
    rw [← hrest, List.append_assoc] at hbelow
    rw [completeStep, if_neg hwr, if_pos ⟨_, hbelow⟩, ← hbelow, List.drop_left]
    cases known with
    | none => rfl
    | some node =>
      refine congrArg some
        (remove_set_of_isPrefix (List.prefix_append _ _) fun leaf hleaf hup => ?_)
      obtain ⟨earlier, hearlier, hplaced⟩ := mem_completeAt hknown.symm hleaf
      have heq := hopen earlier hearlier _ hplaced
      rw [← hbelow, List.prefix_append_right_inj, List.append_cancel_left_eq] at heq
      exact heq hup
  · have hrw : ¬ r <+: write.1 := fun h =>
      (List.prefix_or_prefix_of_prefix hcovers h).elim hcr hrc
    rw [completeStep.eq_def r known write, if_neg hwr, if_neg hrw]

/-- A write that none of the earlier ones is above says something only at and below its path. -/
theorem completeAt_drop_of_not_isPrefix (h : ∀ earlier ∈ writes, ¬ earlier.1 <+: write.1)
    (hr : ¬ write.1 <+: r) : completeAt r (writes ++ write :: later) =
      completeAt r (writes ++ later) := by
  have hstep : completeStep r (completeAt r writes) write = completeAt r writes := by
    rw [completeStep, if_neg hr]
    split_ifs with hrw
    · have hnone : completeAt r writes = none :=
        completeAt_eq_none_iff.mpr fun earlier hearlier her => h earlier hearlier (her.trans hrw)
      rw [hnone, Option.map_none]
    · rfl
  simp only [completeAt, List.foldl_append, List.foldl_cons] at hstep ⊢
  rw [hstep]

/-! ### The last write at or above a path -/

/-- The last write at or above a path. -/
def lastAt (r : List κ) (writes : List (List κ × PathTree κ ν)) : Option (List κ × PathTree κ ν) :=
  writes.findRev? fun write => write.1 <+: r

/-- No write lies below a leaf, neither of the tree nor of another write. -/
def Compatible (writes : List (List κ × PathTree κ ν)) (t : PathTree κ ν) : Prop :=
  ∀ write ∈ writes, OpenAt write.1 t ∧
    ∀ write' ∈ writes, OpenAt write.1 (place write'.1 write'.2)

theorem Compatible.mono (h : Compatible writes t) (hsub : later ⊆ writes) : Compatible later t :=
  fun write hwrite => ⟨(h write (hsub hwrite)).1,
    fun write' hwrite' => (h write (hsub hwrite)).2 write' (hsub hwrite')⟩

/-- **A leaf after a replay** is that of the last write at or above it, or else that of the tree. -/
theorem leafAt_replay (h : Compatible writes t) :
    (replay writes t).leafAt r =
      match lastAt r writes with
      | some write => write.2.leafAt (r.drop write.1.length)
      | none => t.leafAt r := by
  induction writes using List.reverseRecOn with
  | nil => rfl
  | append_singleton writes write ih =>
    have hwrite := h write (List.mem_append_right _ (List.mem_singleton_self _))
    rw [replay_append, lastAt, LastWriter.findRev?_append_singleton]
    change (set write.1 write.2 (replay writes t)).leafAt r = _
    by_cases hr : write.1 <+: r
    · obtain ⟨rest, rfl⟩ := hr
      rw [leafAt_set_append]
      simp
    · rw [leafAt_set_of_not_isPrefix hr fun hrw => ?_, ih (h.mono (List.subset_append_left _ _))]
      · simp only [hr, decide_false, Bool.false_eq_true, if_false]
        rfl
      · refine leafAt_eq_none_iff.mpr fun v hmem => hr ?_
        rcases mem_replay hmem with hold | ⟨write', hwrite', hplaced⟩
        · exact hwrite.1 _ hold hrw ▸ List.prefix_rfl
        · exact hwrite.2 write' (List.mem_append_left _ hwrite') _ hplaced hrw ▸ List.prefix_rfl

/-- Lists of writes with the same last writes have the same replay. -/
theorem leafAt_replay_congr (h : Compatible writes t) (hlater : Compatible later t)
    (hlast : lastAt r writes = lastAt r later) :
    (replay writes t).leafAt r = (replay later t).leafAt r := by
  rw [leafAt_replay h, leafAt_replay hlater, hlast]

end PathTree
