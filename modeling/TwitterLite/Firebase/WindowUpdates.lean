import TwitterLite.Firebase.LimitedFilter

/-!
# Window updates agree with the full filter

When one child of a node changes, the client edits the window of a limited query instead of
filtering the node again. The edit takes one of several ways: nothing changes, the window is not
full, a child of a full window changes and stays, changes and is replaced by the next one behind the
window, or a child from outside pushes out the last one. Each of them leaves the window on the
changed node (`FLimitedFilter.holdsWindow_updateChildIn`), so after every sequence of changes the
edited window is the one that filtering the whole node gives
(`FLimitedFilter.run_updateChildIn`). The dictionaries must not confuse two keys that occur.

## Main definitions

* `TwitterLite.FLimitedFilter.IsNext`, `TwitterLite.FLimitedFilter.Changed`,
  `TwitterLite.FLimitedFilter.Full`.
* `TwitterLite.FLimitedFilter.applyChange`, `TwitterLite.FLimitedFilter.fullWindow`.

## Main results

* `TwitterLite.FLimitedFilter.isNext_calculateNextNodeAfterPost`.
* `TwitterLite.FLimitedFilter.holdsWindow_updateChildIn`.
* `TwitterLite.FLimitedFilter.run_updateChildIn`.

Source: `FLimitedFilter.m`, lines 47–191; `FWriteTree.m`, lines 416–457; `FViewProcessor.m`,
lines 86–98 and 293–389.
-/

namespace TwitterLite

open Comparator Window

namespace FLimitedFilter

variable {ν : Type*} (filter : FLimitedFilter ν)

/-! ### The next child -/

/-- The first of some children in the direction of the query, if there is one. -/
structure IsNext (S : Set (Child ν)) (next : Option (Child ν)) : Prop where
  mem : ∀ n ∈ next, n ∈ S
  first : ∀ n ∈ next, ∀ m ∈ S, m = n ∨ filter.ahead n m
  none : next = none → ∀ m, m ∉ S

variable {filter} in
theorem IsNext.congr {S S' : Set (Child ν)} {next : Option (Child ν)}
    (h : filter.IsNext S next) (hS : ∀ m, m ∈ S ↔ m ∈ S') : filter.IsNext S' next where
  mem n hn := (hS n).mp (h.mem n hn)
  first n hn m hm := h.first n hn m ((hS m).mpr hm)
  none hnone m hm := h.none hnone m ((hS m).mpr hm)

/-- The child that is looked up is the first one behind the post, in whatever order the children
are listed. -/
theorem isNext_calculateNextNodeAfterPost {toIterate : List (Child ν)}
    (apart : toIterate.Pairwise fun a b => ¬ SameKey a.name b.name) (post : Child ν) :
    filter.IsNext {child | child ∈ toIterate ∧ filter.ahead post child}
      (calculateNextNodeAfterPost filter.indexValue filter.reverse toIterate post) := by
  have hgt (a b : Child ν) : directed filter.reverse (indexOrder filter.indexValue).compare a b =
      .gt ↔ filter.ahead b a := filter.isRank_index.directed_gt_iff
  induction toIterate using List.reverseRecOn with
  | nil => exact ⟨by simp [calculateNextNodeAfterPost], by simp [calculateNextNodeAfterPost],
      by simp⟩
  | append_singleton toIterate child ih =>
    obtain ⟨hapart, -, hchild⟩ := List.pairwise_append.mp apart
    obtain ⟨hmem, hfirst, hnone⟩ := ih hapart
    rw [calculateNextNodeAfterPost, List.foldl_append, ← calculateNextNodeAfterPost,
      List.foldl_cons, List.foldl_nil]
    generalize calculateNextNodeAfterPost filter.indexValue filter.reverse toIterate post =
      currentNext at hmem hfirst hnone
    simp only [Set.mem_ofPred_eq] at hmem hfirst hnone
    split_ifs with hnext
    · -- the child is behind the post, and before what was found so far
      obtain ⟨hbehind, hbefore⟩ := hnext
      rw [hgt] at hbehind
      refine ⟨?_, ?_, by simp⟩
      · rintro n ⟨⟩
        exact ⟨List.mem_concat_self, hbehind⟩
      · rintro n ⟨⟩ m ⟨hm, hpost⟩
        rcases List.mem_append.mp hm with hm | hm
        · cases currentNext with
          | none => exact absurd ⟨hm, hpost⟩ (hnone rfl m)
          | some next =>
            have hlt : filter.ahead child next := of_decide_eq_true hbefore
            rcases hfirst next rfl m ⟨hm, hpost⟩ with rfl | hnm
            · exact .inr hlt
            · exact .inr (trans_of filter.ahead hlt hnm)
        · exact .inl (List.mem_singleton.mp hm)
    · rw [hgt] at hnext
      have hlater : filter.ahead post child → ∃ next ∈ currentNext, filter.ahead next child := by
        intro hbehind
        cases currentNext with
        | none => exact absurd ⟨hbehind, by simp⟩ hnext
        | some next =>
          refine ⟨next, rfl, filter.ahead_of_not_ahead ?_ fun hlt => hnext ⟨hbehind, ?_⟩⟩
          · exact fun hkey => hchild next (hmem next rfl).1 child (List.mem_singleton_self _)
              hkey.symm
          · exact decide_eq_true hlt
      refine ⟨fun n hn => ⟨List.mem_append_left _ (hmem n hn).1, (hmem n hn).2⟩, ?_, ?_⟩
      · rintro n hn m ⟨hm, hpost⟩
        rcases List.mem_append.mp hm with hm | hm
        · exact hfirst n hn m ⟨hm, hpost⟩
        · obtain rfl := List.mem_singleton.mp hm
          obtain ⟨next, hnext, hlt⟩ := hlater hpost
          obtain rfl := Option.mem_unique hn hnext
          exact .inr hlt
      · rintro rfl m ⟨hm, hpost⟩
        rcases List.mem_append.mp hm with hm | hm
        · exact hnone rfl m ⟨hm, hpost⟩
        · obtain rfl := List.mem_singleton.mp hm
          obtain ⟨next, hnext, -⟩ := hlater hpost
          cases hnext

/-! ### The window after a change of one child -/

variable [EmptyCollection ν]

/-- A change of the children of a node: `key` has the new child now, if it is not empty. -/
structure Changed (children children' : List (Child ν)) (newChild : Child ν) : Prop where
  mem_iff : ∀ child, child ∈ children' ↔
    (child ∈ children ∧ child.name ≠ newChild.name) ∨ newChild.node ≠ ∅ ∧ child = newChild
  apart : children.Pairwise fun a b => ¬ SameKey a.name b.name
  told : ∀ child ∈ children, SameKey child.name newChild.name → child.name = newChild.name

variable {children children' : List (Child ν)} {newChild : Child ν}
  {snap : FIndexedNode filter.indexValue}

theorem mem_of_mem_snap (hwindow : filter.HoldsWindow children snap) {child : Child ν}
    (hc : child ∈ snap.children) : child ∈ children :=
  (hwindow.mem child (filter.mem_enumerate.mpr hc)).1

section

variable {filter}

/-- A window depends on the children only, not on how they are listed. -/
theorem HoldsWindow.congr
    (hwindow : filter.HoldsWindow children snap) (h : ∀ child, child ∈ children ↔
      child ∈ children') : filter.HoldsWindow children' snap :=
  hwindow.of_subset (fun child hc => (hwindow.mem child hc).imp_left (h child).mp)
    fun child hc => hc.imp_left (h child).mpr

/-- There is one snapshot that holds the window. -/
theorem HoldsWindow.unique {snap' : FIndexedNode filter.indexValue}
    (h : filter.HoldsWindow children snap)
    (h' : filter.HoldsWindow children snap') : snap = snap' := by
  have heq := IsFirst.unique h h'
  refine ChildSet.ext ?_
  unfold ChildSet.enumerate at heq
  cases hreverse : filter.reverse with
  | false => simpa only [hreverse, Bool.false_eq_true, if_false] using heq
  | true => simpa only [hreverse, if_true, List.reverse_inj] using heq

end

namespace Changed

section

variable (h : Changed children children' newChild)

include h

theorem eq_of_sameKey {a b : Child ν} (ha : a ∈ children) (hb : b ∈ children)
    (hkey : SameKey a.name b.name) : a = b := by
  have : Std.Symm fun a b : Child ν => ¬ SameKey a.name b.name := ⟨fun _ _ hab hba => hab hba.symm⟩
  by_contra hne
  exact h.apart.forall ha hb hne hkey

theorem eq_of_name_eq {a b : Child ν} (ha : a ∈ children) (hb : b ∈ children)
    (hname : a.name = b.name) : a = b :=
  h.eq_of_sameKey ha hb (hname ▸ SameKey.refl _)

/-- The children in the range after the change. -/
theorem mem_inRange {child : Child ν} : child ∈ filter.inRange children' ↔
    (child ∈ filter.inRange children ∧ child.name ≠ newChild.name) ∨
      newChild.node ≠ ∅ ∧ child = newChild ∧ filter.matchesKey newChild = true := by
  simp only [inRange, Set.mem_ofPred_eq, h.mem_iff]
  constructor
  · rintro ⟨⟨hc, hname⟩ | ⟨hne, rfl⟩, hmatch⟩
    · exact .inl ⟨⟨hc, hmatch⟩, hname⟩
    · exact .inr ⟨hne, rfl, hmatch⟩
  · rintro (⟨⟨hc, hmatch⟩, hname⟩ | ⟨hne, rfl, hmatch⟩)
    · exact ⟨.inl ⟨hc, hname⟩, hmatch⟩
    · exact ⟨.inr ⟨hne, rfl⟩, hmatch⟩

end

variable (h : Changed children children' newChild) (hwindow : filter.HoldsWindow children snap)

include h hwindow

/-- In the snapshot, too, no key is confused with that of the new child. -/
theorem sameKey_iff_of_mem {child : Child ν} (hc : child ∈ snap.children) :
    SameKey child.name newChild.name ↔ child.name = newChild.name :=
  ⟨h.told child (mem_of_mem_snap filter hwindow hc), fun hname => hname ▸ SameKey.refl _⟩

/-- Nothing changes in the snapshot if the changed child was not there and is not in the range. -/
theorem holdsWindow_of_absent (habsent : ∀ child ∈ snap.children, child.name ≠ newChild.name)
    (hout : filter.matchesKey newChild = true → newChild.node = ∅) :
    filter.HoldsWindow children' snap := by
  refine hwindow.of_subset (fun child hc => ?_) fun child hc => ?_
  · refine (h.mem_inRange filter).mpr (.inl ⟨hwindow.mem child hc, ?_⟩)
    exact habsent child (filter.mem_enumerate.mp hc)
  · rcases (h.mem_inRange filter).mp hc with ⟨hc, -⟩ | ⟨hne, -, hmatch⟩
    · exact hc
    · exact absurd (hout hmatch) hne

/-- Nothing changes in the snapshot if it holds the new child already. -/
theorem holdsWindow_of_mem (hmem : newChild ∈ snap.children) :
    filter.HoldsWindow children' snap := by
  have hnew := hwindow.mem newChild (filter.mem_enumerate.mpr hmem)
  refine hwindow.of_subset (fun child hc => (h.mem_inRange filter).mpr ?_) fun child hc => ?_
  · have hold := hwindow.mem child hc
    by_cases hname : child.name = newChild.name
    · exact .inr ⟨snap.nonempty newChild hmem, h.eq_of_name_eq hold.1 hnew.1 hname, hnew.2⟩
    · exact .inl ⟨hold, hname⟩
  · rcases (h.mem_inRange filter).mp hc with ⟨hc, -⟩ | ⟨-, rfl, -⟩
    · exact hc
    · exact hnew

variable [DecidableEq ν]

/-- What an update of the snapshot under the changed key leaves. -/
theorem mem_updateChild {node : ν} {child : Child ν} :
    child ∈ (snap.updateChild newChild.name node).children ↔
      (child ∈ snap.children ∧ child.name ≠ newChild.name) ∨
        node ≠ ∅ ∧ child = ⟨newChild.name, node⟩ := by
  rw [snap.mem_updateChild]
  refine or_congr_left (and_congr_right fun hc => not_congr ?_)
  exact h.sameKey_iff_of_mem filter hwindow hc

/-- A window that is not full holds all there is, and takes in the new child. -/
theorem holdsWindow_updateChild_of_lt (hroom : snap.numChildren < filter.limit) {node : ν}
    (hnode : node = if filter.matchesKey newChild = true then newChild.node else ∅) :
    filter.HoldsWindow children' (snap.updateChild newChild.name node) := by
  have hall {child : Child ν} : child ∈ snap.children ↔ child ∈ filter.inRange children := by
    refine ⟨fun hc => hwindow.mem child (filter.mem_enumerate.mpr hc), fun hc => ?_⟩
    have hroom' := (snap.length_enumerate filter.reverse).trans_lt hroom
    exact filter.mem_enumerate.mp (hwindow.complete hroom' child hc)
  refine isFirst_all (filter.pairwise_enumerate _) (fun child => ?_) ?_
  · rw [filter.mem_enumerate, h.mem_updateChild filter hwindow, h.mem_inRange filter, hall]
    refine or_congr_right ?_
    by_cases hmatch : filter.matchesKey newChild = true
    · rw [hnode, if_pos hmatch, and_iff_left hmatch]
    · rw [hnode, if_neg hmatch]
      exact iff_of_false (fun hand => hand.1 rfl) fun hand => hmatch hand.2.2
  · rw [ChildSet.length_enumerate]
    exact (snap.numChildren_updateChild_le _ _).trans hroom

end Changed

/-! ### A full window -/

/-- The snapshot holds a full window of the children, and the boundary is its last child. -/
structure Full (children : List (Child ν)) (snap : FIndexedNode filter.indexValue)
    (boundary : Child ν) : Prop where
  holdsWindow : filter.HoldsWindow children snap
  numChildren_eq : snap.numChildren = filter.limit
  boundary_mem : boundary ∈ snap.children
  last : ∀ child ∈ snap.children, child = boundary ∨ filter.ahead child boundary

/-- The children behind a window, but for the changed one. -/
def behind (children : List (Child ν)) (newChild boundary : Child ν) : Set (Child ν) :=
  {child | child ∈ children ∧ child.name ≠ newChild.name ∧ filter.ahead boundary child}

namespace Full

variable {filter} {boundary : Child ν} (w : filter.Full children snap boundary)

include w

theorem mem {child : Child ν} (hc : child ∈ snap.children) : child ∈ children :=
  mem_of_mem_snap filter w.holdsWindow hc

theorem length_eq : (snap.enumerate filter.reverse).length = filter.limit :=
  (snap.length_enumerate filter.reverse).trans w.numChildren_eq

/-- A child in the range that the window does not hold comes after it. -/
theorem ahead_of_notMem {child : Child ν} (hc : child ∈ filter.inRange children)
    (hnot : child ∉ snap.children) : ∀ a ∈ snap.children, filter.ahead a child := fun a ha =>
  w.holdsWindow.before a (filter.mem_enumerate.mpr ha) child hc fun hmem =>
    hnot (filter.mem_enumerate.mp hmem)

theorem mem_behind {child : Child ν} (hc : child ∈ filter.inRange children)
    (hne : child.name ≠ newChild.name) (hnot : child ∉ snap.children) :
    child ∈ filter.behind children newChild boundary :=
  ⟨hc.1, hne, w.ahead_of_notMem hc hnot boundary w.boundary_mem⟩

theorem notMem_of_mem_behind {child : Child ν}
    (hc : child ∈ filter.behind children newChild boundary) : child ∉ snap.children := by
  intro hmem
  rcases w.last child hmem with rfl | hlt
  · exact irrefl_of filter.ahead child hc.2.2
  · exact asymm_of filter.ahead hlt hc.2.2

end Full

section

variable {filter} {boundary : Child ν} (h : Changed children children' newChild)
  (w : filter.Full children snap boundary)

include h w

/-- The child that the source returns behind a full window, or behind the changed child if that is
what it returns, is the next one behind the window. -/
theorem isNext_behind [DecidableEq ν] {newSnap : FChildrenNode ν}
    (hnew : newSnap.children = children') {next : Option (Child ν)}
    (hnext : next = (calculateNextNodeAfterPost filter.indexValue filter.reverse children'
      boundary).bind fun next =>
        if next.name = newChild.name ∨ snap.hasChild next.name = true then
          calculateNextNodeAfterPost filter.indexValue filter.reverse children' next
        else some next) :
    filter.IsNext (filter.behind children newChild boundary) next := by
  have hfirst := filter.isNext_calculateNextNodeAfterPost (hnew ▸ newSnap.apart) boundary
  cases hsource : calculateNextNodeAfterPost filter.indexValue filter.reverse children'
      boundary with
  | none =>
    rw [hsource] at hnext hfirst
    subst hnext
    refine ⟨by simp, by simp, fun _ m ⟨hm, hname, hahead⟩ => hfirst.none rfl m ⟨?_, hahead⟩⟩
    exact (h.mem_iff m).mpr (.inl ⟨hm, hname⟩)
  | some n =>
    rw [hsource] at hnext hfirst
    obtain ⟨hn, hahead⟩ := hfirst.mem n rfl
    rw [Option.bind_some] at hnext
    rcases (h.mem_iff n).mp hn with ⟨hold, hname⟩ | ⟨-, rfl⟩
    · -- no child of the window is behind it
      have hnot : ¬ (n.name = newChild.name ∨ snap.hasChild n.name = true) := by
        rintro (heq | hhas)
        · exact hname heq
        · obtain ⟨a, ha, hkey⟩ := snap.hasChild_iff.mp hhas
          obtain rfl := h.eq_of_sameKey hold (w.mem ha) hkey
          exact w.notMem_of_mem_behind ⟨hold, hname, hahead⟩ ha
      rw [if_neg hnot] at hnext
      subst hnext
      refine ⟨?_, ?_, by simp⟩
      · rintro m ⟨⟩
        exact ⟨hold, hname, hahead⟩
      · rintro m ⟨⟩ m' ⟨hm', hname', hahead'⟩
        exact hfirst.first _ rfl m' ⟨(h.mem_iff m').mpr (.inl ⟨hm', hname'⟩), hahead'⟩
    · -- the changed child comes first behind the window: what follows is behind it
      rw [if_pos (.inl rfl)] at hnext
      have hsecond := filter.isNext_calculateNextNodeAfterPost (hnew ▸ newSnap.apart) n
      rw [← hnext] at hsecond
      refine hsecond.congr fun m => ⟨?_, ?_⟩
      · rintro ⟨hm, hlt⟩
        rcases (h.mem_iff m).mp hm with ⟨hm, hname⟩ | ⟨-, rfl⟩
        · exact ⟨hm, hname, trans_of filter.ahead hahead hlt⟩
        · exact absurd hlt (irrefl_of filter.ahead m)
      · rintro ⟨hm, hname, hlt⟩
        have hm' := (h.mem_iff m).mpr (.inl ⟨hm, hname⟩)
        rcases hfirst.first n rfl m ⟨hm', hlt⟩ with rfl | hlt'
        · exact absurd rfl hname
        · exact ⟨hm', hlt'⟩

variable {old : Child ν} {next : Option (Child ν)}

/-- The rest of the window is in the range after the change. -/
theorem mem_inRange_of_ne (hold : old ∈ snap.children) (hname : old.name = newChild.name)
    {child : Child ν} (hc : child ∈ snap.children) (hne : child ≠ old) :
    child ∈ filter.inRange children' := by
  refine (h.mem_inRange filter).mpr
    (.inl ⟨w.holdsWindow.mem child (filter.mem_enumerate.mpr hc), fun heq => hne ?_⟩)
  exact h.eq_of_name_eq (w.mem hc) (w.mem hold) (heq.trans hname.symm)

/-- A child from outside stays behind a full window. -/
theorem holdsWindow_kept (habsent : ∀ child ∈ snap.children, child.name ≠ newChild.name)
    (hlt : filter.ahead boundary newChild) : filter.HoldsWindow children' snap := by
  refine w.holdsWindow.of_behind w.length_eq (fun child hc => ?_) fun m hm _ => ?_
  · exact (h.mem_inRange filter).mpr (.inl
      ⟨w.holdsWindow.mem child hc, habsent child (filter.mem_enumerate.mp hc)⟩)
  · rcases (h.mem_inRange filter).mp hm with ⟨hm, -⟩ | ⟨-, rfl, -⟩
    · exact .inl hm
    · refine .inr fun a ha => ?_
      rcases w.last a (filter.mem_enumerate.mp ha) with rfl | hlt'
      · exact hlt
      · exact trans_of filter.ahead hlt' hlt

variable [DecidableEq ν]

/-- What is left of the window without the changed child. -/
theorem mem_updateChild_old (hold : old ∈ snap.children) (hname : old.name = newChild.name)
    {node : ν} {child : Child ν} :
    child ∈ (snap.updateChild newChild.name node).children ↔
      (child ∈ snap.children ∧ child ≠ old) ∨ node ≠ ∅ ∧ child = ⟨newChild.name, node⟩ := by
  rw [h.mem_updateChild filter w.holdsWindow]
  refine or_congr_left (and_congr_right fun hc => not_congr ⟨fun heq => ?_, fun heq => ?_⟩)
  · exact h.eq_of_name_eq (w.mem hc) (w.mem hold) (heq.trans hname.symm)
  · rw [heq, hname]

/-- The changed child stays in a full window if it is before the next child. -/
theorem holdsWindow_stays (hold : old ∈ snap.children) (hname : old.name = newChild.name)
    (hnext : filter.IsNext (filter.behind children newChild boundary) next)
    (hne : newChild.node ≠ ∅) (hmatch : filter.matchesKey newChild = true)
    (hstays : ∀ n ∈ next, ¬ filter.ahead n newChild) :
    filter.HoldsWindow children' (snap.updateChild newChild.name newChild.node) := by
  have hmem (child : Child ν) : child ∈ (snap.updateChild newChild.name newChild.node).enumerate
      filter.reverse ↔ child = newChild ∨ child ∈ snap.enumerate filter.reverse ∧ child ≠ old := by
    rw [filter.mem_enumerate, mem_updateChild_old h w hold hname, filter.mem_enumerate, or_comm,
      and_iff_right hne]
  refine w.holdsWindow.exchange w.length_eq (filter.mem_enumerate.mpr hold) (fun hin => ?_)
    (filter.pairwise_enumerate _) hmem (fun child hc => ?_) fun m hm hnot => ?_
  · exact h.eq_of_name_eq (w.mem (filter.mem_enumerate.mp hin)) (w.mem hold) hname.symm
  · rcases (hmem child).mp hc with rfl | ⟨hc, hother⟩
    · exact (h.mem_inRange filter).mpr (.inr ⟨hne, rfl, hmatch⟩)
    · exact mem_inRange_of_ne h w hold hname (filter.mem_enumerate.mp hc) hother
  · rw [hmem, not_or] at hnot
    rcases (h.mem_inRange filter).mp hm with ⟨hm, hm'⟩ | ⟨-, heq, -⟩
    · have hout : m ∉ snap.children := fun hin =>
        hnot.2 ⟨filter.mem_enumerate.mpr hin, fun heq => hm' (heq ▸ hname)⟩
      refine ⟨?_, fun a ha _ => w.ahead_of_notMem hm hout a (filter.mem_enumerate.mp ha)⟩
      cases hn : next with
      | none => exact absurd (w.mem_behind hm hm' hout) (hnext.none hn m)
      | some n =>
        have hlt : filter.ahead newChild n := by
          refine filter.ahead_of_not_ahead (fun hkey => ?_) (hstays n hn)
          exact (hnext.mem n hn).2.1 (h.told n (hnext.mem n hn).1 hkey)
        rcases hnext.first n hn m (w.mem_behind hm hm' hout) with rfl | hlt'
        · exact hlt
        · exact trans_of filter.ahead hlt hlt'
    · exact absurd heq hnot.1

/-- The changed child leaves a full window, and the next child takes its place. -/
theorem holdsWindow_replaced (hold : old ∈ snap.children) (hname : old.name = newChild.name)
    {n : Child ν} (hnonempty : n.node ≠ ∅)
    (hnext : filter.IsNext (filter.behind children newChild boundary) (some n))
    (hmatch : filter.matchesKey n = true)
    (hleaves : newChild ∈ filter.inRange children' → filter.ahead n newChild) :
    filter.HoldsWindow children'
      ((snap.updateChild newChild.name ∅).updateChild n.name n.node) := by
  have hn := hnext.mem n rfl
  have hout : n ∉ snap.children := w.notMem_of_mem_behind hn
  have hafter := w.ahead_of_notMem ⟨hn.1, hmatch⟩ hout
  have hmem (child : Child ν) : child ∈
      ((snap.updateChild newChild.name ∅).updateChild n.name n.node).enumerate filter.reverse ↔
        child = n ∨ child ∈ snap.enumerate filter.reverse ∧ child ≠ old := by
    rw [filter.mem_enumerate, ChildSet.mem_updateChild, mem_updateChild_old h w hold hname,
      filter.mem_enumerate, or_comm, and_iff_right hnonempty]
    refine or_congr_right ⟨fun hand => hand.1.resolve_right fun hne => hne.1 rfl, fun hand => ?_⟩
    refine ⟨.inl hand, fun hkey => hout ?_⟩
    exact h.eq_of_sameKey (w.mem hand.1) hn.1 hkey ▸ hand.1
  refine w.holdsWindow.exchange w.length_eq (filter.mem_enumerate.mpr hold)
    (fun hin => absurd (filter.mem_enumerate.mp hin) hout) (filter.pairwise_enumerate _) hmem
    (fun child hc => ?_) fun m hm hnot => ?_
  · rcases (hmem child).mp hc with rfl | ⟨hc, hother⟩
    · exact (h.mem_inRange filter).mpr (.inl ⟨⟨hn.1, hmatch⟩, hn.2.1⟩)
    · exact mem_inRange_of_ne h w hold hname (filter.mem_enumerate.mp hc) hother
  · rw [hmem, not_or] at hnot
    rcases (h.mem_inRange filter).mp hm with ⟨hm, hm'⟩ | ⟨-, rfl, -⟩
    · have hmout : m ∉ snap.children := fun hin =>
        hnot.2 ⟨filter.mem_enumerate.mpr hin, fun heq => hm' (heq ▸ hname)⟩
      refine ⟨?_, fun a ha _ => w.ahead_of_notMem hm hmout a (filter.mem_enumerate.mp ha)⟩
      exact (hnext.first n rfl m (w.mem_behind hm hm' hmout)).resolve_left hnot.1
    · have hlt := hleaves hm
      exact ⟨hlt, fun a ha _ =>
        trans_of filter.ahead (hafter a (filter.mem_enumerate.mp ha)) hlt⟩

/-- The changed child leaves a full window, and there is none in the range to take its place. -/
theorem holdsWindow_shrinks (hold : old ∈ snap.children) (hname : old.name = newChild.name)
    (hnext : filter.IsNext (filter.behind children newChild boundary) next)
    (hout : ∀ n ∈ next, filter.matchesKey n ≠ true)
    (hleaves : newChild ∈ filter.inRange children' → ∃ n ∈ next, filter.ahead n newChild) :
    filter.HoldsWindow children' (snap.updateChild newChild.name ∅) := by
  have hbound := w.holdsWindow.mem boundary (filter.mem_enumerate.mpr w.boundary_mem)
  have hempty {m : Child ν} (hm : filter.matchesKey m = true) {n : Child ν} (hn : n ∈ next) :
      ¬ filter.ahead n m := fun hlt =>
    hout n hn (filter.matchesKey_of_between hbound.2 hm (hnext.mem n hn).2.2 hlt)
  refine isFirst_all (filter.pairwise_enumerate _) (fun child => ?_) ?_
  · rw [filter.mem_enumerate, mem_updateChild_old h w hold hname]
    constructor
    · rintro (⟨hc, hother⟩ | ⟨hne, -⟩)
      · exact mem_inRange_of_ne h w hold hname hc hother
      · exact absurd rfl hne
    · intro hc
      rcases (h.mem_inRange filter).mp hc with ⟨hm, hm'⟩ | ⟨-, rfl, hmatch⟩
      · refine .inl ⟨?_, fun heq => hm' (heq ▸ hname)⟩
        by_contra hmout
        have hbehind := w.mem_behind hm hm' hmout
        cases hn : next with
        | none => exact hnext.none hn child hbehind
        | some n =>
          rcases hnext.first n hn child hbehind with rfl | hlt
          · exact hout child hn hm.2
          · exact hempty hm.2 hn hlt
      · obtain ⟨n, hn, hlt⟩ := hleaves hc
        exact absurd hlt (hempty hmatch hn)
  · rw [ChildSet.length_enumerate, ← w.numChildren_eq]
    exact snap.numChildren_updateChild_empty_le _

/-- A child from outside enters a full window, and pushes out its last child. -/
theorem holdsWindow_pushed (habsent : ∀ child ∈ snap.children, child.name ≠ newChild.name)
    (hne : newChild.node ≠ ∅) (hmatch : filter.matchesKey newChild = true)
    (hlt : filter.ahead newChild boundary) :
    filter.HoldsWindow children'
      ((snap.updateChild newChild.name newChild.node).updateChild boundary.name ∅) := by
  have hkey : ¬ SameKey newChild.name boundary.name := fun hkey =>
    habsent boundary w.boundary_mem (h.told boundary (w.mem w.boundary_mem) hkey.symm)
  have hmem (child : Child ν) : child ∈ ((snap.updateChild newChild.name
      newChild.node).updateChild boundary.name ∅).enumerate filter.reverse ↔
        child = newChild ∨ child ∈ snap.enumerate filter.reverse ∧ child ≠ boundary := by
    rw [filter.mem_enumerate, ChildSet.mem_updateChild, h.mem_updateChild filter w.holdsWindow,
      filter.mem_enumerate]
    constructor
    · rintro (⟨⟨hc, -⟩ | ⟨-, rfl⟩, hkey'⟩ | ⟨hempty, -⟩)
      · exact .inr ⟨hc, fun heq => hkey' (heq ▸ SameKey.refl _)⟩
      · exact .inl rfl
      · exact absurd rfl hempty
    · rintro (rfl | ⟨hc, hother⟩)
      · exact .inl ⟨.inr ⟨hne, rfl⟩, hkey⟩
      · refine .inl ⟨.inl ⟨hc, habsent child hc⟩, fun hkey' => hother ?_⟩
        exact snap.eq_of_sameKey hc w.boundary_mem hkey'
  have hinRange {child : Child ν} (hc : child ∈ snap.children) :
      child ∈ filter.inRange children' :=
    (h.mem_inRange filter).mpr
      (.inl ⟨w.holdsWindow.mem child (filter.mem_enumerate.mpr hc), habsent child hc⟩)
  refine w.holdsWindow.exchange w.length_eq (filter.mem_enumerate.mpr w.boundary_mem)
    (fun hin => absurd rfl (habsent _ (filter.mem_enumerate.mp hin)))
    (filter.pairwise_enumerate _) hmem (fun child hc => ?_) fun m hm hnot => ?_
  · rcases (hmem child).mp hc with rfl | ⟨hc, -⟩
    · exact (h.mem_inRange filter).mpr (.inr ⟨hne, rfl, hmatch⟩)
    · exact hinRange (filter.mem_enumerate.mp hc)
  · rw [hmem, not_or] at hnot
    rcases (h.mem_inRange filter).mp hm with ⟨hm, -⟩ | ⟨-, heq, -⟩
    · by_cases hin : m ∈ snap.children
      · obtain rfl : m = boundary := by
          by_contra hother
          exact hnot.2 ⟨filter.mem_enumerate.mpr hin, hother⟩
        exact ⟨hlt, fun a ha hother =>
          (w.last a (filter.mem_enumerate.mp ha)).resolve_left hother⟩
      · have hafter := w.ahead_of_notMem hm hin
        exact ⟨trans_of filter.ahead hlt (hafter boundary w.boundary_mem), fun a ha _ =>
          hafter a (filter.mem_enumerate.mp ha)⟩
    · exact absurd heq hnot.1

end

/-! ### Every update -/

theorem windowBoundary_eq (snap : FIndexedNode filter.indexValue) :
    filter.windowBoundary snap = (snap.enumerate filter.reverse).getLast? := by
  unfold windowBoundary ChildSet.enumerate
  cases filter.reverse with
  | false => rfl
  | true => exact List.getLast?_reverse.symm

/-- A window that is not short is full, and its boundary is its last child. -/
theorem full_of_not_lt (hwindow : filter.HoldsWindow children snap)
    (hroom : ¬ snap.numChildren < filter.limit) :
    ∃ boundary, filter.windowBoundary snap = some boundary ∧
      filter.Full children snap boundary := by
  have hlength := snap.length_enumerate filter.reverse
  have hle := hwindow.length_le
  have hne : snap.enumerate filter.reverse ≠ [] := by
    refine List.ne_nil_of_length_pos ?_
    have hpos := filter.limit_pos
    omega
  obtain ⟨front, boundary, hlist⟩ := (List.eq_nil_or_concat' _).resolve_left hne
  have hsorted := filter.pairwise_enumerate snap
  refine ⟨boundary, ?_, hwindow, by omega, ?_, fun child hc => ?_⟩
  · rw [windowBoundary_eq, hlist, List.getLast?_concat]
  · rw [← filter.mem_enumerate, hlist]
    exact List.mem_concat_self
  · rw [← filter.mem_enumerate, hlist] at hc
    rw [hlist] at hsorted
    rcases List.mem_append.mp hc with hc | hc
    · exact .inr ((List.pairwise_append.mp hsorted).2.2 child hc boundary
        (List.mem_singleton_self _))
    · exact .inl (List.mem_singleton.mp hc)

theorem name_filtered (newChild : Child ν) : (filter.filtered newChild).name = newChild.name := by
  unfold filtered
  split_ifs <;> rfl

theorem node_filtered (newChild : Child ν) : (filter.filtered newChild).node =
    if filter.matchesKey newChild = true then newChild.node else ∅ := by
  unfold filtered
  split_ifs <;> rfl

theorem filtered_of_node_ne (h : (filter.filtered newChild).node ≠ ∅) :
    filter.filtered newChild = newChild ∧ filter.matchesKey newChild = true ∧
      newChild.node ≠ ∅ := by
  unfold filtered at h ⊢
  split_ifs at h ⊢ with hmatch
  · exact ⟨rfl, hmatch, h⟩
  · exact absurd rfl h

theorem filtered_of_mem_inRange {newSnap : FChildrenNode ν} (hnew : newSnap.children = children')
    (hin : newChild ∈ filter.inRange children') :
    filter.filtered newChild = newChild ∧ filter.matchesKey newChild = true ∧
      newChild.node ≠ ∅ :=
  ⟨if_pos hin.2, hin.2, newSnap.nonempty newChild (hnew ▸ hin.1)⟩

variable [DecidableEq ν]

section

variable {filter} (h : Changed children children' newChild)

include h

/-- The snapshot need not change if it holds the child as it is now. -/
theorem holdsWindow_of_getImmediateChild (hwindow : filter.HoldsWindow children snap)
    (heq : snap.getImmediateChild (filter.filtered newChild).name =
      (filter.filtered newChild).node) : filter.HoldsWindow children' snap := by
  rw [name_filtered] at heq
  by_cases hempty : (filter.filtered newChild).node = ∅
  · refine h.holdsWindow_of_absent filter hwindow (fun child hc hname => ?_) fun hmatch => ?_
    · rw [hempty, snap.getImmediateChild_of_mem hc (hname ▸ SameKey.refl _)] at heq
      exact snap.nonempty child hc heq
    · rwa [node_filtered, if_pos hmatch] at hempty
  · obtain ⟨heq', hmatch, -⟩ := filter.filtered_of_node_ne hempty
    obtain ⟨child, hc, hkey, hnode⟩ := snap.exists_of_getImmediateChild_ne (heq ▸ hempty)
    have hname := h.told child (mem_of_mem_snap filter hwindow hc) hkey.symm
    rw [heq, heq'] at hnode
    obtain rfl : child = newChild := Child.ext hname hnode
    exact h.holdsWindow_of_mem filter hwindow hc

variable {boundary : Child ν} (w : filter.Full children snap boundary)

include w

/-- A change of a child of a full window. -/
theorem holdsWindow_fullLimit_old {newSnap : FChildrenNode ν}
    (hnew : newSnap.children = children') (hhas : snap.hasChild newChild.name = true) :
    filter.HoldsWindow children' (filter.fullLimitUpdateNode snap (filter.filtered newChild)
      (calculateNextNodeAfterPost filter.indexValue filter.reverse children') boundary) := by
  obtain ⟨old, hold, hkey⟩ := snap.hasChild_iff.mp hhas
  have hname := h.told old (w.mem hold) hkey.symm
  obtain ⟨next, hsource⟩ : ∃ next, next = (calculateNextNodeAfterPost filter.indexValue
      filter.reverse children' boundary).bind fun next =>
        if next.name = newChild.name ∨ snap.hasChild next.name = true then
          calculateNextNodeAfterPost filter.indexValue filter.reverse children' next
        else some next := ⟨_, rfl⟩
  have hnext := isNext_behind h w hnew hsource
  unfold fullLimitUpdateNode
  simp only [name_filtered, hhas, if_true, ← hsource]
  split_ifs with hremains
  · simp only [Bool.and_eq_true, decide_eq_true_eq, Option.all_eq_true] at hremains
    obtain ⟨⟨-, hne⟩, hall⟩ := hremains
    obtain ⟨heq, hmatch, hne⟩ := filter.filtered_of_node_ne hne
    rw [heq] at hall ⊢
    refine holdsWindow_stays h w hold hname hnext hne hmatch fun n hn hlt => ?_
    exact hall n hn hlt
  · have hleaves : newChild ∈ filter.inRange children' → ∃ n ∈ next, filter.ahead n newChild := by
      intro hin
      obtain ⟨heq, hmatch, hne⟩ := filter.filtered_of_mem_inRange hnew hin
      by_contra hnone
      refine hremains ?_
      rw [heq, hmatch, Bool.true_and, decide_eq_true hne, Bool.true_and, Option.all_eq_true]
      exact fun n hn => decide_eq_true fun hlt => hnone ⟨n, hn, hlt⟩
    cases next with
    | none => exact holdsWindow_shrinks h w hold hname hnext (by simp) hleaves
    | some n =>
      have hn := hnext.mem n rfl
      dsimp only
      split_ifs with hmatch
      · refine holdsWindow_replaced h w hold hname ?_ hnext hmatch fun hin => ?_
        · exact newSnap.nonempty n (hnew ▸ (h.mem_iff n).mpr (.inl ⟨hn.1, hn.2.1⟩))
        · obtain ⟨_, ⟨⟩, hlt⟩ := hleaves hin
          exact hlt
      · refine holdsWindow_shrinks h w hold hname hnext ?_ hleaves
        rintro _ ⟨⟩
        exact hmatch

/-- A change of a child outside a full window. -/
theorem holdsWindow_fullLimit_new {source : Child ν → Option (Child ν)}
    (hhas : ¬ snap.hasChild newChild.name = true) :
    filter.HoldsWindow children'
      (filter.fullLimitUpdateNode snap (filter.filtered newChild) source boundary) := by
  have habsent : ∀ child ∈ snap.children, child.name ≠ newChild.name := fun child hc hname =>
    hhas (snap.hasChild_iff.mpr ⟨child, hc, hname ▸ SameKey.refl _⟩)
  unfold fullLimitUpdateNode
  simp only [name_filtered, hhas, Bool.false_eq_true, if_false]
  by_cases hempty : (filter.filtered newChild).node = ∅
  · rw [if_pos hempty]
    refine h.holdsWindow_of_absent filter w.holdsWindow habsent fun hmatch => ?_
    rwa [node_filtered, if_pos hmatch] at hempty
  · obtain ⟨heq, hmatch, hne⟩ := filter.filtered_of_node_ne hempty
    rw [if_neg hempty, heq, if_pos hmatch]
    split_ifs with hbefore
    · refine holdsWindow_pushed h w habsent hne hmatch ?_
      refine filter.ahead_of_not_ahead (fun hkey => ?_) hbefore
      exact habsent boundary w.boundary_mem (h.told boundary (w.mem w.boundary_mem) hkey)
    · exact holdsWindow_kept h w habsent (not_not.mp hbefore)

end

/-- **The edit of a window.** After a change of one child the edited window is the window on the
changed children. -/
theorem holdsWindow_updateChildIn (hwindow : filter.HoldsWindow children snap)
    (h : Changed children children' newChild) {newSnap : FChildrenNode ν}
    (hnew : newSnap.children = children') :
    filter.HoldsWindow children' (filter.updateChildIn snap newChild
      (calculateNextNodeAfterPost filter.indexValue filter.reverse children')) := by
  unfold updateChildIn
  simp only
  split_ifs with hsame hroom
  · exact holdsWindow_of_getImmediateChild h hwindow hsame
  · rw [indexedUpdateChildIn, if_neg hsame, name_filtered]
    exact h.holdsWindow_updateChild_of_lt filter hwindow hroom (filter.node_filtered newChild)
  · obtain ⟨boundary, hboundary, w⟩ := filter.full_of_not_lt hwindow hroom
    rw [hboundary]
    by_cases hhas : snap.hasChild newChild.name = true
    · exact holdsWindow_fullLimit_old h w hnew hhas
    · exact holdsWindow_fullLimit_new h w hhas

/-! ### Every sequence of updates -/

/-- A change of one child: the complete node, and the window that is edited for it. -/
def applyChange (state : FChildrenNode ν × FIndexedNode filter.indexValue) (newChild : Child ν) :
    FChildrenNode ν × FIndexedNode filter.indexValue :=
  let newNode := state.1.updateChild newChild.name newChild.node
  (newNode, filter.updateChildIn state.2 newChild
    (calculateNextNodeAfterPost filter.indexValue filter.reverse newNode.children))

theorem changed_updateChild (node : FChildrenNode ν) {newChild : Child ν}
    (told : ∀ child ∈ node.children, SameKey child.name newChild.name →
      child.name = newChild.name) :
    Changed node.children (node.updateChild newChild.name newChild.node).children newChild where
  mem_iff child := by
    rw [node.mem_updateChild]
    refine or_congr_left (and_congr_right fun hc => not_congr ?_)
    exact ⟨told child hc, fun hname => hname ▸ SameKey.refl _⟩
  apart := node.apart
  told := told

/-- The window of a complete node, filtered from its index. -/
def fullWindow (node : FChildrenNode ν) : FIndexedNode filter.indexValue :=
  filter.updateFullNode (node.ensureIndexed filter.indexValue)

theorem holdsWindow_fullWindow (node : FChildrenNode ν) :
    filter.HoldsWindow node.children (filter.fullWindow node) :=
  (filter.holdsWindow_updateFullNode _).congr fun _ => ChildSet.mem_ensureIndexed

/-- After changes under names that the dictionaries tell apart, the edited window is still the
window of the complete node. -/
theorem holdsWindow_foldl {names : List String}
    (hnames : ∀ a ∈ names, ∀ b ∈ names, SameKey a b → a = b) {changes : List (Child ν)}
    (hchanges : ∀ child ∈ changes, child.name ∈ names)
    (state : FChildrenNode ν × FIndexedNode filter.indexValue)
    (hnode : ∀ child ∈ state.1.children, child.name ∈ names)
    (hwindow : filter.HoldsWindow state.1.children state.2) :
    filter.HoldsWindow (changes.foldl filter.applyChange state).1.children
      (changes.foldl filter.applyChange state).2 := by
  induction changes generalizing state with
  | nil => exact hwindow
  | cons newChild changes ih =>
    obtain ⟨hname, hchanges⟩ := List.forall_mem_cons.mp hchanges
    have hchanged := changed_updateChild state.1 fun child hc =>
      hnames child.name (hnode child hc) newChild.name hname
    have hnext := filter.holdsWindow_updateChildIn hwindow hchanged rfl
    refine ih hchanges _ (fun child hc => ?_) hnext
    rcases (hchanged.mem_iff child).mp hc with ⟨hc, -⟩ | ⟨-, rfl⟩
    · exact hnode child hc
    · exact hname

/-- **Edited windows are recomputed windows.** Filter a node, and edit the window for every child
that changes afterwards, in whatever sequence. As long as the dictionaries tell apart the names that
occur, the edited window is the one that filtering the changed node from scratch gives. -/
theorem run_updateChildIn {names : List String}
    (hnames : ∀ a ∈ names, ∀ b ∈ names, SameKey a b → a = b) (node : FChildrenNode ν)
    (hnode : ∀ child ∈ node.children, child.name ∈ names) (changes : List (Child ν))
    (hchanges : ∀ child ∈ changes, child.name ∈ names) :
    (changes.foldl filter.applyChange (node, filter.fullWindow node)).2 =
      filter.fullWindow (changes.foldl
        (fun node newChild => node.updateChild newChild.name newChild.node) node) := by
  have hwindow := filter.holdsWindow_foldl hnames hchanges (node, filter.fullWindow node) hnode
    (filter.holdsWindow_fullWindow node)
  rw [hwindow.unique (filter.holdsWindow_fullWindow _)]
  exact congrArg filter.fullWindow
    (List.foldl_hom Prod.fst fun _ _ => rfl).symm

/-- A query for the last two children by value. -/
def lastTwo : FLimitedFilter IndexValue :=
  ⟨⟨id, ⟨.minName, .empty⟩, ⟨.maxName, .max⟩⟩, 2, true, Nat.two_pos⟩

/-- Three flags, of which the last query shows the first two. -/
def threeFlags : FChildrenNode IndexValue where
  children := [⟨"a", .leaf (.bool true)⟩, ⟨"b", .leaf (.bool true)⟩, ⟨"c", .leaf (.bool false)⟩]
  sorted := by decide
  apart := by decide
  nonempty := by decide

theorem run_updateChildIn_flags :
    (lastTwo.fullWindow threeFlags).children.map Child.name = ["a", "b"] ∧
      let changes := [⟨"b", ∅⟩, ⟨"c", .leaf (.bool true)⟩]
      (changes.foldl lastTwo.applyChange (threeFlags, lastTwo.fullWindow threeFlags)).2 =
          lastTwo.fullWindow (changes.foldl
            (fun node newChild => node.updateChild newChild.name newChild.node) threeFlags) ∧
        (changes.foldl lastTwo.applyChange
          (threeFlags, lastTwo.fullWindow threeFlags)).2.children.map Child.name = ["a", "c"] :=
  have hnames : ∀ a ∈ ["a", "b", "c"], ∀ b ∈ ["a", "b", "c"], SameKey a b → a = b := by decide
  ⟨by decide, run_updateChildIn lastTwo hnames threeFlags (by decide) _ (by decide), by decide⟩

end FLimitedFilter

end TwitterLite
