import TwitterLite.Common.Database
import TwitterLite.Library.Replay
import TwitterLite.Library.TransitionSystem

/-!
# The writes that the server has not answered yet

The client shows what it writes before the server has accepted it. It keeps the pending writes in
the order in which they were made, and beside that list a compound write in which they have been
merged (`FWriteTree.visibleWrites`): a value at each of some paths, none of them below another. When
the server answers a write, the compound write is not always built again. It is left alone if a
later write covers the answered one, the value is cut out of it if no other pending write overlaps,
and only otherwise the writes are merged from the start (`FWriteTree.removeWriteId`).

What the client shows at a path is the compound write laid over the data from the server
(`FWriteTree.calculateCompleteEventCacheAtPath`). Its purpose is simple: it is the data from the
server on which the pending writes have been made again, in their order. This holds along every run
in which writes are made and answered, if no answered write lies strictly below an earlier one that
is still pending.

## Main definitions

* `TwitterLite.FCompoundWrite`, `TwitterLite.FCompoundWrite.addWrite`,
  `TwitterLite.FCompoundWrite.completeNodeAtPath`, `TwitterLite.FCompoundWrite.applyToNode`.
* `TwitterLite.FWriteTree`, `TwitterLite.FWriteTree.addOverwriteAtPath`,
  `TwitterLite.FWriteTree.removeWriteId`,
  `TwitterLite.FWriteTree.calculateCompleteEventCacheAtPath`.
* `TwitterLite.FWriteTree.Step`, `TwitterLite.FWriteTree.Consistent`.

## Main results

* `TwitterLite.FCompoundWrite.completeNodeAtPath_layerTreeFromWrites`.
* `TwitterLite.FWriteTree.run_keeps_consistent`.
* `TwitterLite.FWriteTree.run_calculateCompleteEventCacheAtPath`.

Source: `FWriteTree.m`, lines 60–300, 460–577; `FCompoundWrite.m`, lines 74–280;
`FImmutableTree.m`, lines 80–260; `FWriteRecord.m`.
-/

namespace TwitterLite

open PathTree TransitionSystem

/-- `FPath.relativePathFrom:to:`, for a path that contains the other one. -/
def relativePath (outer inner : List String) : List String := inner.drop outer.length

/-- `FCompoundWrite`: values at paths, none of them below another. -/
abbrev FCompoundWrite := PathTree String DatabaseTree

namespace FCompoundWrite

/-- `FImmutableTree.findRootMostValueAndPath`: the write at or above a path. -/
def findRootMostValueAndPath (path : List String) (compoundWrite : FCompoundWrite) :
    Option (List String × DatabaseTree) :=
  compoundWrite.leaves.find? fun write => write.1 <+: path

/-- `FCompoundWrite.addWrite:atPath:`. A value above the path is updated; otherwise the value
replaces the writes below the path. -/
def addWrite (node : DatabaseTree) (path : List String) (compoundWrite : FCompoundWrite) :
    FCompoundWrite :=
  if path = [] then leaf node
  else
    match compoundWrite.findRootMostValueAndPath path with
    | some rootMost =>
      set rootMost.1 (leaf (set (relativePath rootMost.1 path) node rootMost.2)) compoundWrite
    | none => set path (leaf node) compoundWrite

/-- `FCompoundWrite.removeWriteAtPath:`, which leaves a write above the path alone. -/
def removeWriteAtPath (path : List String) (compoundWrite : FCompoundWrite) : FCompoundWrite :=
  if path = [] then empty else compoundWrite.remove path

/-- `FCompoundWrite.completeNodeAtPath:`. -/
def completeNodeAtPath (path : List String) (compoundWrite : FCompoundWrite) :
    Option DatabaseTree :=
  (compoundWrite.findRootMostValueAndPath path).map fun rootMost =>
    rootMost.2.subtree (relativePath rootMost.1 path)

/-- `FCompoundWrite.hasCompleteWriteAtPath:`. -/
def hasCompleteWriteAtPath (path : List String) (compoundWrite : FCompoundWrite) : Bool :=
  (compoundWrite.completeNodeAtPath path).isSome

/-- `FCompoundWrite.childCompoundWriteAtPath:`. -/
def childCompoundWriteAtPath (path : List String) (compoundWrite : FCompoundWrite) :
    FCompoundWrite :=
  if path = [] then compoundWrite
  else
    match compoundWrite.completeNodeAtPath path with
    | some shadowingNode => leaf shadowingNode
    | none => compoundWrite.subtree path

/-- `FCompoundWrite.isEmpty`. -/
def isEmpty (compoundWrite : FCompoundWrite) : Bool := compoundWrite.leaves.isEmpty

/-- `FCompoundWrite.applyToNode:`, with `FNode.updateChild:withNewChild:` at the path of every
write. -/
def applyToNode (node : DatabaseTree) (compoundWrite : FCompoundWrite) : DatabaseTree :=
  compoundWrite.leaves.foldl (fun node write => set write.1 write.2 node) node

end FCompoundWrite

/-- `FWriteRecord`, for an overwrite. -/
structure FWriteRecord where
  writeId : ℤ
  path : List String
  overwrite : DatabaseTree
  visible : Bool

/-- `FWriteTree`. -/
structure FWriteTree where
  visibleWrites : FCompoundWrite
  allWrites : List FWriteRecord
  lastWriteId : ℤ

namespace FWriteTree

/-- `FWriteTree.init`. -/
def init : FWriteTree where
  visibleWrites := empty
  allWrites := []
  lastWriteId := -1

/-- `FWriteTree.layerTreeFromWrites:filter:treeRoot:`. -/
def layerTreeFromWrites (writes : List FWriteRecord) (filter : FWriteRecord → Bool)
    (treeRoot : List String) : FCompoundWrite :=
  writes.foldl (fun compoundWrite record =>
    if filter record then
      if treeRoot <+: record.path then
        compoundWrite.addWrite record.overwrite (relativePath treeRoot record.path)
      else if record.path <+: treeRoot then
        compoundWrite.addWrite (record.overwrite.subtree (relativePath record.path treeRoot)) []
      else compoundWrite
    else compoundWrite) empty

/-- `FWriteTree.defaultFilter`, which keeps every write, also one that is not visible. -/
def defaultFilter (_ : FWriteRecord) : Bool := true

/-- `FWriteTree.addOverwriteAtPath:newData:writeId:isVisible:`. -/
def addOverwriteAtPath (path : List String) (newData : DatabaseTree) (writeId : ℤ)
    (visible : Bool) (tree : FWriteTree) : FWriteTree where
  allWrites := tree.allWrites ++ [⟨writeId, path, newData, visible⟩]
  visibleWrites :=
    if visible then tree.visibleWrites.addWrite newData path else tree.visibleWrites
  lastWriteId := writeId

/-- `FWriteTree.resetTree`. -/
def resetTree (tree : FWriteTree) : FWriteTree where
  visibleWrites := layerTreeFromWrites tree.allWrites defaultFilter []
  allWrites := tree.allWrites
  lastWriteId := (tree.allWrites.getLast?.map FWriteRecord.writeId).getD (-1)

/-- One round of the loop of `removeWriteId` that compares the removed write with the others:
whether it was visible, and whether it overlaps with other writes. -/
def compareWrite (writeToRemove : FWriteRecord) (index : ℕ) (i : ℕ) (currentWrite : FWriteRecord)
    (flags : Bool × Bool) : Bool × Bool :=
  if currentWrite.visible then
    if index ≤ i ∧ currentWrite.path <+: writeToRemove.path then (false, flags.2)
    else if writeToRemove.path <+: currentWrite.path then (flags.1, true)
    else flags
  else flags

/-- The loop of `removeWriteId`, from the last of `i` writes to the first one, as long as the
removed write counts as visible. -/
def compareWrites (writeToRemove : FWriteRecord) (index : ℕ) (allWrites : List FWriteRecord) :
    ℕ → Bool × Bool → Bool × Bool
  | 0, flags => flags
  | i + 1, flags =>
    if flags.1 then
      match allWrites[i]? with
      | some currentWrite =>
        compareWrites writeToRemove index allWrites i
          (compareWrite writeToRemove index i currentWrite flags)
      | none => flags
    else flags

/-- `FWriteTree.removeWriteId:`, with whether the views have to be computed again. The app ends if
there is no such write. -/
def removeWriteId (writeId : ℤ) (tree : FWriteTree) : Option (FWriteTree × Bool) :=
  match tree.allWrites.findIdx? fun record => record.writeId = writeId with
  | none => none
  | some index =>
    match tree.allWrites[index]? with
    | none => none
    | some writeToRemove =>
      let allWrites := tree.allWrites.eraseIdx index
      let flags := compareWrites writeToRemove index allWrites allWrites.length
        (writeToRemove.visible, false)
      if !flags.1 then some ({ tree with allWrites := allWrites }, false)
      else if flags.2 then some ({ tree with allWrites := allWrites }.resetTree, true)
      else
        some ({ tree with
          allWrites := allWrites
          visibleWrites := tree.visibleWrites.removeWriteAtPath writeToRemove.path }, true)

/-- `FWriteTree.calculateCompleteEventCacheAtPath:completeServerCache:excludeWriteIds:`
`includeHiddenWrites:`. -/
def calculateCompleteEventCacheAtPath (treePath : List String)
    (completeServerCache : Option DatabaseTree) (writeIdsToExclude : Option (List ℤ))
    (includeHiddenWrites : Bool) (tree : FWriteTree) : Option DatabaseTree :=
  match writeIdsToExclude, includeHiddenWrites with
  | none, false =>
    match tree.visibleWrites.completeNodeAtPath treePath with
    | some shadowingNode => some shadowingNode
    | none =>
      let subMerge := tree.visibleWrites.childCompoundWriteAtPath treePath
      if subMerge.isEmpty then completeServerCache
      else if completeServerCache = none ∧ !subMerge.hasCompleteWriteAtPath [] then none
      else some (subMerge.applyToNode (completeServerCache.getD empty))
  | _, _ =>
    let merge := tree.visibleWrites.childCompoundWriteAtPath treePath
    if !includeHiddenWrites && merge.isEmpty then completeServerCache
    else if !includeHiddenWrites ∧ completeServerCache = none ∧ !merge.hasCompleteWriteAtPath []
    then none
    else
      let filter (record : FWriteRecord) : Bool :=
        (record.visible || includeHiddenWrites) &&
          (writeIdsToExclude.all fun writeIds => !writeIds.contains record.writeId) &&
          (record.path <+: treePath ∨ treePath <+: record.path)
      let mergeAtPath := layerTreeFromWrites tree.allWrites filter treePath
      some (mergeAtPath.applyToNode (completeServerCache.getD empty))

end FWriteTree

/-! ### What a compound write says about a path -/

/-- The path and the value of an overwrite. -/
def FWriteRecord.write (record : FWriteRecord) : List String × DatabaseTree :=
  (record.path, record.overwrite)

namespace FCompoundWrite

variable {compoundWrite : FCompoundWrite} {write : List String × DatabaseTree}
  {node : DatabaseTree} {path r : List String}

theorem isPrefix_of_findRootMostValueAndPath
    (h : compoundWrite.findRootMostValueAndPath path = some write) : write.1 <+: path := by
  rw [findRootMostValueAndPath] at h
  simpa using List.find?_some h

theorem findRootMostValueAndPath_eq_some_iff :
    compoundWrite.findRootMostValueAndPath path = some write ↔
      write ∈ compoundWrite.leaves ∧ write.1 <+: path := by
  constructor
  · intro h
    exact ⟨List.mem_of_find?_eq_some h, isPrefix_of_findRootMostValueAndPath h⟩
  · rintro ⟨hmem, hpath⟩
    cases hfind : compoundWrite.findRootMostValueAndPath path with
    | none => exact absurd hpath (by simpa using List.find?_eq_none.mp hfind write hmem)
    | some rootMost =>
      have hroot := isPrefix_of_findRootMostValueAndPath hfind
      have hmem' := List.mem_of_find?_eq_some hfind
      rcases List.prefix_or_prefix_of_prefix hroot hpath with h | h
      · rw [eq_of_isPrefix hmem' hmem h]
      · rw [eq_of_isPrefix hmem hmem' h]

theorem findRootMostValueAndPath_eq_none_iff :
    compoundWrite.findRootMostValueAndPath path = none ↔
      ∀ write ∈ compoundWrite.leaves, ¬ write.1 <+: path := by
  simp only [findRootMostValueAndPath, List.find?_eq_none, decide_eq_true_eq]

theorem completeNodeAtPath_of_mem (hmem : write ∈ compoundWrite.leaves) (hpath : write.1 <+: path) :
    compoundWrite.completeNodeAtPath path = some (write.2.subtree (relativePath write.1 path)) := by
  rw [completeNodeAtPath, findRootMostValueAndPath_eq_some_iff.mpr ⟨hmem, hpath⟩]
  rfl

theorem completeNodeAtPath_eq_none_iff :
    compoundWrite.completeNodeAtPath path = none ↔
      ∀ write ∈ compoundWrite.leaves, ¬ write.1 <+: path := by
  rw [completeNodeAtPath, Option.map_eq_none_iff, findRootMostValueAndPath_eq_none_iff]

theorem mem_set_leaf :
    write ∈ (set path (leaf node) compoundWrite).leaves ↔
      write ∈ compoundWrite.leaves ∧ ¬ path <+: write.1 ∧ ¬ write.1 <+: path ∨
        write = (path, node) := by
  have hleaf (rest : List String) : (rest, write.2) ∈ (leaf node : FCompoundWrite).leaves ↔
      rest = [] ∧ write.2 = node := by
    rw [leaf, List.mem_singleton, Prod.mk.injEq]
  simp only [mem_set, hleaf, Prod.ext_iff]
  simp [leaf, and_comm, eq_comm]

/-- A value at a path, where no other is above it, speaks for everything below. -/
theorem completeNodeAtPath_set_leaf (h : ∀ write ∈ compoundWrite.leaves, write.1 <+: path →
    write.1 = path) :
    completeNodeAtPath r (set path (leaf node) compoundWrite) =
      if path <+: r then some (node.subtree (relativePath path r))
      else compoundWrite.completeNodeAtPath r := by
  have hnew : (path, node) ∈ (set path (leaf node) compoundWrite).leaves :=
    mem_set_leaf.mpr (.inr rfl)
  split_ifs with hr
  · exact completeNodeAtPath_of_mem hnew hr
  · cases hroot : compoundWrite.findRootMostValueAndPath r with
    | none =>
      rw [completeNodeAtPath.eq_def r compoundWrite, hroot, Option.map_none,
        completeNodeAtPath_eq_none_iff]
      intro write hmem
      rcases mem_set_leaf.mp hmem with ⟨hold, -⟩ | rfl
      · exact findRootMostValueAndPath_eq_none_iff.mp hroot write hold
      · exact hr
    | some write =>
      obtain ⟨hmem, hwr⟩ := findRootMostValueAndPath_eq_some_iff.mp hroot
      have hup : ¬ write.1 <+: path := fun hup => hr (h write hmem hup ▸ hwr)
      have hdown : ¬ path <+: write.1 := fun hdown => hr (hdown.trans hwr)
      rw [completeNodeAtPath_of_mem hmem hwr,
        completeNodeAtPath_of_mem (mem_set_leaf.mpr (.inl ⟨hmem, hdown, hup⟩)) hwr]

/-- One more write below a known value is made in this value. -/
theorem completeStep_append {q rest s : List String} {value node : DatabaseTree} :
    completeStep (q ++ s) (some (value.subtree s)) (q ++ rest, node) =
      some ((PathTree.set rest node value).subtree s) := by
  rw [completeStep]
  simp only [List.prefix_append_right_inj]
  by_cases hrest : rest <+: s
  · obtain ⟨below, rfl⟩ := hrest
    rw [if_pos (List.prefix_append rest below), ← List.append_assoc, List.drop_left,
      subtree_set_append_append]
  · rw [if_neg hrest]
    by_cases hs : s <+: rest
    · obtain ⟨below, rfl⟩ := hs
      rw [if_pos (List.prefix_append s below), ← List.append_assoc, List.drop_left,
        subtree_set_append]
      rfl
    · rw [if_neg hs, subtree_set_of_not_isPrefix hrest hs]

/-- **One more write in a compound write** says of every path what one more write says. -/
theorem completeNodeAtPath_addWrite :
    (compoundWrite.addWrite node path).completeNodeAtPath r =
      completeStep r (compoundWrite.completeNodeAtPath r) (path, node) := by
  by_cases hpath : path = []
  · subst hpath
    rw [addWrite, if_pos rfl, completeStep, if_pos List.nil_prefix]
    exact completeNodeAtPath_of_mem (List.mem_singleton_self _) List.nil_prefix
  rw [addWrite, if_neg hpath]
  cases hroot : compoundWrite.findRootMostValueAndPath path with
  | none =>
    have hnone := findRootMostValueAndPath_eq_none_iff.mp hroot
    simp only [completeNodeAtPath_set_leaf fun write hmem hup => absurd hup (hnone write hmem)]
    by_cases hpr : path <+: r
    · rw [if_pos hpr, completeStep, if_pos hpr]
      rfl
    · rw [if_neg hpr, completeStep, if_neg hpr]
      by_cases hrp : r <+: path
      · rw [if_pos hrp, completeNodeAtPath_eq_none_iff.mpr fun write hmem hwr =>
          hnone write hmem (hwr.trans hrp)]
        rfl
      · rw [if_neg hrp]
  | some rootMost =>
    obtain ⟨hmem, hup⟩ := findRootMostValueAndPath_eq_some_iff.mp hroot
    obtain ⟨q, value⟩ := rootMost
    obtain ⟨rest, rfl⟩ := hup
    simp only [completeNodeAtPath_set_leaf fun write hwrite hup =>
      congrArg Prod.fst (eq_of_isPrefix hwrite hmem hup), relativePath, List.drop_left]
    by_cases hqr : q <+: r
    · obtain ⟨s, rfl⟩ := hqr
      rw [if_pos (List.prefix_append q s),
        completeNodeAtPath_of_mem hmem (List.prefix_append q s)]
      simp only [relativePath, List.drop_left]
      exact completeStep_append.symm
    · have hpr : ¬ q ++ rest <+: r := fun h => hqr ((List.prefix_append q rest).trans h)
      rw [if_neg hqr, completeStep, if_neg hpr]
      by_cases hrp : r <+: q ++ rest
      · have hnone : compoundWrite.completeNodeAtPath r = none := by
          refine completeNodeAtPath_eq_none_iff.mpr fun write hwrite hwr => hqr ?_
          have hboth := List.prefix_or_prefix_of_prefix (hwr.trans hrp) (List.prefix_append q rest)
          rcases hboth with h | h
          · rwa [eq_of_isPrefix hwrite hmem h] at hwr
          · exact h.trans hwr
        rw [if_pos hrp, hnone]
        rfl
      · rw [if_neg hrp]

/-- **The merged writes say of every path what the writes say**, one after the other. -/
theorem completeNodeAtPath_layerTreeFromWrites {writes : List FWriteRecord}
    {filter : FWriteRecord → Bool} {treeRoot : List String} :
    (FWriteTree.layerTreeFromWrites writes filter treeRoot).completeNodeAtPath r =
      completeAt (treeRoot ++ r) ((writes.filter filter).map FWriteRecord.write) := by
  induction writes using List.reverseRecOn with
  | nil => rfl
  | append_singleton writes record ih =>
    rw [FWriteTree.layerTreeFromWrites, List.foldl_append, List.foldl_cons, List.foldl_nil,
      ← FWriteTree.layerTreeFromWrites, List.filter_append, List.map_append, List.filter_singleton]
    cases hfilter : filter record with
    | false => simp [ih]
    | true =>
      simp only [cond_true, List.map_singleton, if_true]
      rw [completeAt_append_singleton, ← ih]
      change _ = completeStep _ _ (record.path, record.overwrite)
      by_cases hbelow : treeRoot <+: record.path
      · obtain ⟨rest, hrest⟩ := hbelow
        rw [if_pos ⟨rest, hrest⟩, completeNodeAtPath_addWrite, ← hrest, relativePath,
          List.drop_left, completeStep_append_append]
      · rw [if_neg hbelow]
        by_cases habove : record.path <+: treeRoot
        · rw [if_pos habove, completeNodeAtPath_addWrite, completeStep_of_isPrefix habove,
            completeStep, if_pos List.nil_prefix]
          rfl
        · rw [if_neg habove, completeStep_of_not_isPrefix habove hbelow]

/-- Cutting a path out of a compound write removes what it says at and below the path, if no value
lies above the path. -/
theorem completeNodeAtPath_removeWriteAtPath
    (h : ∀ write ∈ compoundWrite.leaves, write.1 <+: path → path <+: write.1) :
    (compoundWrite.removeWriteAtPath path).completeNodeAtPath r =
      if path <+: r then none else compoundWrite.completeNodeAtPath r := by
  have hremove : compoundWrite.removeWriteAtPath path = compoundWrite.remove path := by
    rw [removeWriteAtPath]
    split_ifs with hpath
    · rw [hpath, remove_nil]
    · rfl
  rw [hremove]
  split_ifs with hr
  · refine completeNodeAtPath_eq_none_iff.mpr fun write hmem hwr => ?_
    obtain ⟨hold, hdown⟩ := mem_remove.mp hmem
    exact hdown ((List.prefix_or_prefix_of_prefix hwr hr).elim (h write hold) id)
  · cases hroot : compoundWrite.findRootMostValueAndPath r with
    | none =>
      have hnone := findRootMostValueAndPath_eq_none_iff.mp hroot
      rw [completeNodeAtPath_eq_none_iff.mpr hnone, completeNodeAtPath_eq_none_iff]
      exact fun write hmem => hnone write (mem_remove.mp hmem).1
    | some write =>
      obtain ⟨hmem, hwr⟩ := findRootMostValueAndPath_eq_some_iff.mp hroot
      have hdown : ¬ path <+: write.1 := fun hdown => hr (hdown.trans hwr)
      rw [completeNodeAtPath_of_mem hmem hwr,
        completeNodeAtPath_of_mem (mem_remove.mpr ⟨hmem, hdown⟩) hwr]

/-- The part of a compound write below a path. -/
theorem completeNodeAtPath_childCompoundWriteAtPath :
    (compoundWrite.childCompoundWriteAtPath path).completeNodeAtPath r =
      compoundWrite.completeNodeAtPath (path ++ r) := by
  rw [childCompoundWriteAtPath]
  split_ifs with hpath
  · rw [hpath, List.nil_append]
  cases hroot : compoundWrite.findRootMostValueAndPath path with
  | some write =>
    obtain ⟨hmem, hwp⟩ := findRootMostValueAndPath_eq_some_iff.mp hroot
    rw [completeNodeAtPath_of_mem hmem hwp, completeNodeAtPath_of_mem hmem
      (hwp.trans (List.prefix_append path r))]
    obtain ⟨rest, rfl⟩ := hwp
    rw [relativePath, relativePath, List.append_assoc, List.drop_left, List.drop_left]
    have hleaf : ([], write.2.subtree rest) ∈
        (leaf (write.2.subtree rest) : FCompoundWrite).leaves :=
      List.mem_singleton_self _
    exact (completeNodeAtPath_of_mem hleaf List.nil_prefix).trans (congrArg some subtree_subtree)
  | none =>
    have hnone := findRootMostValueAndPath_eq_none_iff.mp hroot
    rw [completeNodeAtPath_eq_none_iff.mpr hnone]
    change completeNodeAtPath r (subtree path compoundWrite) = _
    cases hbelow : compoundWrite.findRootMostValueAndPath (path ++ r) with
    | none =>
      have hnone' := findRootMostValueAndPath_eq_none_iff.mp hbelow
      rw [completeNodeAtPath_eq_none_iff.mpr hnone', completeNodeAtPath_eq_none_iff]
      intro write hmem hwr
      exact hnone' _ (mem_subtree.mp hmem) ((List.prefix_append_right_inj path).mpr hwr)
    | some write =>
      obtain ⟨hmem, hwr⟩ := findRootMostValueAndPath_eq_some_iff.mp hbelow
      obtain ⟨q, value⟩ := write
      have hdown := List.prefix_or_prefix_of_prefix hwr (List.prefix_append path r)
      obtain ⟨rest, rfl⟩ := hdown.resolve_left (hnone _ hmem)
      have hmem' : (rest, value) ∈ (compoundWrite.subtree path).leaves := mem_subtree.mpr hmem
      rw [completeNodeAtPath_of_mem hmem' ((List.prefix_append_right_inj path).mp hwr),
        completeNodeAtPath_of_mem hmem hwr, relativePath, relativePath, List.length_append,
        List.drop_length_add_append]

/-- The writes of a compound write, one after the other, say what it says. -/
theorem completeAt_leaves :
    completeAt r compoundWrite.leaves = compoundWrite.completeNodeAtPath r := by
  cases hroot : compoundWrite.findRootMostValueAndPath r with
  | none =>
    have hnone := findRootMostValueAndPath_eq_none_iff.mp hroot
    rw [completeNodeAtPath_eq_none_iff.mpr hnone, completeAt_eq_none_iff.mpr hnone]
  | some write =>
    obtain ⟨hmem, hwr⟩ := findRootMostValueAndPath_eq_some_iff.mp hroot
    rw [completeNodeAtPath_of_mem hmem hwr, completeAt_of_mem compoundWrite.incomparable hmem hwr]
    rfl

/-- **A compound write laid over the data at a path** makes the writes again that it has merged, if
no leaf of the data lies above one of them. -/
theorem leafAt_applyToNode {writes : List (List String × DatabaseTree)} {server : DatabaseTree}
    {treePath : List String}
    (hcomplete : ∀ r, compoundWrite.completeNodeAtPath r = completeAt (treePath ++ r) writes)
    (hopen : ∀ write ∈ writes, OpenAt write.1 server) :
    (compoundWrite.applyToNode (server.subtree treePath)).leafAt r =
      (replay writes server).leafAt (treePath ++ r) := by
  change (replay compoundWrite.leaves (server.subtree treePath)).leafAt r = _
  cases hnode : compoundWrite.completeNodeAtPath r with
  | some node =>
    have hleaves := subtree_replay (t := server.subtree treePath) (completeAt_leaves.trans hnode)
    have hwrites := subtree_replay (t := server) ((hcomplete r).symm.trans hnode)
    rw [← List.append_nil r, ← leafAt_subtree, hleaves, ← hwrites, leafAt_subtree,
      List.append_nil, List.append_nil]
  | none =>
    have hnone := completeAt_eq_none_iff.mp ((hcomplete r).symm.trans hnode)
    rw [leafAt_replay_of_not_isPrefix hnone hopen,
      leafAt_replay_of_not_isPrefix (completeNodeAtPath_eq_none_iff.mp hnode), leafAt_subtree]
    -- a leaf of the data above a merged value would be above one of the writes
    rintro ⟨q, value⟩ hmem ⟨path, v⟩ hleaf hup
    have hsome : completeAt (treePath ++ q) writes ≠ none := by
      rw [← hcomplete, completeNodeAtPath_of_mem hmem List.prefix_rfl]
      exact Option.some_ne_none _
    simp only [ne_eq, completeAt_eq_none_iff, not_forall, not_not, exists_prop] at hsome
    obtain ⟨write, hwrite, hwq⟩ := hsome
    have hwp : write.1 <+: treePath ++ path := by
      have hpq : treePath ++ path <+: treePath ++ q := (List.prefix_append_right_inj _).mpr hup
      rcases List.prefix_or_prefix_of_prefix hwq hpq with h | h
      · exact h
      · exact hopen write hwrite _ (mem_subtree.mp hleaf) h ▸ List.prefix_rfl
    have hcovered : compoundWrite.completeNodeAtPath path ≠ none := by
      rw [hcomplete, ne_eq, completeAt_eq_none_iff]
      exact fun h => h write hwrite hwp
    simp only [ne_eq, completeNodeAtPath_eq_none_iff, not_forall, not_not, exists_prop] at hcovered
    obtain ⟨write', hwrite', hpath⟩ := hcovered
    rw [eq_of_isPrefix hwrite' hmem (hpath.trans hup)] at hpath
    exact hup.eq_of_length (le_antisymm hup.length_le hpath.length_le)

end FCompoundWrite

/-! ### Runs of writes and answers -/

namespace FWriteTree

/-- The pending writes, in their order. -/
def writes (tree : FWriteTree) : List (List String × DatabaseTree) :=
  tree.allWrites.map FWriteRecord.write

/-- A write is made, or one has been answered. -/
inductive WriteEvent where
  | overwrite (path : List String) (newData : DatabaseTree) (writeId : ℤ)
  | remove (writeId : ℤ)

/-- The steps of the tree. Every write is visible, and its identifier is newer than those before. -/
inductive Step : FWriteTree → WriteEvent → FWriteTree → Prop
  | overwrite {tree : FWriteTree} {path : List String} {newData : DatabaseTree} {writeId : ℤ}
      (newer : tree.lastWriteId < writeId) :
      Step tree (.overwrite path newData writeId)
        (tree.addOverwriteAtPath path newData writeId true)
  | remove {tree tree' : FWriteTree} {writeId : ℤ} {reevaluate : Bool}
      (removed : tree.removeWriteId writeId = some (tree', reevaluate)) :
      Step tree (.remove writeId) tree'

/-- A write is not made below a value that a pending write has put where only a leaf can be, and
no answered write lies strictly below an earlier one that is still pending. -/
def Admissible (τ : Transition FWriteTree WriteEvent) : Prop :=
  match τ.event with
  | .overwrite path _ _ =>
    ∀ record ∈ τ.source.allWrites, OpenAt path (place record.path record.overwrite)
  | .remove writeId =>
    ∀ record ∈ τ.source.allWrites, record.writeId = writeId →
      ∀ other ∈ τ.source.allWrites.takeWhile fun other => other.writeId ≠ writeId,
        other.path <+: record.path → record.path <+: other.path

/-- The compound write says of every path what the pending writes say. -/
structure Consistent (tree : FWriteTree) : Prop where
  visible : ∀ record ∈ tree.allWrites, record.visible = true
  openAt : tree.allWrites.Pairwise fun earlier later =>
    OpenAt later.path (place earlier.path earlier.overwrite)
  complete : ∀ r, tree.visibleWrites.completeNodeAtPath r = completeAt r tree.writes

section Compare

variable {writeToRemove currentWrite : FWriteRecord} {index i n : ℕ}
  {allWrites : List FWriteRecord} {flags : Bool × Bool}

theorem covers_of_compareWrite
    (h : (compareWrite writeToRemove index i currentWrite flags).1 = false) :
    flags.1 = false ∨ index ≤ i ∧ currentWrite.path <+: writeToRemove.path := by
  rw [compareWrite] at h
  split_ifs at h with _ hcover
  · exact .inr hcover
  all_goals exact .inl h

theorem beside_of_compareWrite (hvisible : currentWrite.visible = true)
    (h : compareWrite writeToRemove index i currentWrite flags = (true, false)) :
    flags = (true, false) ∧ ¬ (index ≤ i ∧ currentWrite.path <+: writeToRemove.path) ∧
      ¬ writeToRemove.path <+: currentWrite.path := by
  rw [compareWrite, if_pos hvisible] at h
  split_ifs at h with hcover hbelow
  · exact nomatch congrArg Prod.fst h
  · exact nomatch congrArg Prod.snd h
  · exact ⟨h, hcover, hbelow⟩

/-- A removed write that no longer counts as visible is covered by a later one. -/
theorem exists_cover_of_compareWrites
    (h : (compareWrites writeToRemove index allWrites n flags).1 = false) :
    flags.1 = false ∨ ∃ i record, index ≤ i ∧ allWrites[i]? = some record ∧
      record.path <+: writeToRemove.path := by
  induction n generalizing flags with
  | zero => exact .inl h
  | succ n ih =>
    rw [compareWrites] at h
    split_ifs at h with hflag
    · cases hget : allWrites[n]? with
      | none => exact .inl (by rwa [hget] at h)
      | some currentWrite =>
        rw [hget] at h
        rcases ih h with hfalse | hcover
        · refine (covers_of_compareWrite hfalse).imp_right fun ⟨hindex, hpath⟩ => ?_
          exact ⟨n, currentWrite, hindex, hget, hpath⟩
        · exact .inr hcover
    · exact .inl h

/-- A removed write that is neither covered nor overlapping is beside every other write, or below an
earlier one. -/
theorem beside_of_compareWrites (hvisible : ∀ record ∈ allWrites, record.visible = true)
    (hn : n ≤ allWrites.length)
    (h : compareWrites writeToRemove index allWrites n flags = (true, false)) :
    flags = (true, false) ∧ ∀ i < n, ∀ record, allWrites[i]? = some record →
      ¬ (index ≤ i ∧ record.path <+: writeToRemove.path) ∧
        ¬ writeToRemove.path <+: record.path := by
  induction n generalizing flags with
  | zero => exact ⟨h, fun i hi => absurd hi (Nat.not_lt_zero i)⟩
  | succ n ih =>
    rw [compareWrites] at h
    split_ifs at h with hflag
    · have hget : allWrites[n]? = some allWrites[n] := List.getElem?_eq_getElem hn
      rw [hget] at h
      obtain ⟨hflags, hbefore⟩ := ih (Nat.le_of_succ_le hn) h
      obtain ⟨hflags, hlast⟩ := beside_of_compareWrite (hvisible _ (List.getElem_mem hn)) hflags
      refine ⟨hflags, fun i hi record hrecord => ?_⟩
      rcases Nat.lt_succ_iff_lt_or_eq.mp hi with hlt | rfl
      · exact hbefore i hlt record hrecord
      · rw [hget, Option.some.injEq] at hrecord
        exact hrecord ▸ hlast
    · exact absurd (congrArg Prod.fst h) hflag

/-- The loop over all the other writes finds that a later one covers the removed one. -/
theorem exists_cover_later {earlier later : List FWriteRecord}
    (h : (compareWrites writeToRemove earlier.length (earlier ++ later)
      (earlier ++ later).length (true, false)).1 = false) :
    ∃ cover ∈ later, cover.path <+: writeToRemove.path := by
  obtain ⟨i, cover, hi, hget, hcovers⟩ :=
    (exists_cover_of_compareWrites h).resolve_left Bool.noConfusion
  rw [List.getElem?_append_right hi] at hget
  exact ⟨cover, List.mem_of_getElem? hget, hcovers⟩

/-- The loop over all the other writes finds that none overlaps with the removed one. -/
theorem beside_all_of_compareWrites {earlier later : List FWriteRecord}
    (hvisible : ∀ record ∈ earlier ++ later, record.visible = true)
    (h : compareWrites writeToRemove earlier.length (earlier ++ later)
      (earlier ++ later).length (true, false) = (true, false)) :
    (∀ other ∈ earlier ++ later, ¬ writeToRemove.path <+: other.path) ∧
      ∀ other ∈ later, ¬ other.path <+: writeToRemove.path := by
  obtain ⟨-, hbeside⟩ := beside_of_compareWrites hvisible le_rfl h
  refine ⟨fun other hother => ?_, fun other hother hcovers => ?_⟩
  · obtain ⟨i, hi, rfl⟩ := List.mem_iff_getElem.mp hother
    exact (hbeside i hi _ (List.getElem?_eq_getElem hi)).2
  · obtain ⟨j, hj, rfl⟩ := List.mem_iff_getElem.mp hother
    have hlt : earlier.length + j < (earlier ++ later).length := by
      rw [List.length_append]
      omega
    have hget : (earlier ++ later)[earlier.length + j]? = some later[j] := by
      rw [List.getElem?_append_right (Nat.le_add_right _ _), Nat.add_sub_cancel_left,
        List.getElem?_eq_getElem hj]
    exact (hbeside _ hlt _ hget).1 ⟨Nat.le_add_right _ _, hcovers⟩

end Compare

section Remove

variable {tree tree' : FWriteTree} {writeId : ℤ} {reevaluate : Bool}

/-- A pending write can be removed. -/
theorem exists_removeWriteId {record : FWriteRecord} (hmem : record ∈ tree.allWrites)
    (hid : record.writeId = writeId) : ∃ result, tree.removeWriteId writeId = some result := by
  rw [removeWriteId]
  cases hfind : tree.allWrites.findIdx? fun record => record.writeId = writeId with
  | none =>
    have hnone := List.findIdx?_eq_none_iff.mp hfind record hmem
    exact absurd hid (by simpa using hnone)
  | some index =>
    obtain ⟨hindex, -⟩ := List.findIdx?_eq_some_iff_getElem.mp hfind
    simp only [List.getElem?_eq_getElem hindex]
    split_ifs
    all_goals exact ⟨_, rfl⟩

/-- The writes before and after the first one with an id. -/
theorem split_of_findIdx? {allWrites : List FWriteRecord} {index : ℕ}
    (h : (allWrites.findIdx? fun record => record.writeId = writeId) = some index) :
    ∃ earlier record later, allWrites = earlier ++ record :: later ∧ earlier.length = index ∧
      record.writeId = writeId ∧ ∀ other ∈ earlier, other.writeId ≠ writeId := by
  obtain ⟨hindex, hid, hbefore⟩ := List.findIdx?_eq_some_iff_getElem.mp h
  refine ⟨allWrites.take index, allWrites[index], allWrites.drop (index + 1), ?_,
    List.length_take_of_le hindex.le, of_decide_eq_true hid, fun other hother => ?_⟩
  · rw [← List.drop_eq_getElem_cons hindex, List.take_append_drop]
  · obtain ⟨j, hj, rfl⟩ := List.mem_iff_getElem.mp hother
    rw [List.length_take, lt_min_iff] at hj
    rw [List.getElem_take]
    simpa using hbefore j hj.1

/-- What `removeWriteId` does when every write is visible: the removed write goes from the list, and
the compound write is kept if a later write covers the removed one, merged again, or cut. -/
theorem removeWriteId_cases (hvisible : ∀ record ∈ tree.allWrites, record.visible = true)
    (h : tree.removeWriteId writeId = some (tree', reevaluate)) :
    ∃ earlier record later, tree.allWrites = earlier ++ record :: later ∧
      record.writeId = writeId ∧ (∀ other ∈ earlier, other.writeId ≠ writeId) ∧
      tree'.allWrites = earlier ++ later ∧
      ((∃ cover ∈ later, cover.path <+: record.path) ∧ tree'.visibleWrites = tree.visibleWrites ∨
        tree'.visibleWrites = layerTreeFromWrites (earlier ++ later) defaultFilter [] ∨
        (∀ other ∈ earlier ++ later, ¬ record.path <+: other.path) ∧
          (∀ other ∈ later, ¬ other.path <+: record.path) ∧
          tree'.visibleWrites = tree.visibleWrites.removeWriteAtPath record.path) := by
  rw [removeWriteId] at h
  cases hfind : tree.allWrites.findIdx? fun record => record.writeId = writeId with
  | none =>
    rw [hfind] at h
    exact nomatch h
  | some index =>
    obtain ⟨earlier, record, later, hall, rfl, hid, hfirst⟩ := split_of_findIdx? hfind
    rw [hfind] at h
    rw [hall, List.forall_mem_append, List.forall_mem_cons] at hvisible
    have hget : tree.allWrites[earlier.length]? = some record := by
      rw [hall, List.getElem?_append_right le_rfl, Nat.sub_self]
      rfl
    have herase : tree.allWrites.eraseIdx earlier.length = earlier ++ later := by
      rw [hall, List.eraseIdx_append_of_length_le le_rfl, Nat.sub_self]
      rfl
    simp only [hget, herase, hvisible.2.1] at h
    refine ⟨earlier, record, later, hall, hid, hfirst, ?_⟩
    cases hflag : (compareWrites record earlier.length (earlier ++ later)
      (earlier ++ later).length (true, false)).1 with
    | false =>
      simp only [hflag, Bool.not_false, if_true, Option.some.injEq, Prod.mk.injEq] at h
      obtain ⟨rfl, -⟩ := h
      exact ⟨rfl, .inl ⟨exists_cover_later hflag, rfl⟩⟩
    | true =>
      simp only [hflag, Bool.not_true, Bool.false_eq_true, if_false] at h
      split_ifs at h with hoverlaps
      · simp only [Option.some.injEq, Prod.mk.injEq] at h
        obtain ⟨rfl, -⟩ := h
        exact ⟨rfl, .inr (.inl rfl)⟩
      · simp only [Option.some.injEq, Prod.mk.injEq] at h
        obtain ⟨rfl, -⟩ := h
        obtain ⟨hbelow, hlater⟩ := beside_all_of_compareWrites
          (List.forall_mem_append.mpr ⟨hvisible.1, hvisible.2.2⟩)
          (Prod.ext hflag (Bool.eq_false_of_not_eq_true hoverlaps))
        exact ⟨rfl, .inr (.inr ⟨hbelow, hlater, rfl⟩)⟩

end Remove

/-! ### The compound write along a run -/

theorem consistent_init : Consistent init where
  visible := fun _ h => absurd h List.not_mem_nil
  openAt := List.Pairwise.nil
  complete := fun _ => rfl

section Steps

variable {tree tree' : FWriteTree} {path : List String} {newData : DatabaseTree} {writeId : ℤ}
  {reevaluate : Bool}

theorem Consistent.addOverwriteAtPath (h : Consistent tree)
    (hopen : ∀ record ∈ tree.allWrites, OpenAt path (place record.path record.overwrite)) :
    Consistent (tree.addOverwriteAtPath path newData writeId true) where
  visible := List.forall_mem_append.mpr ⟨h.visible, List.forall_mem_singleton.mpr rfl⟩
  openAt := by
    refine List.pairwise_append.mpr ⟨h.openAt, List.pairwise_singleton _ _, ?_⟩
    rintro record hrecord _ hnew
    rw [List.mem_singleton.mp hnew]
    exact hopen record hrecord
  complete := by
    intro r
    rw [writes, FWriteTree.addOverwriteAtPath, List.map_append, List.map_singleton, if_pos rfl,
      FCompoundWrite.completeNodeAtPath_addWrite, h.complete, completeAt_append_singleton]
    rfl

/-- A value of the compound write at or above the path of the removed write is at this path, if no
other write is at or above it. -/
theorem Consistent.isPrefix_of_mem_leaves {record : FWriteRecord}
    {earlier later : List FWriteRecord} (h : Consistent tree)
    (hwrites : tree.writes =
      earlier.map FWriteRecord.write ++ record.write :: later.map FWriteRecord.write)
    (habove : ∀ other ∈ earlier ++ later, ¬ other.path <+: record.path) :
    ∀ write ∈ tree.visibleWrites.leaves, write.1 <+: record.path → record.path <+: write.1 := by
  intro write hmem hup
  by_contra hdown
  have hnone : completeAt write.1 tree.writes = none := by
    rw [hwrites, completeAt_eq_none_iff, List.forall_mem_append, List.forall_mem_cons]
    refine ⟨?_, hdown, ?_⟩
    all_goals
      rintro _ hwrite hother
      obtain ⟨other, hmem', rfl⟩ := List.mem_map.mp hwrite
      refine habove other ?_ (hother.trans hup)
      simp [hmem']
  rw [← h.complete, FCompoundWrite.completeNodeAtPath_of_mem hmem List.prefix_rfl] at hnone
  exact nomatch hnone

/-- What the writes say without one of them that overlaps with no other: it is cut out. -/
theorem completeAt_cut {record : FWriteRecord} {earlier later : List FWriteRecord}
    (habove : ∀ other ∈ earlier ++ later, ¬ other.path <+: record.path)
    (hbelow : ∀ other ∈ earlier ++ later, ¬ record.path <+: other.path) (r : List String) :
    (if record.path <+: r then none else completeAt r
      (earlier.map FWriteRecord.write ++ record.write :: later.map FWriteRecord.write)) =
      completeAt r (earlier.map FWriteRecord.write ++ later.map FWriteRecord.write) := by
  split_ifs with hr
  · refine (completeAt_eq_none_iff.mpr fun write hwrite hother => ?_).symm
    rw [← List.map_append] at hwrite
    obtain ⟨other, hmem, rfl⟩ := List.mem_map.mp hwrite
    exact (List.prefix_or_prefix_of_prefix hother hr).elim (habove other hmem) (hbelow other hmem)
  · refine completeAt_drop_of_not_isPrefix (fun write hwrite => ?_) hr
    obtain ⟨other, hmem, rfl⟩ := List.mem_map.mp hwrite
    exact habove other (List.mem_append_left _ hmem)

/-- **An answered write goes out of the compound write**, whichever way is taken. -/
theorem Consistent.removeWriteId (h : Consistent tree)
    (hremove : tree.removeWriteId writeId = some (tree', reevaluate))
    (horder : ∀ record ∈ tree.allWrites, record.writeId = writeId →
      ∀ other ∈ tree.allWrites.takeWhile fun other => other.writeId ≠ writeId,
        other.path <+: record.path → record.path <+: other.path) :
    Consistent tree' := by
  obtain ⟨earlier, record, later, hall, hid, hfirst, hall', hcases⟩ :=
    removeWriteId_cases h.visible hremove
  have hsub : List.Sublist tree'.allWrites tree.allWrites := by
    rw [hall, hall']
    exact List.Sublist.append_left (List.sublist_cons_self record later) earlier
  refine ⟨fun other hother => h.visible other (hsub.subset hother), h.openAt.sublist hsub, ?_⟩
  have hopen := h.openAt
  rw [hall, List.pairwise_append] at hopen
  have hwrites : tree.writes =
      earlier.map FWriteRecord.write ++ record.write :: later.map FWriteRecord.write := by
    rw [writes, hall, List.map_append, List.map_cons]
  have hwrites' : tree'.writes =
      earlier.map FWriteRecord.write ++ later.map FWriteRecord.write := by
    rw [writes, hall', List.map_append]
  intro r
  rcases hcases with ⟨⟨cover, hcover, hcovers⟩, hsame⟩ | hreset | ⟨hbelow, hlater, hcut⟩
  · rw [hsame, h.complete, hwrites, hwrites']
    refine completeAt_drop_shadowed (List.mem_map_of_mem hcover) hcovers ?_
    rintro _ hwrite
    obtain ⟨other, hother, rfl⟩ := List.mem_map.mp hwrite
    exact hopen.2.2 other hother record List.mem_cons_self
  · rw [hreset, FCompoundWrite.completeNodeAtPath_layerTreeFromWrites, hwrites', ← List.map_append,
      List.nil_append]
    congr 2
    exact List.filter_eq_self.mpr fun _ _ => rfl
  · -- no other write is at, above or below the path of the removed one
    have habove : ∀ other ∈ earlier ++ later, ¬ other.path <+: record.path := by
      intro other hother hup
      rcases List.mem_append.mp hother with hearlier | hlate
      · have hmem : record ∈ tree.allWrites := hall ▸ by simp
        refine hbelow other hother (horder record hmem hid other ?_ hup)
        rw [hall, List.takeWhile_append_of_pos fun other hother =>
          decide_eq_true (hfirst other hother)]
        exact List.mem_append_left _ hearlier
      · exact hlater other hlate hup
    rw [hcut, FCompoundWrite.completeNodeAtPath_removeWriteAtPath
      (h.isPrefix_of_mem_leaves hwrites habove), h.complete, hwrites, hwrites']
    exact completeAt_cut habove hbelow r

end Steps

/-- **The compound write is right along every run**: it says of every path what the pending writes
say, one after the other. -/
theorem run_keeps_consistent {ts : List (Transition FWriteTree WriteEvent)} {tree : FWriteTree}
    (run : Run Step init ts tree) (h : ∀ τ ∈ ts, Admissible τ) : Consistent tree := by
  have hstep : ∀ t e u, Consistent t → Step t e u → Admissible ⟨t, e, u⟩ → Consistent u := by
    intro t e u ht hu hg
    cases hu with
    | overwrite => exact ht.addOverwriteAtPath hg
    | remove removed => exact ht.removeWriteId removed hg
  exact run.invariant_of_guard hstep consistent_init h

/-! ### What the client shows -/

/-- The pending writes without the excluded ones. -/
def writesExcept (writeIdsToExclude : Option (List ℤ)) (tree : FWriteTree) :
    List (List String × DatabaseTree) :=
  (tree.allWrites.filter fun record =>
    writeIdsToExclude.all fun writeIds => !writeIds.contains record.writeId).map FWriteRecord.write

section Show

variable {tree : FWriteTree} {server : DatabaseTree} {treePath x : List String}
  {writeIdsToExclude : Option (List ℤ)} {includeHiddenWrites : Bool}

theorem writesExcept_none : tree.writesExcept none = tree.writes := by
  rw [writesExcept, writes]
  congr 1
  exact List.filter_eq_self.mpr fun _ _ => rfl

theorem writesExcept_subset : tree.writesExcept writeIdsToExclude ⊆ tree.writes :=
  (List.filter_sublist.map _).subset

theorem map_write_filter (hvisible : ∀ record ∈ tree.allWrites, record.visible = true) :
    ((tree.allWrites.filter fun record => (record.visible || includeHiddenWrites) &&
      (writeIdsToExclude.all fun writeIds => !writeIds.contains record.writeId) &&
      decide (record.path <+: treePath ∨ treePath <+: record.path)).map FWriteRecord.write) =
      (tree.writesExcept writeIdsToExclude).filter fun write =>
        write.1 <+: treePath ∨ treePath <+: write.1 := by
  rw [writesExcept, List.filter_map, List.filter_filter]
  refine congrArg (List.map FWriteRecord.write) (List.filter_congr fun record hrecord => ?_)
  rw [hvisible record hrecord, Bool.true_or, Bool.true_and, Bool.and_comm]
  rfl

theorem Consistent.completeNodeAtPath_child (h : Consistent tree) (treePath r : List String) :
    (tree.visibleWrites.childCompoundWriteAtPath treePath).completeNodeAtPath r =
      completeAt (treePath ++ r) tree.writes := by
  rw [FCompoundWrite.completeNodeAtPath_childCompoundWriteAtPath, h.complete]

/-- **What the client shows at a path is the data from the server with the pending writes made
again**, whether it is taken from the merged writes or merged anew without some of them. -/
theorem Consistent.calculateCompleteEventCacheAtPath (h : Consistent tree)
    (hopen : ∀ record ∈ tree.allWrites, OpenAt record.path server) :
    ∃ node, tree.calculateCompleteEventCacheAtPath treePath (some (server.subtree treePath))
        writeIdsToExclude includeHiddenWrites = some node ∧
      ∀ x, node.leafAt x =
        (replay (tree.writesExcept writeIdsToExclude) server).leafAt (treePath ++ x) := by
  have hwrites : ∀ write ∈ tree.writes, OpenAt write.1 server := by
    rintro _ hwrite
    obtain ⟨record, hrecord, rfl⟩ := List.mem_map.mp hwrite
    exact hopen record hrecord
  have hchild := h.completeNodeAtPath_child treePath
  rw [FWriteTree.calculateCompleteEventCacheAtPath.eq_def]
  split
  · rw [writesExcept_none]
    split
    · rename_i shadowingNode hshadow
      refine ⟨shadowingNode, rfl, fun x => ?_⟩
      rw [← leafAt_subtree, subtree_replay ((h.complete treePath).symm.trans hshadow)]
    · refine ⟨_, ?_, fun x => FCompoundWrite.leafAt_applyToNode hchild hwrites⟩
      simp only [reduceCtorEq, false_and, if_false, Option.getD_some, ite_eq_right_iff]
      intro hempty
      rw [FCompoundWrite.applyToNode, List.isEmpty_iff.mp hempty]
      rfl
  · dsimp only
    split_ifs with hempty hnone
    · refine ⟨_, rfl, fun x => ?_⟩
      have hleaves := List.isEmpty_iff.mp (Bool.and_eq_true_iff.mp hempty).2
      have hbeside : completeAt (treePath ++ x) tree.writes = none := by
        rw [← hchild, FCompoundWrite.completeNodeAtPath_eq_none_iff, hleaves]
        exact fun write hwrite => absurd hwrite List.not_mem_nil
      rw [leafAt_subtree, leafAt_replay_of_not_isPrefix]
      · exact fun write hwrite =>
          completeAt_eq_none_iff.mp hbeside write (writesExcept_subset hwrite)
      · exact fun write hwrite => hwrites write (writesExcept_subset hwrite)
    · exact hnone.2.1.elim
    · refine ⟨_, rfl, fun x => FCompoundWrite.leafAt_applyToNode (fun r => ?_) ?_⟩
      · rw [FCompoundWrite.completeNodeAtPath_layerTreeFromWrites, map_write_filter h.visible]
        refine completeAt_filter fun write _ hkeep => ?_
        rw [decide_eq_false_iff_not] at hkeep
        exact not_or.mp hkeep
      · exact fun write hwrite => hwrites write (writesExcept_subset hwrite)

/-- Without data from the server something is shown exactly where a pending write is at or above
the path. -/
theorem Consistent.calculateCompleteEventCacheAtPath_none (h : Consistent tree) :
    tree.calculateCompleteEventCacheAtPath treePath none none false =
      completeAt treePath tree.writes := by
  rw [FWriteTree.calculateCompleteEventCacheAtPath, ← h.complete]
  cases hshadow : tree.visibleWrites.completeNodeAtPath treePath with
  | some shadowingNode => rfl
  | none =>
    have hchild := h.completeNodeAtPath_child treePath []
    rw [List.append_nil, ← h.complete, hshadow] at hchild
    simp [FCompoundWrite.hasCompleteWriteAtPath, hchild]

end Show

/-- A tweet is written, and then its caption; the first write is answered. -/
def twoWrites : FWriteTree :=
  (init.addOverwriteAtPath ["Tweets", "a"] (place ["caption"] (leaf (.string "x"))) 0
    true).addOverwriteAtPath ["Tweets", "a", "caption"] (leaf (.string "y")) 1 true

theorem isSome_removeWriteId_twoWrites : (twoWrites.removeWriteId 0).isSome := by
  decide

/-- The tree after the first answer. -/
def oneAnswered : FWriteTree := ((twoWrites.removeWriteId 0).get isSome_removeWriteId_twoWrites).1

/-- A write below an earlier one has been merged into its value. If it is answered first, its data
stays in the compound write. -/
example :
    (twoWrites.removeWriteId 1).map (fun result =>
      (result.1.allWrites.length,
        (result.1.visibleWrites.completeNodeAtPath ["Tweets", "a"]).bind fun node =>
          node.leafAt ["caption"])) = some (1, some (.string "y")) := by
  decide

end FWriteTree

end TwitterLite
