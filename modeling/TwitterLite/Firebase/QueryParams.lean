import TwitterLite.Firebase.LimitedFilter

/-!
# The parameters of a query

The parameters of a query are an index, the two ends of a range, and a limit on the side where it is
anchored. They determine the filter of the query (`FQueryParams.nodeFilter`), unless the range is
one that its index cannot have. They travel to the server as a dictionary, and the client stores
this dictionary with the data that it keeps on the disk (`FQueryParams.wireProtocolParams`,
`FQueryParams.fromQueryObject`). The path of an index comes back from the text in the dictionary
(`IsIndexPath.indexFromQueryDefinition_eq`).

## Main definitions

* `TwitterLite.FQueryParams`, `TwitterLite.FQueryParams.nodeFilter`.
* `TwitterLite.FNodeFilter.updateFullNode`.
* `TwitterLite.FQueryParams.wireProtocolParams`, `TwitterLite.FQueryParams.fromQueryObject`.

## Main results

* `TwitterLite.FRangedFilter.children_updateFullNode`.
* `TwitterLite.IsIndexPath.indexFromQueryDefinition_eq`.

Source: `FQueryParams.m`; `FIndex.m`; `FKeyIndex.m`; `FPathIndex.m`, lines 30–100;
`FRangedFilter.m`, lines 33–110; `FLimitedFilter.m`, lines 35–46; `FPath.m`, lines 148–161;
`FValidation.m`, lines 25–26 and 111–120.
-/

namespace TwitterLite

open Comparator Window

/-! ### The parameters -/

/-- The index of a query. -/
inductive FIndex where
  | key
  | value
  | priority
  | path (pieces : List String)
  deriving DecidableEq, Repr

/-- A limit that `validateLimitRange:` lets through. -/
structure Limit where
  val : ℕ
  pos : 0 < val
  lt : val < 2 ^ 31
  deriving DecidableEq, Repr

/-- The side where a limit is anchored. -/
inductive ViewFrom where
  | left
  | right
  deriving DecidableEq, Repr

/-- `FQueryParams`. The value at an end of the range is a leaf, or an empty node. -/
@[ext] structure FQueryParams where
  limit : Option Limit := none
  viewFrom : Option ViewFrom := none
  indexStartValue : Option (Option Leaf) := none
  indexStartKey : Option String := none
  indexEndValue : Option (Option Leaf) := none
  indexEndKey : Option String := none
  index : FIndex := .priority
  deriving DecidableEq, Repr

namespace FQueryParams

variable (params : FQueryParams)

/-- `limitToFirst:`. -/
def limitToFirst (newLimit : Limit) : FQueryParams :=
  { params with limit := some newLimit, viewFrom := some .left }

/-- `limitToLast:`. -/
def limitToLast (newLimit : Limit) : FQueryParams :=
  { params with limit := some newLimit, viewFrom := some .right }

/-- `startAt:childKey:`. -/
def startAt (indexValue : Option Leaf) (key : Option String) : FQueryParams :=
  { params with indexStartValue := some indexValue, indexStartKey := key }

/-- `endAt:childKey:`. -/
def endAt (indexValue : Option Leaf) (key : Option String) : FQueryParams :=
  { params with indexEndValue := some indexValue, indexEndKey := key }

/-- `orderBy:`. -/
def orderBy (newIndex : FIndex) : FQueryParams := { params with index := newIndex }

/-- `hasStart`. -/
def hasStart : Bool := params.indexStartValue.isSome

/-- `hasEnd`. -/
def hasEnd : Bool := params.indexEndValue.isSome

/-- `hasAnchoredLimit`. -/
def hasAnchoredLimit : Bool := params.limit.isSome && params.viewFrom.isSome

/-- `isValid`. -/
def isValid : Bool :=
  !(params.hasStart && params.hasEnd && params.limit.isSome && !params.hasAnchoredLimit)

/-- `loadsAllData`. -/
def loadsAllData : Bool := !(params.hasStart || params.hasEnd || params.limit.isSome)

/-- `isViewFromLeft`. -/
def isViewFromLeft : Bool :=
  match params.viewFrom with
  | some viewFrom => viewFrom = .left
  | none => params.hasStart

end FQueryParams

/-! ### The filter of a query -/

/-- A leaf, or the empty node. -/
def IndexValue.ofValue : Option Leaf → IndexValue
  | some value => .leaf value
  | none => .empty

/-- `makePost:name:` of the indexes. The key index asserts that its value is a string. -/
def FIndex.makePost (index : FIndex) (indexValue : Option Leaf) (name : FKey) :
    Option FNamedNode :=
  match index, indexValue with
  | .key, some (.string text) => some ⟨.name text, .empty⟩
  | .key, _ => none
  | _, indexValue => some ⟨name, .ofValue indexValue⟩

/-- `maxPost` of the indexes. -/
def FIndex.maxPost (index : FIndex) : FNamedNode :=
  match index with
  | .key => ⟨.maxName, .empty⟩
  | _ => ⟨.maxName, .max⟩

/-- `FNamedNode.min`, the `minPost` of every index. -/
def FNamedNode.min : FNamedNode := ⟨.minName, .empty⟩

/-- The filters of a query. -/
inductive FNodeFilter (ν : Type*) where
  | indexed
  | ranged (filter : FRangedFilter ν)
  | limited (filter : FLimitedFilter ν)

/-- `FRangedFilter.startPostFromQueryParams:`. -/
def FQueryParams.startPost (params : FQueryParams) : Option FNamedNode :=
  match params.indexStartValue with
  | some value => params.index.makePost value (params.indexStartKey.elim .minName .name)
  | none => some .min

/-- `FRangedFilter.endPostFromQueryParams:`. -/
def FQueryParams.endPost (params : FQueryParams) : Option FNamedNode :=
  match params.indexEndValue with
  | some value => params.index.makePost value (params.indexEndKey.elim .maxName .name)
  | none => some params.index.maxPost

/-- `nodeFilter`; `lookup` is what an index looks at in a node. -/
def FQueryParams.nodeFilter {ν : Type*} (params : FQueryParams)
    (lookup : FIndex → ν → IndexValue) : Option (FNodeFilter ν) :=
  if params.loadsAllData then some .indexed
  else
    match params.startPost, params.endPost, params.limit with
    | some startPost, some endPost, some limit =>
      some (.limited ⟨⟨lookup params.index, startPost, endPost⟩, limit.val,
        !params.isViewFromLeft, limit.pos⟩)
    | some startPost, some endPost, none =>
      some (.ranged ⟨lookup params.index, startPost, endPost⟩)
    | _, _, _ => none

/-- `FRangedFilter.updateFullNode:withNewNode:`. -/
def FRangedFilter.updateFullNode {ν : Type*} [EmptyCollection ν] [DecidableEq ν]
    (filter : FRangedFilter ν) (newSnap : FIndexedNode filter.indexValue)
    (node : FChildrenNode ν) : FIndexedNode filter.indexValue :=
  node.children.foldl (fun filtered child =>
    if filter.matchesKey child then filtered else filtered.updateChild child.name ∅) newSnap

/-- What the filter leaves, in the order of the index. -/
theorem FRangedFilter.children_updateFullNode {ν : Type*} [EmptyCollection ν] [DecidableEq ν]
    (filter : FRangedFilter ν) (node : FChildrenNode ν) :
    (filter.updateFullNode (node.ensureIndexed filter.indexValue) node).children =
      (node.ensureIndexed filter.indexValue).children.filter filter.matchesKey := by
  have horder : IsStrictOrder (Child ν) (before (indexOrder filter.indexValue).compare) :=
    (indexOrder filter.indexValue).isStrictOrder false
  -- after a part of the enumeration, what was seen is gone if it is not in the range
  have hpart (done : List (Child ν)) (hdone : ∀ child ∈ done, child ∈ node.children)
      (child : Child ν) : child ∈ (done.foldl (fun filtered child =>
        if filter.matchesKey child then filtered else filtered.updateChild child.name ∅)
          (node.ensureIndexed filter.indexValue)).children ↔
      child ∈ node.children ∧ (child ∈ done → filter.matchesKey child = true) := by
    induction done using List.reverseRecOn generalizing child with
    | nil => simp [ChildSet.mem_ensureIndexed]
    | append_singleton done last ih =>
      obtain ⟨hdone, hlast⟩ := List.forall_mem_append.mp hdone
      have hlast := hlast last (List.mem_singleton_self last)
      rw [List.foldl_append, List.foldl_cons, List.foldl_nil, List.mem_append,
        List.mem_singleton]
      split_ifs with hmatch
      · rw [ih hdone]
        refine and_congr_right fun _ => ⟨?_, fun h hc => h (.inl hc)⟩
        rintro h (hc | rfl)
        · exact h hc
        · exact hmatch
      · rw [ChildSet.mem_updateChild, ih hdone]
        constructor
        · rintro (⟨⟨hc, h⟩, hkey⟩ | ⟨hne, -⟩)
          · refine ⟨hc, ?_⟩
            rintro (hmem | rfl)
            · exact h hmem
            · exact absurd (SameKey.refl _) hkey
          · exact absurd rfl hne
        · rintro ⟨hc, h⟩
          refine .inl ⟨⟨hc, fun hmem => h (.inl hmem)⟩, fun hkey => ?_⟩
          obtain rfl := node.eq_of_sameKey hc hlast hkey
          exact hmatch (h (.inr rfl))
  refine eq_of_mem_iff (ChildSet.sorted _) ((ChildSet.sorted _).filter _) fun child => ?_
  rw [FRangedFilter.updateFullNode, hpart node.children (fun _ hc => hc), List.mem_filter,
    ChildSet.mem_ensureIndexed]
  exact and_congr_right fun hc => ⟨fun h => h hc, fun h _ => h⟩

/-- The children that a filter leaves of a whole node, in the order of the index. -/
def FNodeFilter.updateFullNode {ν : Type*} [EmptyCollection ν] [DecidableEq ν]
    (indexValue : ν → IndexValue) (node : FChildrenNode ν) : FNodeFilter ν → List (Child ν)
  | .indexed => (node.ensureIndexed indexValue).children
  | .ranged filter =>
    (filter.updateFullNode (node.ensureIndexed filter.indexValue) node).children
  | .limited filter => (filter.updateFullNode (node.ensureIndexed filter.indexValue)).children

/-! ### The dictionary of the parameters -/

/-- The dictionary of `wireProtocolParams`. -/
structure QueryObject where
  sp : Option (Option Leaf) := none
  sn : Option String := none
  ep : Option (Option Leaf) := none
  en : Option String := none
  l : Option Limit := none
  vf : Option String := none
  i : Option String := none
  deriving DecidableEq, Repr

/-- `FPath.wireFormat`. -/
def wireFormat (pieces : List String) : String :=
  if pieces = [] then "/"
  else String.ofList (['/'].intercalate (pieces.map String.toList))

/-- `queryDefinition` of the indexes. -/
def FIndex.queryDefinition : FIndex → String
  | .key => ".key"
  | .value => ".value"
  | .priority => ".priority"
  | .path pieces => wireFormat pieces

/-- `FPathIndex.initWithPath:`. -/
def FIndex.initWithPath (path : List String) : Except String FIndex :=
  if path = [] ∨ path.head? = some ".priority" then
    .error ("Invalid path for PathIndex: " ++ wireFormat path)
  else .ok (.path path)

/-- `FIndex.indexFromQueryDefinition:`. -/
def FIndex.indexFromQueryDefinition (string : String) : Except String FIndex :=
  if string = ".key" then .ok .key
  else if string = ".value" then .ok .value
  else if string = ".priority" then .ok .priority
  else FIndex.initWithPath (pathPieces string)

namespace FQueryParams

/-- The side as it is sent: if there is no anchor, the side of the only end, or else the end. -/
def wireViewFrom (params : FQueryParams) : String :=
  match params.viewFrom with
  | some .left => "l"
  | some .right => "r"
  | none => if params.hasStart then "l" else "r"

/-- `wireProtocolParams`. -/
def wireProtocolParams (params : FQueryParams) : QueryObject where
  sp := params.indexStartValue
  sn := if params.hasStart then params.indexStartKey else none
  ep := params.indexEndValue
  en := if params.hasEnd then params.indexEndKey else none
  l := params.limit
  vf := if params.limit.isSome then some params.wireViewFrom else none
  i := if params.index = .priority then none else some params.index.queryDefinition

/-- The side in a dictionary. -/
def viewFromQueryObject (dict : QueryObject) : Except String (Option ViewFrom) :=
  match dict.vf with
  | none => .ok none
  | some viewFrom =>
    if viewFrom = "l" then .ok (some .left)
    else if viewFrom = "r" then .ok (some .right)
    else .error ("Unknown view from paramter: " ++ viewFrom)

/-- The parameters in a dictionary. -/
def paramsFromQueryObject (dict : QueryObject) : Except String FQueryParams := do
  let viewFrom ← viewFromQueryObject dict
  let index ← dict.i.elim (.ok .priority) FIndex.indexFromQueryDefinition
  return {
    limit := dict.l
    viewFrom := viewFrom
    indexStartValue := dict.sp
    indexStartKey := if dict.sp.isSome then dict.sn else none
    indexEndValue := dict.ep
    indexEndKey := if dict.ep.isSome then dict.en else none
    index := index }

/-- `fromQueryObject:`. -/
def fromQueryObject (dict : QueryObject) : Except String FQueryParams :=
  if dict = {} then .ok {} else paramsFromQueryObject dict

theorem fromQueryObject_eq (dict : QueryObject) :
    fromQueryObject dict = paramsFromQueryObject dict := by
  unfold fromQueryObject
  split_ifs with hempty
  · rw [hempty]
    rfl
  · rfl

end FQueryParams

/-! ### Paths of indexes -/

/-- `kInvalidKeyCharacters` of `FValidation.m`. -/
def invalidKeyCharacters : List Char := "[].#$/".toList

/-- `FValidation.isValidKey:`. -/
def isValidKey (key : String) : Bool :=
  key != "" && !key.toList.any fun c => invalidKeyCharacters.contains c

theorem mem_of_mem_splitOn {xs piece : List Char} (h : piece ∈ xs.splitOn '/') {c : Char}
    (hc : c ∈ piece) : c ∈ xs ∧ c ≠ '/' := by
  induction xs generalizing piece with
  | nil =>
    rw [List.splitOn_nil, List.mem_singleton] at h
    exact absurd hc (h ▸ List.not_mem_nil)
  | cons x xs ih =>
    rw [List.splitOn_cons_eq_if_modifyHead] at h
    split_ifs at h with hx
    · rcases List.mem_cons.mp h with rfl | h
      · exact absurd hc List.not_mem_nil
      · exact (ih h hc).imp_left (List.mem_cons_of_mem x)
    · obtain ⟨first, rest, hsplit⟩ := List.exists_cons_of_ne_nil (List.splitOn_ne_nil '/' xs)
      rw [hsplit] at h ih
      rcases List.mem_cons.mp h with rfl | h
      · rcases List.mem_cons.mp hc with rfl | hc
        · exact ⟨List.mem_cons_self, fun heq => hx (beq_iff_eq.mpr heq)⟩
        · exact (ih List.mem_cons_self hc).imp_left (List.mem_cons_of_mem x)
      · exact (ih (List.mem_cons_of_mem first h) hc).imp_left (List.mem_cons_of_mem x)

/-- A path that an index can have: keys of the database. -/
def IsIndexPath (pieces : List String) : Prop :=
  pieces ≠ [] ∧ ∀ piece ∈ pieces, isValidKey piece = true

theorem isValidKey_iff {key : String} : isValidKey key = true ↔
    key ≠ "" ∧ ∀ c ∈ key.toList, c ∉ invalidPathCharacters ∧ c ≠ '/' := by
  have hcons (c : Char) : c ∈ invalidKeyCharacters ↔ c ∈ invalidPathCharacters ∨ c = '/' := by
    have happend : invalidKeyCharacters = invalidPathCharacters ++ ['/'] := by decide
    rw [happend, List.mem_append, List.mem_singleton]
  simp only [isValidKey, Bool.and_eq_true, bne_iff_ne, Bool.not_eq_true', List.any_eq_false,
    List.contains_iff_mem, hcons, not_or]

theorem isIndexPath_pathPieces {pathString : String}
    (hvalid : isValidPathString pathString = true) (hne : pathPieces pathString ≠ []) :
    IsIndexPath (pathPieces pathString) := by
  refine ⟨hne, fun piece hpiece => isValidKey_iff.mpr ?_⟩
  obtain ⟨chars, hchars, rfl⟩ := List.mem_map.mp hpiece
  obtain ⟨hsplit, hnonempty⟩ := List.mem_filter.mp hchars
  rw [String.toList_ofList]
  refine ⟨fun hempty => ?_, fun c hc => ?_⟩
  · have hnil : chars = [] := by simpa using congrArg String.toList hempty
    exact of_decide_eq_true hnonempty hnil
  · obtain ⟨hmem, hslash⟩ := mem_of_mem_splitOn hsplit hc
    simp only [isValidPathString, hasInvalidCharacter, Bool.and_eq_true, Bool.not_eq_true',
      List.any_eq_false, List.contains_iff_mem] at hvalid
    exact ⟨hvalid.2 c hmem, hslash⟩

namespace IsIndexPath

variable {pieces : List String} (h : IsIndexPath pieces)

include h

theorem pathPieces_wireFormat : pathPieces (wireFormat pieces) = pieces := by
  have hslash : ∀ l ∈ pieces.map String.toList, '/' ∉ l := by
    intro l hl hmem
    obtain ⟨piece, hpiece, rfl⟩ := List.mem_map.mp hl
    exact ((isValidKey_iff.mp (h.2 piece hpiece)).2 '/' hmem).2 rfl
  have hne : ∀ l ∈ pieces.map String.toList, decide (l ≠ []) = true := by
    intro l hl
    obtain ⟨piece, hpiece, rfl⟩ := List.mem_map.mp hl
    refine decide_eq_true fun hnil => (isValidKey_iff.mp (h.2 piece hpiece)).1 ?_
    exact String.toList_injective hnil
  rw [wireFormat, if_neg h.1, pathPieces, String.toList_ofList,
    List.splitOn_intercalate '/' hslash (by simpa using h.1), List.filter_eq_self.mpr hne,
    List.map_map]
  exact List.map_id'' (fun _ => String.ofList_toList) pieces

/-- The text of a path is none of the texts of the other indexes. -/
theorem wireFormat_ne {text : String} (htext : pathPieces text = [text])
    (hvalid : isValidKey text = false) : wireFormat pieces ≠ text := by
  rintro heq
  have hpieces : pieces = [text] := by rw [← h.pathPieces_wireFormat, heq, htext]
  have hkey := h.2 text (hpieces ▸ List.mem_singleton_self text)
  rw [hvalid] at hkey
  exact absurd hkey (by decide)

theorem initWithPath_eq : FIndex.initWithPath pieces = .ok (.path pieces) := by
  refine if_neg ?_
  rintro (hnil | hhead)
  · exact h.1 hnil
  · have hkey := h.2 ".priority" (List.mem_of_mem_head? hhead)
    exact absurd hkey (by decide)

/-- The index comes back from its definition. -/
theorem indexFromQueryDefinition_eq :
    FIndex.indexFromQueryDefinition (wireFormat pieces) = .ok (.path pieces) := by
  rw [FIndex.indexFromQueryDefinition, if_neg (h.wireFormat_ne (by decide) (by decide)),
    if_neg (h.wireFormat_ne (by decide) (by decide)),
    if_neg (h.wireFormat_ne (by decide) (by decide)), h.pathPieces_wireFormat, h.initWithPath_eq]

end IsIndexPath

end TwitterLite
