import TwitterLite.Common.Snapshot
import Mathlib.Data.List.Perm.Basic

/-!
# Encoding, and the two stages of decoding

`FirebaseDatabaseManager.post` stores the JSON object that the `encode(to:)` of a model and of its
superclasses fill with their keys; the database drops empty arrays. `fetchWithoutObserving` decodes
a dictionary in two stages, as the requested type and else as the array of its values, and an array
in one.

An array of strings is read back as it was stored (`TwitterLite.decodeArray_of_subtree`): its
positions are integer keys, which the database exports as an array again.

## Main definitions

* `TwitterLite.encodeUserModel`, `TwitterLite.encodePostTweetModel`.
* `TwitterLite.Decoding`, `TwitterLite.fetchWithoutObserving`.

## Main results

* `TwitterLite.integerKey_toString`, `TwitterLite.exportedArray_of_perm`.
* `TwitterLite.decodeString_of_subtree`, `TwitterLite.decodeDouble_of_subtree`,
  `TwitterLite.decodeArray_of_subtree`.

Source: `FirebaseDatabaseManager.swift`, lines 26–97; `EncodableExtensions.swift`, lines 11–30;
`DictionaryExtension.swift`, lines 11–38; `ArrayExtension.swift`, lines 11–18;
`FSnapshotUtilities.m`, lines 73–213; `BaseTweetModel.swift`, lines 36–45; `PostTweetModel.swift`,
lines 32–39; `UserModel.swift`, lines 40–51; `ImageWrapper.swift`, lines 31–38.
-/

namespace TwitterLite

open PathTree (leaf object)

/-! ### Encoding -/

/-- The node of an array: its elements at the keys of their positions. -/
def encodeArray (elements : List DatabaseTree) : DatabaseTree :=
  object (elements.zipIdx.map fun element => (toString element.2, some element.1))

/-- `ImageWrapper.encode`; `base64` is the text of the data. -/
def encodeImageWrapper (base64 : Data → String) (photo : ImageWrapper) : Option DatabaseTree :=
  photo.image.cache_toData.map fun data => object [("image", some (leaf (.string (base64 data))))]

/-- `UserModel.encode`, with the initialiser of its superclass. -/
def encodeUserModel (user : UserModel) : DatabaseTree :=
  object [
    ("userID", user.userID.map fun value => leaf (.string value)),
    ("photoURL", user.photoURL.map fun value => leaf (.string value)),
    ("displayName", user.displayName.map fun value => leaf (.string value)),
    ("emailAddress", user.emailAddress.map fun value => leaf (.string value)),
    ("userName", user.userName.map fun value => leaf (.string value)),
    ("password", user.password.map fun value => leaf (.string value)),
    ("modelID", user.modelID.map fun value => leaf (.string value))]

/-- `PostTweetModel.encode`, with those of its superclasses. An error of a photo is swallowed, and
with it the photos. -/
def encodePostTweetModel (base64 : Data → String) (tweet : PostTweetModel) : DatabaseTree :=
  object [
    ("uid", some (leaf (.string tweet.uid))),
    ("photos", tweet.photos.bind fun photos =>
      (photos.mapM (encodeImageWrapper base64)).map encodeArray),
    ("caption", tweet.caption.map fun value => leaf (.string value)),
    ("tweetID", tweet.tweetID.map fun value => leaf (.string value)),
    ("createdTimeStamp", tweet.createdTimeStamp.map fun value => leaf (.number value)),
    ("photoURL", tweet.photoURL.map fun urls =>
      encodeArray (urls.map fun value => leaf (.string value))),
    ("modelID", tweet.modelID.map fun value => leaf (.string value))]

/-! ### Fetching -/

/-- How a type is decoded from a dictionary and from an array, whose elements may be null. -/
structure Decoding (T : Type) where
  dictionary : DatabaseTree → Option T
  array : List (Option DatabaseTree) → Option T

/-- A list of tweets is no dictionary. -/
def tweetsDecoding (codecs : Codecs) : Decoding (List ViewTweetModel) where
  dictionary _ := none
  array elements := elements.mapM fun element => element.bind (decodeViewTweetModel codecs)

/-- A user is no array. -/
def userDecoding (codecs : Codecs) : Decoding UserModel where
  dictionary := decodeUserModel codecs
  array _ := none

/-- `Dictionary.decodeAsArray`: the values have to be dictionaries; `order` is the order in which
they are listed. -/
def decodeValues {T : Type} (decoding : Decoding T) (order : List String) (node : DatabaseTree) :
    Option T :=
  if order.all fun key => isDictionary (node.subtree [key]) then
    decoding.array (order.map fun key => some (node.subtree [key]))
  else none

/-- The value that `fetchWithoutObserving` decodes from a snapshot of the node, as a dictionary with
its keys in the given order, or as an array. -/
def decodedValue {T : Type} (decoding : Decoding T) (order : List String) (node : DatabaseTree) :
    Option T :=
  match exportedArray node.keys with
  | some positions =>
    decoding.array (positions.map fun position => position.map fun key => node.subtree [key])
  | none =>
    if isDictionary node then
      (decoding.dictionary node).orElse fun _ => decodeValues decoding order node
    else none

/-- `FirebaseDatabaseManager.fetchWithoutObserving` without a query: what its callback receives. -/
def fetchWithoutObserving {T : Type} (decoding : Decoding T) (path : String) (order : List String)
    (database : DatabaseTree) : Except Trap (Except AppError T) :=
  (child path).map fun path =>
    match decodedValue decoding order (database.subtree path) with
    | some value => .ok value
    | none => .error (.fireBase .failedToFetch)

/-! ### Integer keys -/

/-- No number but zero begins with a zero. -/
theorem head?_toDigits_ne {n : ℕ} (h : 0 < n) : (Nat.toDigits 10 n).head? ≠ some '0' := by
  induction n using Nat.strong_induction_on with
  | _ n ih =>
    rw [Nat.toDigits_eq_if (by decide)]
    split_ifs with hlt
    · have hdigit : ∀ m < 10, 0 < m → [Nat.digitChar m].head? ≠ some '0' := by decide
      exact hdigit n hlt h
    · rw [List.head?_append_of_ne_nil _ Nat.toDigits_ne_nil]
      exact ih (n / 10) (by omega) (by omega)

/-- The key of a position spells the position. -/
theorem integerKey_toString (n : ℕ) : integerKey (toString n) = some n := by
  have htoList : (toString n).toList = Nat.toDigits 10 n := by
    rw [Nat.toString_eq_repr, Nat.toList_repr]
  have hne : toString n ≠ "" := by simp
  have hdigits : (toString n).toList.all Char.isDigit = true := by
    rw [htoList]
    exact List.all_eq_true.mpr fun c hc => Nat.isDigit_of_mem_toDigits (by decide) le_rfl hc
  have hzero : (toString n).toList.head? = some '0' → (toString n).length = 1 := by
    rw [htoList]
    intro hhead
    rcases Nat.eq_zero_or_pos n with rfl | hpos
    · rfl
    · exact absurd hhead (head?_toDigits_ne hpos)
  rw [integerKey, if_pos ⟨hne, hdigits, hzero⟩, htoList, ← Nat.ofDigitChars_eq_foldl,
    Nat.ofDigitChars_ten_toDigits]

/-- A node with a key that is no integer is exported as a dictionary. -/
theorem exportedArray_eq_none {keys : List String} {key : String} (hmem : key ∈ keys)
    (hkey : integerKey key = none) : exportedArray keys = none :=
  if_neg fun h => h.2.1 key hmem hkey

theorem foldl_max_range (n : ℕ) : (List.range (n + 1)).foldl max 0 = n := by
  induction n with
  | zero => rfl
  | succ n ih => rw [List.range_succ, List.foldl_append, ih, List.foldl_cons, List.foldl_nil]; omega

/-- The keys of the positions of an array are exported as that array. -/
theorem exportedArray_of_perm {keys : List String} {n : ℕ} (hn : 0 < n)
    (h : keys.Perm ((List.range n).map toString)) :
    exportedArray keys = some ((List.range n).map fun i => some (toString i)) := by
  have hintegers : (keys.filterMap integerKey).Perm (List.range n) := by
    refine (h.filterMap integerKey).trans ?_
    rw [List.filterMap_map]
    refine .of_eq ?_
    calc (List.range n).filterMap (integerKey ∘ toString)
        = (List.range n).filterMap some := List.filterMap_congr fun i _ => integerKey_toString i
      _ = List.range n := List.filterMap_some
  have hmax : (keys.filterMap integerKey).foldl max 0 + 1 = n := by
    rw [hintegers.foldl_eq, ← Nat.sub_add_cancel hn, foldl_max_range]
  have hlength : keys.length = n := by simpa using h.length_eq
  have hne : keys ≠ [] := List.ne_nil_of_length_pos (hlength ▸ hn)
  have hall : ∀ key ∈ keys, integerKey key ≠ none := by
    intro key hkey
    obtain ⟨i, -, rfl⟩ := List.mem_map.mp (h.mem_iff.mp hkey)
    rw [integerKey_toString]
    exact Option.some_ne_none _
  rw [exportedArray, if_pos ⟨hne, hall, by omega⟩, hmax]
  refine congrArg some (List.map_congr_left fun i hi => if_pos (h.mem_iff.mpr ?_))
  exact List.mem_map_of_mem hi

/-! ### Fields -/

section Field

variable {node : DatabaseTree} {key : String}

theorem leafAt_key : node.leafAt [key] = (node.subtree [key]).leafAt [] := by
  rw [PathTree.leafAt_subtree, List.append_nil]

/-- A string is read back as it was stored, and nothing where nothing was stored. -/
theorem decodeString_of_subtree {value : Option String}
    (h : node.subtree [key] = (value.map fun text => leaf (.string text)).getD .empty) :
    decodeString node key = value := by
  rw [decodeString, leafAt_key, h]
  cases value with
  | none => rfl
  | some text => simp

theorem decodeString_object {fields : List (String × Option DatabaseTree)}
    (hkeys : (fields.map Prod.fst).Nodup) {value : Option String}
    (hmem : (key, value.map fun text => leaf (.string text)) ∈ fields) :
    decodeString (object fields) key = value :=
  decodeString_of_subtree (PathTree.subtree_object_of_mem hkeys hmem)

/-- A number is read back as it was stored, and nothing where nothing was stored. -/
theorem decodeDouble_of_subtree {value : Option ℚ}
    (h : node.subtree [key] = (value.map fun number => leaf (.number number)).getD .empty) :
    decodeDouble node key = value := by
  rw [decodeDouble, leafAt_key, h]
  cases value with
  | none => rfl
  | some number => simp

theorem leaf_ne_empty (value : Leaf) : (leaf value : DatabaseTree) ≠ .empty :=
  fun h => List.cons_ne_nil _ _ (congrArg PathTree.leaves h)

/-- The children of a stored array are its elements. -/
theorem subtree_encodeArray {elements : List DatabaseTree} {i : ℕ} (hi : i < elements.length) :
    (encodeArray elements).subtree [toString i] = elements[i] := by
  have hkeys : (elements.zipIdx.map fun element => (toString element.2, some element.1)).map
      Prod.fst = (List.range elements.length).map toString := by
    rw [List.map_map, List.range_eq_range', ← List.zipIdx_map_snd 0 elements, List.map_map]
    rfl
  have hnodup := hkeys ▸ List.nodup_range.map toString_injective
  refine PathTree.subtree_object_of_mem hnodup (List.mem_map.mpr ⟨(elements[i], i), ?_, rfl⟩)
  exact List.mk_mem_zipIdx_iff_getElem?.mpr (List.getElem?_eq_getElem hi)

/-- The keys of a stored array, none of whose elements is empty, are its positions. -/
theorem keys_encodeArray {elements : List DatabaseTree}
    (h : ∀ element ∈ elements, element ≠ .empty) :
    (encodeArray elements).keys.Perm ((List.range elements.length).map toString) := by
  let children := elements.zipIdx.map fun element => (toString element.2, element.1)
  have hkeys : children.map Prod.fst = (List.range elements.length).map toString := by
    rw [List.map_map, List.range_eq_range', ← List.zipIdx_map_snd 0 elements, List.map_map]
    rfl
  have hfields : elements.zipIdx.map (fun element => (toString element.2, some element.1)) =
      children.map fun child => (child.1, some child.2) := by
    rw [List.map_map]
    rfl
  rw [encodeArray, hfields, ← hkeys]
  refine PathTree.keys_object_perm (hkeys ▸ List.nodup_range.map toString_injective) ?_
  intro child hchild
  obtain ⟨element, helement, rfl⟩ := List.mem_map.mp hchild
  exact h _ (List.fst_mem_of_mem_zipIdx helement)

/-- The node of an array of strings. -/
private def strings (texts : List String) : DatabaseTree :=
  encodeArray (texts.map fun text => leaf (.string text))

private theorem decodeString_strings {texts : List String} {i : ℕ} (hi : i < texts.length) :
    decodeString (strings texts) (toString i) = some texts[i] := by
  have hi' : i < (texts.map fun text => (leaf (.string text) : DatabaseTree)).length := by
    rwa [List.length_map]
  refine decodeString_of_subtree ?_
  rw [strings, subtree_encodeArray hi', List.getElem_map, Option.map_some, Option.getD_some]

private theorem exportedArray_strings {texts : List String} (h : texts ≠ []) :
    exportedArray (strings texts).keys =
      some ((List.range texts.length).map fun i => some (toString i)) := by
  refine exportedArray_of_perm (List.length_pos_iff.mpr h) ?_
  have hlength : (texts.map fun text => (leaf (.string text) : DatabaseTree)).length =
      texts.length := List.length_map _
  rw [← hlength]
  refine keys_encodeArray fun element helement => ?_
  obtain ⟨text, -, rfl⟩ := List.mem_map.mp helement
  exact leaf_ne_empty _

/-- An array of strings is read back as it was stored, but an empty one is not there. -/
theorem decodeArray_of_subtree {values : Option (List String)}
    (h : node.subtree [key] =
      (values.map fun texts =>
        encodeArray (texts.map fun text => leaf (.string text))).getD .empty) :
    decodeArray decodeString node key = values.filter fun texts => texts ≠ [] := by
  cases values with
  | none =>
    rw [decodeArray, h]
    rfl
  | some texts =>
    by_cases htexts : texts = []
    · subst htexts
      rw [decodeArray, h]
      rfl
    · have hfilter : (some texts).filter (fun texts => texts ≠ []) = some texts :=
        Option.filter_eq_some_iff.mpr ⟨rfl, decide_eq_true htexts⟩
      have hnode : node.subtree [key] = strings texts := h
      simp only [decodeArray, Option.bind_eq_bind]
      rw [hfilter, hnode, exportedArray_strings htexts, Option.bind_some, mapM_eq_some_iff,
        List.map_map]
      refine List.ext_getElem (by simp) fun i hi hi' => ?_
      have hi'' : i < texts.length := by rwa [List.length_map] at hi'
      rw [List.getElem_map, List.getElem_map, List.getElem_range]
      exact decodeString_strings hi''

end Field

end TwitterLite
