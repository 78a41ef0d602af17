import TwitterLite.Common.Database

/-!
# Snapshots and their decoding

A snapshot reaches the app as a Foundation object: a leaf as its value, an inner node as a
dictionary, or as an array if its keys are integers that fill at least half of the positions up to
the largest one (`TwitterLite.exportedArray`). The model classes decode each of their fields from
such a dictionary and leave a field of another type `nil`.

A collection is decoded as an array of models: the values of the dictionary in an arbitrary order,
without the keys (`Dictionary.decodeAsArray`), or the array itself. Either way every selected child
has to be a dictionary, or nothing is decoded (`TwitterLite.decodeAsArray`).

## Main definitions

* `TwitterLite.exportedArray`, `TwitterLite.isDictionary`.
* `TwitterLite.decodeUserModel`, `TwitterLite.decodeViewTweetModel`, `TwitterLite.decodeAsArray`.
* `TwitterLite.Snapshot`: an answer with the keys of the children it was decoded from.

## Main results

* `TwitterLite.Snapshot.decoded_of_mem`.

Source: `FChildrenNode.m`, lines 159–223; `FirebaseDatabaseManager.swift`, lines 49–69;
`DictionaryExtension.swift`, lines 29–37; `BaseTweetModel.swift`, lines 25–34;
`PostTweetModel.swift`, lines 23–30; `ViewTweetModel.swift`, lines 22–28; `UserModel.swift`,
lines 27–38; `ImageWrapper.swift`, lines 21–29.
-/

namespace TwitterLite

/-! ### Foundation objects -/

/-- The integer that a key spells, without superfluous leading zeroes. -/
def integerKey (key : String) : Option ℕ :=
  if key ≠ "" ∧ key.toList.all Char.isDigit ∧ (key.toList.head? = some '0' → key.length = 1) then
    some (key.toList.foldl (fun n c => 10 * n + (c.toNat - '0'.toNat)) 0)
  else none

/-- The array that a node with these keys is exported as, if it is: the key at each position, where
a position without a key holds a null. -/
def exportedArray (keys : List String) : Option (List (Option String)) :=
  let maxKey := (keys.filterMap integerKey).foldl max 0
  if keys ≠ [] ∧ (∀ key ∈ keys, integerKey key ≠ none) ∧ maxKey < 2 * keys.length then
    some ((List.range (maxKey + 1)).map fun i =>
      if toString i ∈ keys then some (toString i) else none)
  else none

/-- The node is exported as a dictionary. -/
def isDictionary (node : DatabaseTree) : Bool :=
  node.keys ≠ [] ∧ exportedArray node.keys = none

/-! ### Fields -/

/-- `try? decodeIfPresent(String.self, forKey:)`. -/
def decodeString (node : DatabaseTree) (key : String) : Option String :=
  match node.leafAt [key] with
  | some (.string value) => some value
  | _ => none

/-- `try? decodeIfPresent(Double.self, forKey:)`. -/
def decodeDouble (node : DatabaseTree) (key : String) : Option ℚ :=
  match node.leafAt [key] with
  | some (.number value) => some value
  | _ => none

/-- `try? decodeIfPresent([T].self, forKey:)`, where `element` decodes the value below a key. -/
def decodeArray {α : Type} (element : DatabaseTree → String → Option α) (node : DatabaseTree)
    (key : String) : Option (List α) := do
  let array := node.subtree [key]
  let positions ← exportedArray array.keys
  positions.mapM fun position => position.bind (element array)

theorem mem_leaves_of_decodeString {node : DatabaseTree} {key value : String}
    (h : decodeString node key = some value) : ([key], .string value) ∈ node.leaves := by
  refine PathTree.mem_of_leafAt ?_
  unfold decodeString at h
  split at h
  next v hleaf => rwa [Option.some.inj h] at hleaf
  next => exact nomatch h

/-! ### Models -/

/-- What Foundation and UIKit make of a string: the image in base64 text, and the URL. -/
structure Codecs where
  image : String → Option UIImage
  url : String → Option String

variable (codecs : Codecs)

/-- `ImageWrapper.init(from:)`. -/
def decodeImageWrapper (node : DatabaseTree) (key : String) : Option ImageWrapper :=
  if isDictionary (node.subtree [key]) then
    ((decodeString (node.subtree [key]) "image").bind codecs.image).map fun image => ⟨image⟩
  else none

/-- `UserModel.init(from:)`. -/
def decodeUserModel (node : DatabaseTree) : Option UserModel :=
  if isDictionary node then
    some {
      modelID := decodeString node "modelID"
      userID := decodeString node "userID"
      photoURL := (decodeString node "photoURL").bind codecs.url
      displayName := decodeString node "displayName"
      emailAddress := decodeString node "emailAddress"
      userName := decodeString node "userName"
      password := decodeString node "password" }
  else none

/-- `ViewTweetModel.init(from:)`, with the initialisers of its superclasses. -/
def decodeViewTweetModel (node : DatabaseTree) : Option ViewTweetModel :=
  if isDictionary node then
    some {
      modelID := decodeString node "modelID"
      tweetID := decodeString node "tweetID"
      caption := decodeString node "caption"
      createdTimeStamp := decodeDouble node "createdTimeStamp"
      photoURL := decodeArray decodeString node "photoURL"
      uid := (decodeString node "uid").getD ""
      photos := decodeArray (decodeImageWrapper codecs) node "photos"
      user := decodeUserModel codecs (node.subtree ["user"]) }
  else none

theorem tweetID_of_decode {node : DatabaseTree} {tweetModel : ViewTweetModel}
    (h : decodeViewTweetModel codecs node = some tweetModel) :
    tweetModel.tweetID = decodeString node "tweetID" := by
  unfold decodeViewTweetModel at h
  split_ifs at h
  exact congrArg (fun tweet => tweet.tweetID) (Option.some.inj h).symm

/-! ### Collections -/

/-- The keys of the values that are decoded: those of the array, if that is what the selection is
exported as and no position holds a null, and else those of the dictionary. -/
def decodedKeys (selected : List String) : Option (List String) :=
  match exportedArray selected with
  | some positions => positions.mapM id
  | none => if selected = [] then none else some selected

/-- The models of the selected children, each with its key. -/
def decodeAsArray (collection : DatabaseTree) (selected : List String) :
    Option (List (String × ViewTweetModel)) := do
  let keys ← decodedKeys selected
  keys.mapM fun key =>
    (decodeViewTweetModel codecs (collection.subtree [key])).map fun tweetModel => (key, tweetModel)

theorem mapM_eq_some_iff {α β : Type} {f : α → Option β} {l : List α} {l' : List β} :
    l.mapM f = some l' ↔ l.map f = l'.map some := by
  induction l generalizing l' with
  | nil => cases l' <;> simp
  | cons a l ih =>
    simp only [List.mapM_cons, List.map_cons, Option.bind_eq_bind, Option.bind_eq_some_iff,
      Option.pure_def, Option.some.injEq, ih]
    cases l' with
    | nil => simp
    | cons b l' => simp

theorem decoded_of_mem_decodeAsArray {collection : DatabaseTree} {selected : List String}
    {models : List (String × ViewTweetModel)}
    (h : decodeAsArray codecs collection selected = some models) :
    ∀ m ∈ models, decodeViewTweetModel codecs (collection.subtree [m.1]) = some m.2 := by
  intro m hm
  simp only [decodeAsArray, Option.bind_eq_bind, Option.bind_eq_some_iff] at h
  obtain ⟨keys, -, hkeys⟩ := h
  have hmem := mapM_eq_some_iff.mp hkeys ▸ List.mem_map_of_mem (f := some) hm
  obtain ⟨key, -, hkey⟩ := List.mem_map.mp hmem
  obtain ⟨tweetModel, hdecoded, rfl⟩ := Option.map_eq_some_iff.mp hkey
  exact hdecoded

/-- An answer to a query on a collection: the models of the children it selected, in the order of
the values of the dictionary, with the keys that the app does not get to see. -/
structure Snapshot (collection : DatabaseTree) where
  selected : List String
  answer : List (String × ViewTweetModel)
  decoded : ∃ models, decodeAsArray codecs collection selected = some models ∧ answer.Perm models

namespace Snapshot

variable {codecs} {collection : DatabaseTree} (snapshot : Snapshot codecs collection)

/-- What the app gets to see. -/
def models : List ViewTweetModel := snapshot.answer.map Prod.snd

/-- Each model of an answer was decoded from a child of the collection. -/
theorem decoded_of_mem {key : String} {tweetModel : ViewTweetModel}
    (h : (key, tweetModel) ∈ snapshot.answer) :
    decodeViewTweetModel codecs (collection.subtree [key]) = some tweetModel := by
  obtain ⟨models, hmodels, hperm⟩ := snapshot.decoded
  exact decoded_of_mem_decodeAsArray codecs hmodels _ (hperm.mem_iff.mp h)

end Snapshot

end TwitterLite
