import TwitterLite.Common.Snapshot
import TwitterLite.Home.DeleteTweet

/-!
# The record that a deletion removes

The key of a child is lost when a collection is decoded. `HomeViewModel.delete` rebuilds the path
of the child from the `tweetID` that the record itself holds, which the decoder takes as it is: it
may be empty, have several components, or name another child.

The removal affects the child that the tweet was decoded from, and no other child of the
collection, exactly if the `tweetID` names that child (`HomeViewModel.delete_removesOwnRecord_iff`).
Besides, it does no harm if it is no path at all, and if what it removes happens to be everything
that there is. An empty `tweetID` removes the whole collection.

## Main definitions

* `TwitterLite.Snapshot.Delivered`, `TwitterLite.Snapshot.DecodedFrom`.
* `TwitterLite.RemovesOwnRecord`, `TwitterLite.NamesOwnChild`.

## Main results

* `TwitterLite.Snapshot.exists_decodedFrom`.
* `TwitterLite.HomeViewModel.delete_removesOwnRecord_iff`.

Source: `HomeViewModel.swift`, lines 38–124; `TweetEndPoint.swift`, lines 11–24;
`FirebaseDatabaseManager.swift`, lines 99–103.
-/

namespace TwitterLite

/-- The content of the `Tweets` collection. -/
def tweetsCollection (database : DatabaseTree) : DatabaseTree :=
  database.subtree [FirebaseDatabaseName.tweets.rawValue]

/-! ### Delivered tweets -/

namespace HomeViewModel

theorem mem_of_sortedTweets {tweets sorted : List ViewTweetModel}
    (h : sortedTweets tweets = .ok sorted) : ∀ tweet ∈ sorted, tweet ∈ tweets := by
  unfold sortedTweets at h
  split_ifs at h
  obtain rfl := Except.ok.inj h
  exact fun tweet ht => (Descending.mem_sort _).mp ht

theorem mem_of_fetchTweetsSorted {vm : HomeViewModel} {tweets delivered : List ViewTweetModel}
    {e error : Option AppError}
    (h : vm.fetchTweetsSorted (some tweets, e) = .ok (some delivered, error)) :
    ∀ tweet ∈ delivered, tweet ∈ tweets := by
  cases tweets with
  | nil => cases h
  | cons tweet tweets =>
    rw [fetchTweetsSorted] at h
    cases hsorted : sortedTweets (tweet :: tweets) with
    | error trap =>
      rw [hsorted] at h
      cases h
    | ok sorted =>
      have hmem := mem_of_sortedTweets hsorted
      rw [hsorted] at h
      change (if _ then _ else _) = _ at h
      split_ifs at h <;> cases h
      · exact fun tweet ht => hmem tweet (List.mem_of_mem_tail ht)
      · exact hmem

theorem mem_of_fetchLatestTweetsSorted {tweets delivered : List ViewTweetModel}
    {e error : Option AppError}
    (h : fetchLatestTweetsSorted (some tweets, e) = .ok (some delivered, error)) :
    ∀ tweet ∈ delivered, tweet ∈ tweets := by
  cases tweets with
  | nil => cases h
  | cons tweet tweets =>
    rw [fetchLatestTweetsSorted] at h
    cases hsorted : sortedTweets (tweet :: tweets) with
    | error trap =>
      rw [hsorted] at h
      cases h
    | ok sorted =>
      rw [hsorted] at h
      cases h
      exact fun tweet ht => mem_of_sortedTweets hsorted tweet (List.mem_of_mem_dropLast ht)

/-- Joining the authors keeps the records. -/
theorem record_mem_of_mapIdx {loggedInUser : Option UserModel} {profiles : ℕ → Option UserModel}
    {tweets : List ViewTweetModel} {tweet : ViewTweetModel}
    (h : tweet ∈ tweets.mapIdx fun i tweet => withAuthor loggedInUser (profiles i) tweet) :
    ∃ decoded ∈ tweets, decoded.record = tweet.record := by
  obtain ⟨i, hi, rfl⟩ := List.mem_mapIdx.mp h
  exact ⟨_, List.getElem_mem hi, (record_withAuthor _ _ _).symm⟩

end HomeViewModel

namespace Snapshot

open HomeViewModel

variable {codecs : Codecs} {collection : DatabaseTree} (snapshot : Snapshot codecs collection)

/-- What the callbacks of the two timeline requests receive for an answer. -/
inductive Delivered : TweetsCallBack → Prop
  | fetchTweets (vm : HomeViewModel) (loggedInUser : Option UserModel)
      (profiles : ℕ → Option UserModel) {callBack : TweetsCallBack}
      (h : vm.fetchTweetsSorted (fetchUserDetails loggedInUser profiles (.ok snapshot.models)) =
        .ok callBack) : Delivered callBack
  | fetchLatestTweets (loggedInUser : Option UserModel)
      (profiles : ℕ → Option UserModel) {callBack : TweetsCallBack}
      (h : fetchLatestTweetsSorted (fetchUserDetails loggedInUser profiles (.ok snapshot.models)) =
        .ok callBack) : Delivered callBack

/-- The tweet was decoded from the child `key`; its author may have been joined since. -/
def DecodedFrom (key : String) (tweetModel : ViewTweetModel) : Prop :=
  ∃ decoded, (key, decoded) ∈ snapshot.answer ∧ decoded.record = tweetModel.record

variable {snapshot}

/-- Every delivered tweet was decoded from a child of the collection. -/
theorem exists_decodedFrom {tweets : List ViewTweetModel} {error : Option AppError}
    (h : snapshot.Delivered (some tweets, error)) {tweetModel : ViewTweetModel}
    (hmem : tweetModel ∈ tweets) : ∃ key, snapshot.DecodedFrom key tweetModel := by
  have hjoined : ∃ decoded ∈ snapshot.models, decoded.record = tweetModel.record := by
    cases h with
    | fetchTweets vm loggedInUser profiles h =>
      exact record_mem_of_mapIdx (mem_of_fetchTweetsSorted h tweetModel hmem)
    | fetchLatestTweets loggedInUser profiles h =>
      exact record_mem_of_mapIdx (mem_of_fetchLatestTweetsSorted h tweetModel hmem)
  obtain ⟨_, hdecoded, hrecord⟩ := hjoined
  obtain ⟨⟨key, decoded⟩, hanswer, rfl⟩ := List.mem_map.mp hdecoded
  exact ⟨key, decoded, hanswer, hrecord⟩

end Snapshot

/-! ### The removal -/

/-- Removing the path leaves every other child of the collection unchanged and removes the child
`key`. An ill-formed path removes nothing. -/
def RemovesOwnRecord (database : DatabaseTree) (key path : String) : Prop :=
  ∀ database', removeValue path database = .ok database' →
    PathTree.RemovesOnly key (tweetsCollection database) (tweetsCollection database')

/-- The identifier, as a path below the collection, is the name of the child `key`. The other cases
are those without harm: it is no path, or it removes everything and that is only this child, or it
removes a field of the child and the child has no other one. -/
def NamesOwnChild (tweets : DatabaseTree) (key id : String) : Prop :=
  hasInvalidCharacter id ∨ pathPieces id = [key] ∨
    pathPieces id = [] ∧ tweets.keys = [key] ∨
    pathPieces id = [key, "tweetID"] ∧ (tweets.subtree [key]).keys = ["tweetID"]

section Child

variable {codecs : Codecs} {tweets : DatabaseTree} {key id : String} {decoded : ViewTweetModel}

theorem mem_keys_of_decoded
    (h : decodeViewTweetModel codecs (tweets.subtree [key]) = some decoded) :
    key ∈ tweets.keys := by
  rw [PathTree.mem_keys_iff]
  intro hempty
  rw [hempty] at h
  exact nomatch h

theorem tweetID_mem_of_decoded
    (h : decodeViewTweetModel codecs (tweets.subtree [key]) = some decoded)
    (hid : decoded.tweetID = some id) :
    (["tweetID"], Leaf.string id) ∈ (tweets.subtree [key]).leaves :=
  mem_leaves_of_decodeString ((tweetID_of_decode codecs h).symm.trans hid)

/-- Below a child with a `tweetID` a path removes everything if it is empty, or if it leads to the
`tweetID` and there is nothing else. -/
theorem forall_prefix_iff_of_decoded {rest : List String}
    (h : decodeViewTweetModel codecs (tweets.subtree [key]) = some decoded)
    (hid : decoded.tweetID = some id) :
    (∀ leaf ∈ (tweets.subtree [key]).leaves, rest <+: leaf.1) ↔
      rest = [] ∨ rest = ["tweetID"] ∧ (tweets.subtree [key]).keys = ["tweetID"] := by
  have hleaf := tweetID_mem_of_decoded h hid
  have hkey : "tweetID" ∈ (tweets.subtree [key]).keys := PathTree.mem_keys.mpr ⟨[], _, hleaf⟩
  constructor
  · intro hall
    rcases List.prefix_cons_iff.mp (hall _ hleaf) with hnil | ⟨rest', rfl, hrest'⟩
    · exact .inl hnil
    · obtain rfl := List.prefix_nil.mp hrest'
      exact .inr ⟨rfl, (PathTree.forall_singleton_prefix_iff hkey).mp hall⟩
  · rintro (rfl | ⟨rfl, hkeys⟩)
    · exact fun leaf _ => List.nil_prefix
    · exact (PathTree.forall_singleton_prefix_iff hkey).mpr hkeys

end Child

theorem removeValue_deleteTweet (id : String) (database : DatabaseTree) :
    removeValue (TweetEndPoint.deleteTweet id).path database =
      if hasInvalidCharacter id then .error .invalidPath
      else .ok (database.remove ("Tweets" :: pathPieces id)) := by
  rw [removeValue, child_deleteTweet]
  split_ifs <;> rfl

theorem removesOwnRecord_iff {codecs : Codecs} {database : DatabaseTree} {key id : String}
    {decoded : ViewTweetModel}
    (h : decodeViewTweetModel codecs ((tweetsCollection database).subtree [key]) = some decoded)
    (hid : decoded.tweetID = some id) :
    RemovesOwnRecord database key (TweetEndPoint.deleteTweet id).path ↔
      NamesOwnChild (tweetsCollection database) key id := by
  by_cases hinvalid : hasInvalidCharacter id
  · rw [RemovesOwnRecord, removeValue_deleteTweet, if_pos hinvalid]
    exact iff_of_true (fun _ hok => (nomatch hok)) (.inl hinvalid)
  · have hcollection : tweetsCollection (database.remove ("Tweets" :: pathPieces id)) =
        (tweetsCollection database).remove (pathPieces id) :=
      PathTree.subtree_remove_append (q := ["Tweets"])
    rw [RemovesOwnRecord, removeValue_deleteTweet, if_neg hinvalid, NamesOwnChild,
      or_iff_right hinvalid]
    simp only [Except.ok.injEq, forall_eq', hcollection,
      PathTree.removesOnly_remove_iff (mem_keys_of_decoded h), forall_prefix_iff_of_decoded h hid]
    constructor
    · rintro (hall | ⟨rest, hpieces, rfl | ⟨rfl, hkeys⟩⟩)
      · exact .inr (.inl hall)
      · exact .inl hpieces
      · exact .inr (.inr ⟨hpieces, hkeys⟩)
    · rintro (hpieces | hall | ⟨hpieces, hkeys⟩)
      · exact .inr ⟨[], hpieces, .inl rfl⟩
      · exact .inl hall
      · exact .inr ⟨_, hpieces, .inr ⟨rfl, hkeys⟩⟩

namespace HomeViewModel

/-- The path that a deletion removes is the one of the `tweetID`. -/
theorem tweetID_of_removed {tweetModel : ViewTweetModel} {completions : List (Option AppError)}
    {answer : Option AppError} {path : String}
    (h : (delete tweetModel completions answer).removed = some path) :
    ∃ id, tweetModel.tweetID = some id ∧ path = (TweetEndPoint.deleteTweet id).path := by
  have hcontinue : (continueDeleteTweet tweetModel answer).removed = some path := by
    unfold delete at h
    split at h
    · split_ifs at h
      split at h
      · exact nomatch h
      · exact h
    · exact h
  cases hid : tweetModel.tweetID with
  | none => simp [continueDeleteTweet, hid] at hcontinue
  | some id =>
    refine ⟨id, rfl, ?_⟩
    simpa [continueDeleteTweet, hid, eq_comm] using hcontinue

variable {codecs : Codecs} {database : DatabaseTree}
  {snapshot : Snapshot codecs (tweetsCollection database)}

/-- **Deleting a tweet removes nothing but its own record exactly if its `tweetID` names the child
it was decoded from**, or does no harm for one of the other reasons. -/
theorem delete_removesOwnRecord_iff {tweets : List ViewTweetModel} {error : Option AppError}
    (hdelivered : snapshot.Delivered (some tweets, error)) {tweetModel : ViewTweetModel}
    (hmem : tweetModel ∈ tweets) (completions : List (Option AppError)) (answer : Option AppError)
    {path : String} (hremoved : (delete tweetModel completions answer).removed = some path) :
    (∃ key, snapshot.DecodedFrom key tweetModel) ∧
      ∀ key, snapshot.DecodedFrom key tweetModel →
        (RemovesOwnRecord database key path ↔
          ∃ id ∈ tweetModel.tweetID, NamesOwnChild (tweetsCollection database) key id) := by
  refine ⟨Snapshot.exists_decodedFrom hdelivered hmem, ?_⟩
  rintro key ⟨decoded, hanswer, hrecord⟩
  obtain ⟨id, hid, rfl⟩ := tweetID_of_removed hremoved
  have hdecodedID : decoded.tweetID = some id :=
    (congrArg (fun record : PostTweetModel => record.tweetID) hrecord).trans hid
  rw [removesOwnRecord_iff (snapshot.decoded_of_mem hanswer) hdecodedID, hid]
  simp

/-- Two tweets; the record of the child `a` holds the given `tweetID`. -/
private def twoTweets (id : String) : DatabaseTree where
  leaves := [(["Tweets", "a", "tweetID"], .string id),
    (["Tweets", "a", "createdTimeStamp"], .number 1),
    (["Tweets", "b", "tweetID"], .string "b"), (["Tweets", "b", "createdTimeStamp"], .number 2)]
  incomparable := by
    simp only [List.pairwise_cons, List.mem_cons, forall_eq_or_imp]
    decide

private def snapshotOfTwo (id : String) :
    Snapshot ⟨fun _ => none, some⟩ (tweetsCollection (twoTweets id)) where
  selected := ["a", "b"]
  answer := [("a", { tweetID := some id, createdTimeStamp := some 1 }),
    ("b", { tweetID := some "b", createdTimeStamp := some 2 })]
  decoded := ⟨_, rfl, .refl _⟩

private theorem delivered_snapshotOfTwo (id : String) : (snapshotOfTwo id).Delivered
    (some [{ tweetID := some "b", createdTimeStamp := some 2 },
      { tweetID := some id, createdTimeStamp := some 1 }], none) :=
  .fetchTweets ⟨true, [], none⟩ none (fun _ => none) rfl

/-- The record of one of two tweets holds an empty `tweetID`: deleting it removes the other tweet
too. -/
theorem not_delete_removesOwnRecord :
    ¬ ∀ (codecs : Codecs) (database : DatabaseTree)
      (snapshot : Snapshot codecs (tweetsCollection database)) (tweets : List ViewTweetModel)
      (error : Option AppError), snapshot.Delivered (some tweets, error) →
      ∀ tweetModel ∈ tweets, ∀ (completions : List (Option AppError)) (answer : Option AppError)
        (path : String), (delete tweetModel completions answer).removed = some path →
        ∀ key, snapshot.DecodedFrom key tweetModel → RemovesOwnRecord database key path := by
  intro h
  have honly := h _ _ _ _ _ (delivered_snapshotOfTwo "") _ (by simp) [] none "Tweets/" rfl "a"
    ⟨_, List.mem_cons_self, rfl⟩ _ rfl
  have hother := congrArg PathTree.leaves (honly.subtree_eq "b" (by decide))
  exact absurd hother (by decide)

/-- The record holds the key it is stored under. -/
theorem delete_removesOwnRecord_iff_two :
    RemovesOwnRecord (twoTweets "a") "a" "Tweets/a" :=
  ((delete_removesOwnRecord_iff (delivered_snapshotOfTwo "a") (List.mem_of_getLast? rfl)
    [] none rfl).2 "a" ⟨_, List.mem_cons_self, rfl⟩).mpr
    ⟨"a", rfl, .inr (.inl (by decide))⟩

end HomeViewModel

end TwitterLite
