import TwitterLite.Common.Encoding
import Mathlib.Data.List.Perm.Basic

/-!
# What is posted is what is fetched

A tweet is stored under a push id, below `Tweets`, and the collection is fetched as an array of
tweets. A push id is no position of an array (`TwitterLite.integerKey_nextPushID`), so the
collection arrives as a dictionary; a dictionary is no array of tweets, and the second stage decodes
its values. A user is stored below `Users`, and the first stage decodes it.

Both come back field by field as they were stored, but an empty array of photo links as none
(`TwitterLite.fetchWithoutObserving_postTweets`, `TwitterLite.fetchWithoutObserving_postUser`).

## Main definitions

* `TwitterLite.nextPushID`, `TwitterLite.IsPushID`.
* `TwitterLite.postTweets`, `TwitterLite.postUser`.
* `TwitterLite.PostTweetModel.fetched`.

## Main results

* `TwitterLite.isPushID_nextPushID`.
* `TwitterLite.decodeViewTweetModel_encode`, `TwitterLite.decodeUserModel_encode`.
* `TwitterLite.posted_is_fetched`.

Source: `FirebaseDatabaseManager.swift`, lines 26–97; `BaseTweetModel.swift`, lines 11–46;
`PostTweetModel.swift`, lines 11–40; `ViewTweetModel.swift`, lines 11–37; `UserModel.swift`,
lines 11–52; `FNextPushId.m`, lines 24–73.
-/

namespace TwitterLite

open PathTree (leaf object)

/-! ### Push ids -/

/-- `PUSH_CHARS` of `FNextPushId.m`. -/
def pushChars : List Char :=
  "-0123456789ABCDEFGHIJKLMNOPQRSTUVWXYZ_abcdefghijklmnopqrstuvwxyz".toList

/-- The character of a digit. -/
def pushChar (digit : ℕ) : Char := pushChars.getD (digit % 64) '-'

/-- `FNextPushId.get`: the time in milliseconds as eight digits, the most significant one first, and
the random digits. -/
def nextPushID (now : ℕ) (lastRandChars : List ℕ) : String :=
  String.ofList (((List.range 8).reverse.map fun i => pushChar (now / 64 ^ i)) ++
    lastRandChars.map pushChar)

/-- A key of the database that is no position of an array, spelled with the characters of
`FNextPushId.get`. -/
structure IsPushID (id : String) : Prop where
  ne_empty : id ≠ ""
  mem_pushChars : ∀ c ∈ id.toList, c ∈ pushChars
  integerKey_eq : integerKey id = none

theorem pushChar_mem (digit : ℕ) : pushChar digit ∈ pushChars := by
  have hlt : digit % 64 < pushChars.length := Nat.mod_lt _ (by decide)
  rw [pushChar, List.getD_eq_getElem?_getD, List.getElem?_eq_getElem hlt]
  exact List.getElem_mem hlt

/-- Until the year 2248 a push id begins with a character that no integer of its length begins
with. -/
theorem integerKey_nextPushID {now : ℕ} {lastRandChars : List ℕ} (h : now < 2 * 64 ^ 7) :
    integerKey (nextPushID now lastRandChars) = none := by
  have hhead : (nextPushID now lastRandChars).toList.head? = some (pushChar (now / 64 ^ 7)) := by
    rw [nextPushID, String.toList_ofList]
    rfl
  have hlength : 1 < (nextPushID now lastRandChars).length := by
    rw [nextPushID, String.length_ofList, List.length_append, List.length_map, List.length_reverse,
      List.length_range]
    omega
  have hdigit : now / 64 ^ 7 < 2 := by omega
  refine if_neg fun ⟨_, hdigits, hzero⟩ => ?_
  rcases Nat.lt_succ_iff_lt_or_eq.mp hdigit with hnow | hnow
  · rw [Nat.lt_one_iff.mp hnow] at hhead
    have hmem := List.mem_of_mem_head? (Option.mem_def.mpr hhead)
    exact absurd (List.all_eq_true.mp hdigits _ hmem) (by decide)
  · rw [hnow] at hhead
    exact hlength.ne' (hzero hhead)

theorem isPushID_nextPushID {now : ℕ} {lastRandChars : List ℕ} (h : now < 2 * 64 ^ 7) :
    IsPushID (nextPushID now lastRandChars) where
  ne_empty hempty := by
    have hhead : (nextPushID now lastRandChars).toList ≠ [] := by
      rw [nextPushID, String.toList_ofList]
      exact List.cons_ne_nil _ _
    exact hhead (by rw [hempty]; rfl)
  mem_pushChars c hc := by
    rw [nextPushID, String.toList_ofList, List.mem_append] at hc
    rcases hc with hc | hc
    · obtain ⟨i, -, rfl⟩ := List.mem_map.mp hc
      exact pushChar_mem _
    · obtain ⟨i, -, rfl⟩ := List.mem_map.mp hc
      exact pushChar_mem _
  integerKey_eq := integerKey_nextPushID h

namespace IsPushID

variable {id : String} (h : IsPushID id)

include h

theorem hasInvalidCharacter_eq : hasInvalidCharacter id = false := by
  have hvalid : pushChars.all (fun c => !invalidPathCharacters.contains c) = true := by decide
  refine List.any_eq_false.mpr fun c hc => ?_
  simpa using List.all_eq_true.mp hvalid c (h.mem_pushChars c hc)

theorem pathPieces_eq : pathPieces id = [id] := by
  have hslash : '/' ∉ id.toList := fun hmem =>
    absurd (h.mem_pushChars _ hmem) (by decide)
  have hne : id.toList ≠ [] := fun hnil => h.ne_empty (String.toList_injective hnil)
  have hfilter : [id.toList].filter (fun piece => piece ≠ []) = [id.toList] :=
    List.filter_eq_self.mpr fun _ hpiece => decide_eq_true (List.mem_singleton.mp hpiece ▸ hne)
  rw [pathPieces, List.splitOn_eq_singleton hslash, hfilter, List.map_singleton,
    String.ofList_toList]

/-- A push id names a child of the collection. -/
theorem child_eq : child (TweetEndPoint.postTweet id).path = .ok (["Tweets"] ++ [id]) := by
  rw [child_postTweet, h.hasInvalidCharacter_eq, h.pathPieces_eq]
  rfl

end IsPushID

/-! ### Posting -/

/-- `FirebaseDatabaseManager.post` for tweets, each at its key. -/
def postTweets (base64 : Data → String) (tweets : List (String × PostTweetModel))
    (database : DatabaseTree) : Except Trap DatabaseTree :=
  tweets.foldlM (fun database tweet =>
    setValue (TweetEndPoint.postTweet tweet.1).path (encodePostTweetModel base64 tweet.2) database)
    database

/-- `FirebaseDatabaseManager.post` for a user. -/
def postUser (id : String) (user : UserModel) (database : DatabaseTree) :
    Except Trap DatabaseTree :=
  setValue ((UserEndPoint.postUserDetails id).path none) (encodeUserModel user) database

/-- The children of the collection after tweets have been posted. -/
theorem postTweets_eq (base64 : Data → String) {tweets : List (String × PostTweetModel)}
    (h : ∀ tweet ∈ tweets, IsPushID tweet.1) (database : DatabaseTree) :
    ∃ stored, postTweets base64 tweets database = .ok stored ∧
      stored.subtree ["Tweets"] = PathTree.setAll
        (tweets.map fun tweet => (tweet.1, some (encodePostTweetModel base64 tweet.2)))
        (database.subtree ["Tweets"]) := by
  induction tweets generalizing database with
  | nil => exact ⟨database, rfl, rfl⟩
  | cons tweet tweets ih =>
    let value := encodePostTweetModel base64 tweet.2
    obtain ⟨stored, hstored, hchildren⟩ := ih (fun t ht => h t (List.mem_cons_of_mem _ ht))
      (.set (["Tweets"] ++ [tweet.1]) value database)
    have hset : setValue (TweetEndPoint.postTweet tweet.1).path value database =
        .ok (.set (["Tweets"] ++ [tweet.1]) value database) := by
      rw [setValue, (h tweet List.mem_cons_self).child_eq]
      rfl
    refine ⟨stored, ?_, ?_⟩
    · rw [postTweets, List.foldlM_cons, hset]
      exact hstored
    · rw [hchildren, PathTree.subtree_set_append]
      rfl

/-! ### Decoding what was encoded -/

/-- A posted tweet as it is fetched: an empty array of photo links is not there, and the profile of
the author has not been joined. -/
def PostTweetModel.fetched (tweet : PostTweetModel) : ViewTweetModel :=
  { tweet with photoURL := tweet.photoURL.filter fun urls => urls ≠ [] }

/-- A node with a key that is no integer is a dictionary. -/
theorem isDictionary_of_mem {node : DatabaseTree} {key : String} (hmem : key ∈ node.keys)
    (hkey : integerKey key = none) : isDictionary node = true := by
  rw [isDictionary, decide_eq_true_eq]
  exact ⟨List.ne_nil_of_mem hmem, exportedArray_eq_none hmem hkey⟩

section Decode

variable (codecs : Codecs)

theorem subtree_uid_encode (base64 : Data → String) (tweet : PostTweetModel) :
    (encodePostTweetModel base64 tweet).subtree ["uid"] = leaf (.string tweet.uid) :=
  PathTree.subtree_object_of_mem (by simp) List.mem_cons_self

theorem encodePostTweetModel_ne_empty (base64 : Data → String) (tweet : PostTweetModel) :
    encodePostTweetModel base64 tweet ≠ .empty := by
  intro hempty
  have huid := subtree_uid_encode base64 tweet
  rw [hempty] at huid
  exact leaf_ne_empty _ huid.symm

/-- A tweet without photos is read back field by field. -/
theorem decodeViewTweetModel_encode (base64 : Data → String) {tweet : PostTweetModel}
    (hphotos : tweet.photos = none) :
    decodeViewTweetModel codecs (encodePostTweetModel base64 tweet) = some tweet.fetched := by
  let node := encodePostTweetModel base64 tweet
  have hdictionary : isDictionary node = true := by
    refine isDictionary_of_mem (PathTree.mem_keys_iff.mpr ?_) (by decide : integerKey "uid" = none)
    rw [subtree_uid_encode]
    exact leaf_ne_empty _
  have huid : decodeString node "uid" = some tweet.uid :=
    decodeString_of_subtree (subtree_uid_encode base64 tweet)
  have hmodelID : decodeString node "modelID" = tweet.modelID :=
    decodeString_object (by simp) (by simp)
  have htweetID : decodeString node "tweetID" = tweet.tweetID :=
    decodeString_object (by simp) (by simp)
  have hcaption : decodeString node "caption" = tweet.caption :=
    decodeString_object (by simp) (by simp)
  have hstamp : decodeDouble node "createdTimeStamp" = tweet.createdTimeStamp :=
    decodeDouble_of_subtree (PathTree.subtree_object_of_mem (by simp) (by simp))
  have hphotoURL : decodeArray decodeString node "photoURL" =
      tweet.photoURL.filter fun urls => urls ≠ [] :=
    decodeArray_of_subtree (PathTree.subtree_object_of_mem (by simp) (by simp))
  have hnophotos : node.subtree ["photos"] = .empty := by
    refine (PathTree.subtree_object_of_mem (by simp)
      (List.mem_cons_of_mem _ List.mem_cons_self)).trans ?_
    rw [hphotos]
    rfl
  have hphotos' : decodeArray (decodeImageWrapper codecs) node "photos" = tweet.photos := by
    rw [decodeArray, hnophotos, hphotos]
    rfl
  have hnouser : node.subtree ["user"] = .empty :=
    (PathTree.subtree_object (by simp) "user").trans (by simp [List.lookup_cons])
  have huser : decodeUserModel codecs (node.subtree ["user"]) = none := by
    rw [hnouser]
    rfl
  refine (if_pos hdictionary).trans ?_
  rw [hmodelID, htweetID, hcaption, hstamp, hphotoURL, huid, hphotos', huser]
  rfl

/-- A user with a photo is read back field by field. -/
theorem decodeUserModel_encode {user : UserModel} {url : String} (hurl : user.photoURL = some url)
    (hcodec : codecs.url url = some url) :
    decodeUserModel codecs (encodeUserModel user) = some user := by
  let node := encodeUserModel user
  have hphotoURL : node.subtree ["photoURL"] = leaf (.string url) := by
    refine (PathTree.subtree_object_of_mem (by simp)
      (List.mem_cons_of_mem _ List.mem_cons_self)).trans ?_
    rw [hurl]
    rfl
  have hdictionary : isDictionary node = true := by
    refine isDictionary_of_mem (PathTree.mem_keys_iff.mpr ?_)
      (by decide : integerKey "photoURL" = none)
    rw [hphotoURL]
    exact leaf_ne_empty _
  have hphotoURL : (decodeString node "photoURL").bind codecs.url = user.photoURL := by
    rw [(decodeString_of_subtree hphotoURL : _ = some url), hurl]
    exact hcodec
  have hmodelID : decodeString node "modelID" = user.modelID :=
    decodeString_object (by simp) (by simp)
  have huserID : decodeString node "userID" = user.userID :=
    decodeString_object (by simp) (by simp)
  have hdisplayName : decodeString node "displayName" = user.displayName :=
    decodeString_object (by simp) (by simp)
  have hemailAddress : decodeString node "emailAddress" = user.emailAddress :=
    decodeString_object (by simp) (by simp)
  have huserName : decodeString node "userName" = user.userName :=
    decodeString_object (by simp) (by simp)
  have hpassword : decodeString node "password" = user.password :=
    decodeString_object (by simp) (by simp)
  refine (if_pos hdictionary).trans ?_
  rw [hmodelID, huserID, hphotoURL, hdisplayName, hemailAddress, huserName, hpassword]

/-! ### Fetching what was posted -/

/-- A dictionary of tweets is decoded as the array of its values. -/
theorem decodedValue_tweets {node : DatabaseTree} {tweets : List (String × ViewTweetModel)}
    (hne : tweets ≠ []) (hkeys : node.keys.Perm (tweets.map Prod.fst))
    (hids : ∀ tweet ∈ tweets, integerKey tweet.1 = none)
    (hdecode : ∀ tweet ∈ tweets,
      decodeViewTweetModel codecs (node.subtree [tweet.1]) = some tweet.2)
    {order : List String} (horder : order.Perm node.keys) :
    ∃ fetched, decodedValue (tweetsDecoding codecs) order node = some fetched ∧
      fetched.Perm (tweets.map Prod.snd) := by
  let decode := fun key => decodeViewTweetModel codecs (node.subtree [key])
  obtain ⟨tweet, htweet⟩ := List.exists_mem_of_ne_nil tweets hne
  have hmem : tweet.1 ∈ node.keys := hkeys.mem_iff.mpr (List.mem_map_of_mem htweet)
  have hdictionaries : (order.all fun key => isDictionary (node.subtree [key])) = true := by
    refine List.all_eq_true.mpr fun key hkey => ?_
    obtain ⟨tweet, htweet, rfl⟩ := List.mem_map.mp (hkeys.mem_iff.mp (horder.mem_iff.mp hkey))
    by_contra hno
    exact Option.some_ne_none _ ((hdecode tweet htweet).symm.trans (if_neg hno))
  have hpairs : List.Forall₂ (fun key tweet => decode key = some tweet)
      (tweets.map Prod.fst) (tweets.map Prod.snd) := by
    rw [List.forall₂_map_left_iff, List.forall₂_map_right_iff]
    exact List.forall₂_same.mpr hdecode
  obtain ⟨fetched, hfetched, hperm⟩ := List.perm_comp_forall₂ (horder.trans hkeys) hpairs
  have hvalues : order.map decode = fetched.map some := by
    rwa [← List.forall₂_eq_eq_eq, List.forall₂_map_left_iff, List.forall₂_map_right_iff]
  refine ⟨fetched, ?_, hperm⟩
  calc decodedValue (tweetsDecoding codecs) order node
      = decodeValues (tweetsDecoding codecs) order node := by
        rw [decodedValue, exportedArray_eq_none hmem (hids tweet htweet),
          if_pos (isDictionary_of_mem hmem (hids tweet htweet))]
        rfl
    _ = (order.map fun key => some (node.subtree [key])).mapM fun element =>
          element.bind (decodeViewTweetModel codecs) := if_pos hdictionaries
    _ = some fetched := by
        rw [mapM_eq_some_iff, List.map_map]
        exact hvalues

/-- The posted tweets are fetched, each exactly once, in some order. -/
theorem fetchWithoutObserving_postTweets (base64 : Data → String)
    {tweets : List (String × PostTweetModel)} (hne : tweets ≠ [])
    (hids : (tweets.map Prod.fst).Nodup) (hpush : ∀ tweet ∈ tweets, IsPushID tweet.1)
    (hphotos : ∀ tweet ∈ tweets, tweet.2.photos = none) {database : DatabaseTree}
    (hdatabase : database.subtree ["Tweets"] = .empty) :
    ∃ stored, postTweets base64 tweets database = .ok stored ∧
      ∀ order : List String, order.Perm (stored.subtree ["Tweets"]).keys → ∃ fetched,
        fetchWithoutObserving (tweetsDecoding codecs) TweetEndPoint.getTweets.path order stored =
          .ok (.ok fetched) ∧
        fetched.Perm (tweets.map fun tweet => tweet.2.fetched) := by
  obtain ⟨stored, hstored, hchildren⟩ := postTweets_eq base64 hpush database
  refine ⟨stored, hstored, fun order horder => ?_⟩
  let children := tweets.map fun tweet => (tweet.1, encodePostTweetModel base64 tweet.2)
  have hkeys : children.map Prod.fst = tweets.map Prod.fst := by
    rw [List.map_map]
    rfl
  have hnode : stored.subtree ["Tweets"] =
      object (children.map fun child => (child.1, some child.2)) := by
    rw [hchildren, hdatabase, List.map_map]
    rfl
  have hperm : (stored.subtree ["Tweets"]).keys.Perm (tweets.map Prod.fst) := by
    rw [hnode, ← hkeys]
    refine PathTree.keys_object_perm (hkeys ▸ hids) fun child hchild => ?_
    obtain ⟨tweet, -, rfl⟩ := List.mem_map.mp hchild
    exact encodePostTweetModel_ne_empty base64 tweet.2
  have hdecode : ∀ tweet ∈ tweets, decodeViewTweetModel codecs
      ((stored.subtree ["Tweets"]).subtree [tweet.1]) = some tweet.2.fetched := by
    intro tweet htweet
    have hchild : (tweet.1, encodePostTweetModel base64 tweet.2) ∈ children :=
      List.mem_map.mpr ⟨tweet, htweet, rfl⟩
    have hsubtree := PathTree.subtree_object_of_child (hkeys ▸ hids) hchild
    rw [hnode, hsubtree]
    exact decodeViewTweetModel_encode codecs base64 (hphotos tweet htweet)
  let models := tweets.map fun tweet => (tweet.1, tweet.2.fetched)
  have hmodels : models.map Prod.fst = tweets.map Prod.fst := by
    rw [List.map_map]
    rfl
  obtain ⟨fetched, hfetched, hfetchedPerm⟩ := decodedValue_tweets codecs
    (mt List.map_eq_nil_iff.mp hne : models ≠ []) (hmodels ▸ hperm)
    (List.forall_mem_map.mpr fun tweet htweet => (hpush tweet htweet).integerKey_eq)
    (List.forall_mem_map.mpr hdecode) horder
  refine ⟨fetched, ?_, ?_⟩
  · have hpath : child TweetEndPoint.getTweets.path = .ok ["Tweets"] := by decide
    rw [fetchWithoutObserving, hpath, Except.map, hfetched]
  · rwa [List.map_map] at hfetchedPerm

/-- A posted user with a photo is fetched as it was posted. -/
theorem fetchWithoutObserving_postUser {id : String} (hid : hasInvalidCharacter id = false)
    {user : UserModel} {url : String} (hurl : user.photoURL = some url)
    (hcodec : codecs.url url = some url) (database : DatabaseTree) :
    ∃ stored, postUser id user database = .ok stored ∧
      ∀ order : List String,
        fetchWithoutObserving (userDecoding codecs) ((UserEndPoint.getUserDetails id).path none)
          order stored = .ok (.ok user) := by
  have hpath : child ((UserEndPoint.postUserDetails id).path none) =
      .ok ("Users" :: pathPieces id) := by
    rw [child_postUserDetails, hid]
    rfl
  have hpath' : child ((UserEndPoint.getUserDetails id).path none) =
      .ok ("Users" :: pathPieces id) := hpath
  refine ⟨.set ("Users" :: pathPieces id) (encodeUserModel user) database, ?_, fun order => ?_⟩
  · rw [postUser, setValue, hpath]
    rfl
  · have hdecode := decodeUserModel_encode codecs hurl hcodec
    have hdictionary : isDictionary (encodeUserModel user) = true := by
      by_contra hno
      exact Option.some_ne_none _ (hdecode.symm.trans (if_neg hno))
    have hvalue : decodedValue (userDecoding codecs) order (encodeUserModel user) = some user := by
      rw [decodedValue, (of_decide_eq_true hdictionary).2, if_pos hdictionary]
      change (decodeUserModel codecs (encodeUserModel user)).orElse _ = some user
      rw [hdecode]
      rfl
    rw [fetchWithoutObserving, hpath', Except.map, PathTree.subtree_set_self, hvalue]

/-- **What is posted is what is fetched**: tweets without photos under distinct push ids as an array
in some order, and a user with a photo as it is, if its photo link is a URL. -/
theorem posted_is_fetched (base64 : Data → String) (database : DatabaseTree) :
    (∀ tweets : List (String × PostTweetModel), tweets ≠ [] → (tweets.map Prod.fst).Nodup →
      (∀ tweet ∈ tweets, IsPushID tweet.1) → (∀ tweet ∈ tweets, tweet.2.photos = none) →
      database.subtree ["Tweets"] = .empty →
      ∃ stored, postTweets base64 tweets database = .ok stored ∧
        ∀ order : List String, order.Perm (stored.subtree ["Tweets"]).keys → ∃ fetched,
          fetchWithoutObserving (tweetsDecoding codecs) TweetEndPoint.getTweets.path order stored =
            .ok (.ok fetched) ∧
          fetched.Perm (tweets.map fun tweet => tweet.2.fetched)) ∧
    ∀ (id : String) (user : UserModel) (url : String), hasInvalidCharacter id = false →
      user.photoURL = some url → codecs.url url = some url →
      ∃ stored, postUser id user database = .ok stored ∧
        ∀ order : List String,
          fetchWithoutObserving (userDecoding codecs) ((UserEndPoint.getUserDetails id).path none)
            order stored = .ok (.ok user) :=
  ⟨fun _ hne hids hpush hphotos hdatabase =>
    fetchWithoutObserving_postTweets codecs base64 hne hids hpush hphotos hdatabase,
   fun _ _ _ hid hurl hcodec =>
    fetchWithoutObserving_postUser codecs hid hurl hcodec database⟩

end Decode

/-- Foundation with images that it cannot read. -/
private def plainCodecs : Codecs := ⟨fun _ => none, some⟩

private def twoTweets : List (String × PostTweetModel) :=
  [(nextPushID 1657000000000 (List.replicate 12 5),
      { tweetID := some "a", caption := some "first", createdTimeStamp := some 1657, uid := "u" }),
    (nextPushID 1657000000001 (List.replicate 12 5),
      { tweetID := some "b", createdTimeStamp := some 1658, photoURL := some [], uid := "u" })]

/-- Two tweets and a user in an empty database. -/
theorem posted_is_fetched_two :
    (∃ stored, postTweets (fun _ => "") twoTweets .empty = .ok stored ∧
      ∀ order : List String, order.Perm (stored.subtree ["Tweets"]).keys → ∃ fetched,
        fetchWithoutObserving (tweetsDecoding plainCodecs) TweetEndPoint.getTweets.path order
          stored = .ok (.ok fetched) ∧
        fetched.Perm (twoTweets.map fun tweet => tweet.2.fetched)) ∧
    ∃ stored, postUser "u" { photoURL := some "https://p", password := some "x" } .empty =
        .ok stored ∧
      ∀ order : List String,
        fetchWithoutObserving (userDecoding plainCodecs)
          ((UserEndPoint.getUserDetails "u").path none) order stored =
            .ok (.ok { photoURL := some "https://p", password := some "x" }) := by
  have hpush : ∀ tweet ∈ twoTweets, IsPushID tweet.1 := by
    intro tweet htweet
    rcases List.mem_pair.mp htweet with rfl | rfl
    · exact isPushID_nextPushID (by decide)
    · exact isPushID_nextPushID (by decide)
  exact ⟨(posted_is_fetched plainCodecs (fun _ => "") .empty).1 twoTweets (List.cons_ne_nil _ _)
      (by decide) hpush (by decide) rfl,
    (posted_is_fetched plainCodecs (fun _ => "") .empty).2 "u" _ "https://p" (by decide) rfl rfl⟩

end TwitterLite
