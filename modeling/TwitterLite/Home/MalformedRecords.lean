import TwitterLite.Common.RoundTrip
import TwitterLite.Home.AuthorJoin
import TwitterLite.Session.App

/-!
# Malformed records

A snapshot of the `Tweets` collection may hold anything. The decoders leave a field of another type
`nil`, but the children have to be objects, all of them, or nothing is decoded
(`TwitterLite.fetchedTweets_of_dictionaries`, `TwitterLite.fetchedTweets_of_not_dictionary`). What
has been decoded is sorted by a time stamp that is unwrapped, and a row that is rendered shows it.

So a snapshot does no harm exactly if no well-formed record has a child beside it that is no object,
and every record that is sorted or shown has a time stamp (`TwitterLite.Survives.iff_harmless`).

## Main definitions

* `TwitterLite.render`, `TwitterLite.HomeViewModel.deliver`.
* `TwitterLite.WellFormedRecord`, `TwitterLite.Survives`, `TwitterLite.Harmless`.

## Main results

* `TwitterLite.HomeViewModel.deliver_unwrapsNil_iff`.
* `TwitterLite.Survives.iff_harmless`.

Source: `BaseTweetModel.swift`, lines 11–34; `HomeViewModel.swift`, lines 38–82 and 143–174;
`DictionaryExtension.swift`, lines 29–37; `FirebaseDatabaseManager.swift`, lines 49–68;
`TweetsTableViewCell.swift`, lines 25–51; `DateExtension.swift`, lines 11–16.
-/

namespace TwitterLite

/-! ### From the snapshot to the rows -/

/-- `TweetsTableViewCell.loadData`, with the formatting of the time stamp. -/
def render (loggedInUser : Option UserModel) (logins : ℕ) (tweetModel : ViewTweetModel) :
    Except Trap Cell :=
  match tweetModel.createdTimeStamp with
  | some _ => .ok (loadData loggedInUser logins tweetModel)
  | none => .error .unwrappedNil

/-- What `fetchWithoutObserving` makes of a snapshot of the collection. -/
def fetchedTweets (codecs : Codecs) (order : List String) (snapshot : DatabaseTree) :
    Except AppError (List ViewTweetModel) :=
  match decodedValue (tweetsDecoding codecs) order snapshot with
  | some tweets => .ok tweets
  | none => .error (.fireBase .failedToFetch)

namespace HomeViewModel

variable (vm : HomeViewModel)

/-- The rows that a timeline request hands to the view controller. -/
def rows (joined : TweetsCallBack) : RequestKind → Except Trap (List ViewTweetModel)
  | .fetchTweets => (vm.fetchTweetsSorted joined).map fun callBack => callBack.1.getD []
  | .refresh => (fetchLatestTweetsSorted joined).map fun callBack => callBack.1.getD []

/-- The delivery of an answer to a timeline request: the authors are joined for the user whose
profile is cached then, the tweets are sorted, and each row is rendered for the one whose profile is
cached by that time. -/
def deliver (loggedInUser viewer : Option UserModel) (logins : ℕ)
    (outcome : ℕ × String → Option UserModel) (kind : RequestKind)
    (result : Except AppError (List ViewTweetModel)) : Except Trap (List Cell) := do
  let _ ← AuthorJoin.begin loggedInUser result
  let rows ← vm.rows (AuthorJoin.joined loggedInUser outcome result) kind
  rows.mapM (render viewer logins)

/-- The only tweet of an answer is taken for one that is in the list, and dropped. -/
def DropsOnly (kind : RequestKind) : Prop := kind = .refresh ∨ vm.lastCreatedDateTimeStamp ≠ none

end HomeViewModel

/-! ### The property and its condition -/

/-- The record has a text as `uid` and a number as `createdTimeStamp`. -/
structure WellFormedRecord (record : DatabaseTree) : Prop where
  uid : decodeString record "uid" ≠ none
  createdTimeStamp : decodeDouble record "createdTimeStamp" ≠ none

/-- The snapshot does no harm: its delivery unwraps no `nil`, and every well-formed record is among
the decoded tweets. -/
structure Survives (codecs : Codecs) (order : List String) (snapshot : DatabaseTree)
    (vm : HomeViewModel) (loggedInUser viewer : Option UserModel) (logins : ℕ)
    (outcome : ℕ × String → Option UserModel) (kind : RequestKind) : Prop where
  noTrap : vm.deliver loggedInUser viewer logins outcome kind
    (fetchedTweets codecs order snapshot) ≠ .error .unwrappedNil
  decoded : ∀ key ∈ snapshot.keys, WellFormedRecord (snapshot.subtree [key]) →
    ∃ tweets tweet, fetchedTweets codecs order snapshot = .ok tweets ∧ tweet ∈ tweets ∧
      decodeViewTweetModel codecs (snapshot.subtree [key]) = some tweet

/-- The author of the record is the user whose profile is cached, or has a valid path. -/
def AuthorReached (loggedInUser : Option UserModel) (record : DatabaseTree) : Prop :=
  let uid := (decodeString record "uid").getD ""
  some uid ≠ loggedInUser.bind UserModel.userID →
    isValidPathString ((UserEndPoint.getUserDetails uid).path none) = true

/-- The condition: beside a well-formed record all children are objects; and if all children are
objects, with authors that can be asked for, they have numbers as time stamps, or there is only one,
which is dropped. -/
structure Harmless (snapshot : DatabaseTree) (vm : HomeViewModel)
    (loggedInUser : Option UserModel) (kind : RequestKind) : Prop where
  objects : (∃ key ∈ snapshot.keys, WellFormedRecord (snapshot.subtree [key])) →
    ∀ key ∈ snapshot.keys, isDictionary (snapshot.subtree [key]) = true
  stamped : (∀ key ∈ snapshot.keys, isDictionary (snapshot.subtree [key]) = true) →
    (∀ key ∈ snapshot.keys, AuthorReached loggedInUser (snapshot.subtree [key])) →
      (∀ key ∈ snapshot.keys, decodeDouble (snapshot.subtree [key]) "createdTimeStamp" ≠ none) ∨
        snapshot.keys.length = 1 ∧ vm.DropsOnly kind

/-! ### Decoding -/

section Decoding

variable (codecs : Codecs) (snapshot : DatabaseTree)

/-- The tweet that a child is decoded as, if it is an object. -/
def tweetAt (key : String) : ViewTweetModel :=
  (decodeViewTweetModel codecs (snapshot.subtree [key])).getD {}

variable {codecs snapshot} {order : List String}

theorem decodeViewTweetModel_tweetAt {key : String}
    (h : isDictionary (snapshot.subtree [key]) = true) :
    decodeViewTweetModel codecs (snapshot.subtree [key]) =
      some (tweetAt codecs snapshot key) := by
  rw [tweetAt, decodeViewTweetModel, if_pos h, Option.getD_some]

theorem createdTimeStamp_tweetAt {key : String}
    (h : isDictionary (snapshot.subtree [key]) = true) :
    (tweetAt codecs snapshot key).createdTimeStamp =
      decodeDouble (snapshot.subtree [key]) "createdTimeStamp" := by
  rw [tweetAt, decodeViewTweetModel, if_pos h, Option.getD_some]

theorem uid_tweetAt {key : String} (h : isDictionary (snapshot.subtree [key]) = true) :
    (tweetAt codecs snapshot key).uid =
      (decodeString (snapshot.subtree [key]) "uid").getD "" := by
  rw [tweetAt, decodeViewTweetModel, if_pos h, Option.getD_some]

variable (codecs) in
/-- Children that are objects are all decoded. -/
theorem fetchedTweets_of_dictionaries (horder : order.Perm snapshot.keys)
    (hkeys : ∀ key ∈ snapshot.keys, integerKey key = none) (hne : snapshot.keys ≠ [])
    (h : ∀ key ∈ snapshot.keys, isDictionary (snapshot.subtree [key]) = true) :
    ∃ tweets, fetchedTweets codecs order snapshot = .ok tweets ∧
      tweets.Perm (snapshot.keys.map (tweetAt codecs snapshot)) := by
  let children := snapshot.keys.map fun key => (key, tweetAt codecs snapshot key)
  have hfst : children.map Prod.fst = snapshot.keys := by
    rw [List.map_map]
    exact List.map_id _
  have hperm : snapshot.keys.Perm (children.map Prod.fst) := hfst ▸ .refl _
  obtain ⟨tweets, hdecoded, hperm⟩ := decodedValue_tweets codecs
    (mt List.map_eq_nil_iff.mp hne : children ≠ []) hperm
    (List.forall_mem_map.mpr hkeys)
    (List.forall_mem_map.mpr fun key hkey => decodeViewTweetModel_tweetAt (h key hkey)) horder
  refine ⟨tweets, by rw [fetchedTweets, hdecoded], ?_⟩
  rwa [List.map_map] at hperm

/-- If a child is no object, nothing is decoded. -/
theorem fetchedTweets_of_not_dictionary (horder : order.Perm snapshot.keys)
    (hkeys : ∀ key ∈ snapshot.keys, integerKey key = none)
    (h : ∃ key ∈ snapshot.keys, isDictionary (snapshot.subtree [key]) = false) :
    fetchedTweets codecs order snapshot = .error (.fireBase .failedToFetch) := by
  obtain ⟨key, hkey, hno⟩ := h
  have hvalues : decodeValues (tweetsDecoding codecs) order snapshot = none := by
    refine if_neg fun hall => ?_
    have hyes := List.all_eq_true.mp hall key (horder.mem_iff.mpr hkey)
    cases hno.symm.trans hyes
  have hdecoded : decodedValue (tweetsDecoding codecs) order snapshot = none := by
    rw [decodedValue, exportedArray_eq_none hkey (hkeys key hkey),
      if_pos (isDictionary_of_mem hkey (hkeys key hkey)), hvalues]
    rfl
  rw [fetchedTweets, hdecoded]

end Decoding

/-! ### Delivering -/

namespace HomeViewModel

variable {vm : HomeViewModel} {loggedInUser viewer : Option UserModel} {logins : ℕ}
  {outcome : ℕ × String → Option UserModel} {kind : RequestKind} {tweets : List ViewTweetModel}

/-- Rows with time stamps are all rendered. -/
theorem exists_mapM_render (h : ∀ tweet ∈ tweets, tweet.createdTimeStamp ≠ none) :
    ∃ cells, tweets.mapM (render viewer logins) = .ok cells := by
  induction tweets with
  | nil => exact ⟨[], rfl⟩
  | cons tweet tweets ih =>
    obtain ⟨cells, hcells⟩ := ih fun t ht => h t (List.mem_cons_of_mem _ ht)
    obtain ⟨stamp, hstamp⟩ := Option.ne_none_iff_exists'.mp (h tweet List.mem_cons_self)
    refine ⟨loadData viewer logins tweet :: cells, ?_⟩
    rw [List.mapM_cons, hcells, render, hstamp]
    rfl

variable (vm kind) in
/-- What a timeline request hands over of the sorted tweets. -/
def kept (sorted : List ViewTweetModel) : List ViewTweetModel :=
  match kind with
  | .refresh => sorted.dropLast
  | .fetchTweets => if vm.lastCreatedDateTimeStamp = none then sorted else sorted.tail

theorem kept_subset (sorted : List ViewTweetModel) : vm.kept kind sorted ⊆ sorted := by
  unfold kept
  cases kind with
  | refresh => exact List.dropLast_subset sorted
  | fetchTweets =>
    dsimp only
    split_ifs
    · exact List.Subset.refl sorted
    · exact List.tail_subset sorted

theorem kept_singleton (tweet : ViewTweetModel) :
    (vm.DropsOnly kind → vm.kept kind [tweet] = []) ∧
      (¬ vm.DropsOnly kind → vm.kept kind [tweet] = [tweet]) := by
  unfold kept DropsOnly
  cases kind with
  | refresh => exact ⟨fun _ => rfl, fun h => absurd (.inl rfl) h⟩
  | fetchTweets =>
    by_cases hcursor : vm.lastCreatedDateTimeStamp = none
    · simp [hcursor]
    · simp [hcursor]

/-- The tweets are sorted, and handed over but for the one that is dropped. -/
theorem rows_eq (tweets : List ViewTweetModel) (error : Option AppError) :
    vm.rows (some tweets, error) kind = (sortedTweets tweets).map (vm.kept kind) := by
  cases tweets with
  | nil =>
    have hnil : vm.kept kind [] = [] := List.subset_nil.mp (kept_subset [])
    have hsorted : sortedTweets [] = .ok [] := rfl
    rw [hsorted, Except.map, hnil]
    cases kind <;> rfl
  | cons tweet tweets =>
    cases kind with
    | refresh =>
      rw [rows, fetchLatestTweetsSorted]
      cases sortedTweets (tweet :: tweets) <;> rfl
    | fetchTweets =>
      rw [rows, fetchTweetsSorted]
      cases sortedTweets (tweet :: tweets) with
      | error trap => rfl
      | ok sorted =>
        by_cases hcursor : vm.lastCreatedDateTimeStamp = none
        · have hkept : vm.kept .fetchTweets sorted = sorted := if_pos hcursor
          simp only [hcursor, Except.map, hkept]
          rfl
        · have hkept : vm.kept .fetchTweets sorted = sorted.tail := if_neg hcursor
          simp only [hcursor, ne_eq, not_false_eq_true, if_true, Except.map, hkept]
          rfl

/-- Tweets with time stamps are sorted and rendered. -/
theorem exists_rendered (h : ∀ tweet ∈ tweets, tweet.createdTimeStamp ≠ none) :
    ∃ cells, ((sortedTweets tweets).map (vm.kept kind) >>= fun rows =>
      rows.mapM (render viewer logins)) = .ok cells := by
  rw [sortedTweets_eq h]
  refine exists_mapM_render fun tweet (ht : tweet ∈ vm.kept kind _) => h tweet ?_
  exact (Descending.mem_sort _).mp (kept_subset _ ht)

/-- Sorting and rendering unwrap `nil` if a tweet has no time stamp, unless it is the only one and
dropped. -/
theorem rendered_unwrapsNil_iff (tweets : List ViewTweetModel) :
    ((sortedTweets tweets).map (vm.kept kind) >>= fun rows => rows.mapM (render viewer logins)) =
        .error .unwrappedNil ↔
      (∃ tweet ∈ tweets, tweet.createdTimeStamp = none) ∧
        ¬ (tweets.length = 1 ∧ vm.DropsOnly kind) := by
  by_cases hnone : ∃ tweet ∈ tweets, tweet.createdTimeStamp = none
  · rw [and_iff_right hnone]
    obtain ⟨tweet, htweet, hstamp⟩ := hnone
    by_cases hlength : 2 ≤ tweets.length
    · have hsorted : sortedTweets tweets = .error .unwrappedNil :=
        if_pos ⟨hlength, tweet, htweet, hstamp⟩
      rw [hsorted]
      exact iff_of_true rfl fun h => by omega
    · obtain ⟨t, rfl⟩ : ∃ t, tweets = [t] := by
        have hpos := List.length_pos_of_mem htweet
        exact List.length_eq_one_iff.mp (by omega)
      obtain rfl := List.mem_singleton.mp htweet
      have hsorted : sortedTweets [tweet] = .ok [tweet] := if_neg fun h => hlength h.1
      rw [hsorted, List.length_singleton, and_iff_right rfl, Except.map]
      by_cases hdrops : vm.DropsOnly kind
      · rw [(kept_singleton tweet).1 hdrops]
        exact iff_of_false (fun h => by cases h) (not_not.mpr hdrops)
      · rw [(kept_singleton tweet).2 hdrops]
        refine iff_of_true ?_ hdrops
        change (List.mapM (render viewer logins) [tweet]) = _
        rw [List.mapM_cons, render, hstamp]
        rfl
  · have hstamps : ∀ tweet ∈ tweets, tweet.createdTimeStamp ≠ none := fun tweet ht h =>
      hnone ⟨tweet, ht, h⟩
    obtain ⟨cells, hcells⟩ := exists_rendered hstamps
    refine iff_of_false (fun h => ?_) fun h => hnone h.1
    cases hcells.symm.trans h

variable (loggedInUser outcome) in
/-- The tweets that the join of the authors hands over. -/
def joinedTweets (tweets : List ViewTweetModel) : List ViewTweetModel :=
  tweets.mapIdx fun i tweet =>
    { tweet with user := AuthorJoin.author loggedInUser outcome i tweet }

/-- Joining the authors changes no record. -/
theorem map_record_joinedTweets (tweets : List ViewTweetModel) :
    (joinedTweets loggedInUser outcome tweets).map ViewTweetModel.record =
      tweets.map ViewTweetModel.record := by
  refine List.ext_getElem? fun i => ?_
  simp only [joinedTweets, List.getElem?_map, List.getElem?_mapIdx, Option.map_map]
  rfl

/-- If the authors can be asked for, the joined tweets are sorted and rendered. -/
theorem deliver_of_valid (h : Fetching.AuthorsValid loggedInUser tweets) :
    vm.deliver loggedInUser viewer logins outcome kind (.ok tweets) =
      ((sortedTweets (joinedTweets loggedInUser outcome tweets)).map (vm.kept kind) >>=
        fun rows => rows.mapM (render viewer logins)) := by
  rw [← rows_eq _ none, deliver, AuthorJoin.begin_of_valid h]
  rfl

theorem deliver_of_invalid (h : ¬ Fetching.AuthorsValid loggedInUser tweets) :
    vm.deliver loggedInUser viewer logins outcome kind (.ok tweets) = .error .invalidPath := by
  rw [deliver, AuthorJoin.begin_of_invalid h]
  rfl

/-- An error is passed on. -/
theorem deliver_error_ne {error : AppError} :
    vm.deliver loggedInUser viewer logins outcome kind (.error error) ≠ .error .unwrappedNil := by
  intro h
  cases kind with
  | fetchTweets => cases h
  | refresh => cases h

variable (loggedInUser outcome tweets) in
/-- A property of records holds of a joined tweet exactly if it holds of one of the tweets. -/
theorem exists_joinedTweets (p : PostTweetModel → Prop) :
    (∃ tweet ∈ joinedTweets loggedInUser outcome tweets, p tweet.record) ↔
      ∃ tweet ∈ tweets, p tweet.record := by
  have hrecords (l : List ViewTweetModel) :
      (∃ tweet ∈ l, p tweet.record) ↔ ∃ record ∈ l.map ViewTweetModel.record, p record := by
    simp only [List.mem_map, exists_exists_and_eq_and]
  rw [hrecords, map_record_joinedTweets, ← hrecords]

/-- **What unwraps `nil`**: the authors can be asked for, and a tweet has no time stamp, unless it
is the only one and dropped. -/
theorem deliver_unwrapsNil_iff :
    vm.deliver loggedInUser viewer logins outcome kind (.ok tweets) = .error .unwrappedNil ↔
      Fetching.AuthorsValid loggedInUser tweets ∧
        (∃ tweet ∈ tweets, tweet.createdTimeStamp = none) ∧
        ¬ (tweets.length = 1 ∧ vm.DropsOnly kind) := by
  by_cases hvalid : Fetching.AuthorsValid loggedInUser tweets
  · have hstamps := exists_joinedTweets loggedInUser outcome tweets
      fun record => record.createdTimeStamp = none
    have hlength : (joinedTweets loggedInUser outcome tweets).length = tweets.length :=
      List.length_mapIdx
    rw [deliver_of_valid hvalid, and_iff_right hvalid, rendered_unwrapsNil_iff, hlength]
    exact and_congr_left fun _ => hstamps
  · rw [deliver_of_invalid hvalid]
    exact iff_of_false (by simp) fun h => hvalid h.1

end HomeViewModel

/-! ### Which snapshots do no harm -/

namespace Survives

variable {codecs : Codecs} {order : List String} {snapshot : DatabaseTree} {vm : HomeViewModel}
  {loggedInUser viewer : Option UserModel} {logins : ℕ} {outcome : ℕ × String → Option UserModel}
  {kind : RequestKind}

/-- If a child is no object, the snapshot does no harm exactly if it has no well-formed record. -/
theorem iff_of_not_dictionary (horder : order.Perm snapshot.keys)
    (hkeys : ∀ key ∈ snapshot.keys, integerKey key = none)
    (h : ¬ ∀ key ∈ snapshot.keys, isDictionary (snapshot.subtree [key]) = true) :
    Survives codecs order snapshot vm loggedInUser viewer logins outcome kind ↔
      ¬ ∃ key ∈ snapshot.keys, WellFormedRecord (snapshot.subtree [key]) := by
  have hno : ∃ key ∈ snapshot.keys, isDictionary (snapshot.subtree [key]) = false := by
    simpa only [not_forall, exists_prop, Bool.not_eq_true] using h
  have hfetched : fetchedTweets codecs order snapshot = .error (.fireBase .failedToFetch) :=
    fetchedTweets_of_not_dictionary horder hkeys hno
  constructor
  · rintro hsurvives ⟨key, hkey, hrecord⟩
    obtain ⟨tweets, -, htweets, -⟩ := hsurvives.decoded key hkey hrecord
    cases hfetched.symm.trans htweets
  · intro hnone
    refine ⟨?_, fun key hkey hrecord => absurd ⟨key, hkey, hrecord⟩ hnone⟩
    rw [hfetched]
    exact HomeViewModel.deliver_error_ne

/-- An empty snapshot does no harm. -/
theorem of_empty (h : snapshot.keys = []) :
    Survives codecs order snapshot vm loggedInUser viewer logins outcome kind := by
  have hdecoded : decodedValue (tweetsDecoding codecs) order snapshot = none := by
    rw [decodedValue, isDictionary, h]
    rfl
  have hfetched : fetchedTweets codecs order snapshot = .error (.fireBase .failedToFetch) := by
    rw [fetchedTweets, hdecoded]
  refine ⟨?_, fun key hkey => absurd hkey (h ▸ List.not_mem_nil)⟩
  rw [hfetched]
  exact HomeViewModel.deliver_error_ne

/-- If all children are objects, the snapshot does no harm exactly if no time stamp is missed. -/
theorem iff_of_dictionaries (horder : order.Perm snapshot.keys)
    (hkeys : ∀ key ∈ snapshot.keys, integerKey key = none)
    (h : ∀ key ∈ snapshot.keys, isDictionary (snapshot.subtree [key]) = true) :
    Survives codecs order snapshot vm loggedInUser viewer logins outcome kind ↔
      ((∀ key ∈ snapshot.keys, AuthorReached loggedInUser (snapshot.subtree [key])) →
        (∀ key ∈ snapshot.keys, decodeDouble (snapshot.subtree [key]) "createdTimeStamp" ≠ none) ∨
          snapshot.keys.length = 1 ∧ vm.DropsOnly kind) := by
  by_cases hne : snapshot.keys = []
  · exact iff_of_true (of_empty hne) fun _ => .inl fun key hkey =>
      absurd hkey (hne ▸ List.not_mem_nil)
  obtain ⟨tweets, hfetched, hperm⟩ := fetchedTweets_of_dictionaries codecs horder hkeys hne h
  have hdecoded : ∀ key ∈ snapshot.keys, WellFormedRecord (snapshot.subtree [key]) →
      ∃ tweets tweet, fetchedTweets codecs order snapshot = .ok tweets ∧ tweet ∈ tweets ∧
        decodeViewTweetModel codecs (snapshot.subtree [key]) = some tweet := fun key hkey _ =>
    ⟨tweets, _, hfetched, hperm.mem_iff.mpr (List.mem_map_of_mem hkey),
      decodeViewTweetModel_tweetAt (h key hkey)⟩
  have hvalid : Fetching.AuthorsValid loggedInUser tweets ↔
      ∀ key ∈ snapshot.keys, AuthorReached loggedInUser (snapshot.subtree [key]) := by
    simp only [Fetching.AuthorsValid, hperm.mem_iff, List.forall_mem_map]
    exact forall₂_congr fun key hkey => by rw [uid_tweetAt (h key hkey), AuthorReached]
  have hstamps : (∃ tweet ∈ tweets, tweet.createdTimeStamp = none) ↔
      ¬ ∀ key ∈ snapshot.keys,
        decodeDouble (snapshot.subtree [key]) "createdTimeStamp" ≠ none := by
    simp only [hperm.mem_iff, List.mem_map, exists_exists_and_eq_and, not_forall, not_not,
      exists_prop]
    exact exists_congr fun key => and_congr_right fun hkey => by
      rw [createdTimeStamp_tweetAt (h key hkey)]
  have hlength : tweets.length = snapshot.keys.length := by
    rw [hperm.length_eq, List.length_map]
  have hsurvives : Survives codecs order snapshot vm loggedInUser viewer logins outcome kind ↔
      vm.deliver loggedInUser viewer logins outcome kind (.ok tweets) ≠ .error .unwrappedNil :=
    ⟨fun hs => hfetched ▸ hs.noTrap, fun hs => ⟨hfetched ▸ hs, hdecoded⟩⟩
  rw [hsurvives, ne_eq, HomeViewModel.deliver_unwrapsNil_iff, hvalid, hstamps, hlength, not_and,
    not_and, not_not]
  exact imp_congr_right fun _ => or_iff_not_imp_left.symm

/-- **A snapshot does no harm exactly if the condition holds.** -/
theorem iff_harmless (horder : order.Perm snapshot.keys)
    (hkeys : ∀ key ∈ snapshot.keys, integerKey key = none) :
    Survives codecs order snapshot vm loggedInUser viewer logins outcome kind ↔
      Harmless snapshot vm loggedInUser kind := by
  by_cases h : ∀ key ∈ snapshot.keys, isDictionary (snapshot.subtree [key]) = true
  · rw [iff_of_dictionaries horder hkeys h]
    exact ⟨fun hstamped => ⟨fun _ => h, fun _ => hstamped⟩, fun hharmless => hharmless.stamped h⟩
  · rw [iff_of_not_dictionary horder hkeys h]
    exact ⟨fun hnone => ⟨fun hrecord => absurd hrecord hnone, fun hall => absurd hall h⟩,
      fun hharmless hrecord => h (hharmless.objects hrecord)⟩

/-- A record that holds the given stamp, beside a well-formed record. -/
private def twoRecords (stamp : Leaf) : DatabaseTree where
  leaves := [(["a", "uid"], .string "u"), (["a", "createdTimeStamp"], .number 1),
    (["b", "uid"], .string "v"), (["b", "createdTimeStamp"], stamp)]
  incomparable := by
    simp only [List.pairwise_cons, List.mem_cons, forall_eq_or_imp]
    decide

/-- The time stamp of a record is a text: the sort unwraps `nil`. -/
theorem not_survives :
    ¬ ∀ (codecs : Codecs) (order : List String) (snapshot : DatabaseTree) (vm : HomeViewModel)
      (loggedInUser viewer : Option UserModel) (logins : ℕ)
      (outcome : ℕ × String → Option UserModel) (kind : RequestKind),
      order.Perm snapshot.keys → (∀ key ∈ snapshot.keys, integerKey key = none) →
        Survives codecs order snapshot vm loggedInUser viewer logins outcome kind := by
  intro h
  have hsurvives := h ⟨fun _ => none, fun _ => none⟩ _ (twoRecords (.string "")) ⟨true, [], none⟩
    none none 0 (fun _ => none) .fetchTweets (.refl _) (by decide)
  have hreached : ∀ key ∈ (twoRecords (.string "")).keys,
      AuthorReached none ((twoRecords (.string "")).subtree [key]) := by
    intro key hkey _
    revert key
    decide
  rcases (iff_of_dictionaries (.refl _) (by decide) (by decide)).mp hsurvives hreached with
    hstamps | ⟨hlength, -⟩
  · exact hstamps "b" (by decide) (by decide)
  · exact absurd hlength (by decide)

/-- The time stamps of both records are numbers. -/
theorem iff_harmless_two :
    Survives ⟨fun _ => none, fun _ => none⟩ ["a", "b"] (twoRecords (.number 2)) ⟨true, [], none⟩
      none none 0 (fun _ => none) .refresh :=
  (iff_harmless (by decide) (by decide)).mpr
    ⟨fun _ => by decide, fun _ _ => .inl (by decide)⟩

end Survives

end TwitterLite
