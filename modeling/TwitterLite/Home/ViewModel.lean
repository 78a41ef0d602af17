import TwitterLite.Common.FirebaseQuery

/-!
# The timeline: view model and view controller

`HomeViewModel` holds the displayed tweets and the paging cursor; `HomeViewController` asks it for
pages, edits the list in the callbacks and describes the edit to the table view. A request has two
moments. When it is sent the query is built from the state (`HomeViewModel.fetchTweetsQuery`,
`HomeViewModel.fetchLatestTweetsQuery`). When its answer has been joined with the profiles of the
authors (`HomeViewModel.fetchUserDetails`) the callback chain runs on the state of that moment
(`HomeViewModel.fetchTweetsDelivered`, `HomeViewModel.fetchLatestTweetsDelivered`).

The answer of a whole request, as a step of the model, is `HomeViewModel.fetchTweetsAnswered` and
`HomeViewModel.fetchLatestTweetsAnswered`. For an answer that carries time stamps they never trap,
and what they add to the list is determined by the sorted records of the answer
(`HomeViewModel.fetchTweetsAnswered_spec`, `HomeViewModel.fetchLatestTweetsAnswered_spec`).

## Main definitions

* `TwitterLite.HomeViewModel`, `TwitterLite.TableUpdate`.
* `TwitterLite.HomeViewModel.fetchUserDetails`.
* `TwitterLite.HomeViewModel.fetchTweetsQuery`, `TwitterLite.HomeViewModel.fetchTweetsAnswered`.
* `TwitterLite.HomeViewModel.fetchLatestTweetsQuery`,
  `TwitterLite.HomeViewModel.fetchLatestTweetsAnswered`.

## Main results

* `TwitterLite.HomeViewModel.fetchTweetsAnswered_spec`,
  `TwitterLite.HomeViewModel.fetchLatestTweetsAnswered_spec`.

Source: `HomeViewModel.swift`, lines 12–82 and 143–174; `HomeViewController.swift`, lines 68–134.
-/

namespace TwitterLite

open Descending

/-- The state of `HomeViewModel`; the page size depends on the device only. -/
structure HomeViewModel where
  isiPhone : Bool
  tweetList : List ViewTweetModel := []
  lastCreatedDateTimeStamp : Option ℚ := none
  deriving DecidableEq, Repr

/-- What the view controller tells the table view after it has edited the list. -/
inductive TableUpdate where
  | reloadData
  | insertRows (rows : List ℕ)
  | deleteRows (rows : List ℕ)
  deriving DecidableEq, Repr

/-- What the completion of a timeline request hands to the view controller. -/
abbrev TweetsCallBack := Option (List ViewTweetModel) × Option AppError

namespace HomeViewModel

variable (vm : HomeViewModel)

/-- `HomeViewModel.pageSize`. -/
def pageSize : ℕ := if vm.isiPhone then 10 else 20

theorem pageSize_pos : 0 < vm.pageSize := by
  unfold pageSize
  split_ifs <;> decide

/-- The records of the displayed tweets. -/
def records : List PostTweetModel := vm.tweetList.map ViewTweetModel.record

/-! ### Joining the authors -/

/-- The author of a tweet: the cached profile for the user's own tweets, the profile that the
query of the author returned, or what the record itself held. -/
def withAuthor (loggedInUser profile : Option UserModel) (tweet : ViewTweetModel) :
    ViewTweetModel :=
  if some tweet.uid = loggedInUser.bind UserModel.userID then { tweet with user := loggedInUser }
  else
    match profile with
    | some user => { tweet with user := some user }
    | none => tweet

@[simp] theorem record_withAuthor (loggedInUser profile : Option UserModel)
    (tweet : ViewTweetModel) : (withAuthor loggedInUser profile tweet).record = tweet.record := by
  unfold withAuthor
  split_ifs
  · rfl
  · cases profile <;> rfl

/-- `HomeViewModel.fetchUserDetails`, once the query of every author has been answered:
`profiles i` is the answer for the `i`-th tweet, `none` for a failure. -/
def fetchUserDetails (loggedInUser : Option UserModel) (profiles : ℕ → Option UserModel) :
    Except AppError (List ViewTweetModel) → TweetsCallBack
  | .ok tweetModelList =>
    (some (tweetModelList.mapIdx fun i tweet => withAuthor loggedInUser (profiles i) tweet), none)
  | .error error => (none, some error)

/-! ### Sorting the answer -/

/-- `sorted { $0.createdTimeStamp > $1.createdTimeStamp }`. With two elements or more the
comparison unwraps the time stamp of each of them. -/
def sortedTweets (tweetModelList : List ViewTweetModel) : Except Trap (List ViewTweetModel) :=
  if 2 ≤ tweetModelList.length ∧ ∃ tweet ∈ tweetModelList, tweet.createdTimeStamp = none then
    .error .unwrappedNil
  else .ok (sort (fun tweet => tweet.stamp) tweetModelList)

theorem sortedTweets_eq {tweetModelList : List ViewTweetModel}
    (h : ∀ tweet ∈ tweetModelList, tweet.createdTimeStamp ≠ none) :
    sortedTweets tweetModelList = .ok (sort (fun tweet => tweet.stamp) tweetModelList) := by
  refine if_neg fun ⟨_, tweet, ht, hnone⟩ => h tweet ht hnone

/-! ### Older tweets -/

/-- The query that `fetchTweets` sends: the first page, or the page that ends with the cursor. -/
def fetchTweetsQuery : FirebaseQuery where
  pageSize := some (if vm.lastCreatedDateTimeStamp = none then vm.pageSize else vm.pageSize + 1)
  queryEnding := vm.lastCreatedDateTimeStamp

/-- The completion of `HomeViewModel.fetchTweets` after the authors have been joined. The cursor is
read again: if there is one now, the newest tweet of the answer is taken for it and dropped. -/
def fetchTweetsSorted : TweetsCallBack → Except Trap TweetsCallBack
  | (some (tweet :: tweets), error) => do
    let sorted ← sortedTweets (tweet :: tweets)
    if vm.lastCreatedDateTimeStamp ≠ none then return (some sorted.tail, error)
    else return (some sorted, error)
  | (_, error) => return (none, error)

/-- The callback of `HomeViewController.fetchTweets`. -/
def fetchTweetsShown : TweetsCallBack → HomeViewModel × Option TableUpdate
  | (some (tweet :: tweets), _) =>
    let tweetList := vm.tweetList ++ tweet :: tweets
    let update :=
      match vm.lastCreatedDateTimeStamp with
      | some _ => .insertRows (List.range' vm.tweetList.length (tweets.length + 1))
      | none => .reloadData
    ({ vm with
        tweetList := tweetList
        lastCreatedDateTimeStamp := tweetList.getLast?.bind fun tweet => tweet.createdTimeStamp },
      some update)
  | _ => (vm, none)

/-- From the joined answer to the edited list. -/
def fetchTweetsDelivered (joined : TweetsCallBack) :
    Except Trap (HomeViewModel × Option TableUpdate) := do
  let callback ← vm.fetchTweetsSorted joined
  return vm.fetchTweetsShown callback

/-- The answer to a `fetchTweets` request, joined with the authors and delivered. -/
def fetchTweetsAnswered (loggedInUser : Option UserModel) (profiles : ℕ → Option UserModel)
    (answer : List ViewTweetModel) : Except Trap (HomeViewModel × Option TableUpdate) :=
  vm.fetchTweetsDelivered (fetchUserDetails loggedInUser profiles (FirebaseQuery.decoded answer))

/-! ### Newer tweets -/

/-- The query that `fetchLatestTweets` sends, unless the list is empty: everything from the first
displayed tweet on. -/
def fetchLatestTweetsQuery : Option FirebaseQuery :=
  (vm.tweetList.head?.bind fun tweet => tweet.createdTimeStamp).map fun timeStamp =>
    { queryStarting := some timeStamp }

/-- The completion of `HomeViewModel.fetchLatestTweets` after the authors have been joined: the
oldest tweet of the answer is taken for the first displayed one and dropped. -/
def fetchLatestTweetsSorted : TweetsCallBack → Except Trap TweetsCallBack
  | (some (tweet :: tweets), error) => do
    let sorted ← sortedTweets (tweet :: tweets)
    return (some sorted.dropLast, error)
  | (_, error) => return (none, error)

/-- The callback of `HomeViewController.refresh`. -/
def refreshShown : TweetsCallBack → HomeViewModel × Option TableUpdate
  | (some (tweet :: tweets), _) =>
    ({ vm with tweetList := tweet :: tweets ++ vm.tweetList },
      some (.insertRows (List.range (tweets.length + 1))))
  | _ => (vm, none)

/-- From the joined answer to the edited list. -/
def fetchLatestTweetsDelivered (joined : TweetsCallBack) :
    Except Trap (HomeViewModel × Option TableUpdate) := do
  let callback ← fetchLatestTweetsSorted joined
  return vm.refreshShown callback

/-- The answer to a `fetchLatestTweets` request, joined with the authors and delivered. -/
def fetchLatestTweetsAnswered (loggedInUser : Option UserModel) (profiles : ℕ → Option UserModel)
    (answer : List ViewTweetModel) : Except Trap (HomeViewModel × Option TableUpdate) :=
  vm.fetchLatestTweetsDelivered
    (fetchUserDetails loggedInUser profiles (FirebaseQuery.decoded answer))

/-! ### The effect on the list -/

/-- The records that the answer to a `fetchTweets` request adds, newest first. -/
def olderRows (answer : List ViewTweetModel) : List PostTweetModel :=
  let sorted := sort (fun tweet => tweet.stamp) (answer.map ViewTweetModel.record)
  if vm.lastCreatedDateTimeStamp = none then sorted else sorted.tail

/-- The records that the answer to a `fetchLatestTweets` request adds, newest first. -/
def newerRows (answer : List ViewTweetModel) : List PostTweetModel :=
  (sort (fun tweet => tweet.stamp) (answer.map ViewTweetModel.record)).dropLast

/-- `vm'` shows the rows of `vm` and then `rows`, and its cursor is the time stamp of the last
new row, if there is one. -/
structure Appended (rows : List PostTweetModel) (vm' : HomeViewModel) : Prop where
  isiPhone_eq : vm'.isiPhone = vm.isiPhone
  records_eq : vm'.records = vm.records ++ rows
  cursor_eq : vm'.lastCreatedDateTimeStamp =
    if rows = [] then vm.lastCreatedDateTimeStamp
    else rows.getLast?.bind fun tweet => tweet.createdTimeStamp

/-- `vm'` shows `rows` and then the rows of `vm`, and its cursor is that of `vm`. -/
structure Prepended (rows : List PostTweetModel) (vm' : HomeViewModel) : Prop where
  isiPhone_eq : vm'.isiPhone = vm.isiPhone
  records_eq : vm'.records = rows ++ vm.records
  cursor_eq : vm'.lastCreatedDateTimeStamp = vm.lastCreatedDateTimeStamp

variable {vm} in
theorem Appended.pageSize_eq {rows : List PostTweetModel} {vm' : HomeViewModel}
    (h : vm.Appended rows vm') : vm'.pageSize = vm.pageSize := by
  rw [pageSize, h.isiPhone_eq, pageSize]

variable {vm} in
theorem Prepended.pageSize_eq {rows : List PostTweetModel} {vm' : HomeViewModel}
    (h : vm.Prepended rows vm') : vm'.pageSize = vm.pageSize := by
  rw [pageSize, h.isiPhone_eq, pageSize]

theorem appended_fetchTweetsShown (rows : List ViewTweetModel) (error : Option AppError) :
    vm.Appended (rows.map ViewTweetModel.record) (vm.fetchTweetsShown (some rows, error)).1 := by
  cases rows with
  | nil => exact ⟨rfl, by simp [fetchTweetsShown, records], rfl⟩
  | cons tweet tweets =>
    refine ⟨rfl, by simp [fetchTweetsShown, records], ?_⟩
    have hlast : (vm.tweetList ++ tweet :: tweets).getLast? = (tweet :: tweets).getLast? := by
      rw [List.getLast?_append, List.getLast?_cons, Option.some_or]
    simp only [fetchTweetsShown, hlast, List.getLast?_map, List.map_eq_nil_iff, reduceCtorEq,
      if_false, Option.bind_map]
    rfl

theorem prepended_refreshShown (rows : List ViewTweetModel) (error : Option AppError) :
    vm.Prepended (rows.map ViewTweetModel.record) (vm.refreshShown (some rows, error)).1 := by
  cases rows with
  | nil => exact ⟨rfl, by simp [refreshShown, records], rfl⟩
  | cons tweet tweets => exact ⟨rfl, by simp [refreshShown, records], rfl⟩

section Answered

variable {answer : List ViewTweetModel} (loggedInUser : Option UserModel)
  (profiles : ℕ → Option UserModel)

/-- Joining the authors changes no record. -/
theorem map_record_mapIdx_withAuthor (answer : List ViewTweetModel) :
    (answer.mapIdx fun i tweet => withAuthor loggedInUser (profiles i) tweet).map
      ViewTweetModel.record = answer.map ViewTweetModel.record := by
  refine List.ext_getElem? fun i => ?_
  simp only [List.getElem?_map, List.getElem?_mapIdx, Option.map_map]
  congr 1
  funext tweet
  exact record_withAuthor loggedInUser (profiles i) tweet

/-- The joined answer holds the records of the answer, in their order. -/
theorem fetchUserDetails_decoded (hne : answer ≠ []) :
    ∃ tweet tweets, fetchUserDetails loggedInUser profiles (FirebaseQuery.decoded answer) =
        (some (tweet :: tweets), none) ∧
      (tweet :: tweets).map ViewTweetModel.record = answer.map ViewTweetModel.record := by
  have hjoined := map_record_mapIdx_withAuthor loggedInUser profiles answer
  obtain ⟨tweet, tweets, hcons⟩ := List.exists_cons_of_ne_nil (List.mapIdx_ne_nil_iff
    (f := fun i tweet => withAuthor loggedInUser (profiles i) tweet).mpr hne)
  refine ⟨tweet, tweets, ?_, hcons ▸ hjoined⟩
  rw [FirebaseQuery.decoded, if_neg (by simpa using hne), fetchUserDetails, hcons]

/-- Sorting the joined answer never traps when its records carry time stamps, and sorts them. -/
theorem sortedTweets_of_map_record_eq {tweets : List ViewTweetModel}
    (hrec : tweets.map ViewTweetModel.record = answer.map ViewTweetModel.record)
    (h : ∀ tweet ∈ answer, tweet.createdTimeStamp ≠ none) :
    ∃ sorted, sortedTweets tweets = .ok sorted ∧ sorted.map ViewTweetModel.record =
      sort (fun tweet => tweet.stamp) (answer.map ViewTweetModel.record) := by
  refine ⟨_, sortedTweets_eq fun tweet ht => ?_, ?_⟩
  · have hmem : tweet.record ∈ answer.map ViewTweetModel.record :=
      hrec ▸ List.mem_map_of_mem ht
    obtain ⟨t, ht', heq⟩ := List.mem_map.mp hmem
    exact fun hnone =>
      h t ht' ((congrArg (fun r : PostTweetModel => r.createdTimeStamp) heq).trans hnone)
  · rw [← hrec]
    exact map_sort (f := fun tweet : ViewTweetModel => tweet.stamp)
      (g := fun tweet : PostTweetModel => tweet.stamp) ViewTweetModel.record (fun _ => rfl) tweets

/-- **The answer to a `fetchTweets` request.** If its records carry time stamps, it is delivered
without a trap and appends `olderRows`. -/
theorem fetchTweetsAnswered_spec (h : ∀ tweet ∈ answer, tweet.createdTimeStamp ≠ none) :
    ∃ vm' update, vm.fetchTweetsAnswered loggedInUser profiles answer = .ok (vm', update) ∧
      vm.Appended (vm.olderRows answer) vm' := by
  by_cases hne : answer = []
  · subst hne
    refine ⟨vm, none, rfl, rfl, ?_, ?_⟩ <;> simp [olderRows, sort]
  · obtain ⟨tweet, tweets, hjoin, hrec⟩ :=
      fetchUserDetails_decoded loggedInUser profiles hne
    obtain ⟨sorted, hsorted, hrows⟩ := sortedTweets_of_map_record_eq hrec h
    obtain ⟨rows, hcallback, hrows⟩ : ∃ rows, vm.fetchTweetsSorted (some (tweet :: tweets), none) =
        .ok (some rows, none) ∧ rows.map ViewTweetModel.record = vm.olderRows answer := by
      simp only [fetchTweetsSorted, hsorted, olderRows, ← hrows]
      by_cases hcursor : vm.lastCreatedDateTimeStamp = none
      · exact ⟨sorted, by simp only [hcursor]; rfl, by rw [if_pos hcursor]⟩
      · refine ⟨sorted.tail, ?_, by rw [if_neg hcursor, List.map_tail]⟩
        simp only [ne_eq, hcursor, not_false_eq_true, if_true]
        rfl
    have hshown := vm.appended_fetchTweetsShown rows none
    rw [hrows] at hshown
    refine ⟨_, (vm.fetchTweetsShown (some rows, none)).2, ?_, hshown⟩
    simp only [fetchTweetsAnswered, fetchTweetsDelivered, hjoin, hcallback]
    rfl

/-- **The answer to a `fetchLatestTweets` request.** If its records carry time stamps, it is
delivered without a trap and prepends `newerRows`. -/
theorem fetchLatestTweetsAnswered_spec (h : ∀ tweet ∈ answer, tweet.createdTimeStamp ≠ none) :
    ∃ vm' update, vm.fetchLatestTweetsAnswered loggedInUser profiles answer = .ok (vm', update) ∧
      vm.Prepended (newerRows answer) vm' := by
  by_cases hne : answer = []
  · subst hne
    refine ⟨vm, none, rfl, rfl, ?_, ?_⟩ <;> simp [newerRows, sort]
  · obtain ⟨tweet, tweets, hjoin, hrec⟩ :=
      fetchUserDetails_decoded loggedInUser profiles hne
    obtain ⟨sorted, hsorted, hrows⟩ := sortedTweets_of_map_record_eq hrec h
    have hshown := vm.prepended_refreshShown sorted.dropLast none
    rw [List.map_dropLast, hrows] at hshown
    refine ⟨_, (vm.refreshShown (some sorted.dropLast, none)).2, ?_, hshown⟩
    simp only [fetchLatestTweetsAnswered, fetchLatestTweetsDelivered, hjoin,
      fetchLatestTweetsSorted, hsorted]
    rfl

end Answered

end HomeViewModel

end TwitterLite
