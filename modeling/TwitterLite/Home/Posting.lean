import TwitterLite.Home.Deletions
import TwitterLite.Home.Overlap
import TwitterLite.NewTweet.AddTweet

/-!
# The user's own new tweet

When `NewTweetViewModel.addTweet` has succeeded, `didFinishTweet` refreshes the timeline. The
refresh asks for everything from the first row on, and drops the oldest tweet of the answer as the
first row. Nothing is asked for if there is no first row, and the new tweet itself is dropped if it
is all that the server has from there on.

So the new tweet comes first exactly if the list has a first row with a time stamp, and the server
had a tweet that is at least as new (`Posting.newTweetFirst_iff`). The history before may be any run
of overlapping requests, failures, deletions and posts of other clients.

## Main definitions

* `TwitterLite.Posting.Step`.
* `TwitterLite.Posting.NewTweetFirst`, `TwitterLite.Posting.FirstReached`.

## Main results

* `TwitterLite.Posting.step_newTweetFirst_iff`, `TwitterLite.Posting.newTweetFirst_iff`.

Source: `HomeViewModel.swift`, lines 38–59; `HomeViewController.swift`, lines 68–86 and 196–200;
`NewTweetViewController.swift`, lines 78–93.
-/

namespace TwitterLite

open Descending TransitionSystem

namespace Posting

/-- What can happen to a timeline on which the user posts. -/
inductive Event where
  | overlap (event : Overlap.Event)
  | delete (tweetModel : ViewTweetModel)
  | deleteRemotely (tweet : PostTweetModel)
  | postRemotely (tweet : PostTweetModel)
  | newTweet (tweet : PostTweetModel)

/-- One step: a step of overlapping requests and posts of other clients, a deletion, or the user's
new tweet with its refresh. -/
inductive Step : Overlap → Event → Overlap → Prop
  | overlap {s s' : Overlap} {event : Overlap.Event} (step : Overlap.Step s event s') :
      Step s (.overlap event) s'
  /-- `HomeViewController.delete` of a displayed tweet: the record is removed, then the row. -/
  | delete {s : Overlap} {tweetModel : ViewTweetModel} {vm' : HomeViewModel}
      {update : Option TableUpdate} (displayed : tweetModel ∈ s.vm.tweetList)
      (shown : s.vm.deleteShown tweetModel none = (vm', update)) :
      Step s (.delete tweetModel)
        { s with server := Deletions.removeValue tweetModel.tweetID s.server, vm := vm' }
  /-- The same, when a request fails. -/
  | deleteFailed {s : Overlap} {tweetModel : ViewTweetModel} {error : AppError}
      {vm' : HomeViewModel} {update : Option TableUpdate}
      (displayed : tweetModel ∈ s.vm.tweetList)
      (shown : s.vm.deleteShown tweetModel (some error) = (vm', update)) :
      Step s (.delete tweetModel) { s with vm := vm' }
  | deleteRemotely {s : Overlap} {tweet : PostTweetModel} (published : tweet ∈ s.server) :
      Step s (.deleteRemotely tweet)
        { s with server := Deletions.removeValue tweet.tweetID s.server }
  /-- Another client posts under a new key, with any time stamp or none. -/
  | postRemotely {s : Overlap} {tweet : PostTweetModel}
      (fresh : ∀ t ∈ s.server, t.tweetID ≠ tweet.tweetID) :
      Step s (.postRemotely tweet) { s with server := tweet :: s.server }
  /-- `addTweet` succeeds with a new key and the newest time stamp, and `didFinishTweet`
  refreshes. -/
  | newTweet {s : Overlap} {draft : NewTweetViewModel} {tweetID : String}
      {completions : List (Except AppError String)} {now : ℚ} {tweet : PostTweetModel}
      {query : FirebaseQuery} {answer : List ViewTweetModel} {loggedInUser : Option UserModel}
      {profiles : ℕ → Option UserModel} {vm' : HomeViewModel} {update : Option TableUpdate}
      (idle : s.inFlight = [])
      (published : (draft.addTweet tweetID completions now none).stored = some tweet)
      (fresh : ∀ row ∈ s.vm.records, row.tweetID ≠ tweet.tweetID)
      (newest : ∀ t ∈ s.server, t.stamp < tweet.stamp)
      (sent : s.vm.fetchLatestTweetsQuery = some query)
      (answers : query.Answers (tweet :: s.server) answer)
      (answered : s.vm.fetchLatestTweetsAnswered loggedInUser profiles answer =
        .ok (vm', update)) :
      Step s (.newTweet tweet) { s with server := tweet :: s.server, vm := vm' }
  /-- The same without a first row: the refresh sends nothing. -/
  | newTweetEmpty {s : Overlap} {draft : NewTweetViewModel} {tweetID : String}
      {completions : List (Except AppError String)} {now : ℚ} {tweet : PostTweetModel}
      (idle : s.inFlight = [])
      (published : (draft.addTweet tweetID completions now none).stored = some tweet)
      (fresh : ∀ row ∈ s.vm.records, row.tweetID ≠ tweet.tweetID)
      (newest : ∀ t ∈ s.server, t.stamp < tweet.stamp)
      (sent : s.vm.fetchLatestTweetsQuery = none) :
      Step s (.newTweet tweet) { s with server := tweet :: s.server }

/-- After the refresh the new tweet is the first row. -/
def NewTweetFirst (τ : Transition Overlap Event) : Prop :=
  ∀ tweet, τ.event = .newTweet tweet → τ.target.vm.records.head? = some tweet

/-- The guard: there is a first row with a time stamp, and the server has a tweet that is at least
as new. -/
def FirstReached (τ : Transition Overlap Event) : Prop :=
  ∀ tweet, τ.event = .newTweet tweet → ∃ value : ℚ, τ.source.vm.anchor .refresh = some value ∧
    ∃ t ∈ τ.source.server, (value : WithBot ℚ) ≤ t.stamp

/-! ### What the refresh adds -/

section Refresh

variable {server : List PostTweetModel} {tweet : PostTweetModel} {value : ℚ}
  {answer : List ViewTweetModel}

/-- The server sends everything from the first row on. -/
theorem answer_perm (answers : FirebaseQuery.Answers ⟨none, some value, none⟩ server answer) :
    (answer.map ViewTweetModel.record).Perm
      (server.filter fun t => (value : WithBot ℚ) ≤ t.stamp) := by
  have hselect : FirebaseQuery.select ⟨none, some value, none⟩ server =
      (server.insertionSort childOrder).filter fun t => (value : WithBot ℚ) ≤ t.stamp := by
    refine List.filter_congr fun t _ => ?_
    simp only [FirebaseQuery.inBounds, Option.all_none, Option.all_some, Bool.and_true]
  rw [FirebaseQuery.Answers, hselect] at answers
  exact answers.trans ((List.perm_insertionSort childOrder server).filter _)

/-- What the server sends from a time stamp on has time stamps. -/
theorem stamp_ne_of_answer
    (answers : FirebaseQuery.Answers ⟨none, some value, none⟩ server answer) :
    ∀ tweet ∈ answer, tweet.createdTimeStamp ≠ none := by
  intro tweet ht hnone
  have hmem : tweet.record ∈ server.filter fun t => (value : WithBot ℚ) ≤ t.stamp :=
    (answer_perm answers).mem_iff.mp (List.mem_map_of_mem ht)
  have hle : (value : WithBot ℚ) ≤ tweet.record.stamp := by simpa using (List.mem_filter.mp hmem).2
  have hbot : tweet.record.stamp = ⊥ := hnone
  exact WithBot.coe_ne_bot (le_bot_iff.mp (hbot ▸ hle))

/-- If the server had a tweet from the first row on, the new tweet comes first. -/
theorem newerRows_of_reached (newest : ∀ t ∈ server, t.stamp < tweet.stamp)
    (answers : FirebaseQuery.Answers ⟨none, some value, none⟩ (tweet :: server) answer)
    {t : PostTweetModel} (ht : t ∈ server) (hle : (value : WithBot ℚ) ≤ t.stamp) :
    ∃ rows, HomeViewModel.newerRows answer = tweet :: rows := by
  have hperm := answer_perm answers
  rw [List.filter_cons_of_pos (by simpa using hle.trans (newest t ht).le)] at hperm
  obtain ⟨rest, hsort, hrest⟩ := exists_sort_eq_cons (f := fun t : PostTweetModel => t.stamp) hperm
    fun t ht => newest t (List.mem_of_mem_filter ht)
  have hne : rest ≠ [] :=
    List.ne_nil_of_mem (hrest.mem_iff.mpr (List.mem_filter.mpr ⟨ht, by simpa using hle⟩))
  exact ⟨rest.dropLast, by rw [HomeViewModel.newerRows, hsort, List.dropLast_cons_of_ne_nil hne]⟩

/-- Otherwise the refresh adds nothing. -/
theorem newerRows_of_not_reached (h : ∀ t ∈ server, ¬ (value : WithBot ℚ) ≤ t.stamp)
    (answers : FirebaseQuery.Answers ⟨none, some value, none⟩ (tweet :: server) answer) :
    HomeViewModel.newerRows answer = [] := by
  have hnil : (server.filter fun t => (value : WithBot ℚ) ≤ t.stamp) = [] :=
    List.filter_eq_nil_iff.mpr fun t ht => by simpa using h t ht
  have hlength : (sort (fun t : PostTweetModel => t.stamp)
      (answer.map ViewTweetModel.record)).length ≤ 1 := by
    rw [length_sort, (answer_perm answers).length_eq, List.filter_cons]
    split_ifs <;> simp [hnil]
  rw [HomeViewModel.newerRows, ← List.length_eq_zero_iff, List.length_dropLast]
  omega

end Refresh

/-! ### Steps and runs -/

variable {s s' : Overlap} {e : Event}

/-- **The new tweet comes first exactly if the server reaches the first row.** -/
theorem step_newTweetFirst_iff (step : Step s e s') :
    NewTweetFirst ⟨s, e, s'⟩ ↔ FirstReached ⟨s, e, s'⟩ := by
  have hother (h : ∀ tweet, e ≠ .newTweet tweet) :
      NewTweetFirst ⟨s, e, s'⟩ ↔ FirstReached ⟨s, e, s'⟩ :=
    iff_of_true (fun tweet he => absurd he (h tweet)) fun tweet he => absurd he (h tweet)
  cases step with
  | overlap step => exact hother fun _ h => by cases h
  | delete displayed shown => exact hother fun _ h => by cases h
  | deleteFailed displayed shown => exact hother fun _ h => by cases h
  | deleteRemotely published => exact hother fun _ h => by cases h
  | postRemotely fresh => exact hother fun _ h => by cases h
  | @newTweet _ _ _ _ tweet query answer loggedInUser profiles vm' _ idle published fresh newest
      sent answers answered =>
    simp only [NewTweetFirst, FirstReached, Event.newTweet.injEq, forall_eq']
    obtain ⟨value, hvalue, rfl⟩ := Option.map_eq_some_iff.mp sent
    have hanchor : s.vm.anchor .refresh = some value := hvalue
    obtain ⟨_, _, hok, hprepended⟩ := s.vm.fetchLatestTweetsAnswered_spec loggedInUser profiles
      (stamp_ne_of_answer answers)
    obtain ⟨rfl, -⟩ := Prod.mk.inj (Except.ok.inj (hok.symm.trans answered))
    simp only [hanchor, Option.some.injEq, exists_eq_left', hprepended.records_eq]
    by_cases hreached : ∃ t ∈ s.server, (value : WithBot ℚ) ≤ t.stamp
    · obtain ⟨t, ht, hle⟩ := hreached
      obtain ⟨rows, hrows⟩ := newerRows_of_reached newest answers ht hle
      exact iff_of_true (by rw [hrows]; rfl) ⟨t, ht, hle⟩
    · have hrows := newerRows_of_not_reached (fun t ht hle => hreached ⟨t, ht, hle⟩) answers
      refine iff_of_false (fun hfirst => ?_) hreached
      rw [hrows, List.nil_append] at hfirst
      exact fresh tweet (List.mem_of_head? hfirst) rfl
  | @newTweetEmpty _ _ _ _ tweet idle published fresh newest sent =>
    simp only [NewTweetFirst, FirstReached, Event.newTweet.injEq, forall_eq']
    refine iff_of_false (fun hfirst => fresh tweet (List.mem_of_head? hfirst) rfl) ?_
    rintro ⟨value, hanchor, -⟩
    have hnone : s.vm.anchor .refresh = none := Option.map_eq_none_iff.mp sent
    cases hnone.symm.trans hanchor

/-- **Along a run every new tweet comes first exactly if each time the server reaches the first
row.** -/
theorem newTweetFirst_iff (isiPhone : Bool) (server : List PostTweetModel)
    {ts : List (Transition Overlap Event)} (run : Run Step (Overlap.initial isiPhone server) ts s) :
    (∀ τ ∈ ts, NewTweetFirst τ) ↔ ∀ τ ∈ ts, FirstReached τ :=
  run.forall_good_iff (fun _ => True) (fun _ _ _ _ _ _ => trivial)
    (fun _ _ _ _ step => step_newTweetFirst_iff step) trivial

/-- A draft without photos. -/
private def draft : NewTweetViewModel := ⟨{ caption := some "hello" }⟩

/-- The timeline is empty: the refresh after the new tweet sends nothing, and the list stays
empty. -/
theorem not_newTweetFirst :
    ¬ ∀ (isiPhone : Bool) (server : List PostTweetModel) (s : Overlap)
      (ts : List (Transition Overlap Event)), Run Step (Overlap.initial isiPhone server) ts s →
        ∀ τ ∈ ts, NewTweetFirst τ := by
  intro h
  have start : Run Step (Overlap.initial true []) [] _ := .nil _
  have run := start.snoc (.newTweetEmpty rfl
    (show (draft.addTweet "c" [] 3 none).stored = some _ from rfl) (by decide) (by decide) rfl)
  exact absurd (h _ _ _ _ run _ List.mem_cons_self _ rfl) (by decide)

/-- A first page of one tweet, and then the user's new tweet. -/
theorem newTweetFirst_iff_two : ∃ ts s,
    Run Step (Overlap.initial true [Timeline.tweetAt "a" 1]) ts s ∧ ts.length = 4 ∧
      ∀ τ ∈ ts, NewTweetFirst τ := by
  have page : FirebaseQuery.Answers ⟨some 10, none, none⟩ [Timeline.tweetAt "a" 1]
      [{ Timeline.tweetAt "a" 1 with }] := by decide
  have newer : FirebaseQuery.Answers ⟨none, some 1, none⟩
      [{ (draft.addTweet "c" [] 3 none).tweetModel with }, Timeline.tweetAt "a" 1]
      [{ Timeline.tweetAt "a" 1 with }, { (draft.addTweet "c" [] 3 none).tweetModel with }] := by
    decide
  have start : Run Step (Overlap.initial true [Timeline.tweetAt "a" 1]) [] _ := .nil _
  have run := start
    |>.snoc (.overlap (.send (show HomeViewModel.requestQuery _ .fetchTweets = _ from rfl)))
    |>.snoc (.overlap (.answer (show _ = [] ++ _ :: [] from rfl) page))
    |>.snoc (.overlap (.deliver (show _ = [] ++ _ :: [] from rfl)
      (show HomeViewModel.requestDelivered _ none (fun _ => none) _ _ = _ from rfl)))
    |>.snoc (.newTweet rfl (show (draft.addTweet "c" [] 3 none).stored = some _ from rfl)
      (by decide) (by decide) rfl newer
      (show HomeViewModel.fetchLatestTweetsAnswered _ none (fun _ => none) _ = _ from rfl))
  refine ⟨_, _, run, rfl, (newTweetFirst_iff true _ run).mpr ?_⟩
  simp only [List.nil_append, List.forall_mem_append, List.forall_mem_singleton, FirstReached]
  refine ⟨⟨⟨?_, ?_⟩, ?_⟩, fun _ _ => ⟨1, rfl, _, List.mem_cons_self, le_rfl⟩⟩
  all_goals
    intro _ hevent
    cases hevent

end Posting

end TwitterLite
