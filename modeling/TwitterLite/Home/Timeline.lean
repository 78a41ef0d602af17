import TwitterLite.Home.ViewModel
import TwitterLite.Library.TransitionSystem

/-!
# Paging refines the server's order

The timeline is meant to be a window on the server's descending order that can be extended at both
ends. `Feed` states this purpose on its own: the tweets newer than the window, the window, and the
older tweets; a post enters at the newest end, loading older tweets moves a page of them into the
window, loading newer tweets moves all of them.

`Timeline` is the state of the code: the `Tweets` collection and the view model. Its steps are the
requests of the view controller, each answered before the next one is sent, and the posts of all
clients. The answer to a query lists the selected children in any order, with any profiles joined.

Every step of the code is the corresponding step of the feed (`Timeline.step_refines`), so after
every run the list is the window reached by the feed on the same events
(`Timeline.run_refines_feed`), with all that this entails: it descends strictly, repeats no
identifier, is a contiguous part of the server's order, and its cursor is its last time stamp.

## Main definitions

* `TwitterLite.Feed`, `TwitterLite.Feed.next`.
* `TwitterLite.Timeline`, `TwitterLite.Timeline.Step`.
* `TwitterLite.Timeline.Refines`, `TwitterLite.Timeline.IsWindow`, `TwitterLite.Timeline.Loads`.

## Main results

* `TwitterLite.Timeline.step_refines`, `TwitterLite.Timeline.run_refines_feed`.

Source: `HomeViewModel.swift`, lines 38–82; `HomeViewController.swift`, lines 68–134.
-/

namespace TwitterLite

open Descending TransitionSystem

/-! ### The feed -/

/-- A window on a descending order: what is newer, what is shown, what is older. -/
structure Feed (α : Type*) where
  newer : List α := []
  shown : List α := []
  older : List α := []

/-- What can happen to a timeline. -/
inductive Event where
  | fetchTweets
  | refresh
  | post (tweet : PostTweetModel)

namespace Feed

variable {α : Type*}

/-- The whole order. -/
def content (feed : Feed α) : List α := feed.newer ++ feed.shown ++ feed.older

/-- A new element enters the order at its newest end; as long as the window is empty, it is one of
the elements that the first page will show. -/
def post (feed : Feed α) (a : α) : Feed α :=
  if feed.shown = [] then { feed with older := a :: feed.older }
  else { feed with newer := a :: feed.newer }

/-- The window takes in the next `pageSize` older elements. -/
def loadOlder (pageSize : ℕ) (feed : Feed α) : Feed α :=
  { feed with
    shown := feed.shown ++ feed.older.take pageSize
    older := feed.older.drop pageSize }

/-- A window that shows something takes in all newer elements. -/
def loadNewer (feed : Feed α) : Feed α :=
  if feed.shown = [] then feed else { feed with newer := [], shown := feed.newer ++ feed.shown }

end Feed

/-- The feed of the timeline, step by step. -/
def Feed.next (pageSize : ℕ) (feed : Feed PostTweetModel) : Event → Feed PostTweetModel
  | .fetchTweets => feed.loadOlder pageSize
  | .refresh => feed.loadNewer
  | .post tweet => feed.post tweet

/-! ### The timeline of the code -/

/-- The `Tweets` collection and the view model of one app. -/
structure Timeline where
  server : List PostTweetModel
  vm : HomeViewModel

namespace Timeline

/-- Before the first page. -/
def initial (isiPhone : Bool) (server : List PostTweetModel) : Timeline where
  server := server
  vm := { isiPhone := isiPhone }

/-- One step: a request of the view controller with its answer, or a post of some client. -/
inductive Step : Timeline → Event → Timeline → Prop
  /-- `HomeViewController.fetchTweets`. -/
  | fetchTweets {s : Timeline} {answer : List ViewTweetModel} {loggedInUser : Option UserModel}
      {profiles : ℕ → Option UserModel} {vm' : HomeViewModel} {update : Option TableUpdate}
      (answers : s.vm.fetchTweetsQuery.Answers s.server answer)
      (answered : s.vm.fetchTweetsAnswered loggedInUser profiles answer = .ok (vm', update)) :
      Step s .fetchTweets { s with vm := vm' }
  /-- `HomeViewController.refresh` with a first row. -/
  | refresh {s : Timeline} {query : FirebaseQuery} {answer : List ViewTweetModel}
      {loggedInUser : Option UserModel} {profiles : ℕ → Option UserModel} {vm' : HomeViewModel}
      {update : Option TableUpdate} (sent : s.vm.fetchLatestTweetsQuery = some query)
      (answers : query.Answers s.server answer)
      (answered : s.vm.fetchLatestTweetsAnswered loggedInUser profiles answer =
        .ok (vm', update)) :
      Step s .refresh { s with vm := vm' }
  /-- `HomeViewController.refresh` without one: the callback receives `missingParameters`. -/
  | refreshEmpty {s : Timeline} (sent : s.vm.fetchLatestTweetsQuery = none) : Step s .refresh s
  /-- A client publishes a tweet, under a new identifier and newer than all others. -/
  | post {s : Timeline} {tweet : PostTweetModel} (hid : tweet.tweetID ≠ none)
      (fresh : ∀ t ∈ s.server, t.tweetID ≠ tweet.tweetID) (hstamp : tweet.createdTimeStamp ≠ none)
      (newest : ∀ t ∈ s.server, t.stamp < tweet.stamp) :
      Step s (.post tweet) { s with server := tweet :: s.server }

/-- The state refines the feed: its order is the server's, its window is the list, and the cursor
is the time stamp of the last row. A window that shows nothing has nothing newer beside it. -/
structure Refines (pageSize : ℕ) (s : Timeline) (feed : Feed PostTweetModel) : Prop where
  pageSize_eq : s.vm.pageSize = pageSize
  published : Published s.server
  content_eq : descending s.server = feed.content
  records_eq : s.vm.records = feed.shown
  cursor_eq : s.vm.lastCreatedDateTimeStamp =
    feed.shown.getLast?.bind fun tweet => tweet.createdTimeStamp
  newer_eq : feed.shown = [] → feed.newer = []

variable {pageSize : ℕ} {s : Timeline} {feed : Feed PostTweetModel}

theorem refines_initial (isiPhone : Bool) {server : List PostTweetModel} (h : Published server) :
    Refines (initial isiPhone server).vm.pageSize (initial isiPhone server)
      { older := descending server } where
  pageSize_eq := rfl
  published := h
  content_eq := by simp [Feed.content, initial]
  records_eq := rfl
  cursor_eq := rfl
  newer_eq _ := rfl

namespace Refines

variable (h : Refines pageSize s feed)

include h

theorem stamp_ne_of_mem {tweet : PostTweetModel} (ht : tweet ∈ feed.content) :
    tweet.createdTimeStamp ≠ none :=
  h.published.stamp_ne tweet ((mem_sort _).mp (h.content_eq ▸ ht))

/-- The cursor is that of the last row. -/
theorem cursor_of_concat {xs : List PostTweetModel} {a : PostTweetModel}
    (hs : feed.shown = xs ++ [a]) : s.vm.lastCreatedDateTimeStamp = a.createdTimeStamp := by
  rw [h.cursor_eq, hs, List.getLast?_concat, Option.bind_some]

theorem exists_cursor {xs : List PostTweetModel} {a : PostTweetModel}
    (hs : feed.shown = xs ++ [a]) :
    ∃ value : ℚ, s.vm.lastCreatedDateTimeStamp = some value ∧ a.stamp = (value : WithBot ℚ) := by
  obtain ⟨value, hvalue⟩ := Option.ne_none_iff_exists'.mp
    (h.stamp_ne_of_mem (show a ∈ feed.content by simp [Feed.content, hs]))
  exact ⟨value, (h.cursor_of_concat hs).trans hvalue, hvalue⟩

/-- The page that `fetchTweets` asks for, without the cursor tweet: the next older tweets. -/
theorem olderRows_eq {answer : List ViewTweetModel}
    (answers : s.vm.fetchTweetsQuery.Answers s.server answer) :
    s.vm.olderRows answer = feed.older.take pageSize := by
  have hsort := FirebaseQuery.sort_records_of_answers h.published answers
  rcases List.eq_nil_or_concat' feed.shown with hs | ⟨xs, a, hs⟩
  · have hcursor : s.vm.lastCreatedDateTimeStamp = none := by simp [h.cursor_eq, hs]
    have hcontent : descending s.server = feed.older := by
      rw [h.content_eq, Feed.content, hs, h.newer_eq hs, List.nil_append, List.nil_append]
    rw [HomeViewModel.olderRows, if_pos hcursor, hsort, HomeViewModel.fetchTweetsQuery,
      if_pos hcursor, hcursor, FirebaseQuery.page_all, hcontent, h.pageSize_eq]
  · obtain ⟨value, hcursor, hvalue⟩ := h.exists_cursor hs
    have hne : s.vm.lastCreatedDateTimeStamp ≠ none := by simp [hcursor]
    have hcontent : descending s.server = feed.newer ++ xs ++ a :: feed.older := by
      rw [h.content_eq, Feed.content, hs]
      simp only [List.append_assoc, List.cons_append, List.nil_append]
    have hbelow := (hcontent ▸ h.published.isDescending).filter_le
    rw [HomeViewModel.olderRows, if_neg hne, hsort, HomeViewModel.fetchTweetsQuery, if_neg hne,
      hcursor, FirebaseQuery.page_ending, hcontent, ← hvalue, hbelow, h.pageSize_eq,
      List.take_succ_cons, List.tail_cons]

/-- A refresh is sent exactly when something is shown, and asks for what is not below the first
row. -/
theorem fetchLatestTweetsQuery_eq {a : PostTweetModel} {ys : List PostTweetModel}
    (hs : feed.shown = a :: ys) : ∃ value : ℚ, a.stamp = (value : WithBot ℚ) ∧
      s.vm.fetchLatestTweetsQuery = some ⟨none, some value, none⟩ := by
  obtain ⟨value, hvalue⟩ := Option.ne_none_iff_exists'.mp
    (h.stamp_ne_of_mem (show a ∈ feed.content by simp [Feed.content, hs]))
  refine ⟨value, hvalue, ?_⟩
  obtain ⟨tweet, tweets, hlist, hrec, -⟩ := List.map_eq_cons_iff.mp (h.records_eq.trans hs)
  have hfirst : tweet.record.createdTimeStamp = some value := by
    rw [hrec, hvalue]
  simp only [HomeViewModel.fetchLatestTweetsQuery, hlist, List.head?_cons, Option.bind_some,
    hfirst, Option.map_some]

/-- The answer to a refresh, without the first displayed tweet: all newer tweets. -/
theorem newerRows_eq {query : FirebaseQuery} {answer : List ViewTweetModel}
    (sent : s.vm.fetchLatestTweetsQuery = some query)
    (answers : query.Answers s.server answer) :
    feed.shown ≠ [] ∧ HomeViewModel.newerRows answer = feed.newer := by
  cases hs : feed.shown with
  | nil =>
    have hlist : s.vm.tweetList = [] := List.map_eq_nil_iff.mp (h.records_eq.trans hs)
    simp [HomeViewModel.fetchLatestTweetsQuery, hlist] at sent
  | cons a ys =>
    refine ⟨List.cons_ne_nil a ys, ?_⟩
    obtain ⟨value, hvalue, hquery⟩ := h.fetchLatestTweetsQuery_eq hs
    obtain rfl := Option.some.inj (hquery.symm.trans sent)
    have hcontent : descending s.server = feed.newer ++ a :: (ys ++ feed.older) := by
      rw [h.content_eq, Feed.content, hs, List.append_assoc, List.cons_append]
    have habove := (hcontent ▸ h.published.isDescending).filter_ge
    rw [HomeViewModel.newerRows, FirebaseQuery.sort_records_of_answers h.published answers,
      FirebaseQuery.page_starting, hcontent, ← hvalue, habove, List.dropLast_concat]

/-- Appending the next older tweets is loading the next page of the feed. -/
theorem loadOlder {vm' : HomeViewModel}
    (happ : s.vm.Appended (feed.older.take pageSize) vm') :
    Refines pageSize { s with vm := vm' } (feed.loadOlder pageSize) where
  pageSize_eq := happ.pageSize_eq.trans h.pageSize_eq
  published := h.published
  content_eq := by
    simp only [h.content_eq, Feed.content, Feed.loadOlder, List.append_assoc,
      List.take_append_drop]
  records_eq := by rw [happ.records_eq, h.records_eq, Feed.loadOlder]
  cursor_eq := by
    rw [happ.cursor_eq, Feed.loadOlder, List.getLast?_append]
    split_ifs with hrows
    · rw [hrows, List.getLast?_nil, Option.none_or, h.cursor_eq]
    · rw [List.getLast?_eq_some_getLast hrows, Option.some_or]
  newer_eq hs := h.newer_eq (List.append_eq_nil_iff.mp hs).1

/-- Prepending the newer tweets is loading them into the window of the feed. -/
theorem loadNewer {vm' : HomeViewModel} (hne : feed.shown ≠ [])
    (hpre : s.vm.Prepended feed.newer vm') :
    Refines pageSize { s with vm := vm' } feed.loadNewer := by
  rw [Feed.loadNewer, if_neg hne]
  refine ⟨hpre.pageSize_eq.trans h.pageSize_eq, h.published, ?_, ?_, ?_, fun _ => rfl⟩
  · rw [h.content_eq, Feed.content, Feed.content, List.nil_append]
  · rw [hpre.records_eq, h.records_eq]
  · rw [hpre.cursor_eq, h.cursor_eq, List.getLast?_append, List.getLast?_eq_some_getLast hne,
      Option.some_or]

/-- The newest tweet comes first in the server's order. -/
theorem post {tweet : PostTweetModel} (hid : tweet.tweetID ≠ none)
    (fresh : ∀ t ∈ s.server, t.tweetID ≠ tweet.tweetID) (hstamp : tweet.createdTimeStamp ≠ none)
    (newest : ∀ t ∈ s.server, t.stamp < tweet.stamp) :
    Refines pageSize { s with server := tweet :: s.server } (feed.post tweet) := by
  have hcontent : descending (tweet :: s.server) = tweet :: feed.content := by
    rw [← h.content_eq]
    refine sort_eq (h.published.isDescending.cons fun t ht => newest t ((mem_sort _).mp ht)) ?_
    exact (sort_perm _ s.server).symm.cons tweet
  have hpublished := h.published.cons hid fresh hstamp fun t ht => (newest t ht).ne
  unfold Feed.post
  split_ifs with hs
  · refine ⟨h.pageSize_eq, hpublished, ?_, h.records_eq, h.cursor_eq, h.newer_eq⟩
    rw [hcontent, Feed.content, Feed.content, h.newer_eq hs, hs, List.nil_append, List.nil_append,
      List.nil_append]
  · refine ⟨h.pageSize_eq, hpublished, ?_, h.records_eq, h.cursor_eq, fun hs' => absurd hs' hs⟩
    rw [hcontent, Feed.content, Feed.content, List.cons_append, List.cons_append]

end Refines

/-- **One step of the code is one step of the feed.** -/
theorem step_refines {s' : Timeline} {e : Event} (h : Refines pageSize s feed)
    (step : Step s e s') : Refines pageSize s' (feed.next pageSize e) := by
  cases step with
  | @fetchTweets answer loggedInUser profiles vm' update answers answered =>
    obtain ⟨_, _, hok, happ⟩ := s.vm.fetchTweetsAnswered_spec loggedInUser profiles
      (FirebaseQuery.stamp_ne_of_answers h.published answers)
    obtain ⟨rfl, -⟩ := Prod.mk.inj (Except.ok.inj (hok.symm.trans answered))
    rw [h.olderRows_eq answers] at happ
    exact h.loadOlder happ
  | @refresh query answer loggedInUser profiles vm' update sent answers answered =>
    obtain ⟨_, _, hok, hpre⟩ := s.vm.fetchLatestTweetsAnswered_spec loggedInUser profiles
      (FirebaseQuery.stamp_ne_of_answers h.published answers)
    obtain ⟨rfl, -⟩ := Prod.mk.inj (Except.ok.inj (hok.symm.trans answered))
    obtain ⟨hne, hrows⟩ := h.newerRows_eq sent answers
    exact h.loadNewer hne (hrows ▸ hpre)
  | refreshEmpty sent =>
    cases hs : feed.shown with
    | nil => rwa [Feed.next, Feed.loadNewer, if_pos hs]
    | cons a ys =>
      obtain ⟨_, _, hquery⟩ := h.fetchLatestTweetsQuery_eq hs
      rw [sent] at hquery
      cases hquery
  | post hid fresh hstamp newest => exact h.post hid fresh hstamp newest

/-! ### Whole runs -/

/-- The tweets on the server below the last row, newest first. -/
def older (s : Timeline) : List PostTweetModel :=
  (descending s.server).filter fun tweet =>
    s.vm.tweetList.getLast?.all fun last => tweet.stamp < last.stamp

/-- The tweets on the server above the first row, newest first. -/
def newer (s : Timeline) : List PostTweetModel :=
  (descending s.server).filter fun tweet =>
    s.vm.tweetList.head?.any fun first => first.stamp < tweet.stamp

/-- What the list is meant to be: a window on the server's order that ends at the cursor. -/
structure IsWindow (s : Timeline) : Prop where
  isDescending : IsDescending (fun tweet => tweet.stamp) s.vm.tweetList
  tweetIDs_nodup : (s.vm.tweetList.map fun tweet => tweet.tweetID).Nodup
  isInfix : s.vm.records <:+: descending s.server
  contiguous : ∀ first ∈ s.vm.tweetList.head?, ∀ last ∈ s.vm.tweetList.getLast?,
    ∀ tweet ∈ s.server, last.stamp ≤ tweet.stamp → tweet.stamp ≤ first.stamp →
      tweet ∈ s.vm.records
  cursor_eq : s.vm.lastCreatedDateTimeStamp =
    s.vm.tweetList.getLast?.bind fun tweet => tweet.createdTimeStamp
  cursor_eq_none_iff : s.vm.lastCreatedDateTimeStamp = none ↔ s.vm.tweetList = []

/-- Every answer to a request sent in this state is delivered without a trap. -/
structure Delivers (s : Timeline) : Prop where
  fetchTweets : ∀ answer loggedInUser profiles, s.vm.fetchTweetsQuery.Answers s.server answer →
    ∃ result, s.vm.fetchTweetsAnswered loggedInUser profiles answer = .ok result
  refresh : ∀ query answer loggedInUser profiles, s.vm.fetchLatestTweetsQuery = some query →
    query.Answers s.server answer →
      ∃ result, s.vm.fetchLatestTweetsAnswered loggedInUser profiles answer = .ok result

/-- The step loads what it should: `fetchTweets` appends the next older tweets, a page of them or
all that are left, `refresh` prepends all newer tweets, and a post leaves the list alone. -/
def Loads (pageSize : ℕ) (τ : Transition Timeline Event) : Prop :=
  match τ.event with
  | .fetchTweets => τ.target.vm.records = τ.source.vm.records ++ τ.source.older.take pageSize
  | .refresh => τ.target.vm.records = τ.source.newer ++ τ.source.vm.records
  | .post _ => τ.target.vm.records = τ.source.vm.records

namespace Refines

variable (h : Refines pageSize s feed)

include h

theorem older_eq : s.older = feed.older := by
  rcases List.eq_nil_or_concat' feed.shown with hs | ⟨xs, a, hs⟩
  · have hlist : s.vm.tweetList = [] := List.map_eq_nil_iff.mp (h.records_eq.trans hs)
    simp [older, hlist, h.content_eq, Feed.content, hs, h.newer_eq hs]
  · obtain ⟨tweets, tweet, hlist, rfl⟩ : ∃ tweets tweet, s.vm.tweetList = tweets ++ [tweet] ∧
        tweet.record = a := by
      obtain ⟨tweets, last, hlist, -, hlast⟩ := List.map_eq_append_iff.mp (h.records_eq.trans hs)
      obtain ⟨tweet, rfl, rfl⟩ := List.map_eq_singleton_iff.mp hlast
      exact ⟨tweets, tweet, hlist, rfl⟩
    have hcontent : descending s.server = feed.newer ++ xs ++ tweet.record :: feed.older := by
      rw [h.content_eq, Feed.content, hs]
      simp only [List.append_assoc, List.cons_append, List.nil_append]
    have hbelow := (hcontent ▸ h.published.isDescending).filter_lt
    simpa only [older, hlist, List.getLast?_concat, Option.all_some, hcontent] using hbelow

theorem newer_rows_eq : s.newer = if feed.shown = [] then [] else feed.newer := by
  cases hs : feed.shown with
  | nil =>
    have hlist : s.vm.tweetList = [] := List.map_eq_nil_iff.mp (h.records_eq.trans hs)
    simp [newer, hlist]
  | cons a ys =>
    obtain ⟨tweet, tweets, hlist, rfl, -⟩ := List.map_eq_cons_iff.mp (h.records_eq.trans hs)
    have hcontent : descending s.server = feed.newer ++ tweet.record :: (ys ++ feed.older) := by
      rw [h.content_eq, Feed.content, hs, List.append_assoc, List.cons_append]
    have habove := (hcontent ▸ h.published.isDescending).filter_gt
    simpa only [newer, hlist, List.head?_cons, Option.any_some, hcontent, reduceCtorEq,
      if_false] using habove

theorem isInfix : s.vm.records <:+: descending s.server :=
  ⟨feed.newer, feed.older, by rw [h.records_eq, h.content_eq, Feed.content]⟩

theorem isWindow : IsWindow s := by
  have hdesc : IsDescending (fun tweet => tweet.stamp) s.vm.records :=
    h.published.isDescending.sublist h.isInfix.sublist
  have hcursor : s.vm.lastCreatedDateTimeStamp =
      s.vm.tweetList.getLast?.bind fun tweet => tweet.createdTimeStamp := by
    rw [h.cursor_eq, ← h.records_eq, HomeViewModel.records, List.getLast?_map, Option.bind_map]
    rfl
  refine ⟨List.pairwise_map.mp hdesc, ?_, h.isInfix, ?_, hcursor, ?_⟩
  · have hids := (h.isInfix.sublist.map fun tweet => tweet.tweetID).nodup
      (((sort_perm _ _).map _).nodup_iff.mpr h.published.tweetIDs_nodup)
    rwa [HomeViewModel.records, List.map_map] at hids
  · intro first hfirst last hlast tweet ht hle hge
    obtain ⟨xs, ys, hsplit⟩ := h.isInfix
    have hmem : tweet ∈ xs ++ s.vm.records ++ ys := hsplit ▸ (mem_sort _).mpr ht
    exact (hsplit ▸ h.published.isDescending).mem_of_between
      (List.mem_map_of_mem (List.mem_of_mem_head? hfirst))
      (List.mem_map_of_mem (List.mem_of_mem_getLast? hlast)) hmem hle hge
  · rw [hcursor]
    refine ⟨fun hnone => ?_, fun hnil => by rw [hnil, List.getLast?_nil, Option.bind_none]⟩
    by_contra hne
    rw [List.getLast?_eq_some_getLast hne, Option.bind_some] at hnone
    have hlast : (s.vm.tweetList.getLast hne).record ∈ s.vm.records :=
      List.mem_map_of_mem (List.getLast_mem hne)
    exact h.published.stamp_ne _ ((mem_sort _).mp (h.isInfix.subset hlast)) hnone

theorem delivers : Delivers s where
  fetchTweets answer loggedInUser profiles answers := by
    obtain ⟨_, _, hok, -⟩ := s.vm.fetchTweetsAnswered_spec loggedInUser profiles
      (FirebaseQuery.stamp_ne_of_answers h.published answers)
    exact ⟨_, hok⟩
  refresh query answer loggedInUser profiles _ answers := by
    obtain ⟨_, _, hok, -⟩ := s.vm.fetchLatestTweetsAnswered_spec loggedInUser profiles
      (FirebaseQuery.stamp_ne_of_answers h.published answers)
    exact ⟨_, hok⟩

theorem loads {s' : Timeline} {e : Event} (step : Step s e s') : Loads pageSize ⟨s, e, s'⟩ := by
  have h' := step_refines h step
  cases e with
  | fetchTweets =>
    simp only [Loads, h'.records_eq, h.records_eq, h.older_eq, Feed.next, Feed.loadOlder]
  | refresh =>
    simp only [Loads, h'.records_eq, h.records_eq, h.newer_rows_eq, Feed.next, Feed.loadNewer]
    split_ifs with hs
    · simp
    · rfl
  | post tweet =>
    simp only [Loads, h'.records_eq, h.records_eq, Feed.next, Feed.post]
    split_ifs <;> rfl

end Refines

/-- **Paging refines the server's order.** After every run from the empty view model, over any
collection without equal time stamps, the state is the one that the feed reaches on the same
events; the list is a window on the server's order that ends at the cursor, every step has loaded
what it should, and no answer to a next request traps. -/
theorem run_refines_feed (isiPhone : Bool) {server : List PostTweetModel}
    (hserver : Published server) {ts : List (Transition Timeline Event)}
    (run : Run Step (initial isiPhone server) ts s) :
    Refines (initial isiPhone server).vm.pageSize s
        ((ts.map fun τ => τ.event).foldl (Feed.next (initial isiPhone server).vm.pageSize)
          { older := descending server }) ∧
      IsWindow s ∧ Delivers s ∧ ∀ τ ∈ ts, Loads (initial isiPhone server).vm.pageSize τ := by
  have hinit := refines_initial isiPhone hserver
  have hrefines := run.simulates (fun _ _ _ _ h step => step_refines h step) hinit
  refine ⟨hrefines, hrefines.isWindow, hrefines.delivers, ?_⟩
  refine run.forall_of_invariant
    (fun _ _ _ (hinv : ∃ feed, Refines (initial isiPhone server).vm.pageSize _ feed) step => ?_)
    (fun _ _ _ ⟨_, h⟩ step => h.loads step) ⟨_, hinit⟩
  obtain ⟨feed, h⟩ := hinv
  exact ⟨_, step_refines h step⟩

/-- A published tweet of which only the identifier and the time stamp matter. -/
def tweetAt (tweetID : String) (createdTimeStamp : ℚ) : PostTweetModel :=
  { tweetID := some tweetID, createdTimeStamp := some createdTimeStamp }

theorem published_two : Published [tweetAt "b" 2, tweetAt "a" 1] := by
  constructor <;> decide

/-- A first page of two tweets, a post, and the refresh that shows it. -/
theorem run_refines_feed_two :
    ∃ ts s, Run Step (initial true [tweetAt "b" 2, tweetAt "a" 1]) ts s ∧ ts.length = 3 ∧
      s.vm.records = [tweetAt "c" 3, tweetAt "b" 2, tweetAt "a" 1] ∧ IsWindow s := by
  have first : (initial true [tweetAt "b" 2, tweetAt "a" 1]).vm.fetchTweetsQuery.Answers
      [tweetAt "b" 2, tweetAt "a" 1] [{ tweetAt "b" 2 with }, { tweetAt "a" 1 with }] := by decide
  have second : FirebaseQuery.Answers ⟨none, some 2, none⟩
      [tweetAt "c" 3, tweetAt "b" 2, tweetAt "a" 1]
      [{ tweetAt "b" 2 with }, { tweetAt "c" 3 with }] := by decide
  have start : Run Step (initial true [tweetAt "b" 2, tweetAt "a" 1]) [] _ := .nil _
  have run := start
    |>.snoc (.fetchTweets first
      (show HomeViewModel.fetchTweetsAnswered _ none (fun _ => none) _ = _ from rfl))
    |>.snoc (.post (show (tweetAt "c" 3).tweetID ≠ none by decide) (by decide) (by decide)
      (by decide))
    |>.snoc (.refresh rfl second
      (show HomeViewModel.fetchLatestTweetsAnswered _ none (fun _ => none) _ = _ from rfl))
  exact ⟨_, _, run, rfl, by decide, (run_refines_feed true published_two run).2.1⟩

end Timeline

end TwitterLite
