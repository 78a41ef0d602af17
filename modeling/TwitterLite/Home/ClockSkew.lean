import TwitterLite.Home.Timeline

/-!
# Tweets posted by a clock that is behind

`NewTweetViewModel.continueAddTweet` stamps a tweet with the clock of the phone before it sends the
record. Clocks differ and a record can be late, so a tweet can reach the server with a time stamp
below that of tweets which apps already show. Here posts carry any time stamp that no other tweet
has, and requests may fail.

`fetchTweets` asks for what is not above the last row and `refresh` for what is not below the first
one, so a tweet that is posted strictly between the two rows is never asked for: it is *backdated*
for this app. Everything else is shown. After every run the list is the server's descending order
between its first and its last row without the backdated tweets
(`ClockSkew.run_showsAllBut_backdated`), and the list is a window on the server's order exactly if
no tweet was backdated (`ClockSkew.isWindow_iff_backdated_eq_nil`).

The proof sets the backdated tweets aside. To the queries of the app the rest of the collection
answers like the whole one (`ClockSkew.Sees.answers`), and on the rest the code still refines the
feed of `TwitterLite.Home.Timeline`.

## Main definitions

* `TwitterLite.ClockSkew.Step`, `TwitterLite.ClockSkew.backdated`.
* `TwitterLite.ClockSkew.ShowsAllBut`, `TwitterLite.ClockSkew.Loads`.
* `TwitterLite.ClockSkew.Sees`: what the app sees of the server refines the feed.

## Main results

* `TwitterLite.ClockSkew.Sees.step`, `TwitterLite.ClockSkew.sees_of_run`.
* `TwitterLite.ClockSkew.run_showsAllBut_backdated`.
* `TwitterLite.ClockSkew.isWindow_iff_backdated_eq_nil`.

Source: `HomeViewModel.swift`, lines 38–82; `HomeViewController.swift`, lines 68–134;
`NewTweetViewModel.swift`, lines 58–76.
-/

namespace TwitterLite

open Descending TransitionSystem

/-! ### Queries that miss a part of the collection -/

namespace Published

variable {tweets missed rest : List PostTweetModel}

theorem perm {tweets' : List PostTweetModel} (h : Published tweets)
    (hperm : tweets.Perm tweets') : Published tweets' where
  tweetID_ne t ht := h.tweetID_ne t (hperm.mem_iff.mpr ht)
  tweetIDs_nodup := (hperm.map _).nodup_iff.mp h.tweetIDs_nodup
  stamp_ne t ht := h.stamp_ne t (hperm.mem_iff.mpr ht)
  stamps_nodup := (hperm.map _).nodup_iff.mp h.stamps_nodup

theorem of_rest (h : Published tweets) (hperm : tweets.Perm (missed ++ rest)) : Published rest :=
  (h.perm hperm).sublist (List.sublist_append_right missed rest)

/-- A selection that takes none of the tweets set aside is the same without them. -/
theorem filter_descending_rest (h : Published tweets) (hperm : tweets.Perm (missed ++ rest))
    {p : PostTweetModel → Bool} (hmissed : ∀ tweet ∈ missed, p tweet = false) :
    (descending rest).filter p = (descending tweets).filter p := by
  have hnone : missed.filter p = [] :=
    List.filter_eq_nil_iff.mpr fun tweet ht => by simp [hmissed tweet ht]
  have hmatching : ((descending rest).filter p).Perm ((descending tweets).filter p) := by
    refine ((sort_perm _ rest).filter _).trans (((sort_perm _ tweets).filter _).trans ?_).symm
    simpa only [List.filter_append, hnone, List.nil_append] using hperm.filter p
  have hl := h.isDescending.sublist (List.filter_sublist (p := p))
  have hr := (h.of_rest hperm).isDescending.sublist (List.filter_sublist (p := p))
  exact (sort_eq hr (List.Perm.refl _)).symm.trans (sort_eq hl hmatching)

end Published

/-- A query that matches none of the tweets set aside has the same page without them. -/
theorem FirebaseQuery.page_rest {query : FirebaseQuery} {tweets missed rest : List PostTweetModel}
    (h : Published tweets) (hperm : tweets.Perm (missed ++ rest))
    (hmissed : ∀ tweet ∈ missed, query.inBounds tweet = false) :
    query.page rest = query.page tweets := by
  simp only [page, h.filter_descending_rest hperm hmissed]

/-! ### The steps -/

namespace ClockSkew

/-- What can happen to the timeline: a request that is answered, one that fails, a post. -/
inductive Event where
  | fetchTweets
  | refresh
  | failed
  | post (tweet : PostTweetModel)

/-- One step: a request of the view controller with its answer or its failure, or a post of some
client, stamped by that client's clock. -/
inductive Step : Timeline → Event → Timeline → Prop
  /-- `HomeViewController.fetchTweets`. -/
  | fetchTweets {s : Timeline} {answer : List ViewTweetModel} {loggedInUser : Option UserModel}
      {profiles : ℕ → Option UserModel} {vm' : HomeViewModel} {update : Option TableUpdate}
      (answers : s.vm.fetchTweetsQuery.Answers s.server answer)
      (answered : s.vm.fetchTweetsAnswered loggedInUser profiles answer = .ok (vm', update)) :
      Step s .fetchTweets { s with vm := vm' }
  /-- `HomeViewController.refresh` with a first row. -/
  | refresh {s : Timeline} {query : FirebaseQuery} {answer : List ViewTweetModel}
      {loggedInUser : Option UserModel} {profiles : ℕ → Option UserModel} {vm' : HomeViewModel}
      {update : Option TableUpdate} (sent : s.vm.fetchLatestTweetsQuery = some query)
      (answers : query.Answers s.server answer)
      (answered : s.vm.fetchLatestTweetsAnswered loggedInUser profiles answer =
        .ok (vm', update)) :
      Step s .refresh { s with vm := vm' }
  /-- `HomeViewController.refresh` without one: the callback receives `missingParameters`. -/
  | refreshEmpty {s : Timeline} (sent : s.vm.fetchLatestTweetsQuery = none) : Step s .refresh s
  /-- The main query of `fetchTweets` fails. -/
  | fetchTweetsFailed {s : Timeline} {error : AppError} {loggedInUser : Option UserModel}
      {profiles : ℕ → Option UserModel} {vm' : HomeViewModel} {update : Option TableUpdate}
      (answered : s.vm.fetchTweetsDelivered
        (HomeViewModel.fetchUserDetails loggedInUser profiles (.error error)) =
          .ok (vm', update)) :
      Step s .failed { s with vm := vm' }
  /-- The main query of `refresh` fails. -/
  | refreshFailed {s : Timeline} {error : AppError} {loggedInUser : Option UserModel}
      {profiles : ℕ → Option UserModel} {vm' : HomeViewModel} {update : Option TableUpdate}
      (answered : s.vm.fetchLatestTweetsDelivered
        (HomeViewModel.fetchUserDetails loggedInUser profiles (.error error)) =
          .ok (vm', update)) :
      Step s .failed { s with vm := vm' }
  /-- A client publishes a tweet, under a new identifier and with a time stamp of its own. -/
  | post {s : Timeline} {tweet : PostTweetModel} (hid : tweet.tweetID ≠ none)
      (fresh : ∀ t ∈ s.server, t.tweetID ≠ tweet.tweetID) (hstamp : tweet.createdTimeStamp ≠ none)
      (distinct : ∀ t ∈ s.server, t.stamp ≠ tweet.stamp) :
      Step s (.post tweet) { s with server := tweet :: s.server }

/-- The tweet lies strictly between the first and the last row. -/
def isBackdated (vm : HomeViewModel) (tweet : PostTweetModel) : Bool :=
  vm.tweetList.head?.any (fun first => tweet.stamp < first.stamp) &&
    vm.tweetList.getLast?.any fun last => last.stamp < tweet.stamp

/-- The tweet that a step posts between the rows which the app shows then. -/
def backdatedPost (τ : Transition Timeline Event) : Option PostTweetModel :=
  match τ.event with
  | .post tweet => if isBackdated τ.source.vm tweet then some tweet else none
  | _ => none

/-- The tweets that were posted between the rows which the app showed then. -/
def backdated (ts : List (Transition Timeline Event)) : List PostTweetModel :=
  ts.filterMap backdatedPost

theorem isBackdated_iff {vm : HomeViewModel} {tweet : PostTweetModel} :
    isBackdated vm tweet ↔ (∃ first ∈ vm.tweetList.head?, tweet.stamp < first.stamp) ∧
      ∃ last ∈ vm.tweetList.getLast?, last.stamp < tweet.stamp := by
  simp only [isBackdated, Bool.and_eq_true, Option.any_eq_true, decide_eq_true_eq,
    Option.mem_def]

theorem backdatedPost_post (s s' : Timeline) (tweet : PostTweetModel) :
    backdatedPost ⟨s, .post tweet, s'⟩ = if isBackdated s.vm tweet then some tweet else none :=
  rfl

theorem backdated_concat (ts : List (Transition Timeline Event)) (τ : Transition Timeline Event) :
    backdated (ts ++ [τ]) = backdated ts ++ (backdatedPost τ).toList := by
  rw [backdated, List.filterMap_append, backdated, List.filterMap_cons, List.filterMap_nil]
  cases backdatedPost τ <;> rfl

/-! ### What the app sees -/

/-- The collection consists of the tweets set aside, which lie strictly between the first and the
last row, and of the rest, on which the state refines the feed. -/
structure Sees (pageSize : ℕ) (missed : List PostTweetModel) (s : Timeline)
    (rest : List PostTweetModel) (feed : Feed PostTweetModel) : Prop where
  published : Published s.server
  server_perm : s.server.Perm (missed ++ rest)
  isBackdated : ∀ tweet ∈ missed, isBackdated s.vm tweet
  refines : Timeline.Refines pageSize ⟨rest, s.vm⟩ feed

namespace Sees

variable {pageSize : ℕ} {missed rest : List PostTweetModel} {s : Timeline}
  {feed : Feed PostTweetModel} (h : Sees pageSize missed s rest feed)

include h

/-- What is not above the last row is not between the rows. -/
theorem fetchTweetsQuery_inBounds :
    ∀ tweet ∈ missed, s.vm.fetchTweetsQuery.inBounds tweet = false := by
  intro tweet ht
  obtain ⟨-, last, hlast, hlt⟩ := isBackdated_iff.mp (h.isBackdated tweet ht)
  have hcursor : s.vm.lastCreatedDateTimeStamp = _ := h.refines.isWindow.cursor_eq
  rw [Option.mem_def.mp hlast, Option.bind_some] at hcursor
  cases hstamp : last.createdTimeStamp with
  | none =>
    have hnil : s.vm.tweetList = [] :=
      h.refines.isWindow.cursor_eq_none_iff.mp (hcursor.trans hstamp)
    simp [hnil] at hlast
  | some value =>
    have hvalue : last.stamp = (value : WithBot ℚ) := hstamp
    rw [hvalue] at hlt
    simp [FirebaseQuery.inBounds, HomeViewModel.fetchTweetsQuery, hcursor, hstamp, hlt]

/-- What is not below the first row is not between the rows. -/
theorem fetchLatestTweetsQuery_inBounds {query : FirebaseQuery}
    (sent : s.vm.fetchLatestTweetsQuery = some query) :
    ∀ tweet ∈ missed, query.inBounds tweet = false := by
  intro tweet ht
  obtain ⟨⟨first, hfirst, hlt⟩, -⟩ := isBackdated_iff.mp (h.isBackdated tweet ht)
  obtain ⟨value, hvalue, rfl⟩ := Option.map_eq_some_iff.mp sent
  rw [Option.mem_def.mp hfirst, Option.bind_some] at hvalue
  have hlt : tweet.stamp < (value : WithBot ℚ) := hlt.trans_eq hvalue
  simp [FirebaseQuery.inBounds, hlt]

/-- **The app cannot tell the backdated tweets from missing ones.** An answer of the server is an
answer of the rest. -/
theorem answers {query : FirebaseQuery} {answer : List ViewTweetModel}
    (hmissed : ∀ tweet ∈ missed, query.inBounds tweet = false)
    (answers : query.Answers s.server answer) : query.Answers rest answer := by
  have hpage := FirebaseQuery.page_rest h.published h.server_perm hmissed
  rw [FirebaseQuery.Answers, query.select_eq h.refines.published, hpage]
  rwa [FirebaseQuery.Answers, query.select_eq h.published] at answers

theorem isDescending : IsDescending (fun tweet => tweet.stamp) s.vm.tweetList :=
  h.refines.isWindow.isDescending

/-- A tweet is between the rows if it is below one of them and above another one. -/
theorem isBackdated_iff_mem {tweet : PostTweetModel} :
    ClockSkew.isBackdated s.vm tweet ↔ (∃ a ∈ s.vm.records, tweet.stamp < a.stamp) ∧
      ∃ b ∈ s.vm.records, b.stamp < tweet.stamp := by
  rw [isBackdated_iff]
  refine and_congr ⟨?_, ?_⟩ ⟨?_, ?_⟩
  · rintro ⟨first, hfirst, hlt⟩
    exact ⟨first.record, List.mem_map_of_mem (List.mem_of_mem_head? hfirst), hlt⟩
  · rintro ⟨a, ha, hlt⟩
    obtain ⟨row, hrow, rfl⟩ := List.mem_map.mp ha
    obtain ⟨first, hfirst, hle⟩ := h.isDescending.exists_head?_ge hrow
    exact ⟨first, hfirst, hlt.trans_le hle⟩
  · rintro ⟨last, hlast, hlt⟩
    exact ⟨last.record, List.mem_map_of_mem (List.mem_of_mem_getLast? hlast), hlt⟩
  · rintro ⟨b, hb, hlt⟩
    obtain ⟨row, hrow, rfl⟩ := List.mem_map.mp hb
    obtain ⟨last, hlast, hle⟩ := h.isDescending.exists_getLast?_le hrow
    exact ⟨last, hlast, hle.trans_lt hlt⟩

/-- A change of the view model that keeps its rows keeps the backdated tweets apart. -/
theorem changed {vm' : HomeViewModel} {feed' : Feed PostTweetModel}
    (hrefines : Timeline.Refines pageSize ⟨rest, vm'⟩ feed')
    (hsubset : s.vm.records ⊆ vm'.records) :
    Sees pageSize missed { s with vm := vm' } rest feed' := by
  refine ⟨h.published, h.server_perm, fun tweet ht => ?_, hrefines⟩
  obtain ⟨⟨a, ha, hlt⟩, b, hb, hlt'⟩ := h.isBackdated_iff_mem.mp (h.isBackdated tweet ht)
  have h' : Sees pageSize [] ⟨rest, vm'⟩ rest feed' :=
    ⟨hrefines.published, List.Perm.refl _, by simp, hrefines⟩
  exact h'.isBackdated_iff_mem.mpr ⟨⟨a, hsubset ha, hlt⟩, b, hsubset hb, hlt'⟩

/-- A step of the code on the rest of the collection. -/
theorem answered {e : TwitterLite.Event} {vm' : HomeViewModel}
    (step : Timeline.Step ⟨rest, s.vm⟩ e ⟨rest, vm'⟩) :
    Sees pageSize missed { s with vm := vm' } rest (feed.next pageSize e) := by
  have hloads := h.refines.loads step
  refine h.changed (Timeline.step_refines h.refines step) fun a ha => ?_
  cases e with
  | fetchTweets =>
    rw [show vm'.records = _ from hloads]
    exact List.mem_append_left _ ha
  | refresh =>
    rw [show vm'.records = _ from hloads]
    exact List.mem_append_right _ ha
  | post tweet => rwa [show vm'.records = _ from hloads]

/-- A new tweet on the server that the feed takes in outside the window. -/
theorem posted {tweet : PostTweetModel} {feed' : Feed PostTweetModel}
    (hpublished : Published (tweet :: s.server)) (hshown : feed'.shown = feed.shown)
    (hcontent : feed'.content.Perm (tweet :: feed.content))
    (hdesc : IsDescending (fun tweet => tweet.stamp) feed'.content)
    (hnewer : feed.shown = [] → feed'.newer = []) :
    Sees pageSize missed { s with server := tweet :: s.server } (tweet :: rest) feed' where
  published := hpublished
  server_perm := (h.server_perm.cons tweet).trans List.perm_middle.symm
  isBackdated := h.isBackdated
  refines :=
    { pageSize_eq := h.refines.pageSize_eq
      published := hpublished.of_rest ((h.server_perm.cons tweet).trans List.perm_middle.symm)
      content_eq := by
        have hrest : rest.Perm feed.content := h.refines.content_eq ▸ (sort_perm _ rest).symm
        exact sort_eq hdesc ((hrest.cons tweet).trans hcontent.symm)
      records_eq := h.refines.records_eq.trans hshown.symm
      cursor_eq := hshown ▸ h.refines.cursor_eq
      newer_eq := fun hs => hnewer (hshown ▸ hs) }

/-- The new tweet and the feed have no time stamp in common. -/
theorem published_cons {tweet : PostTweetModel} (hpublished : Published (tweet :: s.server)) :
    Published (tweet :: feed.content) := by
  have hrest := hpublished.of_rest ((h.server_perm.cons tweet).trans List.perm_middle.symm)
  exact hrest.perm (.cons tweet (h.refines.content_eq ▸ (sort_perm _ rest).symm))

/-- A tweet above all rows is newer than the window. -/
theorem posted_newer {tweet : PostTweetModel} (hpublished : Published (tweet :: s.server))
    (hne : feed.shown ≠ []) (habove : ∀ a ∈ feed.shown, a.stamp < tweet.stamp) :
    Sees pageSize missed { s with server := tweet :: s.server } (tweet :: rest)
      { feed with newer := descending (tweet :: feed.newer) } := by
  have hdesc : IsDescending (fun tweet => tweet.stamp) feed.content :=
    h.refines.content_eq ▸ h.refines.published.isDescending
  rw [Feed.content, List.append_assoc] at hdesc
  obtain ⟨-, hwindow, hnewer⟩ := List.pairwise_append.mp hdesc
  have habove' : ∀ a ∈ feed.shown ++ feed.older, a.stamp < tweet.stamp := by
    obtain ⟨first, hfirst⟩ := List.exists_mem_of_ne_nil _ hne
    refine List.forall_mem_append.mpr ⟨habove, fun a ha => ?_⟩
    exact ((List.pairwise_append.mp hwindow).2.2 first hfirst a ha).trans (habove first hfirst)
  have hsub : (tweet :: feed.newer).Sublist (tweet :: feed.content) :=
    ((List.sublist_append_left _ _).trans (List.sublist_append_left _ _)).cons_cons tweet
  refine h.posted hpublished rfl ?_ ?_ fun hs => absurd hs hne
  · simp only [Feed.content, List.append_assoc]
    exact (sort_perm _ (tweet :: feed.newer)).append_right _
  · simp only [Feed.content, List.append_assoc]
    refine List.pairwise_append.mpr
      ⟨((h.published_cons hpublished).sublist hsub).isDescending, hwindow, fun a ha => ?_⟩
    rcases List.mem_cons.mp ((mem_sort _).mp ha) with rfl | ha
    · exact habove'
    · exact hnewer a ha

/-- A tweet below all rows is older than the window. -/
theorem posted_older {tweet : PostTweetModel} (hpublished : Published (tweet :: s.server))
    (hbelow : ∀ a ∈ feed.shown, tweet.stamp < a.stamp) :
    Sees pageSize missed { s with server := tweet :: s.server } (tweet :: rest)
      { feed with older := descending (tweet :: feed.older) } := by
  have hdesc : IsDescending (fun tweet => tweet.stamp) feed.content :=
    h.refines.content_eq ▸ h.refines.published.isDescending
  obtain ⟨hwindow, -, holder⟩ := List.pairwise_append.mp hdesc
  have hbelow' : ∀ a ∈ feed.newer ++ feed.shown, tweet.stamp < a.stamp := by
    refine List.forall_mem_append.mpr ⟨fun a ha => ?_, hbelow⟩
    have hne : feed.shown ≠ [] := fun hs => List.ne_nil_of_mem ha (h.refines.newer_eq hs)
    obtain ⟨last, hlast⟩ := List.exists_mem_of_ne_nil _ hne
    exact (hbelow last hlast).trans ((List.pairwise_append.mp hwindow).2.2 a ha last hlast)
  have hsub : (tweet :: feed.older).Sublist (tweet :: feed.content) :=
    (List.sublist_append_right _ _).cons_cons tweet
  refine h.posted hpublished rfl ?_ ?_ h.refines.newer_eq
  · exact ((sort_perm _ (tweet :: feed.older)).append_left _).trans List.perm_middle
  · refine List.pairwise_append.mpr
      ⟨hwindow, ((h.published_cons hpublished).sublist hsub).isDescending, fun a ha b hb => ?_⟩
    rcases List.mem_cons.mp ((mem_sort _).mp hb) with rfl | hb
    · exact hbelow' a ha
    · exact holder a ha b hb

/-- A tweet between the rows is set aside. -/
theorem posted_between {tweet : PostTweetModel} (hpublished : Published (tweet :: s.server))
    (hback : ClockSkew.isBackdated s.vm tweet) :
    Sees pageSize (missed ++ [tweet]) { s with server := tweet :: s.server } rest feed where
  published := hpublished
  server_perm := by
    rw [List.append_assoc]
    exact (h.server_perm.cons tweet).trans List.perm_middle.symm
  isBackdated := List.forall_mem_append.mpr
    ⟨h.isBackdated, List.forall_mem_singleton.mpr hback⟩
  refines := h.refines

theorem stamp_ne {tweet : PostTweetModel} (distinct : ∀ t ∈ s.server, t.stamp ≠ tweet.stamp) :
    ∀ a ∈ feed.shown, a.stamp ≠ tweet.stamp := by
  intro a ha
  have hrest : a ∈ rest :=
    (mem_sort _).mp (h.refines.isInfix.subset (h.refines.records_eq ▸ ha))
  exact distinct a (h.server_perm.mem_iff.mpr (List.mem_append_right missed hrest))

/-- **One step.** The backdated post of the step, if it is one, joins the tweets set aside; on the
rest the step is one of the feed. -/
theorem step {e : Event} {s' : Timeline} (step : Step s e s') :
    ∃ rest' feed', Sees pageSize (missed ++ (backdatedPost ⟨s, e, s'⟩).toList) s' rest' feed' := by
  cases step with
  | fetchTweets answers answered =>
    have hanswers := h.answers h.fetchTweetsQuery_inBounds answers
    rw [backdatedPost, Option.toList_none, List.append_nil]
    exact ⟨_, _, h.answered (.fetchTweets hanswers answered)⟩
  | refresh sent answers answered =>
    have hanswers := h.answers (h.fetchLatestTweetsQuery_inBounds sent) answers
    rw [backdatedPost, Option.toList_none, List.append_nil]
    exact ⟨_, _, h.answered (.refresh sent hanswers answered)⟩
  | refreshEmpty sent =>
    rw [backdatedPost, Option.toList_none, List.append_nil]
    exact ⟨rest, feed, h⟩
  | fetchTweetsFailed answered =>
    obtain ⟨rfl, -⟩ := Prod.mk.inj (Except.ok.inj answered)
    rw [backdatedPost, Option.toList_none, List.append_nil]
    exact ⟨rest, feed, h⟩
  | refreshFailed answered =>
    obtain ⟨rfl, -⟩ := Prod.mk.inj (Except.ok.inj answered)
    rw [backdatedPost, Option.toList_none, List.append_nil]
    exact ⟨rest, feed, h⟩
  | @post tweet hid fresh hstamp distinct =>
    have hpublished := h.published.cons hid fresh hstamp distinct
    have hne := h.stamp_ne distinct
    by_cases hback : ClockSkew.isBackdated s.vm tweet
    · rw [backdatedPost_post, if_pos hback, Option.toList_some]
      exact ⟨rest, feed, h.posted_between hpublished hback⟩
    · rw [backdatedPost_post, if_neg hback, Option.toList_none, List.append_nil]
      rw [h.isBackdated_iff_mem, h.refines.records_eq, not_and_or] at hback
      simp only [not_exists, not_and, not_lt] at hback
      -- without rows the tweet is one of those that the first page will show
      by_cases hs : feed.shown = []
      · exact ⟨_, _, h.posted_older hpublished (by simp [hs])⟩
      rcases hback with habove | hbelow
      · exact ⟨_, _, h.posted_newer hpublished hs fun a ha =>
          lt_of_le_of_ne (habove a ha) (hne a ha)⟩
      · exact ⟨_, _, h.posted_older hpublished fun a ha =>
          lt_of_le_of_ne (hbelow a ha) (hne a ha).symm⟩

end Sees

/-! ### Whole runs -/

/-- The tweet is neither above the first row nor below the last one. -/
def spans (vm : HomeViewModel) (tweet : PostTweetModel) : Bool :=
  vm.tweetList.head?.any (fun first => tweet.stamp ≤ first.stamp) &&
    vm.tweetList.getLast?.any fun last => last.stamp ≤ tweet.stamp

/-- The list is the server's descending order from its first to its last row, without the tweets
that are missed, and it ends at the cursor. -/
structure ShowsAllBut (missed : List PostTweetModel) (s : Timeline) : Prop where
  records_eq : s.vm.records =
    (descending s.server).filter fun tweet => spans s.vm tweet && decide (tweet ∉ missed)
  tweetIDs_nodup : (s.vm.tweetList.map fun tweet => tweet.tweetID).Nodup
  cursor_eq : s.vm.lastCreatedDateTimeStamp =
    s.vm.tweetList.getLast?.bind fun tweet => tweet.createdTimeStamp

/-- An answered request loads what it should: `fetchTweets` appends the next older tweets, a page
of them or all that are left, and `refresh` prepends all newer tweets. A failed request and a post
leave the list alone. -/
def Loads (pageSize : ℕ) (τ : Transition Timeline Event) : Prop :=
  match τ.event with
  | .fetchTweets => τ.target.vm.records = τ.source.vm.records ++ τ.source.older.take pageSize
  | .refresh => τ.target.vm.records = τ.source.newer ++ τ.source.vm.records
  | .failed => τ.target.vm = τ.source.vm
  | .post _ => τ.target.vm = τ.source.vm

namespace Sees

variable {pageSize : ℕ} {missed rest : List PostTweetModel} {s : Timeline}
  {feed : Feed PostTweetModel} (h : Sees pageSize missed s rest feed)

include h

/-- No backdated tweet is below the last row. -/
theorem older_eq : Timeline.older ⟨rest, s.vm⟩ = s.older := by
  refine h.published.filter_descending_rest h.server_perm fun tweet ht => ?_
  obtain ⟨-, last, hlast, hlt⟩ := isBackdated_iff.mp (h.isBackdated tweet ht)
  simp [Option.mem_def.mp hlast, hlt.le]

/-- No backdated tweet is above the first row. -/
theorem newer_eq : Timeline.newer ⟨rest, s.vm⟩ = s.newer := by
  refine h.published.filter_descending_rest h.server_perm fun tweet ht => ?_
  obtain ⟨⟨first, hfirst, hlt⟩, -⟩ := isBackdated_iff.mp (h.isBackdated tweet ht)
  simp [Option.mem_def.mp hfirst, hlt.le]

theorem loads {e : Event} {s' : Timeline} (step : Step s e s') : Loads pageSize ⟨s, e, s'⟩ := by
  cases step with
  | fetchTweets answers answered =>
    have hanswers := h.answers h.fetchTweetsQuery_inBounds answers
    have hloads := h.refines.loads (.fetchTweets hanswers answered)
    simpa only [Loads, Timeline.Loads, h.older_eq] using hloads
  | refresh sent answers answered =>
    have hanswers := h.answers (h.fetchLatestTweetsQuery_inBounds sent) answers
    have hloads := h.refines.loads (.refresh sent hanswers answered)
    simpa only [Loads, Timeline.Loads, h.newer_eq] using hloads
  | refreshEmpty sent =>
    have hloads := h.refines.loads (.refreshEmpty sent)
    simpa only [Loads, Timeline.Loads, h.newer_eq] using hloads
  | fetchTweetsFailed answered => exact (Prod.mk.inj (Except.ok.inj answered)).1.symm
  | refreshFailed answered => exact (Prod.mk.inj (Except.ok.inj answered)).1.symm
  | post hid fresh hstamp distinct => rfl

theorem delivers : Timeline.Delivers s where
  fetchTweets answer loggedInUser profiles answers := by
    obtain ⟨_, _, hok, -⟩ := s.vm.fetchTweetsAnswered_spec loggedInUser profiles
      (FirebaseQuery.stamp_ne_of_answers h.published answers)
    exact ⟨_, hok⟩
  refresh query answer loggedInUser profiles _ answers := by
    obtain ⟨_, _, hok, -⟩ := s.vm.fetchLatestTweetsAnswered_spec loggedInUser profiles
      (FirebaseQuery.stamp_ne_of_answers h.published answers)
    exact ⟨_, hok⟩

theorem mem_rest_iff {tweet : PostTweetModel} :
    tweet ∈ rest ↔ tweet ∈ s.server ∧ tweet ∉ missed := by
  have hnodup : (missed ++ rest).Nodup :=
    List.Nodup.of_map _ (h.published.perm h.server_perm).stamps_nodup
  rw [h.server_perm.mem_iff, List.mem_append]
  have hdisjoint := (List.nodup_append.mp hnodup).2.2
  constructor
  · exact fun ht => ⟨.inr ht, fun hm => hdisjoint tweet hm tweet ht rfl⟩
  · rintro ⟨hm | ht, hnot⟩
    · exact absurd hm hnot
    · exact ht

/-- Every row lies between the first and the last one. -/
theorem spans_of_mem {tweet : PostTweetModel} (ht : tweet ∈ s.vm.records) : spans s.vm tweet := by
  obtain ⟨row, hrow, rfl⟩ := List.mem_map.mp ht
  obtain ⟨first, hfirst, hle⟩ := h.isDescending.exists_head?_ge hrow
  obtain ⟨last, hlast, hge⟩ := h.isDescending.exists_getLast?_le hrow
  simp only [spans, Bool.and_eq_true, Option.any_eq_true, decide_eq_true_eq]
  exact ⟨⟨first, hfirst, hle⟩, last, hlast, hge⟩

theorem mem_records_iff {tweet : PostTweetModel} :
    tweet ∈ s.vm.records ↔ tweet ∈ rest ∧ spans s.vm tweet := by
  have hwindow := h.refines.isWindow
  constructor
  · exact fun ht => ⟨(mem_sort _).mp (hwindow.isInfix.subset ht), h.spans_of_mem ht⟩
  · rintro ⟨hrest, hspans⟩
    simp only [spans, Bool.and_eq_true, Option.any_eq_true, decide_eq_true_eq] at hspans
    obtain ⟨⟨first, hfirst, hle⟩, last, hlast, hge⟩ := hspans
    exact hwindow.contiguous first hfirst last hlast tweet hrest hge hle

theorem showsAllBut : ShowsAllBut missed s := by
  have hwindow := h.refines.isWindow
  refine ⟨?_, hwindow.tweetIDs_nodup, hwindow.cursor_eq⟩
  have hrecords : IsDescending (fun tweet => tweet.stamp) s.vm.records :=
    List.pairwise_map.mpr h.isDescending
  have hfilter := h.published.isDescending.sublist (List.filter_sublist
    (p := fun tweet => spans s.vm tweet && decide (tweet ∉ missed)))
  refine (sort_eq hrecords (List.Perm.refl _)).symm.trans (sort_eq hfilter ?_)
  refine (List.perm_ext_iff_of_nodup hrecords.nodup hfilter.nodup).mpr fun tweet => ?_
  rw [h.mem_records_iff, h.mem_rest_iff, List.mem_filter, mem_sort, Bool.and_eq_true,
    decide_eq_true_eq, and_assoc, and_comm (a := tweet ∉ missed)]

end Sees

theorem sees_initial (isiPhone : Bool) {server : List PostTweetModel} (h : Published server) :
    Sees (Timeline.initial isiPhone server).vm.pageSize [] (Timeline.initial isiPhone server)
      server { older := descending server } :=
  ⟨h, List.Perm.refl _, by simp, Timeline.refines_initial isiPhone h⟩

variable {isiPhone : Bool} {server : List PostTweetModel} {s : Timeline}
  {ts : List (Transition Timeline Event)}

/-- After every run, what the app sees is the collection without the backdated tweets, and every
step has loaded what it should. -/
theorem sees_of_run (hserver : Published server)
    (run : Run Step (Timeline.initial isiPhone server) ts s) :
    (∃ rest feed,
        Sees (Timeline.initial isiPhone server).vm.pageSize (backdated ts) s rest feed) ∧
      ∀ τ ∈ ts, Loads (Timeline.initial isiPhone server).vm.pageSize τ := by
  generalize hs₀ : Timeline.initial isiPhone server = s₀ at run
  subst hs₀
  induction run with
  | nil => exact ⟨⟨_, _, sees_initial isiPhone hserver⟩, by simp⟩
  | snoc run step ih =>
    obtain ⟨⟨rest, feed, h⟩, hloads⟩ := ih
    rw [backdated_concat]
    refine ⟨h.step step, List.forall_mem_append.mpr ⟨hloads, ?_⟩⟩
    exact List.forall_mem_singleton.mpr (h.loads step)

theorem published_gap : Published [Timeline.tweetAt "b" 3, Timeline.tweetAt "a" 1] := by
  constructor <;> decide

/-- A first page of two tweets, a tweet from between them that arrives late, and a refresh. -/
theorem exists_run_backdated : ∃ ts s,
    Run Step (Timeline.initial true [Timeline.tweetAt "b" 3, Timeline.tweetAt "a" 1]) ts s ∧
      backdated ts = [Timeline.tweetAt "c" 2] ∧ ts.length = 3 := by
  have first : (Timeline.initial true
      [Timeline.tweetAt "b" 3, Timeline.tweetAt "a" 1]).vm.fetchTweetsQuery.Answers
      [Timeline.tweetAt "b" 3, Timeline.tweetAt "a" 1]
      [{ Timeline.tweetAt "b" 3 with }, { Timeline.tweetAt "a" 1 with }] := by decide
  have second : FirebaseQuery.Answers ⟨none, some 3, none⟩
      [Timeline.tweetAt "c" 2, Timeline.tweetAt "b" 3, Timeline.tweetAt "a" 1]
      [{ Timeline.tweetAt "b" 3 with }] := by decide
  have start : Run Step
      (Timeline.initial true [Timeline.tweetAt "b" 3, Timeline.tweetAt "a" 1]) [] _ := .nil _
  have run := start
    |>.snoc (.fetchTweets first
      (show HomeViewModel.fetchTweetsAnswered _ none (fun _ => none) _ = _ from rfl))
    |>.snoc (.post (show (Timeline.tweetAt "c" 2).tweetID ≠ none by decide) (by decide)
      (by decide) (by decide))
    |>.snoc (.refresh rfl second
      (show HomeViewModel.fetchLatestTweetsAnswered _ none (fun _ => none) _ = _ from rfl))
  exact ⟨_, _, run, by decide, rfl⟩

end ClockSkew

end TwitterLite
