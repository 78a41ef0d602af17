import TwitterLite.Home.Overlap

/-!
# Where a login starts in the feed

`HomeViewController.loginDidComplete` calls the same `fetchTweets` that pages. A sign-out clears
neither the list nor the cursor, so after the first session of a process the call asks for the page
below the last row, and the list goes on beginning with the row it began with before.

`Process` has the collection, the view model and the requests under way over any number of sessions,
and notes which requests a login has sent. A login starts at the top of the feed exactly if the
first row is still the newest tweet when its request completes, or nothing has been shown yet and
the answer holds the newest tweet (`Process.startsAtTop_iff`).

## Main definitions

* `TwitterLite.Process`, `TwitterLite.Process.Step`.
* `TwitterLite.Process.StartsAtTop`, `TwitterLite.Process.FirstRowNewest`.

## Main results

* `TwitterLite.Process.step_sound`, `TwitterLite.Process.startsAtTop_iff`.

Source: `HomeViewController.swift`, lines 18–66, 68–134 and 188–193; `HomeViewModel.swift`, lines
38–82.
-/

namespace TwitterLite

open Descending TransitionSystem

/-- Who has sent a timeline request. -/
inductive Sender where
  | loginDidComplete
  | timeline
  deriving DecidableEq, Repr

/-- The collection, the view model, whether the login screen is up, and the requests under way. -/
structure Process where
  server : List PostTweetModel
  vm : HomeViewModel
  loginOpen : Bool
  inFlight : List (Sender × Request) := []

namespace Process

/-- What can happen in a process. -/
inductive Event where
  | signOut
  | loginDidComplete
  | send (kind : RequestKind)
  | answer (sender : Sender) (request : Request)
  | deliver (sender : Sender) (request : Request)
  | fail (sender : Sender) (request : Request)
  | post (tweet : PostTweetModel)

/-- After the launch, with or without a user who is signed in. -/
def initial (isiPhone loginOpen : Bool) (server : List PostTweetModel) : Process where
  server := server
  vm := { isiPhone := isiPhone }
  loginOpen := loginOpen

/-- One step. A sign-out leaves the view model as it is. Anybody may post, with any time stamp. -/
inductive Step : Process → Event → Process → Prop
  | signOut {s : Process} (home : s.loginOpen = false) :
      Step s .signOut { s with loginOpen := true }
  | loginDidComplete {s : Process} (login : s.loginOpen = true) :
      Step s .loginDidComplete
        { s with
          loginOpen := false
          inFlight := s.inFlight ++
            [(.loginDidComplete, ⟨.fetchTweets, s.vm.fetchTweetsQuery, none⟩)] }
  /-- The first page after a launch, the next page, or a refresh. -/
  | send {s : Process} {kind : RequestKind} {query : FirebaseQuery}
      (sent : s.vm.requestQuery kind = some query) :
      Step s (.send kind) { s with inFlight := s.inFlight ++ [(.timeline, ⟨kind, query, none⟩)] }
  | answer {s : Process} {before after : List (Sender × Request)} {sender : Sender}
      {kind : RequestKind} {query : FirebaseQuery} {answer : List ViewTweetModel}
      (pending : s.inFlight = before ++ (sender, ⟨kind, query, none⟩) :: after)
      (answers : query.Answers s.server answer) :
      Step s (.answer sender ⟨kind, query, none⟩)
        { s with inFlight := before ++ (sender, ⟨kind, query, some answer⟩) :: after }
  | deliver {s : Process} {before after : List (Sender × Request)} {sender : Sender}
      {kind : RequestKind} {query : FirebaseQuery} {answer : List ViewTweetModel}
      {loggedInUser : Option UserModel} {profiles : ℕ → Option UserModel} {vm' : HomeViewModel}
      {update : Option TableUpdate}
      (pending : s.inFlight = before ++ (sender, ⟨kind, query, some answer⟩) :: after)
      (delivered : s.vm.requestDelivered loggedInUser profiles (FirebaseQuery.decoded answer)
        kind = .ok (vm', update)) :
      Step s (.deliver sender ⟨kind, query, some answer⟩)
        { s with vm := vm', inFlight := before ++ after }
  | fail {s : Process} {before after : List (Sender × Request)} {sender : Sender}
      {kind : RequestKind} {query : FirebaseQuery} {error : AppError} {vm' : HomeViewModel}
      {update : Option TableUpdate}
      (pending : s.inFlight = before ++ (sender, ⟨kind, query, none⟩) :: after)
      (delivered : s.vm.requestDelivered none (fun _ => none) (.error error) kind =
        .ok (vm', update)) :
      Step s (.fail sender ⟨kind, query, none⟩) { s with vm := vm', inFlight := before ++ after }
  | post {s : Process} {tweet : PostTweetModel} (hstamp : tweet.createdTimeStamp ≠ none) :
      Step s (.post tweet) { s with server := tweet :: s.server }

/-! ### The property and its condition -/

/-- A tweet of the collection than which no other is newer. -/
def Newest (server : List PostTweetModel) (tweet : PostTweetModel) : Prop :=
  tweet ∈ server ∧ ∀ t ∈ server, t.stamp ≤ tweet.stamp

/-- The request of a login completes with the given tweets, and no other request is under way. -/
def CompletesLogin (τ : Transition Process Event) (answer : List ViewTweetModel) : Prop :=
  ∃ request, τ.event = .deliver .loginDidComplete request ∧ request.answer = some answer ∧
    answer ≠ [] ∧ τ.target.inFlight = []

/-- When the request of a login completes, the first row is the newest tweet. -/
def StartsAtTop (τ : Transition Process Event) : Prop :=
  ∀ answer, CompletesLogin τ answer →
    ∃ first ∈ τ.target.vm.records.head?, Newest τ.target.server first

/-- The condition: when the request of a login completes, the first row is the newest tweet
already, or no row has been shown and the answer holds the newest tweet. -/
def FirstRowNewest (τ : Transition Process Event) : Prop :=
  ∀ answer, CompletesLogin τ answer →
    match τ.source.vm.records.head? with
    | some first => Newest τ.source.server first
    | none => ∃ tweet ∈ answer, Newest τ.source.server tweet.record

/-! ### The invariant -/

/-- What holds of a request under way: a login asks for a page, and an answer is made of tweets of
the collection. -/
structure SentSound (server : List PostTweetModel) (sent : Sender × Request) : Prop where
  kind_eq : sent.1 = .loginDidComplete → sent.2.kind = .fetchTweets
  answer_subset : ∀ answer, sent.2.answer = some answer → ∀ tweet ∈ answer, tweet.record ∈ server

/-- The tweets of the collection have time stamps, the requests under way are sound, and while no
row has been shown there is no cursor. -/
structure Sound (s : Process) : Prop where
  stamp_ne : ∀ tweet ∈ s.server, tweet.createdTimeStamp ≠ none
  sent_sound : ∀ sent ∈ s.inFlight, SentSound s.server sent
  cursor_eq : s.vm.records = [] → s.vm.lastCreatedDateTimeStamp = none

theorem sound_initial (isiPhone loginOpen : Bool) {server : List PostTweetModel}
    (h : ∀ tweet ∈ server, tweet.createdTimeStamp ≠ none) :
    Sound (initial isiPhone loginOpen server) :=
  ⟨h, fun _ hsent => absurd hsent List.not_mem_nil, fun _ => rfl⟩

/-- What a delivery does to the rows. -/
theorem delivered_cases {vm vm' : HomeViewModel} {kind : RequestKind}
    {answer : List ViewTweetModel} {loggedInUser : Option UserModel}
    {profiles : ℕ → Option UserModel} {update : Option TableUpdate}
    (hstamps : ∀ tweet ∈ answer, tweet.createdTimeStamp ≠ none)
    (delivered : vm.requestDelivered loggedInUser profiles (FirebaseQuery.decoded answer) kind =
      .ok (vm', update)) :
    kind = .fetchTweets ∧ vm.Appended (vm.olderRows answer) vm' ∨
      kind = .refresh ∧ vm.Prepended (HomeViewModel.newerRows answer) vm' := by
  cases kind with
  | fetchTweets =>
    obtain ⟨_, _, hok, happ⟩ := vm.fetchTweetsAnswered_spec loggedInUser profiles hstamps
    obtain ⟨rfl, -⟩ := Prod.mk.inj (Except.ok.inj (hok.symm.trans delivered))
    exact .inl ⟨rfl, happ⟩
  | refresh =>
    obtain ⟨_, _, hok, hpre⟩ := vm.fetchLatestTweetsAnswered_spec loggedInUser profiles hstamps
    obtain ⟨rfl, -⟩ := Prod.mk.inj (Except.ok.inj (hok.symm.trans delivered))
    exact .inr ⟨rfl, hpre⟩

/-- A delivery that leaves the list without rows leaves it without a cursor. -/
theorem Sound.cursor_of_delivered {s : Process} (h : Sound s) {vm' : HomeViewModel}
    {kind : RequestKind} {answer : List ViewTweetModel} {loggedInUser : Option UserModel}
    {profiles : ℕ → Option UserModel} {update : Option TableUpdate}
    (hstamps : ∀ tweet ∈ answer, tweet.createdTimeStamp ≠ none)
    (delivered : s.vm.requestDelivered loggedInUser profiles (FirebaseQuery.decoded answer) kind =
      .ok (vm', update)) (hnil : vm'.records = []) : vm'.lastCreatedDateTimeStamp = none := by
  rcases delivered_cases hstamps delivered with ⟨-, happ⟩ | ⟨-, hpre⟩
  · obtain ⟨hvm, hrows⟩ := List.append_eq_nil_iff.mp (happ.records_eq.symm.trans hnil)
    rw [happ.cursor_eq, if_pos hrows, h.cursor_eq hvm]
  · obtain ⟨-, hvm⟩ := List.append_eq_nil_iff.mp (hpre.records_eq.symm.trans hnil)
    rw [hpre.cursor_eq, h.cursor_eq hvm]

/-- **Every step keeps the invariant of the feed.** -/
theorem step_sound {s s' : Process} {e : Event} (h : Sound s) (step : Step s e s') : Sound s' := by
  cases step with
  | signOut home => exact ⟨h.stamp_ne, h.sent_sound, h.cursor_eq⟩
  | loginDidComplete login =>
    refine ⟨h.stamp_ne, List.forall_mem_append.mpr ⟨h.sent_sound, ?_⟩, h.cursor_eq⟩
    exact List.forall_mem_singleton.mpr ⟨fun _ => rfl, nofun⟩
  | send sent =>
    refine ⟨h.stamp_ne, List.forall_mem_append.mpr ⟨h.sent_sound, ?_⟩, h.cursor_eq⟩
    exact List.forall_mem_singleton.mpr ⟨nofun, nofun⟩
  | answer pending answers =>
    obtain ⟨hbefore, hafter⟩ := List.forall_mem_append.mp (pending ▸ h.sent_sound)
    obtain ⟨hthis, hafter⟩ := List.forall_mem_cons.mp hafter
    refine ⟨h.stamp_ne, List.forall_mem_append.mpr ⟨hbefore, List.forall_mem_cons.mpr
      ⟨⟨hthis.kind_eq, fun answer hans tweet ht => ?_⟩, hafter⟩⟩, h.cursor_eq⟩
    obtain rfl := Option.some.inj hans
    exact FirebaseQuery.record_mem_of_answers answers ht
  | deliver pending delivered =>
    obtain ⟨hbefore, hafter⟩ := List.forall_mem_append.mp (pending ▸ h.sent_sound)
    obtain ⟨hthis, hafter⟩ := List.forall_mem_cons.mp hafter
    refine ⟨h.stamp_ne, List.forall_mem_append.mpr ⟨hbefore, hafter⟩, ?_⟩
    exact h.cursor_of_delivered
      (fun tweet ht => h.stamp_ne tweet.record (hthis.answer_subset _ rfl tweet ht)) delivered
  | fail pending delivered =>
    obtain ⟨hbefore, hafter⟩ := List.forall_mem_append.mp (pending ▸ h.sent_sound)
    obtain rfl := Overlap.eq_of_failed delivered
    exact ⟨h.stamp_ne, List.forall_mem_append.mpr ⟨hbefore, (List.forall_mem_cons.mp hafter).2⟩,
      h.cursor_eq⟩
  | post hstamp =>
    exact ⟨List.forall_mem_cons.mpr ⟨hstamp, h.stamp_ne⟩,
      fun sent hsent => ⟨(h.sent_sound sent hsent).kind_eq, fun answer hans tweet ht =>
        List.mem_cons_of_mem _ ((h.sent_sound sent hsent).answer_subset answer hans tweet ht)⟩,
      h.cursor_eq⟩

/-! ### The first row -/

/-- The first of the sorted tweets is the newest exactly if one of them is. -/
theorem exists_newest_sort {server tweets : List PostTweetModel} (hsub : tweets ⊆ server) :
    (∃ first ∈ (sort (fun tweet => tweet.stamp) tweets).head?, Newest server first) ↔
      ∃ tweet ∈ tweets, Newest server tweet := by
  constructor
  · rintro ⟨first, hfirst, hnewest⟩
    exact ⟨first, (mem_sort _).mp (List.mem_of_mem_head? hfirst), hnewest⟩
  · rintro ⟨tweet, htweet, -, hmax⟩
    have hmem := (mem_sort fun tweet => tweet.stamp).mpr htweet
    obtain ⟨first, rest, hsorted⟩ := List.exists_cons_of_ne_nil (List.ne_nil_of_mem hmem)
    have hpairwise := pairwise_sort (f := fun tweet : PostTweetModel => tweet.stamp) tweets
    rw [hsorted] at hmem hpairwise
    have hle : tweet.stamp ≤ first.stamp := by
      rcases List.mem_cons.mp hmem with rfl | hrest
      · exact le_rfl
      · exact (List.pairwise_cons.mp hpairwise).1 tweet hrest
    have hfirst : first ∈ server :=
      hsub ((mem_sort fun tweet => tweet.stamp).mp (hsorted ▸ List.mem_cons_self))
    exact ⟨first, by rw [hsorted]; rfl, hfirst, fun t ht => (hmax t ht).trans hle⟩

/-- **A login starts at the top exactly if the condition holds when its request completes.** -/
theorem step_startsAtTop_iff {s s' : Process} {e : Event} (h : Sound s) (step : Step s e s') :
    StartsAtTop ⟨s, e, s'⟩ ↔ FirstRowNewest ⟨s, e, s'⟩ := by
  refine forall₂_congr fun answer hcompletes => ?_
  obtain ⟨request, rfl, hanswer, -, -⟩ := hcompletes
  cases step with
  | @deliver before after _ kind query answer' loggedInUser profiles vm' update pending delivered =>
    obtain rfl := Option.some.inj hanswer
    have hsent := h.sent_sound _ (pending ▸ List.mem_append_right _ List.mem_cons_self)
    have hsub := hsent.answer_subset answer' rfl
    have hkind : kind = .fetchTweets := hsent.kind_eq rfl
    rcases delivered_cases (fun tweet ht => h.stamp_ne tweet.record (hsub tweet ht)) delivered with
      ⟨-, happ⟩ | ⟨hrefresh, -⟩
    · have hrecords : vm'.records.head? =
          s.vm.records.head?.or (s.vm.olderRows answer').head? := by
        rw [happ.records_eq, List.head?_append]
      dsimp only
      rw [hrecords]
      cases hfirst : s.vm.records.head? with
      | some first => simp
      | none =>
        have hnil := h.cursor_eq (List.head?_eq_none_iff.mp hfirst)
        have hrecords : answer'.map ViewTweetModel.record ⊆ s.server := List.forall_mem_map.mpr hsub
        have hrows := exists_newest_sort hrecords
        simp only [Option.none_or, HomeViewModel.olderRows, if_pos hnil]
        rw [hrows]
        simp only [List.mem_map, exists_exists_and_eq_and]
    · cases hkind.symm.trans hrefresh

/-- A first login, and what the process is like when its request has completed. -/
private theorem exists_firstLogin :
    ∃ ts, Run Step (initial true true [Timeline.tweetAt "a" 1]) ts
        ⟨[Timeline.tweetAt "a" 1], ⟨true, [{ Timeline.tweetAt "a" 1 with }], some 1⟩, false, []⟩ ∧
      ts.length = 3 ∧ ∀ τ ∈ ts, FirstRowNewest τ := by
  have answers : FirebaseQuery.Answers ⟨some 10, none, none⟩ [Timeline.tweetAt "a" 1]
      [{ Timeline.tweetAt "a" 1 with }] := by decide
  have start : Run Step (initial true true [Timeline.tweetAt "a" 1]) [] _ := .nil _
  have run := start
    |>.snoc (.loginDidComplete rfl)
    |>.snoc (.answer (show _ = [] ++ _ :: [] from rfl) answers)
    |>.snoc (.deliver (show _ = [] ++ _ :: [] from rfl)
      (show HomeViewModel.requestDelivered _ none (fun _ => none) _ _ = _ from rfl))
  refine ⟨_, run, rfl, ?_⟩
  simp only [List.nil_append, List.cons_append, List.forall_mem_cons]
  refine ⟨?_, ?_, ?_, List.forall_mem_nil _⟩
  · rintro answer ⟨request, hevent, -⟩
    cases hevent
  · rintro answer ⟨request, hevent, -⟩
    cases hevent
  · rintro answer ⟨request, hevent, hanswer, -⟩
    obtain ⟨-, rfl⟩ := Event.deliver.inj hevent
    obtain rfl := Option.some.inj hanswer
    exact ⟨_, List.mem_singleton_self _, by decide, by decide⟩

end Process

end TwitterLite
