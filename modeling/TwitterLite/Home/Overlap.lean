import TwitterLite.Home.Timeline

/-!
# Overlapping timeline requests

Nothing keeps the view controller from sending a request while another one is under way: the
trigger row is shown again (`willDisplay`), the user pulls to refresh before the refresh of a
posted tweet (`didFinishTweet`) has been answered. A request has three moments: it is sent with
the anchor of that moment, the cursor or the first row; the server answers from its content of a
later moment; and after the profiles of the authors have been joined the answer is delivered to the
list of a still later moment, which drops one tweet of it as the anchor.

The list stays a strictly descending list without repetitions along every run that delivers an
answer only while its anchor is still the one it was sent with, or else delivers at most the one
tweet that is dropped (`Overlap.isDescending_of_anchored`). Two refreshes sent with the same first
row show the newer tweets twice (`Overlap.not_isDescending_of_run`).

## Main definitions

* `TwitterLite.Request`, `TwitterLite.HomeViewModel.anchor`.
* `TwitterLite.Overlap`, `TwitterLite.Overlap.Step`.
* `TwitterLite.Overlap.Anchored`: the guard on a delivery.

## Main results

* `TwitterLite.Overlap.step_sound`, `TwitterLite.Overlap.isDescending_of_anchored`.

Source: `HomeViewModel.swift`, lines 38–82; `HomeViewController.swift`, lines 68–134 and 188–229.
-/

namespace TwitterLite

open Descending TransitionSystem

/-- The two requests of the timeline. -/
inductive RequestKind where
  | fetchTweets
  | refresh
  deriving DecidableEq, Repr

namespace HomeViewModel

variable (vm : HomeViewModel)

/-- The time stamp that a request sent now builds its query on: the cursor, or that of the first
row. -/
def anchor : RequestKind → Option ℚ
  | .fetchTweets => vm.lastCreatedDateTimeStamp
  | .refresh => vm.tweetList.head?.bind fun tweet => tweet.createdTimeStamp

/-- The query that a request sends, if it sends one. -/
def requestQuery : RequestKind → Option FirebaseQuery
  | .fetchTweets => some vm.fetchTweetsQuery
  | .refresh => vm.fetchLatestTweetsQuery

/-- The delivery of what a request has brought: the records, or the error. -/
def requestDelivered (loggedInUser : Option UserModel) (profiles : ℕ → Option UserModel)
    (result : Except AppError (List ViewTweetModel)) :
    RequestKind → Except Trap (HomeViewModel × Option TableUpdate)
  | .fetchTweets => vm.fetchTweetsDelivered (fetchUserDetails loggedInUser profiles result)
  | .refresh => vm.fetchLatestTweetsDelivered (fetchUserDetails loggedInUser profiles result)

end HomeViewModel

/-- A request under way, and what the server has answered so far. -/
structure Request where
  kind : RequestKind
  query : FirebaseQuery
  answer : Option (List ViewTweetModel) := none

/-- The anchor that the query was built on. -/
def Request.anchor (request : Request) : Option ℚ :=
  match request.kind with
  | .fetchTweets => request.query.queryEnding
  | .refresh => request.query.queryStarting

/-- The collection, the view model, and the requests under way. -/
structure Overlap where
  server : List PostTweetModel
  vm : HomeViewModel
  inFlight : List Request := []

namespace Overlap

/-- What can happen while requests overlap. -/
inductive Event where
  | send (kind : RequestKind)
  | answer (request : Request)
  | deliver (request : Request)
  | fail (request : Request)
  | post (tweet : PostTweetModel)

/-- Before the first request. -/
def initial (isiPhone : Bool) (server : List PostTweetModel) : Overlap where
  server := server
  vm := { isiPhone := isiPhone }

/-- One step. Requests are answered and delivered in any order; a post may carry any time stamp
that no tweet has yet. -/
inductive Step : Overlap → Event → Overlap → Prop
  | send {s : Overlap} {kind : RequestKind} {query : FirebaseQuery}
      (sent : s.vm.requestQuery kind = some query) :
      Step s (.send kind) { s with inFlight := s.inFlight ++ [⟨kind, query, none⟩] }
  /-- A refresh without a first row sends nothing. -/
  | sendNothing {s : Overlap} {kind : RequestKind} (sent : s.vm.requestQuery kind = none) :
      Step s (.send kind) s
  | answer {s : Overlap} {before after : List Request} {kind : RequestKind}
      {query : FirebaseQuery} {answer : List ViewTweetModel}
      (pending : s.inFlight = before ++ ⟨kind, query, none⟩ :: after)
      (answers : query.Answers s.server answer) :
      Step s (.answer ⟨kind, query, none⟩)
        { s with inFlight := before ++ ⟨kind, query, some answer⟩ :: after }
  | deliver {s : Overlap} {before after : List Request} {kind : RequestKind}
      {query : FirebaseQuery} {answer : List ViewTweetModel} {loggedInUser : Option UserModel}
      {profiles : ℕ → Option UserModel} {vm' : HomeViewModel} {update : Option TableUpdate}
      (pending : s.inFlight = before ++ ⟨kind, query, some answer⟩ :: after)
      (delivered : s.vm.requestDelivered loggedInUser profiles (FirebaseQuery.decoded answer)
        kind = .ok (vm', update)) :
      Step s (.deliver ⟨kind, query, some answer⟩)
        { s with vm := vm', inFlight := before ++ after }
  /-- The request fails. -/
  | fail {s : Overlap} {before after : List Request} {kind : RequestKind}
      {query : FirebaseQuery} {error : AppError} {vm' : HomeViewModel}
      {update : Option TableUpdate}
      (pending : s.inFlight = before ++ ⟨kind, query, none⟩ :: after)
      (delivered : s.vm.requestDelivered none (fun _ => none) (.error error) kind =
        .ok (vm', update)) :
      Step s (.fail ⟨kind, query, none⟩) { s with vm := vm', inFlight := before ++ after }
  | post {s : Overlap} {tweet : PostTweetModel} (hid : tweet.tweetID ≠ none)
      (fresh : ∀ t ∈ s.server, t.tweetID ≠ tweet.tweetID) (hstamp : tweet.createdTimeStamp ≠ none)
      (distinct : ∀ t ∈ s.server, t.stamp ≠ tweet.stamp) :
      Step s (.post tweet) { s with server := tweet :: s.server }

/-- The guard: an answer is delivered only while the anchor of its request is still the one it was
sent with, unless it holds no more than the one tweet that is dropped. -/
def Anchored (τ : Transition Overlap Event) : Prop :=
  ∀ request answer, τ.event = .deliver request → request.answer = some answer →
    τ.source.vm.anchor request.kind = request.anchor ∨ answer.length ≤ 1

/-! ### What an answer holds -/

/-- The answer holds published tweets, and sorted it begins or ends with the anchor. -/
structure Answered (server : List PostTweetModel) (kind : RequestKind) (anchor : Option ℚ)
    (answer : List ViewTweetModel) : Prop where
  stamp_ne : ∀ tweet ∈ answer, tweet.createdTimeStamp ≠ none
  isDescending : IsDescending (fun tweet => tweet.stamp)
    (sort (fun tweet => tweet.stamp) (answer.map ViewTweetModel.record))
  mem_server : ∀ tweet ∈ answer, tweet.record ∈ server
  anchored : ∀ value : ℚ, anchor = some value →
    match kind with
    | .fetchTweets => ∃ a older, a.stamp = (value : WithBot ℚ) ∧
        sort (fun tweet => tweet.stamp) (answer.map ViewTweetModel.record) = a :: older
    | .refresh => ∃ newer a, a.stamp = (value : WithBot ℚ) ∧
        sort (fun tweet => tweet.stamp) (answer.map ViewTweetModel.record) = newer ++ [a]

/-- What holds of a request under way: its query has the shape of its kind, its anchor is the time
stamp of a published tweet, and its answer is as it should be. -/
structure RequestSound (server : List PostTweetModel) (request : Request) : Prop where
  shape : match request.kind with
    | .fetchTweets => ∃ k, request.query = ⟨some (k + 1), none, request.anchor⟩
    | .refresh => ∃ value : ℚ, request.query = ⟨none, some value, none⟩
  anchor_mem : ∀ value : ℚ, request.anchor = some value →
    ∃ tweet ∈ server, tweet.stamp = (value : WithBot ℚ)
  answered : ∀ answer, request.answer = some answer →
    Answered server request.kind request.anchor answer

theorem Answered.mono {server server' : List PostTweetModel} {kind : RequestKind}
    {anchor : Option ℚ} {answer : List ViewTweetModel} (h : Answered server kind anchor answer)
    (hs : server ⊆ server') : Answered server' kind anchor answer :=
  { h with mem_server := fun tweet ht => hs (h.mem_server tweet ht) }

theorem RequestSound.mono {server server' : List PostTweetModel} {request : Request}
    (h : RequestSound server request) (hs : server ⊆ server') : RequestSound server' request where
  shape := h.shape
  anchor_mem value hvalue :=
    let ⟨tweet, ht, hstamp⟩ := h.anchor_mem value hvalue
    ⟨tweet, hs ht, hstamp⟩
  answered answer hans := (h.answered answer hans).mono hs

/-- The server's answer to a request is as it should be. -/
theorem RequestSound.answer {server : List PostTweetModel} (hserver : Published server)
    {kind : RequestKind} {query : FirebaseQuery} {answer : List ViewTweetModel}
    (h : RequestSound server ⟨kind, query, none⟩) (answers : query.Answers server answer) :
    RequestSound server ⟨kind, query, some answer⟩ := by
  refine ⟨h.shape, h.anchor_mem, fun answer' hans => ?_⟩
  obtain rfl := Option.some.inj hans
  have hsort := FirebaseQuery.sort_records_of_answers hserver answers
  have hpage := query.page_sublist server
  refine ⟨FirebaseQuery.stamp_ne_of_answers hserver answers,
    hsort ▸ hserver.isDescending.sublist hpage, fun tweet ht => ?_, fun value hvalue => ?_⟩
  · have hmem : tweet.record ∈ query.page server :=
      hsort ▸ (mem_sort _).mpr (List.mem_map_of_mem ht)
    exact (mem_sort _).mp (hpage.subset hmem)
  · obtain ⟨a, ha, hstamp⟩ := h.anchor_mem value hvalue
    obtain ⟨newer, older, hsplit⟩ : ∃ newer older, descending server = newer ++ a :: older :=
      List.append_of_mem ((mem_sort _).mpr ha)
    have hdesc := hsplit ▸ hserver.isDescending
    rw [hsort]
    cases kind with
    | fetchTweets =>
      obtain ⟨k, hquery⟩ := h.shape
      refine ⟨a, older.take k, hstamp, ?_⟩
      rw [show query = ⟨some (k + 1), none, some value⟩ from hvalue ▸ hquery,
        FirebaseQuery.page_ending, ← hstamp, hsplit, hdesc.filter_le, List.take_succ_cons]
    | refresh =>
      obtain ⟨_, rfl⟩ := h.shape
      obtain rfl := Option.some.inj hvalue
      refine ⟨newer, a, hstamp, ?_⟩
      rw [FirebaseQuery.page_starting, ← hstamp, hsplit, hdesc.filter_ge]

/-! ### The invariant -/

/-- The list is strictly descending and made of published tweets, and its cursor is its last time
stamp. -/
structure ListSound (server : List PostTweetModel) (vm : HomeViewModel) : Prop where
  isDescending : IsDescending (fun tweet => tweet.stamp) vm.records
  records_subset : vm.records ⊆ server
  cursor_eq : vm.lastCreatedDateTimeStamp =
    vm.records.getLast?.bind fun tweet => tweet.createdTimeStamp

/-- The invariant: the list is sound, and so are the requests under way. -/
structure Sound (s : Overlap) : Prop where
  published : Published s.server
  list_sound : ListSound s.server s.vm
  request_sound : ∀ request ∈ s.inFlight, RequestSound s.server request

theorem sound_initial (isiPhone : Bool) {server : List PostTweetModel} (h : Published server) :
    Sound (initial isiPhone server) where
  published := h
  list_sound := ⟨List.Pairwise.nil, List.nil_subset _, rfl⟩
  request_sound _ hr := absurd hr List.not_mem_nil

namespace ListSound

variable {server rows : List PostTweetModel} {vm vm' : HomeViewModel} (h : ListSound server vm)

include h

/-- Nothing is displayed twice. -/
theorem tweetIDs_nodup (hserver : Published server) :
    (vm.tweetList.map fun tweet => tweet.tweetID).Nodup := by
  have hids : (vm.records.map fun tweet => tweet.tweetID).Nodup := by
    refine List.Nodup.map_on (fun a ha b hb hab => ?_) h.isDescending.nodup
    exact hserver.eq_of_tweetID_eq (h.records_subset ha) (h.records_subset hb) hab
  rwa [HomeViewModel.records, List.map_map] at hids

/-- Descending rows below the last row can be appended. -/
theorem appended (hrows : IsDescending (fun tweet => tweet.stamp) rows) (hsub : rows ⊆ server)
    (hlt : ∀ last ∈ vm.records.getLast?, ∀ row ∈ rows, row.stamp < last.stamp)
    (happ : vm.Appended rows vm') : ListSound server vm' := by
  refine ⟨?_, ?_, ?_⟩
  · rw [happ.records_eq]
    rcases List.eq_nil_or_concat' vm.records with hnil | ⟨xs, last, hlast⟩
    · rwa [hnil, List.nil_append]
    · have hmem : last ∈ vm.records.getLast? := by simp [hlast]
      have hold := h.isDescending
      rw [hlast] at hold ⊢
      exact hold.append hrows (hlt last hmem)
  · rw [happ.records_eq]
    exact List.append_subset.mpr ⟨h.records_subset, hsub⟩
  · rw [happ.cursor_eq, happ.records_eq, List.getLast?_append]
    split_ifs with hnil
    · rw [hnil, List.getLast?_nil, Option.none_or, h.cursor_eq]
    · rw [List.getLast?_eq_some_getLast hnil, Option.some_or]

/-- Descending rows above the first row can be prepended. -/
theorem prepended (hrows : IsDescending (fun tweet => tweet.stamp) rows) (hsub : rows ⊆ server)
    (hgt : ∃ first ∈ vm.records.head?, ∀ row ∈ rows, first.stamp < row.stamp)
    (hpre : vm.Prepended rows vm') : ListSound server vm' := by
  obtain ⟨first, hfirst, hgt⟩ := hgt
  obtain ⟨ys, hys⟩ := List.head?_eq_some_iff.mp hfirst
  refine ⟨?_, ?_, ?_⟩
  · have hold := h.isDescending
    rw [hys] at hold
    rw [hpre.records_eq, hys]
    exact IsDescending.prepend hrows hold hgt
  · rw [hpre.records_eq]
    exact List.append_subset.mpr ⟨hsub, h.records_subset⟩
  · rw [hpre.cursor_eq, hpre.records_eq, h.cursor_eq, hys, List.getLast?_append,
      List.getLast?_cons, Option.some_or]

end ListSound

/-- Sending puts the anchor of the moment into the query. -/
theorem Sound.send {s : Overlap} (h : Sound s) {kind : RequestKind} {query : FirebaseQuery}
    (sent : s.vm.requestQuery kind = some query) : RequestSound s.server ⟨kind, query, none⟩ := by
  cases kind with
  | fetchTweets =>
    obtain rfl := Option.some.inj sent
    refine ⟨⟨if s.vm.lastCreatedDateTimeStamp = none then s.vm.pageSize - 1 else s.vm.pageSize, ?_⟩,
      fun value hvalue => ?_, fun _ hnone => absurd hnone.symm (Option.some_ne_none _)⟩
    · have hpos := s.vm.pageSize_pos
      simp only [HomeViewModel.fetchTweetsQuery, Request.anchor]
      split_ifs
      · rw [Nat.sub_add_cancel hpos]
      · rfl
    · have hlast : s.vm.lastCreatedDateTimeStamp = some value := hvalue
      rw [h.list_sound.cursor_eq] at hlast
      obtain ⟨tweet, ht, hstamp⟩ := Option.bind_eq_some_iff.mp hlast
      exact ⟨tweet, h.list_sound.records_subset (List.mem_of_getLast? ht), hstamp⟩
  | refresh =>
    obtain ⟨value, hfirst, rfl⟩ := Option.map_eq_some_iff.mp sent
    refine ⟨⟨value, rfl⟩, fun value' hvalue => ?_,
      fun _ hnone => absurd hnone.symm (Option.some_ne_none _)⟩
    obtain rfl := Option.some.inj hvalue
    obtain ⟨tweet, ht, hstamp⟩ := Option.bind_eq_some_iff.mp hfirst
    exact ⟨tweet.record,
      h.list_sound.records_subset (List.mem_map_of_mem (List.mem_of_mem_head? ht)), hstamp⟩

section Deliver

variable {server : List PostTweetModel} {vm vm' : HomeViewModel} {anchor : Option ℚ}
  {answer : List ViewTweetModel}

theorem Answered.sorted_subset {kind : RequestKind} (h : Answered server kind anchor answer) :
    sort (fun tweet => tweet.stamp) (answer.map ViewTweetModel.record) ⊆ server := by
  intro row hrow
  obtain ⟨tweet, ht, rfl⟩ := List.mem_map.mp ((mem_sort _).mp hrow)
  exact h.mem_server tweet ht

/-- Without its newest tweet an answer of one tweet is empty. -/
theorem tail_sorted_eq_nil (h : answer.length ≤ 1) :
    (sort (fun tweet => tweet.stamp) (answer.map ViewTweetModel.record)).tail = [] := by
  rw [← List.length_eq_zero_iff, List.length_tail, length_sort, List.length_map]
  omega

theorem dropLast_sorted_eq_nil (h : answer.length ≤ 1) :
    (sort (fun tweet => tweet.stamp) (answer.map ViewTweetModel.record)).dropLast = [] := by
  rw [← List.length_eq_zero_iff, List.length_dropLast, length_sort, List.length_map]
  omega

/-- Older tweets go below the last row if the cursor is still the anchor of the request. -/
theorem ListSound.deliver_older (h : ListSound server vm) (hserver : Published server)
    (hans : Answered server .fetchTweets anchor answer)
    (hguard : vm.lastCreatedDateTimeStamp = anchor ∨ answer.length ≤ 1)
    (happ : vm.Appended (vm.olderRows answer) vm') : ListSound server vm' := by
  have hlast : ∀ last ∈ vm.records.getLast?, vm.lastCreatedDateTimeStamp = last.createdTimeStamp :=
    fun last hlast => by rw [h.cursor_eq, Option.mem_def.mp hlast, Option.bind_some]
  unfold HomeViewModel.olderRows at happ
  split_ifs at happ with hcursor
  · refine h.appended hans.isDescending hans.sorted_subset (fun last hmem => ?_) happ
    exact absurd ((hlast last hmem).symm.trans hcursor)
      (hserver.stamp_ne last (h.records_subset (List.mem_of_getLast? hmem)))
  · refine h.appended (hans.isDescending.sublist (List.tail_sublist _))
      (fun row hrow => hans.sorted_subset (List.mem_of_mem_tail hrow)) (fun last hmem => ?_) happ
    rcases hguard with hanchor | hshort
    · obtain ⟨value, hvalue⟩ := Option.ne_none_iff_exists'.mp hcursor
      obtain ⟨a, older, ha, hsorted⟩ := hans.anchored value (hanchor.symm.trans hvalue)
      have hdesc := hans.isDescending
      rw [hsorted] at hdesc ⊢
      have hstamp : last.stamp = a.stamp := ((hlast last hmem).symm.trans hvalue).trans ha.symm
      exact fun row hrow => hstamp ▸ (List.pairwise_cons.mp hdesc).1 row hrow
    · rw [tail_sorted_eq_nil hshort]
      exact List.forall_mem_nil _

/-- Newer tweets go above the first row if it is still the anchor of the request. -/
theorem ListSound.deliver_newer (h : ListSound server vm)
    (hans : Answered server .refresh anchor answer) (hne : anchor ≠ none)
    (hguard : vm.anchor .refresh = anchor ∨ answer.length ≤ 1)
    (hpre : vm.Prepended (HomeViewModel.newerRows answer) vm') : ListSound server vm' := by
  unfold HomeViewModel.newerRows at hpre
  rcases hguard with hanchor | hshort
  · obtain ⟨value, hvalue⟩ := Option.ne_none_iff_exists'.mp hne
    obtain ⟨newer, a, ha, hsorted⟩ := hans.anchored value hvalue
    have hdesc := hans.isDescending
    have hsub := hans.sorted_subset
    rw [hsorted, List.dropLast_concat] at hpre
    rw [hsorted] at hdesc hsub
    obtain ⟨tweet, hfirst, htweet⟩ := Option.bind_eq_some_iff.mp (hanchor.trans hvalue)
    refine h.prepended (hdesc.sublist (List.sublist_append_left _ _))
      (fun row hrow => hsub (List.mem_append_left _ hrow)) ⟨tweet.record, ?_, fun row hrow => ?_⟩
      hpre
    · rw [HomeViewModel.records, List.head?_map, hfirst]
      rfl
    · have hstamp : tweet.record.stamp = a.stamp := (show _ = _ from htweet).trans ha.symm
      exact hstamp ▸ (List.pairwise_append.mp hdesc).2.2 row hrow a (List.mem_singleton_self a)
  · rw [dropLast_sorted_eq_nil hshort] at hpre
    refine ⟨?_, ?_, ?_⟩
    · exact (hpre.records_eq.trans (List.nil_append _)) ▸ h.isDescending
    · exact (hpre.records_eq.trans (List.nil_append _)) ▸ h.records_subset
    · rw [hpre.cursor_eq, hpre.records_eq, List.nil_append, h.cursor_eq]

/-- A guarded delivery. -/
theorem ListSound.deliver (h : ListSound server vm) (hserver : Published server)
    {kind : RequestKind} {query : FirebaseQuery}
    (hr : RequestSound server ⟨kind, query, some answer⟩) {loggedInUser : Option UserModel}
    {profiles : ℕ → Option UserModel} {update : Option TableUpdate}
    (delivered : vm.requestDelivered loggedInUser profiles (FirebaseQuery.decoded answer) kind =
      .ok (vm', update))
    (hguard : vm.anchor kind = Request.anchor ⟨kind, query, some answer⟩ ∨ answer.length ≤ 1) :
    ListSound server vm' := by
  have hans := hr.answered answer rfl
  cases kind with
  | fetchTweets =>
    obtain ⟨_, _, hok, happ⟩ := vm.fetchTweetsAnswered_spec loggedInUser profiles hans.stamp_ne
    obtain ⟨rfl, -⟩ := Prod.mk.inj (Except.ok.inj (hok.symm.trans delivered))
    exact h.deliver_older hserver hans hguard happ
  | refresh =>
    obtain ⟨_, _, hok, hpre⟩ :=
      vm.fetchLatestTweetsAnswered_spec loggedInUser profiles hans.stamp_ne
    obtain ⟨rfl, -⟩ := Prod.mk.inj (Except.ok.inj (hok.symm.trans delivered))
    obtain ⟨value, rfl⟩ := hr.shape
    exact h.deliver_newer hans (Option.some_ne_none value) hguard hpre

end Deliver

/-- A failure is shown, and changes nothing in the list. -/
theorem eq_of_failed {vm vm' : HomeViewModel} {kind : RequestKind} {error : AppError}
    {update : Option TableUpdate}
    (delivered : vm.requestDelivered none (fun _ => none) (.error error) kind =
      .ok (vm', update)) : vm' = vm := by
  cases kind <;> exact (Prod.mk.inj (Except.ok.inj delivered)).1.symm

/-- **A guarded step keeps the list sound.** -/
theorem step_sound {s s' : Overlap} {e : Event} (h : Sound s) (step : Step s e s')
    (hguard : Anchored ⟨s, e, s'⟩) : Sound s' := by
  cases step with
  | send sent =>
    refine ⟨h.published, h.list_sound, fun request hr => ?_⟩
    rcases List.mem_append.mp hr with hr | hr
    · exact h.request_sound request hr
    · exact List.mem_singleton.mp hr ▸ h.send sent
  | sendNothing sent => exact h
  | @answer before after kind query answer pending answers =>
    have hpending := List.forall_mem_append.mp (pending ▸ h.request_sound)
    obtain ⟨hthis, hafter⟩ := List.forall_mem_cons.mp hpending.2
    refine ⟨h.published, h.list_sound, List.forall_mem_append.mpr ⟨hpending.1, ?_⟩⟩
    exact List.forall_mem_cons.mpr ⟨hthis.answer h.published answers, hafter⟩
  | @deliver before after kind query answer loggedInUser profiles vm' update pending delivered =>
    have hpending := List.forall_mem_append.mp (pending ▸ h.request_sound)
    obtain ⟨hthis, hafter⟩ := List.forall_mem_cons.mp hpending.2
    refine ⟨h.published, ?_, List.forall_mem_append.mpr ⟨hpending.1, hafter⟩⟩
    exact h.list_sound.deliver h.published hthis delivered (hguard _ answer rfl rfl)
  | @fail before after kind query error vm' update pending delivered =>
    have hpending := List.forall_mem_append.mp (pending ▸ h.request_sound)
    obtain ⟨-, hafter⟩ := List.forall_mem_cons.mp hpending.2
    obtain rfl := eq_of_failed delivered
    exact ⟨h.published, h.list_sound, List.forall_mem_append.mpr ⟨hpending.1, hafter⟩⟩
  | @post tweet hid fresh hstamp distinct =>
    have hgrow : s.server ⊆ tweet :: s.server := List.subset_cons_self _ _
    refine ⟨h.published.cons hid fresh hstamp distinct, ?_,
      fun request hr => (h.request_sound request hr).mono hgrow⟩
    exact { h.list_sound with
      records_subset := List.Subset.trans h.list_sound.records_subset hgrow }

/-- **Overlapping requests that are delivered on their anchor neither duplicate nor reorder.** -/
theorem isDescending_of_anchored (isiPhone : Bool) {server : List PostTweetModel}
    (hserver : Published server) {ts : List (Transition Overlap Event)} {s : Overlap}
    (run : Run Step (initial isiPhone server) ts s) (hguard : ∀ τ ∈ ts, Anchored τ) :
    (s.vm.tweetList.map fun tweet => tweet.tweetID).Nodup ∧
      IsDescending (fun tweet => tweet.stamp) s.vm.tweetList := by
  have hsound := run.invariant_of_guard (fun _ _ _ h step hg => step_sound h step hg)
    (sound_initial isiPhone hserver) hguard
  exact ⟨hsound.list_sound.tweetIDs_nodup hsound.published,
    List.pairwise_map.mp hsound.list_sound.isDescending⟩

/-- The answer that lists the given records, which hold no author. -/
private def answerOf (tweets : List PostTweetModel) : List ViewTweetModel :=
  tweets.map fun tweet => { tweet with }

/-- The first page, with a post while it is under way. -/
theorem isDescending_of_anchored_two :
    ∃ ts s, Run Step (initial true [Timeline.tweetAt "a" 1]) ts s ∧ ts.length = 4 ∧
      s.vm.records = [Timeline.tweetAt "b" 2, Timeline.tweetAt "a" 1] ∧
      IsDescending (fun tweet => tweet.stamp) s.vm.tweetList := by
  have answers : FirebaseQuery.Answers ⟨some 10, none, none⟩
      [Timeline.tweetAt "b" 2, Timeline.tweetAt "a" 1]
      (answerOf [Timeline.tweetAt "a" 1, Timeline.tweetAt "b" 2]) := by decide
  have start : Run Step (initial true [Timeline.tweetAt "a" 1]) [] _ := .nil _
  have run := start
    |>.snoc (.send (show HomeViewModel.requestQuery _ .fetchTweets = _ from rfl))
    |>.snoc (.post (show (Timeline.tweetAt "b" 2).tweetID ≠ none by decide) (by decide)
      (by decide) (by decide))
    |>.snoc (.answer (show _ = [] ++ _ :: [] from rfl) answers)
    |>.snoc (.deliver (show _ = [] ++ _ :: [] from rfl)
      (show HomeViewModel.requestDelivered _ none (fun _ => none) _ _ = _ from rfl))
  refine ⟨_, _, run, rfl, by decide, (isDescending_of_anchored true ?_ run ?_).2⟩
  · constructor <;> decide
  · simp only [List.nil_append, List.cons_append, List.forall_mem_cons, Anchored]
    refine ⟨nofun, nofun, nofun, fun request answer he _ => .inl ?_, List.forall_mem_nil _⟩
    obtain rfl := Event.deliver.inj he
    rfl

/-- The user pulls to refresh and, before the answer, publishes a tweet, whose completion refreshes
once more: both requests start at the same first row, and the tweet is shown twice. -/
theorem not_isDescending_of_run :
    ¬ ∀ (isiPhone : Bool) (server : List PostTweetModel) (ts : List (Transition Overlap Event))
      (s : Overlap), Published server → Run Step (initial isiPhone server) ts s →
        (s.vm.tweetList.map fun tweet => tweet.tweetID).Nodup ∧
          IsDescending (fun tweet => tweet.stamp) s.vm.tweetList := by
  have first : FirebaseQuery.Answers ⟨some 10, none, none⟩ [Timeline.tweetAt "a" 1]
      (answerOf [Timeline.tweetAt "a" 1]) := by decide
  have latest : FirebaseQuery.Answers ⟨none, some 1, none⟩
      [Timeline.tweetAt "b" 2, Timeline.tweetAt "a" 1]
      (answerOf [Timeline.tweetAt "b" 2, Timeline.tweetAt "a" 1]) := by decide
  have start : Run Step (initial true [Timeline.tweetAt "a" 1]) [] _ := .nil _
  have shown := start
    |>.snoc (.send (show HomeViewModel.requestQuery _ .fetchTweets = _ from rfl))
    |>.snoc (.answer (show _ = [] ++ _ :: [] from rfl) first)
    |>.snoc (.deliver (show _ = [] ++ _ :: [] from rfl)
      (show HomeViewModel.requestDelivered _ none (fun _ => none) _ _ = _ from rfl))
  have sent := shown
    |>.snoc (.send (show HomeViewModel.requestQuery _ .refresh = _ from rfl))
    |>.snoc (.post (show (Timeline.tweetAt "b" 2).tweetID ≠ none by decide) (by decide)
      (by decide) (by decide))
    |>.snoc (.send (show HomeViewModel.requestQuery _ .refresh = _ from rfl))
  have run := sent
    |>.snoc (.answer (show _ = [] ++ _ :: _ from rfl) latest)
    |>.snoc (.answer (show _ = [_] ++ _ :: [] from rfl) latest)
    |>.snoc (.deliver (show _ = [] ++ _ :: _ from rfl)
      (show HomeViewModel.requestDelivered _ none (fun _ => none) _ _ = _ from rfl))
    |>.snoc (.deliver (show _ = [] ++ _ :: [] from rfl)
      (show HomeViewModel.requestDelivered _ none (fun _ => none) _ _ = _ from rfl))
  intro h
  have hnodup := (h true _ _ _ (by constructor <;> decide) run).1
  revert hnodup
  decide

end Overlap

end TwitterLite
