import TwitterLite.Home.ViewModel
import TwitterLite.Library.DispatchGroup
import TwitterLite.Library.TransitionSystem
import TwitterLite.Session.Authentication

/-!
# When an operation that fetches calls back

Four operations wait for single-event queries: the two timeline requests, the query of the record of
the signed-in user, and the email sign-in, which asks Auth first. A query ends with a value or is
cancelled; `observeSingleEvent` is called without a cancel block, so that nothing runs on a
cancellation. A timeline request joins one more query for each author by a group which only the
values leave.

`Fetching` is one such operation under way, driven by the endings of its queries in any order. When
nothing is left to happen, the callback has been called once exactly if no query was cancelled and
the answer did not make the app trap (`Fetching.callsBackOnce_iff`).

## Main definitions

* `TwitterLite.FetchOperation`, `TwitterLite.Fetching`, `TwitterLite.Fetching.Step`.
* `TwitterLite.Fetching.CallsBackOnce`, `TwitterLite.Fetching.EndsWell`.

## Main results

* `TwitterLite.HomeViewModel.exists_sortedTweets_iff`.
* `TwitterLite.Fetching.phase_of_run`, `TwitterLite.Fetching.callsBackOnce_iff`.

Source: `FirebaseDatabaseManager.swift`, lines 26–69; `HomeViewModel.swift`, lines 24–82 and
144–174; `FirebaseAuthenticationManager.swift`, lines 39–64.
-/

namespace TwitterLite

open TransitionSystem

/-! ### The answers that can be joined -/

namespace HomeViewModel

variable {loggedInUser : Option UserModel} {profiles : ℕ → Option UserModel}
  {tweets : List ViewTweetModel}

/-- The tweets can be compared: there are not two of them, or all have time stamps. -/
def Comparable (tweets : List ViewTweetModel) : Prop :=
  ¬ (2 ≤ tweets.length ∧ ∃ tweet ∈ tweets, tweet.createdTimeStamp = none)

/-- Joining the authors does not change whether the tweets can be compared. -/
theorem comparable_mapIdx_withAuthor :
    Comparable (tweets.mapIdx fun i tweet => withAuthor loggedInUser (profiles i) tweet) ↔
      Comparable tweets := by
  have hrecords := map_record_mapIdx_withAuthor loggedInUser profiles tweets
  have hstamps (l : List ViewTweetModel) : (∃ tweet ∈ l, tweet.createdTimeStamp = none) ↔
      ∃ record ∈ l.map ViewTweetModel.record, record.createdTimeStamp = none := by
    simp
  rw [Comparable, Comparable, List.length_mapIdx, hstamps, hrecords, ← hstamps]

theorem exists_sortedTweets_iff :
    (∃ sorted, sortedTweets tweets = .ok sorted) ↔ Comparable tweets := by
  unfold sortedTweets Comparable
  split_ifs with h
  · exact iff_of_false (fun ⟨_, h⟩ => by cases h) (not_not.mpr h)
  · exact iff_of_true ⟨_, rfl⟩ h

theorem comparable_nil : Comparable [] := fun h => by
  simp at h

/-- A page is handed over exactly if its tweets can be compared. -/
theorem exists_fetchTweetsSorted_iff {vm : HomeViewModel} {error : Option AppError} :
    (∃ callBack, vm.fetchTweetsSorted (some tweets, error) = .ok callBack) ↔
      Comparable tweets := by
  cases tweets with
  | nil => exact iff_of_true ⟨_, rfl⟩ comparable_nil
  | cons tweet tweets =>
    rw [← exists_sortedTweets_iff]
    refine exists_bind_eq_ok_iff fun sorted => ?_
    split_ifs <;> exact ⟨_, rfl⟩

/-- The newer tweets are handed over exactly if they can be compared. -/
theorem exists_fetchLatestTweetsSorted_iff {error : Option AppError} :
    (∃ callBack, fetchLatestTweetsSorted (some tweets, error) = .ok callBack) ↔
      Comparable tweets := by
  cases tweets with
  | nil => exact iff_of_true ⟨_, rfl⟩ comparable_nil
  | cons tweet tweets =>
    rw [← exists_sortedTweets_iff]
    exact exists_bind_eq_ok_iff fun sorted => ⟨_, rfl⟩

end HomeViewModel

/-! ### Operations -/

/-- An operation that fetches. -/
inductive FetchOperation where
  | fetchTweets
  | fetchLatestTweets
  | getloggedInUserDetail
  | signIn (userDetail : UserModel)

/-- An operation under way: whether Auth and the main query are still to answer, the tweets that are
being joined with the profiles that have arrived, the queries of the authors under way by the
positions of their tweets, the group, and what the callback has received as its error. -/
structure Fetching where
  auth : Bool := false
  main : Bool := false
  loggedInUser : Option UserModel := none
  tweets : List ViewTweetModel := []
  profiles : ℕ → Option UserModel := fun _ => none
  authors : List ℕ := []
  group : DispatchGroup := {}
  callBacks : List (Option AppError) := []
  trapped : Bool := false

namespace Fetching

variable (s : Fetching)

/-- The callback is called. -/
def calledBack (error : Option AppError) : Fetching :=
  { s with callBacks := s.callBacks ++ [error] }

/-- The app stops. -/
def stopped : Fetching := { callBacks := s.callBacks, trapped := true }

/-- The call of the operation. The record of the signed-in user is asked for with a user only. -/
def begin (vm : HomeViewModel) : FetchOperation → Fetching
  | .fetchTweets | .getloggedInUserDetail => { main := true }
  | .fetchLatestTweets =>
    match vm.fetchLatestTweetsQuery with
    | some _ => { main := true }
    | none => { callBacks := [some (.fireBase .missingParameters)] }
  | .signIn userDetail =>
    match userDetail.emailAddress, userDetail.password with
    | some _, some _ => { auth := true }
    | _, _ => { callBacks := [some (.login .missingParameters)] }

/-- The positions of the tweets whose authors `HomeViewModel.fetchUserDetails` queries. -/
def foreign (loggedInUser : Option UserModel) (tweets : List ViewTweetModel) : List ℕ :=
  (tweets.zipIdx.filter fun tweet =>
    some tweet.1.uid ≠ loggedInUser.bind UserModel.userID).map Prod.snd

/-- The paths of the authors that are queried are valid. -/
def AuthorsValid (loggedInUser : Option UserModel) (tweets : List ViewTweetModel) : Prop :=
  ∀ tweet ∈ tweets, some tweet.uid ≠ loggedInUser.bind UserModel.userID →
    isValidPathString ((UserEndPoint.getUserDetails tweet.uid).path none) = true

instance (loggedInUser : Option UserModel) (tweets : List ViewTweetModel) :
    Decidable (AuthorsValid loggedInUser tweets) :=
  inferInstanceAs (Decidable (∀ tweet ∈ tweets, _ → _))

/-- The beginning of `HomeViewModel.fetchUserDetails` for a list: one query for each author. -/
def fetchUserDetails (loggedInUser : Option UserModel) (tweets : List ViewTweetModel) : Fetching :=
  if AuthorsValid loggedInUser tweets then
    let authors := foreign loggedInUser tweets
    { s with
      main := false
      loggedInUser := loggedInUser
      tweets := tweets
      authors := authors
      group := (DispatchGroup.enter^[authors.length] {}).notify }
  else s.stopped

/-- The completion of a timeline request. -/
def sorted (vm : HomeViewModel) (joined : TweetsCallBack) :
    FetchOperation → Except Trap TweetsCallBack
  | .fetchLatestTweets => HomeViewModel.fetchLatestTweetsSorted joined
  | _ => vm.fetchTweetsSorted joined

/-- The block of `HomeViewModel.fetchUserDetails`: the joined tweets are sorted and handed over. -/
def joined (vm : HomeViewModel) (operation : FetchOperation) : Fetching :=
  let s := { s with group := s.group.run }
  match sorted vm (HomeViewModel.fetchUserDetails s.loggedInUser s.profiles (.ok s.tweets))
    operation with
  | .ok callBack => s.calledBack callBack.2
  | .error _ => s.stopped

/-- What can happen to the operation. -/
inductive Event where
  | authAnswered (error : Option AppError)
  | tweets (loggedInUser : Option UserModel) (result : Except AppError (List ViewTweetModel))
  | user (result : Except AppError UserModel)
  | cancelled
  | author (index : ℕ) (profile : Option UserModel)
  | authorCancelled (index : ℕ)
  | notified (vm : HomeViewModel)

/-- One step of a timeline request or of a query of the user's record. -/
inductive Step (operation : FetchOperation) : Fetching → Event → Fetching → Prop
  | authRefused {s : Fetching} {error : AppError} (pending : s.auth = true) :
      Step operation s (.authAnswered (some error))
        ({ s with auth := false }.calledBack (some error))
  | authAccepted {s : Fetching} (pending : s.auth = true) :
      Step operation s (.authAnswered none) { s with auth := false, main := true }
  /-- The main query of a timeline request delivers tweets. -/
  | tweets {s : Fetching} {loggedInUser : Option UserModel} {tweets : List ViewTweetModel}
      (kind : operation = .fetchTweets ∨ operation = .fetchLatestTweets)
      (pending : s.main = true) :
      Step operation s (.tweets loggedInUser (.ok tweets)) (s.fetchUserDetails loggedInUser tweets)
  | tweetsFailed {s : Fetching} {loggedInUser : Option UserModel} {error : AppError}
      (kind : operation = .fetchTweets ∨ operation = .fetchLatestTweets)
      (pending : s.main = true) :
      Step operation s (.tweets loggedInUser (.error error))
        ({ s with main := false }.calledBack (some error))
  /-- The main query of the other operations delivers a record. -/
  | user {s : Fetching} {record : UserModel}
      (kind : operation = .getloggedInUserDetail ∨ ∃ userDetail, operation = .signIn userDetail)
      (pending : s.main = true) :
      Step operation s (.user (.ok record)) ({ s with main := false }.calledBack none)
  | userFailed {s : Fetching} {error : AppError}
      (kind : operation = .getloggedInUserDetail ∨ ∃ userDetail, operation = .signIn userDetail)
      (pending : s.main = true) :
      Step operation s (.user (.error error)) ({ s with main := false }.calledBack (some error))
  /-- The main query is cancelled: nothing runs. -/
  | cancelled {s : Fetching} (pending : s.main = true) :
      Step operation s .cancelled { s with main := false }
  | author {s : Fetching} {before after : List ℕ} {index : ℕ} {profile : Option UserModel}
      (pending : s.authors = before ++ index :: after) :
      Step operation s (.author index profile)
        { s with
          profiles := Function.update s.profiles index profile
          authors := before ++ after
          group := s.group.leave }
  /-- The query of an author is cancelled: nothing runs. -/
  | authorCancelled {s : Fetching} {before after : List ℕ} {index : ℕ}
      (pending : s.authors = before ++ index :: after) :
      Step operation s (.authorCancelled index) { s with authors := before ++ after }
  | notified {s : Fetching} {vm : HomeViewModel} (queued : s.group.queued = true) :
      Step operation s (.notified vm) (s.joined vm operation)

/-- No request is outstanding, and no block is queued. -/
structure Quiescent : Prop where
  auth_eq : s.auth = false
  main_eq : s.main = false
  authors_eq : s.authors = []
  queued_eq : s.group.queued = false

/-- The callback has been called once, with an error if the main query was cancelled. -/
def CallsBackOnce (ts : List (Transition Fetching Event)) : Prop :=
  s.callBacks.length = 1 ∧
    ∀ τ ∈ ts, τ.event = .cancelled → ∃ error, s.callBacks = [some error]

/-- The event is no cancellation, and no answer that makes the app trap. -/
def EndsWell : Event → Prop
  | .cancelled | .authorCancelled _ => False
  | .tweets loggedInUser (.ok tweets) =>
    AuthorsValid loggedInUser tweets ∧ HomeViewModel.Comparable tweets
  | _ => True

/-! ### What a run has done -/

/-- The authors are not being joined. -/
structure Idle : Prop where
  authors_eq : s.authors = []
  group_eq : s.group = {}

/-- What a run has done; `fine` says that all of its events so far end well. The operation is asking
Auth, or waiting for its main query, or joining the authors, of which `k` have answered and `c` were
cancelled; or it is done, or it will never call back. -/
inductive Phase (fine : Prop) (s : Fetching) : Prop
  | asking (hfine : fine) (hauth : s.auth = true) (hmain : s.main = false) (hidle : s.Idle)
      (hcallBacks : s.callBacks = [])
  | querying (hfine : fine) (hauth : s.auth = false) (hmain : s.main = true) (hidle : s.Idle)
      (hcallBacks : s.callBacks = [])
  | joining (n k c : ℕ) (hfine : fine ↔ c = 0 ∧ HomeViewModel.Comparable s.tweets)
      (hauth : s.auth = false) (hmain : s.main = false) (hgroup : s.group = .joining n k)
      (hcount : s.authors.length + k + c = n) (hcallBacks : s.callBacks = [])
  | done (error : Option AppError) (hfine : fine) (hauth : s.auth = false) (hmain : s.main = false)
      (hidle : s.Idle) (hcallBacks : s.callBacks = [error])
  | dead (hfine : ¬ fine) (hauth : s.auth = false) (hmain : s.main = false) (hidle : s.Idle)
      (hcallBacks : s.callBacks = [])

variable {s} {s' : Fetching} {fine : Prop} {operation : FetchOperation} {e : Event}

theorem phase_begin (vm : HomeViewModel) (operation : FetchOperation) :
    Phase True (begin vm operation) := by
  have hidle (auth main : Bool) (callBacks : List (Option AppError)) :
      Idle { auth := auth, main := main, callBacks := callBacks } := ⟨rfl, rfl⟩
  cases operation with
  | fetchTweets => exact .querying trivial rfl rfl (hidle ..) rfl
  | getloggedInUserDetail => exact .querying trivial rfl rfl (hidle ..) rfl
  | fetchLatestTweets =>
    unfold begin
    cases vm.fetchLatestTweetsQuery with
    | some query => exact .querying trivial rfl rfl (hidle ..) rfl
    | none => exact .done _ trivial rfl rfl (hidle ..) rfl
  | signIn userDetail =>
    simp only [begin]
    split
    · exact .asking trivial rfl rfl (hidle ..) rfl
    · exact .done _ trivial rfl rfl (hidle ..) rfl

/-- A completion hands the tweets over exactly if they can be compared. -/
theorem exists_sorted_iff {vm : HomeViewModel} {tweets : List ViewTweetModel}
    {error : Option AppError} :
    (∃ callBack, sorted vm (some tweets, error) operation = .ok callBack) ↔
      HomeViewModel.Comparable tweets := by
  cases operation with
  | fetchLatestTweets => exact HomeViewModel.exists_fetchLatestTweetsSorted_iff
  | _ => exact HomeViewModel.exists_fetchTweetsSorted_iff

/-- Asking for the authors ends well exactly if their paths are valid, and then the joined tweets
must be comparable. -/
theorem phase_fetchUserDetails {loggedInUser : Option UserModel} {tweets : List ViewTweetModel}
    (hfine : fine) (hauth : s.auth = false) (hcallBacks : s.callBacks = []) :
    Phase (fine ∧ EndsWell (.tweets loggedInUser (.ok tweets)))
      (s.fetchUserDetails loggedInUser tweets) := by
  unfold fetchUserDetails
  split_ifs with hvalid
  · refine .joining (foreign loggedInUser tweets).length 0 0 ?_ hauth rfl
      (DispatchGroup.notify_iterate_enter _) rfl hcallBacks
    simp [EndsWell, hfine, hvalid]
  · exact .dead (fun h => hvalid h.2.1) rfl rfl ⟨rfl, rfl⟩ hcallBacks

/-- The block of the group runs when all authors have answered. -/
theorem phase_joined {vm : HomeViewModel} (h : Phase fine s) (queued : s.group.queued = true) :
    Phase fine (s.joined vm operation) := by
  cases h with
  | joining n k c hfine hauth hmain hgroup hcount hcallBacks =>
    rw [hgroup] at queued
    have hle := DispatchGroup.queued_joining.mp queued
    have hauthors : s.authors = [] := List.length_eq_zero_iff.mp (by omega)
    have hrun : s.group.run = {} := hgroup ▸ DispatchGroup.run_joining queued
    have hcomparable : fine ↔ HomeViewModel.Comparable s.tweets :=
      hfine.trans (and_iff_right (by omega))
    have hsorted : (∃ callBack, sorted vm (HomeViewModel.fetchUserDetails s.loggedInUser s.profiles
        (.ok s.tweets)) operation = .ok callBack) ↔ fine :=
      exists_sorted_iff.trans (HomeViewModel.comparable_mapIdx_withAuthor.trans hcomparable.symm)
    unfold joined
    cases hjoined : sorted vm (HomeViewModel.fetchUserDetails s.loggedInUser s.profiles
        (.ok s.tweets)) operation with
    | ok callBack =>
      simp only [hjoined]
      exact .done callBack.2 (hsorted.mp ⟨_, hjoined⟩) hauth hmain ⟨hauthors, hrun⟩
        (by simp [calledBack, hcallBacks])
    | error trap =>
      simp only [hjoined]
      refine .dead (fun hfine => ?_) rfl rfl ⟨rfl, rfl⟩ hcallBacks
      obtain ⟨callBack, hok⟩ := hsorted.mpr hfine
      cases hjoined.symm.trans hok
  | asking _ _ _ hidle => cases hidle.group_eq ▸ queued
  | querying _ _ _ hidle => cases hidle.group_eq ▸ queued
  | done _ _ _ _ hidle => cases hidle.group_eq ▸ queued
  | dead _ _ _ hidle => cases hidle.group_eq ▸ queued

/-- An answer to the main query, or its cancellation, comes while the operation waits for it. -/
theorem querying_of_main (h : Phase fine s) (pending : s.main = true) :
    fine ∧ s.auth = false ∧ s.Idle ∧ s.callBacks = [] := by
  cases h with
  | querying hfine hauth _ hidle hcallBacks => exact ⟨hfine, hauth, hidle, hcallBacks⟩
  | asking _ _ hmain => cases hmain.symm.trans pending
  | joining _ _ _ _ _ hmain => cases hmain.symm.trans pending
  | done _ _ _ hmain => cases hmain.symm.trans pending
  | dead _ _ hmain => cases hmain.symm.trans pending

/-- The query of an author ends while the authors are being joined. -/
theorem joining_of_authors {before after : List ℕ} {index : ℕ} (h : Phase fine s)
    (pending : s.authors = before ++ index :: after) :
    ∃ n k c, (fine ↔ c = 0 ∧ HomeViewModel.Comparable s.tweets) ∧ s.auth = false ∧
      s.main = false ∧ s.group = .joining n k ∧ (before ++ after).length + 1 + k + c = n ∧
      s.callBacks = [] := by
  have hne (hidle : s.Idle) : False := by simp [hidle.authors_eq] at pending
  cases h with
  | joining n k c hfine hauth hmain hgroup hcount hcallBacks =>
    refine ⟨n, k, c, hfine, hauth, hmain, hgroup, ?_, hcallBacks⟩
    simp only [pending, List.length_append, List.length_cons] at hcount ⊢
    omega
  | querying _ _ _ hidle => exact (hne hidle).elim
  | asking _ _ _ hidle => exact (hne hidle).elim
  | done _ _ _ _ hidle => exact (hne hidle).elim
  | dead _ _ _ hidle => exact (hne hidle).elim

/-- Auth answers while the operation is asking it. -/
theorem asking_of_auth (h : Phase fine s) (pending : s.auth = true) :
    fine ∧ s.main = false ∧ s.Idle ∧ s.callBacks = [] := by
  cases h with
  | asking hfine _ hmain hidle hcallBacks => exact ⟨hfine, hmain, hidle, hcallBacks⟩
  | querying _ hauth => cases hauth.symm.trans pending
  | joining _ _ _ _ hauth => cases hauth.symm.trans pending
  | done _ _ hauth => cases hauth.symm.trans pending
  | dead _ hauth => cases hauth.symm.trans pending

/-- The first call of the callback is the last thing that an operation does. -/
theorem phase_calledBack (error : Option AppError) (hfine : fine) (hauth : s.auth = false)
    (hmain : s.main = false) (hidle : s.Idle) (hcallBacks : s.callBacks = []) :
    Phase fine (s.calledBack error) :=
  .done error hfine hauth hmain ⟨hidle.authors_eq, hidle.group_eq⟩
    (by rw [calledBack, hcallBacks, List.nil_append])

/-- **A step keeps account of what has ended well.** -/
theorem phase_of_step (h : Phase fine s) (step : Step operation s e s') :
    Phase (fine ∧ EndsWell e) s' := by
  cases step with
  | authRefused pending =>
    obtain ⟨hfine, hmain, hidle, hcallBacks⟩ := asking_of_auth h pending
    exact phase_calledBack _ ⟨hfine, trivial⟩ rfl hmain ⟨hidle.1, hidle.2⟩ hcallBacks
  | authAccepted pending =>
    obtain ⟨hfine, hmain, hidle, hcallBacks⟩ := asking_of_auth h pending
    exact .querying ⟨hfine, trivial⟩ rfl rfl ⟨hidle.1, hidle.2⟩ hcallBacks
  | tweets kind pending =>
    obtain ⟨hfine, hauth, hidle, hcallBacks⟩ := querying_of_main h pending
    exact phase_fetchUserDetails hfine hauth hcallBacks
  | tweetsFailed kind pending =>
    obtain ⟨hfine, hauth, hidle, hcallBacks⟩ := querying_of_main h pending
    exact phase_calledBack _ ⟨hfine, trivial⟩ hauth rfl ⟨hidle.1, hidle.2⟩ hcallBacks
  | user kind pending =>
    obtain ⟨hfine, hauth, hidle, hcallBacks⟩ := querying_of_main h pending
    exact phase_calledBack _ ⟨hfine, trivial⟩ hauth rfl ⟨hidle.1, hidle.2⟩ hcallBacks
  | userFailed kind pending =>
    obtain ⟨hfine, hauth, hidle, hcallBacks⟩ := querying_of_main h pending
    exact phase_calledBack _ ⟨hfine, trivial⟩ hauth rfl ⟨hidle.1, hidle.2⟩ hcallBacks
  | cancelled pending =>
    obtain ⟨hfine, hauth, hidle, hcallBacks⟩ := querying_of_main h pending
    exact .dead (fun h => h.2) hauth rfl ⟨hidle.1, hidle.2⟩ hcallBacks
  | author pending =>
    obtain ⟨n, k, c, hfine, hauth, hmain, hgroup, hcount, hcallBacks⟩ :=
      joining_of_authors h pending
    refine .joining n (k + 1) c ((and_iff_left trivial).trans hfine) hauth hmain ?_ ?_ hcallBacks
    · rw [hgroup, DispatchGroup.leave_joining (by omega)]
    · rw [← hcount]
      dsimp only
      omega
  | authorCancelled pending =>
    obtain ⟨n, k, c, hfine, hauth, hmain, hgroup, hcount, hcallBacks⟩ :=
      joining_of_authors h pending
    refine .joining n k (c + 1) ?_ hauth hmain hgroup ?_ hcallBacks
    · exact iff_of_false (fun h => h.2) fun h => by cases h.1
    · rw [← hcount]
      dsimp only
      omega
  | notified queued =>
    simp only [EndsWell, and_true]
    exact phase_joined h queued

variable {ts : List (Transition Fetching Event)} {vm : HomeViewModel}

theorem phase_of_run (run : Run (Step operation) (begin vm operation) ts s) :
    Phase (∀ τ ∈ ts, EndsWell τ.event) s := by
  induction run with
  | nil =>
    have hstart := phase_begin vm operation
    simpa using hstart
  | snoc run step ih =>
    rw [List.forall_mem_append, List.forall_mem_singleton]
    exact phase_of_step ih step

/-- **When nothing is left to happen, the callback has been called once exactly if no query was
cancelled and no answer made the app trap.** -/
theorem callsBackOnce_iff (run : Run (Step operation) (begin vm operation) ts s)
    (quiescent : s.Quiescent) :
    s.CallsBackOnce ts ↔ ∀ τ ∈ ts, EndsWell τ.event := by
  have hnone (hcallBacks : s.callBacks = []) : ¬ s.CallsBackOnce ts := fun h => by
    simp [CallsBackOnce, hcallBacks] at h
  cases phase_of_run run with
  | asking _ hauth => cases quiescent.auth_eq.symm.trans hauth
  | querying _ _ hmain => cases quiescent.main_eq.symm.trans hmain
  | joining n k c hfine _ _ hgroup hcount hcallBacks =>
    refine iff_of_false (hnone hcallBacks) fun h => ?_
    have hcancelled := (hfine.mp h).1
    have hqueued : s.group.queued = true := by
      rw [hgroup, DispatchGroup.queued_joining]
      rw [quiescent.authors_eq, List.length_nil] at hcount
      omega
    cases quiescent.queued_eq.symm.trans hqueued
  | done error hfine _ _ _ hcallBacks =>
    refine iff_of_true ⟨by rw [hcallBacks]; rfl, fun τ hτ hcancelled => ?_⟩ hfine
    exact (hcancelled ▸ hfine τ hτ : EndsWell .cancelled).elim
  | dead hfine _ _ _ hcallBacks => exact iff_of_false (hnone hcallBacks) hfine

/-- The query of the first page is cancelled: the callback is never called. -/
theorem not_callsBackOnce :
    ¬ ∀ (vm : HomeViewModel) (operation : FetchOperation) (s : Fetching)
      (ts : List (Transition Fetching Event)), Run (Step operation) (begin vm operation) ts s →
        s.Quiescent → s.CallsBackOnce ts := by
  intro h
  have start : Run (Step .fetchTweets) (begin ⟨true, [], none⟩ .fetchTweets) [] _ := .nil _
  have run := start.snoc (.cancelled rfl)
  exact absurd (h _ _ _ _ run ⟨rfl, rfl, rfl, rfl⟩).1 (by decide)

/-- A page with one tweet, whose author answers. -/
theorem callsBackOnce_iff_one : ∃ ts s,
    Run (Step .fetchTweets) (begin ⟨true, [], none⟩ .fetchTweets) ts s ∧ s.Quiescent ∧
      ts.length = 3 ∧ s.CallsBackOnce ts := by
  have start : Run (Step .fetchTweets) (begin ⟨true, [], none⟩ .fetchTweets) [] _ := .nil _
  have run := start
    |>.snoc (show Step .fetchTweets _ (.tweets none (.ok [{ uid := "u" }])) _ from
      .tweets (.inl rfl) rfl)
    |>.snoc (show Step .fetchTweets _ (.author 0 none) _ from
      .author (show _ = [] ++ 0 :: [] from rfl))
    |>.snoc (show Step .fetchTweets _ (.notified ⟨true, [], none⟩) _ from .notified rfl)
  refine ⟨_, _, run, ⟨rfl, rfl, rfl, rfl⟩, rfl, (callsBackOnce_iff run ⟨rfl, rfl, rfl, rfl⟩).mpr ?_⟩
  simp only [List.nil_append, List.forall_mem_append, List.forall_mem_singleton, EndsWell, and_true]
  exact ⟨by decide, fun h => absurd h.1 (by decide)⟩

end Fetching

end TwitterLite
