import TwitterLite.Home.Overlap
import TwitterLite.Home.DeleteTweet
import TwitterLite.NewTweet.AddTweet
import TwitterLite.Session.CachedProfile

/-!
# The screens over a session

What the user can do depends on the screen. The home screen has the buttons for signing out and,
as soon as the record of the signed-in user has been fetched once since the launch, for composing a
tweet; its rows show a delete button if the cached profile was that of their author when they were
displayed. The login screen is up after a sign-out and after a launch without a user; its sign-ins
are accepted while it is up. The compose screen holds a draft whose author is taken from the cached
profile when it opens.

`App` is the state of one process with its screens, `App.Step` the steps of the session and of the
screens. It records what it has written and which deletions it has asked for, each with the
circumstances, as the properties of whole runs are about these.

While the home or the compose screen is up somebody is signed in, and the cached profile has the
identifier of that user or none (`App.Identified`, `App.step_identified`).

## Main definitions

* `TwitterLite.App`, `TwitterLite.App.Step`, `TwitterLite.loadData`.
* `TwitterLite.App.Identified`: the invariant of the screens.

## Main results

* `TwitterLite.App.step_identified`.

Source: `HomeViewController.swift`, lines 18–229; `TweetsTableViewCell.swift`, lines 25–56;
`NewTweetViewController.swift`, lines 78–97; `NewTweetViewModel.swift`, lines 11–69.
-/

namespace TwitterLite

open TransitionSystem

/-- The screen that is up. -/
inductive Screen where
  | closed
  | home
  | login
  | compose
  deriving DecidableEq, Repr

/-- The draft of the compose screen; `author` and `cached` record who was signed in and which
profile was cached when the screen opened. -/
structure Draft where
  viewModel : NewTweetViewModel
  author : Option User
  cached : Option UserModel

/-- A displayed row; `viewer` records the identifier in the cached profile, and `logins` how many
sign-ins had completed, when it was loaded. -/
structure Cell where
  tweetModel : ViewTweetModel
  deleteButtonHidden : Bool
  viewer : Option String
  logins : ℕ

/-- A record that `addTweet` has asked the database to write, from the given draft. -/
structure Written where
  record : PostTweetModel
  draft : Draft

/-- A call of `HomeViewModel.delete`: the row whose button was tapped, who was signed in, and how
many sign-ins had completed. -/
structure Deleted where
  cell : Cell
  currentUser : Option User
  logins : ℕ

/-- One process of the app. -/
structure App where
  session : Session
  vm : HomeViewModel
  screen : Screen := .closed
  newTweetButtonHidden : Bool := true
  draft : Option Draft := none
  cells : List Cell := []
  logins : ℕ := 0
  written : List Written := []
  deleted : List Deleted := []

/-- `TweetsTableViewCell.loadData`: the delete button is shown for the user's own tweets. -/
def loadData (loggedInUser : Option UserModel) (logins : ℕ) (tweetModel : ViewTweetModel) :
    Cell where
  tweetModel := tweetModel
  deleteButtonHidden :=
    match loggedInUser.bind UserModel.userID with
    | some loggedInUserID => loggedInUserID ≠ tweetModel.uid
    | none => true
  viewer := loggedInUser.bind UserModel.userID
  logins := logins

/-- A delete button is shown to the author of the tweet only. -/
theorem viewer_of_loadData {loggedInUser : Option UserModel} {logins : ℕ}
    {tweetModel : ViewTweetModel}
    (h : (loadData loggedInUser logins tweetModel).deleteButtonHidden = false) :
    (loadData loggedInUser logins tweetModel).viewer = some tweetModel.uid := by
  unfold loadData at h ⊢
  cases hid : loggedInUser.bind UserModel.userID with
  | none => simp [hid] at h
  | some loggedInUserID =>
    simp only [hid, ne_eq, decide_not, Bool.not_eq_eq_eq_not, Bool.not_false,
      decide_eq_true_eq] at h
    exact congrArg some h

/-- Somebody is signed in, and the cached profile has the identifier of that user or none. -/
def Session.Identified (session : Session) : Prop :=
  ∃ user, session.currentUser = some user ∧
    ∀ userID, session.loggedInUser.bind UserModel.userID = some userID → userID = user.uid

namespace Session

variable {s s' : Session}

theorem identified_launched (h : s.launched = .ok s') (hcurrent : s'.currentUser.isNone = false) :
    Identified s' := by
  unfold launched at h
  dsimp only at h
  split at h
  · obtain rfl := Except.ok.inj h
    simp_all
  · obtain ⟨user, huser, rfl⟩ := getLoggedInUserDetail_eq h
    exact ⟨user, huser, nofun⟩

/-- A fetched record is cached under the identifier of the signed-in user. -/
theorem identified_stamped {record : UserModel} {user : User}
    (hcurrent : s.currentUser = some user) (hcurrent' : s'.currentUser = s.currentUser)
    (hcache : s'.loggedInUser = some (s.stamped record)) : Identified s' := by
  refine ⟨user, hcurrent'.trans hcurrent, fun userID hid => ?_⟩
  rw [hcache, Option.bind_some, stamped, hcurrent, Option.map_some] at hid
  exact (Option.some.inj hid).symm

theorem identified_of_userID_none {user : UserModel} {current : User}
    (hcurrent : s'.currentUser = some current) (hcache : s'.loggedInUser = some user)
    (hnone : user.userID = none) : Identified s' := by
  refine ⟨current, hcurrent, fun userID hid => ?_⟩
  rw [hcache, Option.bind_some, hnone] at hid
  cases hid

/-- A sign-in path that completes leaves somebody signed in. -/
theorem loginDidComplete_eq {user : UserModel} (h : s.loginDidComplete user = .ok s') :
    s'.loggedInUser = some user ∧ s'.currentUser = s.currentUser ∧
      ∃ current, s.currentUser = some current := by
  obtain ⟨current, hcurrent, rfl⟩ := getLoggedInUserDetail_eq h
  exact ⟨rfl, rfl, current, hcurrent⟩

end Session

namespace App

variable {app app' : App}

/-! ### Steps -/

/-- What the screens make of a step of the session. -/
def afterSession (app : App) (session : Session) : Session.Event → App
  | .launch =>
    { app with
      session := session
      vm := { isiPhone := app.vm.isiPhone }
      screen := if session.currentUser.isNone then .login else .home
      newTweetButtonHidden := true
      draft := none
      cells := [] }
  | .signOut _ => { app with session := session, screen := .login }
  | .detailFetched _ _ .home => { app with session := session, newTweetButtonHidden := false }
  | .detailFetched _ _ .signIn | .updated _ _ =>
    { app with
      session := session
      screen := if app.screen = .login then .home else app.screen
      logins := app.logins + 1 }
  | _ => { app with session := session }

/-- Which steps of the session the screen that is up permits. -/
def Permits (app : App) : Session.Event → Prop
  | .signOut _ => app.screen = .home
  | .signIn _ | .createAccount _ _ | .authenticateUser _ => app.screen = .login
  | _ => True

/-- What can happen to the app. -/
inductive Event where
  | session (event : Session.Event)
  | loadTweets (kind : RequestKind)
  | display (tweetModel : ViewTweetModel)
  | openCompose
  | editDraft (caption : Option String) (photos : Option (List ImageWrapper))
  | addTweet
  | closeCompose
  | tapDelete (cell : Cell)
  | deleteCompleted (tweetModel : ViewTweetModel) (error : Option AppError)

/-- One step of the app. -/
inductive Step : App → Event → App → Prop
  | session {app : App} {event : Session.Event} {session' : Session}
      (step : Session.Step app.session event session') (permits : app.Permits event) :
      Step app (.session event) (app.afterSession session' event)
  /-- The answer to a timeline request is delivered; `reloadData` loads all rows anew. -/
  | loadTweets {app : App} {kind : RequestKind} {profiles : ℕ → Option UserModel}
      {result : Except AppError (List ViewTweetModel)} {vm' : HomeViewModel}
      {update : Option TableUpdate}
      (delivered : app.vm.requestDelivered app.session.loggedInUser profiles result kind =
        .ok (vm', update)) :
      Step app (.loadTweets kind)
        { app with
          vm := vm'
          cells := if update = some .reloadData then [] else app.cells }
  /-- A row is displayed. -/
  | display {app : App} {tweetModel : ViewTweetModel} (shown : tweetModel ∈ app.vm.tweetList) :
      Step app (.display tweetModel)
        { app with
          cells := loadData app.session.loggedInUser app.logins tweetModel :: app.cells }
  /-- `HomeViewController.newTweetClicked`. -/
  | openCompose {app : App} (screen : app.screen = .home)
      (visible : app.newTweetButtonHidden = false) :
      Step app .openCompose
        { app with
          screen := .compose
          draft := some
            { viewModel := .ofLoggedInUser app.session.loggedInUser
              author := app.session.currentUser
              cached := app.session.loggedInUser } }
  | editDraft {app : App} {draft : Draft} (composing : app.draft = some draft)
      (caption : Option String) (photos : Option (List ImageWrapper)) :
      Step app (.editDraft caption photos)
        { app with
          draft := some
            { draft with
              viewModel := ⟨{ draft.viewModel.tweetModel with
                caption := caption, photos := photos }⟩ } }
  /-- `NewTweetViewController.tweetButtonClicked`, with all that follows. -/
  | addTweet {app : App} {draft : Draft} (composing : app.draft = some draft)
      {tweetID : String} {completions : List (Except AppError String)} {now : ℚ}
      {setValue : Option AppError} {outcome : AddTweetOutcome}
      (added : draft.viewModel.addTweet tweetID completions now setValue = outcome) :
      Step app .addTweet
        { app with
          draft := some { draft with viewModel := ⟨outcome.tweetModel⟩ }
          written := app.written ++
            (outcome.posted.map fun write => ⟨write.2, draft⟩).toList }
  /-- The compose screen is dismissed, after a success or by its cancel button. -/
  | closeCompose {app : App} (screen : app.screen = .compose) :
      Step app .closeCompose { app with screen := .home, draft := none }
  /-- `TweetsTableViewCell.deleteTweet`. -/
  | tapDelete {app : App} {cell : Cell} (screen : app.screen = .home)
      (displayed : cell ∈ app.cells) (visible : cell.deleteButtonHidden = false) :
      Step app (.tapDelete cell)
        { app with
          deleted := app.deleted ++ [⟨cell, app.session.currentUser, app.logins⟩] }
  | deleteCompleted {app : App} {tweetModel : ViewTweetModel} {error : Option AppError}
      {vm' : HomeViewModel} {update : Option TableUpdate}
      (shown : app.vm.deleteShown tweetModel error = (vm', update)) :
      Step app (.deleteCompleted tweetModel error) { app with vm := vm' }

/-- The app before its first launch. -/
def initial (isiPhone : Bool) (currentUser : Option User) (users : String → Option UserModel) :
    App where
  session := Session.initial currentUser users
  vm := { isiPhone := isiPhone }

/-! ### Who is signed in behind the screen -/

/-- The home or the compose screen is up. -/
def Open (app : App) : Prop := app.screen = .home ∨ app.screen = .compose

/-- While the home or the compose screen is up, somebody is signed in, and the cached profile has
the identifier of that user or none. -/
def Identified (app : App) : Prop := app.Open → app.session.Identified

theorem Identified.congr (h : Identified app) (hopen : app'.Open → app.Open)
    (hcurrent : app'.session.currentUser = app.session.currentUser)
    (hcache : app'.session.loggedInUser = app.session.loggedInUser) : Identified app' := by
  unfold Identified Session.Identified
  rw [hcurrent, hcache]
  exact fun hop => h (hopen hop)

theorem not_open_of_login (h : app.screen = .login) : ¬ app.Open := by
  rintro (hs | hs) <;> cases h.symm.trans hs

/-- The steps of the session keep the user behind the screen identified. -/
theorem identified_afterSession (h : Identified app) {e : Session.Event} {session' : Session}
    (step : Session.Step app.session e session') (permits : app.Permits e) :
    Identified (app.afterSession session' e) := by
  cases step with
  | launch launched =>
    intro hopen
    cases hnone : session'.currentUser.isNone with
    | false => exact Session.identified_launched launched hnone
    | true => exact absurd hopen (not_open_of_login (by simp [afterSession, hnone]))
  | signOut error => exact fun hopen => absurd hopen (not_open_of_login rfl)
  | signIn signedIn => exact fun hopen => absurd hopen (not_open_of_login permits)
  | createAccount user userDetail => exact fun hopen => absurd hopen (not_open_of_login permits)
  | authenticateUser user => exact fun hopen => absurd hopen (not_open_of_login permits)
  | @detailFetched _ before after path record caller pending answer fetched =>
    cases caller with
    | home =>
      obtain rfl := Except.ok.inj fetched
      intro hopen
      obtain ⟨user, hcurrent, -⟩ := h hopen
      exact Session.identified_stamped hcurrent rfl rfl
    | signIn =>
      obtain ⟨hcache, hcurrent, user, huser⟩ := Session.loginDidComplete_eq fetched
      exact fun _ => Session.identified_stamped huser hcurrent hcache
  | detailDropped pending => exact h.congr id rfl rfl
  | detailFailed pending => exact h.congr id rfl rfl
  | updated pending update completed =>
    obtain ⟨hcache, hcurrent, user, huser⟩ := Session.loginDidComplete_eq completed
    exact fun _ => Session.identified_of_userID_none (hcurrent.trans huser) hcache
      (userID_of_addUpdate update)
  | updateDropped pending update => exact h.congr id rfl rfl
  | updateFailed pending update => exact h.congr id rfl rfl

theorem step_identified {e : Event} (h : Identified app) (step : Step app e app') :
    Identified app' := by
  cases step with
  | session step permits => exact identified_afterSession h step permits
  | loadTweets delivered => exact h.congr id rfl rfl
  | display shown => exact h.congr id rfl rfl
  | openCompose screen visible => exact h.congr (fun _ => .inl screen) rfl rfl
  | editDraft composing caption photos => exact h.congr id rfl rfl
  | addTweet composing added => exact h.congr id rfl rfl
  | closeCompose screen => exact h.congr (fun _ => .inr screen) rfl rfl
  | tapDelete screen displayed visible => exact h.congr id rfl rfl
  | deleteCompleted shown => exact h.congr id rfl rfl

/-- Before the first launch no screen is up. -/
theorem identified_initial (isiPhone : Bool) (currentUser : Option User)
    (users : String → Option UserModel) : Identified (initial isiPhone currentUser users) := by
  rintro (hs | hs) <;> cases hs

end App

end TwitterLite
