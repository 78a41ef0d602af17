import TwitterLite.Common.Database
import TwitterLite.Library.TransitionSystem

/-!
# Signing in and out, and the cached profile

`Utils.shared.loggedInUser` is one global that four paths write: the two queries of the signed-in
user's record (the background refresh of the home screen and the email sign-in) and the two
account updates (account creation and Google sign-in). Each of them runs over several moments.
The path of a query is computed from Auth's current user when it is sent; the identifier in the
profile is taken from Auth's current user when the answer arrives. An account update stores the
record of the account and hands back a profile whose identifier it has cleared.

`Session` is the state that these paths share, `Session.Step` their steps: requests under way are
answered or fail in any order, between any sign-outs and sign-ins, and a screen that waits for an
answer may be gone when it arrives.

## Main definitions

* `TwitterLite.User`, `TwitterLite.Session`, `TwitterLite.Operation`.
* `TwitterLite.addUpdate`, `TwitterLite.continueAddUpdate`,
  `TwitterLite.authenticationDidComplete`.
* `TwitterLite.Session.Step`.

Source: `FirebaseAuthenticationManager.swift`, lines 21–161; `HomeViewModel.swift`, lines 20–36;
`HomeViewController.swift`, lines 18–66 and 136–193; `LoginViewController.swift`, lines 49–75;
`SigninViewController.swift`, lines 41–65; `CreateAccountViewController.swift`, lines 59–84.
-/

namespace TwitterLite

/-- The user of the authentication service; its identifier is a key of the database. -/
structure User where
  uid : String
  uid_valid : isValidPathString uid = true
  email : Option String := none
  displayName : Option String := none
  photoURL : Option String := none
  deriving DecidableEq, Repr

/-- Who asked for the record of the signed-in user. -/
inductive DetailCaller where
  /-- `HomeViewModel.getloggedInUserDetail`. -/
  | home
  /-- `FirebaseAuthenticationManager.signIn`. -/
  | signIn
  deriving DecidableEq, Repr

/-- An operation under way. -/
inductive Operation where
  /-- The query of a record, at the path computed when it was sent. -/
  | getLoggedInUserDetail (path : String) (caller : DetailCaller)
  /-- An account update: the upload of the profile image, then the write of the record. -/
  | addUpdate (user : UserModel)
  deriving DecidableEq, Repr

/-- The state that the sign-in paths share: Auth's current user, the records of the `Users`
collection by path, the cached profile, and the operations under way. -/
structure Session where
  currentUser : Option User
  users : String → Option UserModel
  loggedInUser : Option UserModel := none
  inFlight : List Operation := []

/-- The path of a user's record. -/
def User.path (user : User) : String := (UserEndPoint.postUserDetails user.uid).path none

/-! ### Account updates -/

/-- `FirebaseAuthenticationManager.continueAddUpdate`: the path and the record that are written,
which is also the profile handed back; `setValue` is the answer of the database. -/
def continueAddUpdate (user : UserModel) (url : String) (setValue : Option AppError) :
    Except AppError (String × UserModel) :=
  match user.userID with
  | none => .error (.fireBase .missingParameters)
  | some userID =>
    let userModel := { user with photoURL := some url, password := none, userID := none }
    match setValue with
    | none => .ok ((UserEndPoint.postUserDetails userID).path none, userModel)
    | some error => .error error

/-- `FirebaseAuthenticationManager.addUpdate`: `data` is the content of the photo's URL, if it can
be read, and `upload` the answer of the storage. -/
def addUpdate (user : UserModel) (data : Option Data) (upload : Except AppError String)
    (setValue : Option AppError) : Except AppError (String × UserModel) :=
  match user.photoURL, data, user.userID with
  | some _, some _, some _ =>
    match upload with
    | .error error => .error error
    | .ok url => continueAddUpdate user url setValue
  | _, _, _ => .error (.fireBase .missingParameters)

/-- The profile that `FirebaseAuthenticationManager.createAccount` updates. -/
def createdAccount (userDetail : UserModel) (user : User) : UserModel :=
  { userDetail with userID := some user.uid }

/-- The profile that `FirebaseAuthenticationManager.authenticationDidComplete` updates: the user
name is the local part of the email address. -/
def authenticationDidComplete (user : User) : UserModel where
  userID := some user.uid
  photoURL := user.photoURL
  displayName := user.displayName
  emailAddress := user.email
  userName := some (String.ofList ((user.email.getD "").toList.takeWhile fun c => c ≠ '@'))

/-- The profile of an account update has no identifier. -/
theorem userID_of_addUpdate {user record : UserModel} {data : Option Data}
    {upload : Except AppError String} {setValue : Option AppError} {path : String}
    (h : addUpdate user data upload setValue = .ok (path, record)) : record.userID = none := by
  unfold addUpdate at h
  split at h
  · split at h
    · cases h
    · unfold continueAddUpdate at h
      split at h
      · cases h
      · split at h
        · obtain ⟨-, rfl⟩ := Prod.mk.inj (Except.ok.inj h)
          rfl
        · cases h
  · cases h

namespace Session

/-! ### The moments of the sign-in paths -/

/-- A query of the signed-in user's record is sent: the path is that of Auth's current user, and
empty without one. -/
def getLoggedInUserDetail (s : Session) (caller : DetailCaller) : Except Trap Session :=
  let path := UserEndPoint.getLoggedInUserDetail.path (s.currentUser.map User.uid)
  match child path with
  | .ok _ => .ok { s with inFlight := s.inFlight ++ [.getLoggedInUserDetail path caller] }
  | .error trap => .error trap

/-- The app is launched; Auth remembers its user. -/
def launched (s : Session) : Except Trap Session :=
  let s := { s with loggedInUser := none, inFlight := [] }
  match s.currentUser with
  | none => .ok s
  | some _ => s.getLoggedInUserDetail .home

/-- `FirebaseAuthenticationManager.signOut`, which may throw. -/
def signOut (s : Session) : Option AppError → Session
  | none => { s with currentUser := none }
  | some _ => s

/-- Auth accepts an email and a password. -/
def signedIn (s : Session) (user : User) : Except Trap Session :=
  { s with currentUser := some user }.getLoggedInUserDetail .signIn

/-- Auth creates an account, or accepts a Google credential: the account update begins. -/
def authenticated (s : Session) (user : User) (account : UserModel) : Session :=
  { s with currentUser := some user, inFlight := s.inFlight ++ [.addUpdate account] }

/-- The profile of a record, with the identifier of Auth's current user. -/
def stamped (s : Session) (record : UserModel) : UserModel :=
  { record with userID := s.currentUser.map User.uid }

/-- A sign-in path completes: the profile is cached, and `loginDidComplete` asks for the record of
the signed-in user once more. -/
def loginDidComplete (s : Session) (user : UserModel) : Except Trap Session :=
  { s with loggedInUser := some user }.getLoggedInUserDetail .home

/-- The record of the signed-in user has been fetched. -/
def detailFetched (s : Session) (record : UserModel) : DetailCaller → Except Trap Session
  | .home => .ok { s with loggedInUser := some (s.stamped record) }
  | .signIn => s.loginDidComplete (s.stamped record)

/-- An account update has stored its record. -/
def stored (s : Session) (path : String) (record : UserModel) : Session :=
  { s with users := fun p => if p = path then some record else s.users p }

/-! ### Steps -/

/-- What can happen to a session. -/
inductive Event where
  | launch
  | signOut (error : Option AppError)
  | signIn (user : User)
  | createAccount (user : User) (userDetail : UserModel)
  | authenticateUser (user : User)
  | detailFetched (path : String) (record : UserModel) (caller : DetailCaller)
  | detailDropped (path : String)
  | detailFailed (path : String)
  | updated (path : String) (record : UserModel)
  | updateDropped (path : String) (record : UserModel)
  | updateFailed (error : AppError)

/-- One step. An answer that is dropped finds its screen gone. -/
inductive Step : Session → Event → Session → Prop
  | launch {s s' : Session} (launched : s.launched = .ok s') : Step s .launch s'
  | signOut {s : Session} (error : Option AppError) : Step s (.signOut error) (s.signOut error)
  | signIn {s s' : Session} {user : User} (signedIn : s.signedIn user = .ok s') :
      Step s (.signIn user) s'
  | createAccount {s : Session} (user : User) (userDetail : UserModel) :
      Step s (.createAccount user userDetail)
        (s.authenticated user (createdAccount userDetail user))
  | authenticateUser {s : Session} (user : User) :
      Step s (.authenticateUser user) (s.authenticated user (authenticationDidComplete user))
  | detailFetched {s s' : Session} {before after : List Operation} {path : String}
      {record : UserModel} {caller : DetailCaller}
      (pending : s.inFlight = before ++ .getLoggedInUserDetail path caller :: after)
      (answer : s.users path = some record)
      (fetched : { s with inFlight := before ++ after }.detailFetched record caller = .ok s') :
      Step s (.detailFetched path record caller) s'
  | detailDropped {s : Session} {before after : List Operation} {path : String}
      (pending : s.inFlight = before ++ .getLoggedInUserDetail path .signIn :: after) :
      Step s (.detailDropped path) { s with inFlight := before ++ after }
  | detailFailed {s : Session} {before after : List Operation} {path : String}
      {caller : DetailCaller}
      (pending : s.inFlight = before ++ .getLoggedInUserDetail path caller :: after) :
      Step s (.detailFailed path) { s with inFlight := before ++ after }
  | updated {s s' : Session} {before after : List Operation} {user record : UserModel}
      {data : Option Data} {upload : Except AppError String} {path : String}
      (pending : s.inFlight = before ++ .addUpdate user :: after)
      (update : TwitterLite.addUpdate user data upload none = .ok (path, record))
      (completed : ({ s with inFlight := before ++ after }.stored path record).loginDidComplete
        record = .ok s') :
      Step s (.updated path record) s'
  | updateDropped {s : Session} {before after : List Operation} {user record : UserModel}
      {data : Option Data} {upload : Except AppError String} {path : String}
      (pending : s.inFlight = before ++ .addUpdate user :: after)
      (update : TwitterLite.addUpdate user data upload none = .ok (path, record)) :
      Step s (.updateDropped path record)
        ({ s with inFlight := before ++ after }.stored path record)
  | updateFailed {s : Session} {before after : List Operation} {user : UserModel}
      {data : Option Data} {upload : Except AppError String} {setValue : Option AppError}
      {error : AppError} (pending : s.inFlight = before ++ .addUpdate user :: after)
      (update : TwitterLite.addUpdate user data upload setValue = .error error) :
      Step s (.updateFailed error) { s with inFlight := before ++ after }

/-- The app before its first launch in a process. -/
def initial (currentUser : Option User) (users : String → Option UserModel) : Session where
  currentUser := currentUser
  users := users

/-! ### What the moments leave behind -/

/-- Sending a query changes nothing but the operations under way. -/
theorem getLoggedInUserDetail_eq {s s' : Session} {caller : DetailCaller}
    (h : s.getLoggedInUserDetail caller = .ok s') :
    ∃ user, s.currentUser = some user ∧
      s' = { s with inFlight := s.inFlight ++ [.getLoggedInUserDetail user.path caller] } := by
  unfold getLoggedInUserDetail at h
  cases hcurrent : s.currentUser with
  | none =>
    rw [hcurrent] at h
    cases h
  | some user =>
    rw [hcurrent] at h
    refine ⟨user, rfl, ?_⟩
    dsimp only at h
    split at h
    · exact (Except.ok.inj h).symm
    · cases h

end Session

end TwitterLite
