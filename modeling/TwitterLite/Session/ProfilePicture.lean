import TwitterLite.Session.LoginFlows

/-!
# The picture of a reported profile

An account update uploads the profile image to a path that is the same in every login of the user,
asks for the download URL of what is there, and writes the record with that URL.
`FirebaseDatabaseManager.uploadImage` asks whether or not the data has been stored, so a failed
upload is noticed only if there is no older picture at the path.

`ProfileBackend` is the storage and the `Users` collection, `ProfileOutcomes` what the backend
answers in one call. The update is the one of the login flows, with the answer of the upload found
from the storage (`ProfileUpdate.callBack_eq`).

So a delivered profile has its picture stored exactly if no upload fails over an older picture in a
call that goes through otherwise (`ProfileUpdate.storesPicture_iff`).

## Main definitions

* `TwitterLite.ProfileBackend`, `TwitterLite.ProfileOutcomes`, `TwitterLite.uploadImage`.
* `TwitterLite.ProfileUpdate`, `TwitterLite.ProfileUpdate.run`.
* `TwitterLite.ProfileUpdate.StoresPicture`, `TwitterLite.ProfileUpdate.NoOlderPicture`.

## Main results

* `TwitterLite.ProfileUpdate.callBack_eq`, `TwitterLite.ProfileUpdate.storesPicture_iff`.

Source: `FirebaseDatabaseManager.swift`, lines 71–113; `FirebaseAuthenticationManager.swift`,
lines 66–160; `PhotoEndPoint.swift`, lines 11–26.
-/

namespace TwitterLite

/-- An object of the storage, with its download URL. -/
structure StoredObject where
  data : Data
  url : String
  deriving DecidableEq, Repr

/-- The objects of the storage and the records of the `Users` collection, by path. -/
structure ProfileBackend where
  objects : String → Option StoredObject
  users : String → Option UserModel

/-- What the backend answers in one call, as far as the call gets there. -/
structure ProfileOutcomes where
  /-- `Auth.createUser`, or `Auth.signIn` with a credential. -/
  auth : Except AppError User
  /-- `Data(contentsOf:)` of the photo's URL. -/
  data : Option Data
  /-- `putData`: the data is stored and gets a download URL, or nothing is stored. -/
  putData : Except AppError String
  /-- The error of `downloadURL` if there is no object. -/
  objectNotFound : AppError
  /-- The write of the record. -/
  setValue : Option AppError

/-- `FirebaseDatabaseManager.uploadImage`: the objects after `putData`, and the answer of
`downloadURL`, which is asked for without a look at the error of `putData`. -/
def uploadImage (objects : String → Option StoredObject) (path : String) (data : Data)
    (outcomes : ProfileOutcomes) : (String → Option StoredObject) × Except AppError String :=
  let objects := match outcomes.putData with
    | .ok url => Function.update objects path (some ⟨data, url⟩)
    | .error _ => objects
  (objects, match objects path with
    | some object => .ok object.url
    | none => .error outcomes.objectNotFound)

namespace ProfileBackend

/-- `FirebaseAuthenticationManager.continueAddUpdate`, with the record that it writes. -/
def continueAddUpdate (backend : ProfileBackend) (user : UserModel) (url : String)
    (setValue : Option AppError) : ProfileBackend × Except AppError UserModel :=
  match TwitterLite.continueAddUpdate user url setValue with
  | .ok (path, userModel) =>
    ({ backend with users := Function.update backend.users path (some userModel) }, .ok userModel)
  | .error error => (backend, .error error)

/-- `FirebaseAuthenticationManager.addUpdate`, with what it leaves at the backend. -/
def addUpdate (backend : ProfileBackend) (user : UserModel) (outcomes : ProfileOutcomes) :
    ProfileBackend × Except AppError UserModel :=
  match user.photoURL, outcomes.data, user.userID with
  | some _, some data, some fileName =>
    let uploaded := uploadImage backend.objects
      (PhotoEndPoint.uploadUserProfileImage fileName).path data outcomes
    let backend := { backend with objects := uploaded.1 }
    match uploaded.2 with
    | .error error => (backend, .error error)
    | .ok url => backend.continueAddUpdate user url outcomes.setValue
  | _, _, _ => (backend, .error (.fireBase .missingParameters))

end ProfileBackend

/-- The calls that update a profile. -/
inductive ProfileUpdate where
  | createAccount (userDetail : UserModel)
  | authenticateUser

namespace ProfileUpdate

variable (call : ProfileUpdate) (outcomes : ProfileOutcomes) (backend : ProfileBackend)

/-- The profile that the call updates once Auth has accepted the user. -/
def account (user : User) : UserModel :=
  match call with
  | .createAccount userDetail => createdAccount userDetail user
  | .authenticateUser => authenticationDidComplete user

/-- `FirebaseAuthenticationManager.createAccount` and `authenticateUser`, with what they leave at
the backend and what the callback receives. -/
def run : ProfileBackend × Except AppError UserModel :=
  match call with
  | .createAccount userDetail =>
    match userDetail.emailAddress, userDetail.password with
    | some _, some _ =>
      match outcomes.auth with
      | .error error => (backend, .error error)
      | .ok user => backend.addUpdate (createdAccount userDetail user) outcomes
    | _, _ => (backend, .error (.login .missingParameters))
  | .authenticateUser =>
    match outcomes.auth with
    | .error error => (backend, .error error)
    | .ok user => backend.addUpdate (authenticationDidComplete user) outcomes

/-- The path of the user's picture. -/
def picturePath (user : User) : String := (PhotoEndPoint.uploadUserProfileImage user.uid).path

/-- If a profile is delivered, then the data that the call has read is stored at the path of the
user's picture, and the record of the user has its download URL. -/
def StoresPicture : Prop :=
  ∀ userModel, (call.run outcomes backend).2 = .ok userModel →
    ∃ user object record, outcomes.auth = .ok user ∧ outcomes.data = some object.data ∧
      (call.run outcomes backend).1.objects (picturePath user) = some object ∧
      (call.run outcomes backend).1.users user.path = some record ∧
      record.photoURL = some object.url

/-- The call as a login flow. -/
def toLoginFlow : LoginFlow :=
  match call with
  | .createAccount userDetail => .createAccount userDetail
  | .authenticateUser => .authenticateUser

/-- The call gets to the upload for the given user, with the given data, and the record can be
written. -/
structure Uploads (user : User) (data : Data) : Prop where
  asksAuth : call.toLoginFlow.AsksAuth
  auth_eq : outcomes.auth = .ok user
  photoURL_ne : (call.account user).photoURL ≠ none
  data_eq : outcomes.data = some data
  setValue_eq : outcomes.setValue = none

/-- The condition: if the data is not stored in a call that goes through otherwise, then there is no
older picture, or it has the same data. -/
def NoOlderPicture : Prop :=
  ∀ user data error object, call.Uploads outcomes user data → outcomes.putData = .error error →
    backend.objects (picturePath user) = some object → object.data = data

/-- The outcomes of the login flow: the upload is answered by what the storage has then. -/
def loginOutcomes : LoginOutcomes where
  auth := outcomes.auth
  data := outcomes.data
  upload := match outcomes.auth, outcomes.data with
    | .ok user, some data => (uploadImage backend.objects (picturePath user) data outcomes).2
    | _, _ => .error outcomes.objectNotFound
  setValue := outcomes.setValue
  record := .error outcomes.objectNotFound

/-! ### One account update -/

variable {call outcomes backend} {user : User} {account : UserModel} {uid : String} {data : Data}

/-- The upload is answered by the URL of the object that is at the path then. -/
theorem uploadImage_eq_ok_iff {objects : String → Option StoredObject} {path url : String} :
    (uploadImage objects path data outcomes).2 = .ok url ↔
      ∃ object, (uploadImage objects path data outcomes).1 path = some object ∧
        object.url = url := by
  unfold uploadImage
  dsimp only
  split
  next object hobject => simp [hobject]
  next hnone => simp [hnone]

/-- The object at the path after the upload: the data of the call, or the older picture if the data
has not been stored. -/
theorem uploadImage_object_iff {objects : String → Option StoredObject} {path : String}
    {object : StoredObject} :
    (uploadImage objects path data outcomes).1 path = some object ↔
      (∃ url, outcomes.putData = .ok url ∧ object = ⟨data, url⟩) ∨
        (∃ error, outcomes.putData = .error error) ∧ objects path = some object := by
  unfold uploadImage
  cases outcomes.putData with
  | ok url => simp [eq_comm]
  | error error => simp

/-- What an account update leaves once it has uploaded a picture. -/
theorem addUpdate_of_uploaded {url : String} (hphoto : account.photoURL ≠ none)
    (hdata : outcomes.data = some data) (hid : account.userID = some uid)
    (hset : outcomes.setValue = none)
    (hupload : (uploadImage backend.objects (PhotoEndPoint.uploadUserProfileImage uid).path data
      outcomes).2 = .ok url) :
    backend.addUpdate account outcomes =
      (⟨(uploadImage backend.objects (PhotoEndPoint.uploadUserProfileImage uid).path data
          outcomes).1,
        Function.update backend.users ((UserEndPoint.postUserDetails uid).path none)
          (some { account with photoURL := some url, password := none, userID := none })⟩,
        .ok { account with photoURL := some url, password := none, userID := none }) := by
  obtain ⟨photoURL, hphoto⟩ := Option.ne_none_iff_exists'.mp hphoto
  simp only [ProfileBackend.addUpdate, hphoto, hdata, hid, hupload,
    ProfileBackend.continueAddUpdate, continueAddUpdate, hset]

/-- An account update that delivers a profile has read and uploaded a picture, and its record could
be written. -/
theorem uploaded_of_addUpdate {userModel : UserModel} (hid : account.userID = some uid)
    (h : (backend.addUpdate account outcomes).2 = .ok userModel) :
    account.photoURL ≠ none ∧ outcomes.setValue = none ∧ ∃ data url, outcomes.data = some data ∧
      (uploadImage backend.objects (PhotoEndPoint.uploadUserProfileImage uid).path data
        outcomes).2 = .ok url := by
  unfold ProfileBackend.addUpdate at h
  split at h
  case h_2 => cases h
  next photoURL data fileName hphoto hdata hfileName =>
    obtain rfl := Option.some.inj (hid.symm.trans hfileName)
    dsimp only at h
    split at h
    next => cases h
    next url hupload =>
      refine ⟨by simp [hphoto], ?_, data, url, hdata, hupload⟩
      cases hset : outcomes.setValue with
      | none => rfl
      | some error =>
        simp only [ProfileBackend.continueAddUpdate, continueAddUpdate, hid, hset] at h
        cases h

/-! ### The calls -/

theorem run_of_not_asksAuth (h : ¬ call.toLoginFlow.AsksAuth) :
    call.run outcomes backend = (backend, .error (.login .missingParameters)) := by
  cases call with
  | createAccount userDetail =>
    simp only [run]
    split
    next hemail hpassword => exact absurd ⟨by simp [hemail], by simp [hpassword]⟩ h
    next => rfl
  | authenticateUser => exact absurd trivial h

theorem run_of_asksAuth (h : call.toLoginFlow.AsksAuth) :
    call.run outcomes backend = match outcomes.auth with
      | .error error => (backend, .error error)
      | .ok user => backend.addUpdate (call.account user) outcomes := by
  cases call with
  | createAccount userDetail =>
    obtain ⟨email, hemail⟩ := Option.ne_none_iff_exists'.mp h.1
    obtain ⟨password, hpassword⟩ := Option.ne_none_iff_exists'.mp h.2
    simp only [run, hemail, hpassword]
    rfl
  | authenticateUser => rfl

theorem userID_account (call : ProfileUpdate) (user : User) :
    (call.account user).userID = some user.uid := by
  cases call <;> rfl

/-- A call that goes through delivers the profile that it has written, with the URL that the upload
was answered by. -/
theorem run_of_uploads {url : String} (h : call.Uploads outcomes user data)
    (hupload : (uploadImage backend.objects (picturePath user) data outcomes).2 = .ok url) :
    ∃ record : UserModel, record.photoURL = some url ∧ call.run outcomes backend =
      (⟨(uploadImage backend.objects (picturePath user) data outcomes).1,
        Function.update backend.users user.path (some record)⟩, .ok record) := by
  have hupdate := addUpdate_of_uploaded h.photoURL_ne h.data_eq (call.userID_account user)
    h.setValue_eq hupload
  refine ⟨_, rfl, Eq.trans ?_ hupdate⟩
  rw [run_of_asksAuth h.asksAuth, h.auth_eq]

theorem continueAddUpdate_snd_eq (url : String) (setValue : Option AppError) :
    (backend.continueAddUpdate account url setValue).2 =
      (continueAddUpdate account url setValue).map Prod.snd := by
  unfold ProfileBackend.continueAddUpdate
  cases continueAddUpdate account url setValue <;> rfl

/-- What the callback of an account update receives depends on the storage only through the answer
of the upload. -/
theorem addUpdate_snd_eq {upload : Except AppError String} (hid : account.userID = some uid)
    (hupload : ∀ data, outcomes.data = some data → upload = (uploadImage backend.objects
      (PhotoEndPoint.uploadUserProfileImage uid).path data outcomes).2) :
    (backend.addUpdate account outcomes).2 =
      (TwitterLite.addUpdate account outcomes.data upload outcomes.setValue).map Prod.snd := by
  cases hphoto : account.photoURL with
  | none =>
    simp only [ProfileBackend.addUpdate, TwitterLite.addUpdate, hphoto]
    rfl
  | some photoURL =>
    cases hdata : outcomes.data with
    | none =>
      simp only [ProfileBackend.addUpdate, TwitterLite.addUpdate, hphoto, hdata]
      rfl
    | some data =>
      simp only [ProfileBackend.addUpdate, TwitterLite.addUpdate, hphoto, hdata, hid,
        ← hupload data hdata]
      cases upload with
      | error error => rfl
      | ok url => exact continueAddUpdate_snd_eq url outcomes.setValue

/-- **The callback receives what the login flow hands to it**, if its upload is answered by what the
storage has. -/
theorem callBack_eq (call : ProfileUpdate) (outcomes : ProfileOutcomes) (backend : ProfileBackend)
    (currentUser : Option User) : (call.run outcomes backend).2 =
      (call.toLoginFlow.result (loginOutcomes outcomes backend) currentUser).callBack := by
  by_cases hasks : call.toLoginFlow.AsksAuth
  · have hsame : (loginOutcomes outcomes backend).auth = outcomes.auth := rfl
    rw [run_of_asksAuth hasks, LoginFlow.result_of_asksAuth hasks, hsame]
    cases hauth : outcomes.auth with
    | error error => rfl
    | ok user =>
      have hupload : ∀ data, outcomes.data = some data →
          (loginOutcomes outcomes backend).upload = (uploadImage backend.objects
            (PhotoEndPoint.uploadUserProfileImage user.uid).path data outcomes).2 := by
        intro data hdata
        simp only [loginOutcomes, hauth, hdata, picturePath]
      have hcallBack := addUpdate_snd_eq (call.userID_account user) hupload
      cases call <;> exact hcallBack
  · rw [run_of_not_asksAuth hasks, LoginFlow.result_of_not_asksAuth hasks]

/-- A call that delivers a profile has gone through, and its upload was answered by a URL. -/
theorem uploads_of_delivered {userModel : UserModel}
    (h : (call.run outcomes backend).2 = .ok userModel) :
    ∃ user data url, call.Uploads outcomes user data ∧
      (uploadImage backend.objects (picturePath user) data outcomes).2 = .ok url := by
  by_cases hasks : call.toLoginFlow.AsksAuth
  · rw [run_of_asksAuth hasks] at h
    cases hauth : outcomes.auth with
    | error error =>
      rw [hauth] at h
      cases h
    | ok user =>
      rw [hauth] at h
      obtain ⟨hphoto, hset, data, url, hdata, hupload⟩ :=
        uploaded_of_addUpdate (call.userID_account user) h
      exact ⟨user, data, url, ⟨hasks, hauth, hphoto, hdata, hset⟩, hupload⟩
  · rw [run_of_not_asksAuth hasks] at h
    cases h

/-- **A delivered profile has its picture stored exactly if no upload fails over an older picture**
with other data, in a call that goes through otherwise. -/
theorem storesPicture_iff (call : ProfileUpdate) (outcomes : ProfileOutcomes)
    (backend : ProfileBackend) :
    call.StoresPicture outcomes backend ↔ call.NoOlderPicture outcomes backend := by
  constructor
  · intro hstores user data error object huploads hput hobject
    have hstored : (uploadImage backend.objects (picturePath user) data outcomes).1
        (picturePath user) = some object :=
      uploadImage_object_iff.mpr (.inr ⟨⟨error, hput⟩, hobject⟩)
    have hupload := uploadImage_eq_ok_iff.mpr ⟨object, hstored, rfl⟩
    obtain ⟨_, -, hrun⟩ := run_of_uploads huploads hupload
    obtain ⟨user', object', _, hauth, hdata, hobject', -⟩ := hstores _ (congrArg Prod.snd hrun)
    obtain rfl := Except.ok.inj (huploads.auth_eq.symm.trans hauth)
    rw [hrun] at hobject'
    obtain rfl := Option.some.inj (hstored.symm.trans hobject')
    exact Option.some.inj (hdata.symm.trans huploads.data_eq)
  · intro hcondition userModel hdelivered
    obtain ⟨user, data, url, huploads, hupload⟩ := uploads_of_delivered hdelivered
    obtain ⟨record, hurl, hrun⟩ := run_of_uploads huploads hupload
    obtain ⟨object, hobject, rfl⟩ := uploadImage_eq_ok_iff.mp hupload
    have hdata : object.data = data := by
      rcases uploadImage_object_iff.mp hobject with ⟨url, -, rfl⟩ | ⟨⟨error, hput⟩, holder⟩
      · rfl
      · exact hcondition user data error object huploads hput holder
    rw [hrun]
    exact ⟨user, object, record, huploads.auth_eq, hdata.symm ▸ huploads.data_eq, hobject,
      Function.update_self .., hurl⟩

/-- Alice signs in with a new picture, whose data is not stored: the record gets the URL of her
older picture. -/
theorem not_storesPicture : ¬ ∀ (call : ProfileUpdate) (outcomes : ProfileOutcomes)
    (backend : ProfileBackend), call.StoresPicture outcomes backend := by
  intro h
  let alice : User := ⟨"a", by decide, some "a@b.c", none, some "https://new"⟩
  let older : StoredObject := ⟨[1], "https://older"⟩
  obtain ⟨_, object, _, -, hdata, hobject, -⟩ := h .authenticateUser
    ⟨.ok alice, some [2], .error (.backend "network"), .backend "not found", none⟩
    ⟨fun _ => some older, fun _ => none⟩ _ rfl
  obtain rfl : older = object := Option.some.inj hobject
  cases hdata

end ProfileUpdate

end TwitterLite
