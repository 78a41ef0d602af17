import Mathlib.Data.Rat.Defs
import Mathlib.Algebra.Order.Ring.Rat
import Mathlib.Order.WithBot

/-!
# Records, models and errors of the app

The model classes of the app are structures that extend one another as the Swift classes inherit
(`BaseTweetModel.swift`, `PostTweetModel.swift`, `ViewTweetModel.swift`, `UserModel.swift`). A
reference to a shared object is a value here; where the app mutates a shared object, the function
that does so returns the new value.

A `Double` that a JSON document can carry is finite, and the app only compares such numbers, so a
time stamp is a rational number; `createdTimeStamp` is optional because the property is an
implicitly unwrapped `Double!` that the decoder may leave `nil`. A `URL` is its absolute string.

An operation of the Swift runtime that traps (unwrapping `nil`, an exception raised by the
database client) is an outcome of its own, `Trap`.

## Main definitions

* `TwitterLite.UserModel`, `TwitterLite.PostTweetModel`, `TwitterLite.ViewTweetModel`.
* `TwitterLite.UIImage.cache_toData`: the encoding that the uploads send.
* `TwitterLite.PostTweetModel.ofLoggedInUser`: a fresh draft, with the author it takes from the
  cached profile.
* `TwitterLite.BaseTweetModel.stamp`: the time stamp as a key of a linear order.
-/

namespace TwitterLite

/-! ### Errors -/

/-- `FireBaseError` of `Utils.swift`. -/
inductive FireBaseError where
  | missingParameters
  | failedToFetch
  deriving DecidableEq, Repr

/-- `EncodingeError` of `Utils.swift`. -/
inductive EncodingeError where
  | encodingFailed
  | decodingFailed
  deriving DecidableEq, Repr

/-- The cases of `LoginError` of `Utils.swift`. -/
inductive LoginError where
  | missingClientID
  | invalidTokenID
  | missingParameters
  | photoMissing
  | displayNameMisssing
  | emailAddressMissing
  | userNameMissing
  | passwordMissing
  | passwordCriteriaMissing
  deriving DecidableEq, Repr

/-- A value of Swift's `Error` as the callbacks of the app receive it: one of the app's own
errors, or an error of the Firebase services with its text. -/
inductive AppError where
  | fireBase (error : FireBaseError)
  | encoding (error : EncodingeError)
  | login (error : LoginError)
  | backend (message : String)
  deriving DecidableEq, Repr

/-- The ways the running app stops instead of going on. -/
inductive Trap where
  /-- An implicitly unwrapped optional is `nil` when it is read. -/
  | unwrappedNil
  /-- The database client raises an exception for an ill-formed path. -/
  | invalidPath
  deriving DecidableEq, Repr

/-- One step of a computation that may fail, and the rest of it. -/
theorem bind_eq_ok_iff {ε α β : Type} {x : Except ε α} {f : α → Except ε β} {b : β} :
    x >>= f = .ok b ↔ ∃ a, x = .ok a ∧ f a = .ok b := by
  cases x with
  | error error => exact iff_of_false nofun (by simp)
  | ok a => exact ⟨fun h => ⟨a, rfl, h⟩, fun ⟨_, ha, h⟩ => Except.ok.inj ha ▸ h⟩

theorem exists_bind_eq_ok_iff {ε α β : Type} {x : Except ε α} {f : α → Except ε β}
    (hf : ∀ a, ∃ b, f a = .ok b) : (∃ b, (x >>= f) = .ok b) ↔ ∃ a, x = .ok a := by
  simp only [bind_eq_ok_iff]
  constructor
  · rintro ⟨_, a, ha, -⟩
    exact ⟨a, ha⟩
  · rintro ⟨a, ha⟩
    obtain ⟨b, hb⟩ := hf a
    exact ⟨b, a, ha, hb⟩

/-! ### Users -/

/-- `UserModel` of `UserModel.swift`, a subclass of `FirebaseModel`. -/
structure UserModel where
  modelID : Option String := none
  userID : Option String := none
  photoURL : Option String := none
  displayName : Option String := none
  emailAddress : Option String := none
  userName : Option String := none
  password : Option String := none
  deriving DecidableEq, Repr

/-- The four fields of a profile that the screens show. -/
def UserModel.profile (user : UserModel) :
    Option String × Option String × Option String × Option String :=
  (user.displayName, user.userName, user.emailAddress, user.photoURL)

/-! ### Photos -/

/-- The bytes of an encoded image. -/
abbrev Data := List UInt8

/-- The alpha channel of a bitmap, as `CGImageAlphaInfo` names it; `other` stands for every case
with an alpha channel. -/
inductive AlphaInfo where
  | none
  | noneSkipFirst
  | noneSkipLast
  | other
  deriving DecidableEq, Repr

/-- What the app observes of a `UIImage`: the alpha information of its bitmap, if it has one, and
its two encodings, either of which may fail. -/
structure UIImage where
  alphaInfo : Option AlphaInfo
  pngData : Option Data
  jpegData : Option Data
  deriving DecidableEq, Repr

/-- `UIImage.hasAlpha` of `ImageWrapper.swift`. -/
def UIImage.hasAlpha (image : UIImage) : Bool :=
  match image.alphaInfo with
  | .none => false
  | .some .none | .some .noneSkipFirst | .some .noneSkipLast => false
  | .some .other => true

/-- `UIImage.cache_toData` of `ImageWrapper.swift`. -/
def UIImage.cache_toData (image : UIImage) : Option Data :=
  if image.hasAlpha then image.pngData else image.jpegData

/-- `ImageWrapper` of `ImageWrapper.swift`. -/
structure ImageWrapper where
  image : UIImage
  deriving DecidableEq, Repr

/-! ### Tweets -/

/-- `BaseTweetModel` of `BaseTweetModel.swift`, a subclass of `FirebaseModel`. -/
structure BaseTweetModel where
  modelID : Option String := none
  tweetID : Option String := none
  caption : Option String := none
  createdTimeStamp : Option ℚ := none
  photoURL : Option (List String) := none
  deriving DecidableEq, Repr

/-- `PostTweetModel` of `PostTweetModel.swift`: a draft, and the record stored under `Tweets`. -/
structure PostTweetModel extends BaseTweetModel where
  uid : String := ""
  photos : Option (List ImageWrapper) := none
  deriving DecidableEq, Repr

/-- `ViewTweetModel` of `ViewTweetModel.swift`: a record with the profile of its author. -/
structure ViewTweetModel extends PostTweetModel where
  user : Option UserModel := none
  deriving DecidableEq, Repr

/-- `PostTweetModel(jsonDict:)`: the property initialiser of `uid` reads the cached profile and
falls back to the empty string.

Source: `PostTweetModel.swift`, lines 11–17. -/
def PostTweetModel.ofLoggedInUser (loggedInUser : Option UserModel) : PostTweetModel :=
  { uid := (loggedInUser.bind UserModel.userID).getD "" }

/-- The time stamp of a tweet in the order of the database index, where a missing value comes
before every number. -/
def BaseTweetModel.stamp (tweet : BaseTweetModel) : WithBot ℚ := tweet.createdTimeStamp

/-- The record that a displayed tweet was decoded from. -/
abbrev ViewTweetModel.record (tweet : ViewTweetModel) : PostTweetModel := tweet.toPostTweetModel

end TwitterLite
