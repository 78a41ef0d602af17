import Mathlib.Data.String.Basic

/-!
# The paths of the database and of the storage

The endpoints build their paths by string interpolation from the names of the collections and an
identifier.

## Main definitions

* `TwitterLite.TweetEndPoint`, `TwitterLite.PhotoEndPoint`, `TwitterLite.UserEndPoint`.

Source: `TweetEndPoint.swift`, `PhotoEndPoint.swift`, `UserEndPoint.swift`;
`Utils.swift`, lines 138–143.
-/

namespace TwitterLite

/-- `FirebaseDatabaseName` of `Utils.swift`. -/
inductive FirebaseDatabaseName where
  | users
  | tweets
  | profileImage
  | tweetImage
  deriving DecidableEq, Repr

/-- The raw value of the name. -/
def FirebaseDatabaseName.rawValue : FirebaseDatabaseName → String
  | .users => "Users"
  | .tweets => "Tweets"
  | .profileImage => "Profile_Images"
  | .tweetImage => "Tweet_Images"

open FirebaseDatabaseName (users tweets profileImage tweetImage)

/-- `TweetEndPoint` of `TweetEndPoint.swift`. -/
inductive TweetEndPoint where
  | postTweet (id : String)
  | deleteTweet (id : String)
  | getTweets
  deriving DecidableEq, Repr

/-- `TweetEndPoint.path`. -/
def TweetEndPoint.path : TweetEndPoint → String
  | .getTweets => tweets.rawValue
  | .postTweet id | .deleteTweet id => s!"{tweets.rawValue}/{id}"

/-- `PhotoEndPoint` of `PhotoEndPoint.swift`. -/
inductive PhotoEndPoint where
  | uploadUserProfileImage (fileName : String)
  | uploadImage (fileName : String)
  | deleteImage
  deriving DecidableEq, Repr

/-- `PhotoEndPoint.path`. -/
def PhotoEndPoint.path : PhotoEndPoint → String
  | .uploadUserProfileImage fileName => s!"{profileImage.rawValue}/{fileName}"
  | .uploadImage fileName => s!"{tweetImage.rawValue}/{fileName}"
  | .deleteImage => tweetImage.rawValue

/-- `UserEndPoint` of `UserEndPoint.swift`. -/
inductive UserEndPoint where
  | getLoggedInUserDetail
  | getUserDetails (id : String)
  | postUserDetails (id : String)
  deriving DecidableEq, Repr

/-- `UserEndPoint.path`, for the identifier of the user who is signed in now. -/
def UserEndPoint.path (currentUser : Option String) : UserEndPoint → String
  | .getLoggedInUserDetail =>
    match currentUser with
    | none => ""
    | some userID => s!"{users.rawValue}/{userID}"
  | .getUserDetails userID | .postUserDetails userID => s!"{users.rawValue}/{userID}"

/-- Different numbers are interpolated as different texts. -/
theorem toString_injective : Function.Injective (toString : ℕ → String) := by
  intro m n h
  have hdigits : Nat.toDigits 10 m = Nat.toDigits 10 n := by
    rw [← Nat.toList_repr, ← Nat.toList_repr]
    exact congrArg String.toList h
  rw [← @Nat.ofDigitChars_ten_toDigits m, hdigits, Nat.ofDigitChars_ten_toDigits]

end TwitterLite
