import TwitterLite.Common.EndPoints
import TwitterLite.Common.Models
import TwitterLite.Library.PathTree
import Mathlib.Data.List.Basic

/-!
# References into the database

The database is a tree of keys with values at its leaves. `DatabaseReference.child` checks its
argument before anything else: an empty path, or one with a character that the database does not
allow, raises an exception, which ends the app (`TwitterLite.child`). A valid path is split at its
slashes; empty components are ignored. `removeValue` removes everything at and below the path.

A path that an endpoint builds by interpolating an identifier is the name of the collection,
followed by the components of the identifier (`TwitterLite.child_interpolation`), however many
these are.

## Main definitions

* `TwitterLite.DatabaseTree`.
* `TwitterLite.hasInvalidCharacter`, `TwitterLite.isValidPathString`.
* `TwitterLite.pathPieces`, `TwitterLite.child`.
* `TwitterLite.removeValue`, `TwitterLite.setValue`.

## Main results

* `TwitterLite.child_interpolation`.

Source: `FValidation.m`, lines 27–86; `FPath.m`, lines 54–69; `FIRDatabaseReference.m`,
lines 100–180.
-/

namespace TwitterLite

/-- A value at a leaf of the database. -/
inductive Leaf where
  | string (value : String)
  | number (value : ℚ)
  | bool (value : Bool)
  deriving DecidableEq, Repr

/-- The content of the database, or of a part of it. -/
abbrev DatabaseTree := PathTree String Leaf

/-- `kInvalidPathCharacters` of `FValidation.m`. -/
def invalidPathCharacters : List Char := "[].#$".toList

/-- The text has a character that no path may have. -/
def hasInvalidCharacter (text : String) : Bool :=
  text.toList.any fun c => invalidPathCharacters.contains c

/-- `FValidation.isValidPathString`. -/
def isValidPathString (pathString : String) : Bool :=
  pathString != "" && !hasInvalidCharacter pathString

/-- The components of a path, as `FPath.initWith` splits them: at the slashes, without the empty
ones. -/
def pathPieces (pathString : String) : List String :=
  ((pathString.toList.splitOn '/').filter fun piece => piece ≠ []).map String.ofList

/-- `FIRDatabaseReference.child:` at the root. -/
def child (pathString : String) : Except Trap (List String) :=
  if isValidPathString pathString then .ok (pathPieces pathString) else .error .invalidPath

/-- `databaseRef.child(pathString).removeValue`, once the database has accepted it. -/
def removeValue (pathString : String) (database : DatabaseTree) : Except Trap DatabaseTree :=
  (child pathString).map fun path => database.remove path

/-- `databaseRef.child(pathString).setValue`, once the database has accepted it. -/
def setValue (pathString : String) (value database : DatabaseTree) : Except Trap DatabaseTree :=
  (child pathString).map fun path => .set path value database

/-! ### The paths of the endpoints -/

section Endpoint

variable {name pathString : String} (id : String)

theorem toList_interpolation (hpath : pathString = name ++ "/" ++ id) :
    pathString.toList = name.toList ++ '/' :: id.toList := by
  rw [hpath, String.toList_append, String.toList_append, List.append_assoc]
  rfl

theorem isValidPathString_interpolation (hpath : pathString = name ++ "/" ++ id)
    (hname : hasInvalidCharacter name = false) :
    isValidPathString pathString = !hasInvalidCharacter id := by
  have hne : pathString ≠ "" := by
    rintro rfl
    have := toList_interpolation id hpath
    exact absurd this (by simp)
  have hslash : invalidPathCharacters.contains '/' = false := by decide
  rw [hasInvalidCharacter] at hname
  rw [isValidPathString, bne_iff_ne.mpr hne, Bool.true_and, hasInvalidCharacter,
    toList_interpolation id hpath, List.any_append, List.any_cons, hname, hslash, Bool.false_or,
    Bool.false_or, hasInvalidCharacter]

theorem pathPieces_interpolation (hpath : pathString = name ++ "/" ++ id)
    (hslash : '/' ∉ name.toList) (hne : name ≠ "") :
    pathPieces pathString = name :: pathPieces id := by
  have hne' : name.toList ≠ [] := fun h => hne (String.toList_injective h)
  rw [pathPieces, toList_interpolation id hpath, List.splitOn_append_cons_self,
    List.splitOn_eq_singleton hslash, List.singleton_append, List.filter_cons_of_pos (by simpa),
    List.map_cons, String.ofList_toList]
  rfl

/-- The reference that the path of an endpoint leads to: the collection, and then the components of
the identifier. -/
theorem child_interpolation (hpath : pathString = name ++ "/" ++ id)
    (hname : hasInvalidCharacter name = false) (hslash : '/' ∉ name.toList) (hne : name ≠ "") :
    child pathString =
      if hasInvalidCharacter id then .error .invalidPath else .ok (name :: pathPieces id) := by
  rw [child, pathPieces_interpolation id hpath hslash hne,
    isValidPathString_interpolation id hpath hname]
  cases hasInvalidCharacter id <;> rfl

end Endpoint

theorem child_postTweet (id : String) :
    child (TweetEndPoint.postTweet id).path =
      if hasInvalidCharacter id then .error .invalidPath
      else .ok ("Tweets" :: pathPieces id) :=
  child_interpolation id rfl (by decide) (by decide) (by decide)

/-- The reference that the path of a tweet leads to. -/
theorem child_deleteTweet (id : String) :
    child (TweetEndPoint.deleteTweet id).path =
      if hasInvalidCharacter id then .error .invalidPath
      else .ok ("Tweets" :: pathPieces id) :=
  child_interpolation id rfl (by decide) (by decide) (by decide)

theorem child_postUserDetails (id : String) :
    child ((UserEndPoint.postUserDetails id).path none) =
      if hasInvalidCharacter id then .error .invalidPath
      else .ok ("Users" :: pathPieces id) :=
  child_interpolation id rfl (by decide) (by decide) (by decide)

end TwitterLite
