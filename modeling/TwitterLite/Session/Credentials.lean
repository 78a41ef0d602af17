import TwitterLite.Common.Email
import TwitterLite.Common.Models
import Mathlib.Data.List.DropRight

/-!
# Which credentials are accepted

The screens that sign a user in and up validate what has been entered before they send it. The
password is trimmed and then searched for a pattern that consists of lookaheads only: one for its
length, and one for each kind of character that it must have. Such a pattern matches an empty range,
at any position from which all that is asked for follows on the same line. A text field has one
line, so the pattern is found exactly if the whole password has what is asked for
(`TwitterLite.search_passwordPattern_iff`).

## Main definitions

* `TwitterLite.trimmingCharacters`, `TwitterLite.whitespacesAndNewlines`.
* `TwitterLite.passwordPattern`, `TwitterLite.MeetsCriteria`.
* `TwitterLite.validateSiginUserModel`, `TwitterLite.validateCreateUserModel`.
* `TwitterLite.SignsIn`, `TwitterLite.SignsUp`.

## Main results

* `TwitterLite.search_passwordPattern_iff`.
* `TwitterLite.validateSiginUserModel_eq_ok_iff`, `TwitterLite.validateCreateUserModel_eq_ok_iff`.
* `TwitterLite.validated_iff`.

Source: `SigninViewModel.swift`, lines 15–33; `CreateAccountViewModel.swift`, lines 15–38.
-/

namespace TwitterLite

open Pattern

/-! ### Trimming -/

/-- `CharacterSet.whitespacesAndNewlines`: the general category Z, and the control characters for
white space. -/
def whitespacesAndNewlines (c : Char) : Bool :=
  [0x20, 0xa0, 0x1680, 0x2028, 0x2029, 0x202f, 0x205f, 0x3000, 0x85].contains c.toNat ||
    (0x2000 ≤ c.toNat && c.toNat ≤ 0x200a) || (0x09 ≤ c.toNat && c.toNat ≤ 0x0d)

/-- `String.trimmingCharacters(in:)`. -/
def trimmingCharacters (isMember : Char → Bool) (s : String) : String :=
  String.ofList ((s.toList.dropWhile isMember).rdropWhile isMember)

/-- A text without white space at its ends. -/
def trimmed (s : String) : String := trimmingCharacters whitespacesAndNewlines s

/-! ### The pattern of the passwords -/

/-- The first decimal digit of each script: the characters of the general category Nd are these and
the nine that follow each of them. -/
def firstDigits : List ℕ :=
  [0x30, 0x660, 0x6f0, 0x7c0, 0x966, 0x9e6, 0xa66, 0xae6, 0xb66, 0xbe6, 0xc66, 0xce6, 0xd66, 0xde6,
    0xe50, 0xed0, 0xf20, 0x1040, 0x1090, 0x17e0, 0x1810, 0x1946, 0x19d0, 0x1a80, 0x1a90, 0x1b50,
    0x1bb0, 0x1c40, 0x1c50, 0xa620, 0xa8d0, 0xa900, 0xa9d0, 0xa9f0, 0xaa50, 0xabf0, 0xff10, 0x104a0,
    0x10d30, 0x11066, 0x110f0, 0x11136, 0x111d0, 0x112f0, 0x11450, 0x114d0, 0x11650, 0x116c0,
    0x11730, 0x118e0, 0x11950, 0x11c50, 0x11d50, 0x11da0, 0x16a60, 0x16ac0, 0x16b50, 0x1d7ce,
    0x1d7d8, 0x1d7e2, 0x1d7ec, 0x1d7f6, 0x1e140, 0x1e2f0, 0x1e950, 0x1fbf0]

/-- `\d`. -/
def isDecimalDigit (c : Char) : Bool :=
  firstDigits.any fun first => first ≤ c.toNat && c.toNat < first + 10

/-- `[A-Z]`. -/
def isCapitalLetter (c : Char) : Bool := 'A' ≤ c && c ≤ 'Z'

/-- `[a-z]`. -/
def isLowercaseLetter (c : Char) : Bool := 'a' ≤ c && c ≤ 'z'

/-- `[ !$%&?.@_-]`. -/
def isSpecialCharacter (c : Char) : Bool := " !$%&?.@_-".toList.contains c

/-- `.`, any character but a line terminator. -/
def isOnLine (c : Char) : Bool := !isLineTerminator c.toNat

/-- A lookahead for a character of a class, later on the line: `(?=.*[A-Z])` and the like. -/
def ahead (isMember : Char → Bool) : Pattern Char :=
  lookahead ((one isOnLine).star.seq (one isMember))

/-- The pattern that both screens search the trimmed password for. -/
def passwordPattern : Pattern Char :=
  (lookahead ((one isOnLine).atLeast 8)).seq <| (ahead isCapitalLetter).seq <|
    (ahead isLowercaseLetter).seq <| (ahead isDecimalDigit).seq <|
      (ahead isSpecialCharacter).seq empty

/-! ### The validations -/

/-- `guard let`, and a condition on the value. -/
def guardLet {α : Type} (value : Option α) (condition : α → Bool) (error : LoginError) :
    Except LoginError α :=
  match value with
  | some a => if condition a then .ok a else .error error
  | none => .error error

/-- The part of the validations that is about the password. -/
def validatePassword (userModel : UserModel) : Except LoginError Unit := do
  let password ← guardLet (userModel.password.map trimmed) (fun password => !password.isEmpty)
    .passwordMissing
  if passwordPattern.search password.toList then .ok () else .error .passwordCriteriaMissing

variable (g : Graphemes) (userModel : UserModel)

/-- `SigninViewModel.validateSiginUserModel`. -/
def validateSiginUserModel : Except LoginError Unit := do
  let _ ← guardLet userModel.emailAddress g.isValidEmail .emailAddressMissing
  validatePassword userModel

/-- `CreateAccountViewModel.validateCreateUserModel`. -/
def validateCreateUserModel : Except LoginError Unit := do
  let _ ← guardLet userModel.photoURL (fun _ => true) .photoMissing
  let _ ← guardLet (userModel.displayName.map trimmed) (fun name => !name.isEmpty)
    .displayNameMisssing
  let _ ← guardLet userModel.emailAddress g.isValidEmail .emailAddressMissing
  let _ ← guardLet (userModel.userName.map trimmed) (fun name => !name.isEmpty) .userNameMissing
  validatePassword userModel

/-! ### What is asked for -/

/-- At least eight characters, and one of each kind. -/
structure MeetsCriteria (password : List Char) : Prop where
  length_le : 8 ≤ password.length
  capital : ∃ c ∈ password, isCapitalLetter c = true
  lowercase : ∃ c ∈ password, isLowercaseLetter c = true
  digit : ∃ c ∈ password, isDecimalDigit c = true
  special : ∃ c ∈ password, isSpecialCharacter c = true

/-- The credentials to sign in with. -/
structure SignsIn : Prop where
  emailAddress : ∃ emailAddress, userModel.emailAddress = some emailAddress ∧
    g.isValidEmail emailAddress = true
  password : ∃ password, userModel.password = some password ∧
    MeetsCriteria (trimmed password).toList

/-- The credentials to sign up with. -/
structure SignsUp : Prop extends SignsIn g userModel where
  photoURL : userModel.photoURL ≠ none
  displayName : ∃ name, userModel.displayName = some name ∧ trimmed name ≠ ""
  userName : ∃ name, userModel.userName = some name ∧ trimmed name ≠ ""

variable {g userModel}

/-! ### The pattern and the criteria -/

theorem MeetsCriteria.of_suffix {l l' : List Char} (h : MeetsCriteria l') (hsuffix : l' <:+ l) :
    MeetsCriteria l := by
  have hmem {isMember : Char → Bool} (h : ∃ c ∈ l', isMember c = true) :
      ∃ c ∈ l, isMember c = true := by
    obtain ⟨c, hc, hmember⟩ := h
    exact ⟨c, hsuffix.subset hc, hmember⟩
  exact ⟨h.length_le.trans hsuffix.length_le, hmem h.capital, hmem h.lowercase, hmem h.digit,
    hmem h.special⟩

section Lines

variable {x : Position Char}

/-- On one line, a character is ahead exactly if it is anywhere. -/
theorem exists_matches_ahead_iff {isMember : Char → Bool}
    (hline : ∀ c ∈ x.after, isOnLine c = true) :
    (∃ y, ((one isOnLine).star.seq (one isMember)).Matches x y) ↔
      ∃ c ∈ x.after, isMember c = true := by
  rw [((recognizes_star_one isOnLine).seq (recognizes_one isMember)).exists_matches_iff]
  constructor
  · rintro ⟨_, hw, rest, hafter⟩
    obtain ⟨w, -, _, hlast, rfl⟩ := Language.mem_mul.mp hw
    obtain ⟨c, hc, rfl⟩ := mem_wordsOf_one.mp hlast
    refine ⟨c, ?_, hc⟩
    rw [← hafter]
    simp
  · rintro ⟨c, hmem, hc⟩
    obtain ⟨w, rest, hafter⟩ := List.append_of_mem hmem
    rw [hafter] at hline
    refine ⟨w ++ [c], Language.append_mem_mul ⟨Set.mem_univ _, fun a ha => ?_⟩
      (mem_wordsOf_one.mpr ⟨c, hc, rfl⟩), rest, ?_⟩
    · exact hline a (List.mem_append_left _ ha)
    · rw [hafter, List.append_assoc]
      rfl

theorem exists_matches_atLeast_iff {n : ℕ} (hline : ∀ c ∈ x.after, isOnLine c = true) :
    (∃ y, ((one isOnLine).atLeast n).Matches x y) ↔ n ≤ x.after.length := by
  rw [(recognizes_atLeast_one isOnLine n).exists_matches_iff]
  constructor
  · rintro ⟨w, ⟨hlength, -⟩, hprefix⟩
    exact le_trans hlength hprefix.length_le
  · intro hlength
    exact ⟨x.after, ⟨hlength, hline⟩, List.prefix_rfl⟩

/-- On one line, the pattern matches where what it asks for follows. -/
theorem exists_matches_passwordPattern_iff (hline : ∀ c ∈ x.after, isOnLine c = true) :
    (∃ y, passwordPattern.Matches x y) ↔ MeetsCriteria x.after := by
  simp only [passwordPattern, ahead, matches_lookahead_seq, exists_and_left,
    exists_matches_ahead_iff hline, exists_matches_atLeast_iff hline]
  constructor
  · rintro ⟨hlength, hcapital, hlowercase, hdigit, hspecial, -⟩
    exact ⟨hlength, hcapital, hlowercase, hdigit, hspecial⟩
  · rintro ⟨hlength, hcapital, hlowercase, hdigit, hspecial⟩
    exact ⟨hlength, hcapital, hlowercase, hdigit, hspecial, x, rfl⟩

end Lines

/-- **A password of one line has the pattern exactly if it meets the criteria.** -/
theorem search_passwordPattern_iff {password : List Char}
    (hline : ∀ c ∈ password, isOnLine c = true) :
    passwordPattern.search password = true ↔ MeetsCriteria password := by
  rw [search_iff]
  constructor
  · rintro ⟨w, x, y, ⟨hafter, -⟩, hmatches⟩
    have hsuffix : x.after <:+ password := ⟨w, hafter.symm⟩
    have hcriteria := (exists_matches_passwordPattern_iff fun c hc =>
      hline c (hsuffix.subset hc)).mp ⟨y, hmatches⟩
    exact hcriteria.of_suffix hsuffix
  · intro hcriteria
    have hmatches : ∃ y, passwordPattern.Matches ⟨[], password⟩ y :=
      (exists_matches_passwordPattern_iff hline).mpr hcriteria
    obtain ⟨y, hy⟩ := hmatches
    exact ⟨[], _, y, Position.spans_nil.mpr rfl, hy⟩

/-! ### The validations and the credentials -/

theorem guardLet_eq_ok_iff {α : Type} {value : Option α} {condition : α → Bool}
    {error : LoginError} {a : α} :
    guardLet value condition error = .ok a ↔ value = some a ∧ condition a = true := by
  cases value with
  | none => exact iff_of_false nofun nofun
  | some b =>
    rw [guardLet, Option.some.injEq]
    split_ifs with h
    · rw [Except.ok.injEq]
      constructor
      · rintro rfl
        exact ⟨rfl, h⟩
      · rintro ⟨rfl, -⟩
        rfl
    · refine iff_of_false nofun ?_
      rintro ⟨rfl, hb⟩
      exact h hb

/-- A name is there if it is not empty when it has been trimmed. -/
theorem exists_trimmed_iff {value : Option String} :
    (∃ name, value.map trimmed = some name ∧ (!name.isEmpty) = true) ↔
      ∃ name, value = some name ∧ trimmed name ≠ "" := by
  simp only [Option.map_eq_some_iff, Bool.not_eq_true', String.isEmpty_eq_false_iff]
  constructor
  · rintro ⟨_, ⟨name, hname, rfl⟩, hne⟩
    exact ⟨name, hname, hne⟩
  · rintro ⟨name, hname, hne⟩
    exact ⟨_, ⟨name, hname, rfl⟩, hne⟩

theorem trimmed_subset (s : String) : (trimmed s).toList ⊆ s.toList := by
  rw [trimmed, trimmingCharacters, String.toList_ofList]
  exact List.Subset.trans (List.rdropWhile_prefix _ _).subset (List.dropWhile_sublist _).subset

section OneLine

variable (hline : ∀ password, userModel.password = some password →
  ∀ c ∈ password.toList, isLineTerminator c.toNat = false)

include hline

theorem validatePassword_eq_ok_iff : validatePassword userModel = .ok () ↔
    ∃ password, userModel.password = some password ∧
      MeetsCriteria (trimmed password).toList := by
  have hsearch {password : String} (h : userModel.password = some password) :
      passwordPattern.search (trimmed password).toList = true ↔
        MeetsCriteria (trimmed password).toList := by
    refine search_passwordPattern_iff fun c hc => ?_
    rw [isOnLine, hline password h c (trimmed_subset password hc)]
    rfl
  simp only [validatePassword, bind_eq_ok_iff, guardLet_eq_ok_iff, Option.map_eq_some_iff]
  constructor
  · rintro ⟨_, ⟨⟨password, hpassword, rfl⟩, -⟩, h⟩
    split_ifs at h with hfound
    exact ⟨password, hpassword, (hsearch hpassword).mp hfound⟩
  · rintro ⟨password, hpassword, hcriteria⟩
    refine ⟨_, ⟨⟨password, hpassword, rfl⟩, ?_⟩, if_pos ((hsearch hpassword).mpr hcriteria)⟩
    have hne : (trimmed password).toList ≠ [] := by
      rintro hnil
      exact absurd (hnil ▸ hcriteria.length_le) (by simp)
    simpa using hne

theorem validateSiginUserModel_eq_ok_iff :
    validateSiginUserModel g userModel = .ok () ↔ SignsIn g userModel := by
  simp only [validateSiginUserModel, bind_eq_ok_iff, guardLet_eq_ok_iff,
    validatePassword_eq_ok_iff hline]
  constructor
  · rintro ⟨emailAddress, hemail, hpassword⟩
    exact ⟨⟨emailAddress, hemail⟩, hpassword⟩
  · rintro ⟨⟨emailAddress, hemail⟩, hpassword⟩
    exact ⟨emailAddress, hemail, hpassword⟩

theorem validateCreateUserModel_eq_ok_iff :
    validateCreateUserModel g userModel = .ok () ↔ SignsUp g userModel := by
  simp only [validateCreateUserModel, bind_eq_ok_iff, exists_and_right, guardLet_eq_ok_iff,
    exists_trimmed_iff, and_true, ← Option.ne_none_iff_exists', validatePassword_eq_ok_iff hline]
  constructor
  · rintro ⟨hphoto, hname, hemail, huser, hpassword⟩
    exact ⟨⟨hemail, hpassword⟩, hphoto, hname, huser⟩
  · rintro ⟨⟨hemail, hpassword⟩, hphoto, hname, huser⟩
    exact ⟨hphoto, hname, hemail, huser, hpassword⟩

/-- **The validations accept exactly the credentials that they ask for**, for a password of one
line; and who can sign up can sign in. -/
theorem validated_iff (g : Graphemes) :
    (validateSiginUserModel g userModel = .ok () ↔ SignsIn g userModel) ∧
      (validateCreateUserModel g userModel = .ok () ↔ SignsUp g userModel) ∧
      (validateCreateUserModel g userModel = .ok () →
        validateSiginUserModel g userModel = .ok ()) := by
  have hsignIn := validateSiginUserModel_eq_ok_iff (g := g) hline
  have hsignUp := validateCreateUserModel_eq_ok_iff (g := g) hline
  exact ⟨hsignIn, hsignUp, fun h => hsignIn.mpr (hsignUp.mp h).toSignsIn⟩

end OneLine

/-- A user who can sign up. -/
private def testUser : UserModel where
  photoURL := some "photo"
  displayName := some "Test User"
  emailAddress := some "testuser4@gmail.com"
  userName := some "testuser4"
  password := some "Testuser4@123"

theorem validated_iff_testUser : validateSiginUserModel Graphemes.scalars testUser = .ok () ∧
    validateCreateUserModel Graphemes.scalars testUser = .ok () := by
  have hline : ∀ password, testUser.password = some password →
      ∀ c ∈ password.toList, isLineTerminator c.toNat = false := by
    intro password hpassword c hc
    obtain rfl := Option.some.inj hpassword
    have hall : "Testuser4@123".toList.all isOnLine = true := by decide
    simpa [isOnLine] using List.all_eq_true.mp hall c hc
  have hcriteria : MeetsCriteria (trimmed "Testuser4@123").toList :=
    ⟨by decide, List.any_eq_true.mp (by decide), List.any_eq_true.mp (by decide),
      List.any_eq_true.mp (by decide), List.any_eq_true.mp (by decide)⟩
  have hsignsUp : SignsUp Graphemes.scalars testUser :=
    ⟨⟨⟨_, rfl, by decide⟩, _, rfl, hcriteria⟩, by decide, ⟨_, rfl, by decide⟩, _, rfl, by decide⟩
  obtain ⟨-, hsignUp, hboth⟩ := validated_iff hline Graphemes.scalars
  exact ⟨hboth (hsignUp.mpr hsignsUp), hsignUp.mpr hsignsUp⟩

end TwitterLite
