import TwitterLite.Session.Credentials

/-!
# Texts that are accepted as email addresses

Sign-in and sign-up ought to accept an email address exactly if the whole text is one. An address
consists of ASCII characters, so the range in which the pattern is searched is the whole of it, and
it is accepted. But a text is also accepted if its range ends with an initial part that is an
address, though more units follow; or if the range ends after a line terminator, which `$` skips;
or if the address has one of the two letters that the pattern adds because it ignores case
(`Graphemes.isValidEmail_and_not_isAddress_iff`).

## Main definitions

* `TwitterLite.Graphemes.AcceptedBeyond`, `TwitterLite.Graphemes.AcceptsAddresses`.

## Main results

* `TwitterLite.Graphemes.isValidEmail_and_not_isAddress_iff`.
* `TwitterLite.Graphemes.acceptsAddresses_iff`.

Source: `StringExtension.swift`, lines 11–16; `SigninViewModel.swift`, lines 15–33;
`CreateAccountViewModel.swift`, lines 15–38.
-/

namespace TwitterLite

namespace Graphemes

variable (g : Graphemes) (s : String)

/-- An initial part of the text is an address with the folded letters, and the characters of the
text are as many as the units of this part, while more follow or the part has the long s or the
Kelvin sign; or one more, and a line terminator follows; or two more, and a carriage return and a
line feed follow. -/
def AcceptedBeyond : Prop :=
  ∃ address rest, utf16 s = address ++ rest ∧ IsAddress isLetterOrDigitFolded address ∧
    ((g.count s = address.length ∧ (rest ≠ [] ∨ ∃ u ∈ address, u = 0x17f ∨ u = 0x212a)) ∨
      (g.count s = address.length + 1 ∧ ∃ u ∈ rest.head?, isLineTerminator u.toNat = true) ∨
      (g.count s = address.length + 2 ∧ ∃ more, rest = codeUnit '\r' :: codeUnit '\n' :: more))

/-- The text is a valid address exactly if the whole of it is one, and no validation accepts a model
with another text. -/
structure AcceptsAddresses : Prop where
  isValidEmail_iff : g.isValidEmail s = true ↔ IsAddress isLetterOrDigit (utf16 s)
  of_signIn : ∀ userModel : UserModel, userModel.emailAddress = some s →
    validateSiginUserModel g userModel = .ok () → IsAddress isLetterOrDigit (utf16 s)
  of_signUp : ∀ userModel : UserModel, userModel.emailAddress = some s →
    validateCreateUserModel g userModel = .ok () → IsAddress isLetterOrDigit (utf16 s)

variable {g s}

/-! ### Characters and units -/

theorem length_le_of_ne_nil {clusters : List (List UInt16)} (h : ∀ c ∈ clusters, c ≠ []) :
    clusters.length ≤ clusters.flatten.length := by
  induction clusters with
  | nil => exact le_rfl
  | cons c clusters ih =>
    obtain ⟨hc, hrest⟩ := List.forall_mem_cons.mp h
    have hpos := List.length_pos_iff.mpr hc
    have hle := ih hrest
    rw [List.length_cons, List.flatten_cons, List.length_append]
    omega

theorem length_eq_of_length_one {clusters : List (List UInt16)}
    (h : ∀ c ∈ clusters, c.length = 1) : clusters.length = clusters.flatten.length := by
  induction clusters with
  | nil => rfl
  | cons c clusters ih =>
    obtain ⟨hc, hrest⟩ := List.forall_mem_cons.mp h
    rw [List.length_cons, List.flatten_cons, List.length_append, hc, ih hrest, Nat.add_comm]

/-- A text has at least as many units as characters. -/
theorem count_le (g : Graphemes) (s : String) : g.count s ≤ (utf16 s).length :=
  g.flatten_clusters s ▸ length_le_of_ne_nil (g.ne_nil s)

/-- A text of ASCII characters without carriage returns has as many units as characters. -/
theorem count_eq (h : ∀ u ∈ utf16 s, u < 0x80 ∧ u ≠ codeUnit '\r') :
    g.count s = (utf16 s).length := by
  rw [← g.flatten_clusters s] at h ⊢
  refine length_eq_of_length_one fun cluster hcluster => ?_
  obtain ⟨u, rest, rfl⟩ := List.exists_cons_of_ne_nil (g.ne_nil s cluster hcluster)
  cases rest with
  | nil => rfl
  | cons v rest =>
    have hmem {w : UInt16} (hw : w ∈ u :: v :: rest) : w < 0x80 ∧ w ≠ codeUnit '\r' :=
      h w (List.mem_flatten.mpr ⟨_, hcluster, hw⟩)
    obtain ⟨hu, hcr⟩ := hmem (List.mem_cons_self ..)
    obtain ⟨hv, -⟩ := hmem (List.mem_cons_of_mem _ (List.mem_cons_self ..))
    exact absurd ((List.isChain_cons_cons.mp (g.ascii s _ hcluster)).1 hu hv).1 hcr

/-! ### Addresses are accepted -/

theorem count_eq_of_isAddress (h : IsAddress isLetterOrDigit (utf16 s)) :
    g.count s = (utf16 s).length := by
  refine count_eq fun u hu => ?_
  obtain ⟨hlt, hterminator⟩ := h.ascii u hu
  refine ⟨hlt, ?_⟩
  rintro rfl
  exact absurd hterminator (by decide)

theorem isValidEmail_of_isAddress (h : IsAddress isLetterOrDigit (utf16 s)) :
    g.isValidEmail s = true := by
  refine g.isValidEmail_iff s |>.mpr ⟨utf16 s, [], ?_, ?_, .inl rfl⟩
  · rw [count_eq_of_isAddress h, List.take_length, List.append_nil]
  · exact h.imp fun u _ hu => isLetterOrDigitFolded_iff.mpr (.inl hu)

/-! ### What else is accepted -/

/-- An address with the folded letters that is not one has the long s or the Kelvin sign. -/
theorem exists_folded {word : List UInt16} (h : IsAddress isLetterOrDigitFolded word)
    (hnot : ¬ IsAddress isLetterOrDigit word) : ∃ u ∈ word, u = 0x17f ∨ u = 0x212a := by
  by_contra hnone
  push Not at hnone
  refine hnot (h.imp fun u hu hfolded => ?_)
  rcases isLetterOrDigitFolded_iff.mp hfolded with hletter | hs | hk
  · exact hletter
  · exact absurd hs (hnone u hu).1
  · exact absurd hk (hnone u hu).2

theorem AcceptedBeyond.isValidEmail (h : g.AcceptedBeyond s) : g.isValidEmail s = true := by
  obtain ⟨address, rest, hs, haddress, hcases⟩ := h
  rw [g.isValidEmail_iff, hs]
  rcases hcases with ⟨hcount, -⟩ | ⟨hcount, u, hu, hterminator⟩ | ⟨hcount, more, rfl⟩
  · exact ⟨address, [], by rw [hcount, List.take_left, List.append_nil], haddress, .inl rfl⟩
  · obtain ⟨more, rfl⟩ := List.head?_eq_some_iff.mp hu
    refine ⟨address, [u], ?_, haddress, .inr (.inl ⟨u, rfl, hterminator⟩)⟩
    rw [hcount, List.take_length_add_append]
    rfl
  · refine ⟨address, _, ?_, haddress, .inr (.inr rfl)⟩
    rw [hcount, List.take_length_add_append]
    rfl

theorem AcceptedBeyond.not_isAddress (h : g.AcceptedBeyond s) :
    ¬ IsAddress isLetterOrDigit (utf16 s) := by
  obtain ⟨address, rest, hs, -, hcases⟩ := h
  intro hwhole
  have hascii := hwhole.ascii
  have hcount := count_eq_of_isAddress (g := g) hwhole
  rw [hs, List.length_append] at hcount
  rw [hs] at hascii
  rcases hcases with ⟨hcount', hrest | ⟨u, hu, hfolded⟩⟩ | ⟨-, u, hu, hterminator⟩ | ⟨-, more, rfl⟩
  · exact hrest (List.length_eq_zero_iff.mp (by omega))
  · have hlt := (hascii u (List.mem_append_left _ hu)).1
    rcases hfolded with rfl | rfl
    · exact absurd hlt (by decide)
    · exact absurd hlt (by decide)
  · have hnot := (hascii u (List.mem_append_right _ (List.mem_of_mem_head? hu))).2
    cases hnot.symm.trans hterminator
  · have hnot := (hascii _ (List.mem_append_right _ (List.mem_cons_self ..))).2
    exact absurd hnot (by decide)

/-- **What is accepted and no address.** -/
theorem isValidEmail_and_not_isAddress_iff :
    g.isValidEmail s = true ∧ ¬ IsAddress isLetterOrDigit (utf16 s) ↔ g.AcceptedBeyond s := by
  refine ⟨fun ⟨hvalid, hnot⟩ => ?_, fun h => ⟨h.isValidEmail, h.not_isAddress⟩⟩
  obtain ⟨address, rest, htake, haddress, hrest⟩ := (g.isValidEmail_iff s).mp hvalid
  have hs : utf16 s = address ++ (rest ++ (utf16 s).drop (g.count s)) := by
    rw [← List.append_assoc, ← htake, List.take_append_drop]
  have hcount : g.count s = address.length + rest.length := by
    rw [← List.length_append, ← htake, List.length_take, Nat.min_eq_left (g.count_le s)]
  refine ⟨address, _, hs, haddress, ?_⟩
  rcases hrest with rfl | ⟨u, rfl, hterminator⟩ | rfl
  · refine .inl ⟨hcount, ?_⟩
    rw [or_iff_not_imp_left, not_not, List.nil_append]
    intro hnil
    rw [List.nil_append, hnil, List.append_nil] at hs
    exact exists_folded haddress (hs ▸ hnot)
  · exact .inr (.inl ⟨hcount, u, rfl, hterminator⟩)
  · exact .inr (.inr ⟨hcount, _, rfl⟩)

/-- **A text is accepted exactly if the whole of it is an address**, by the check and by both
validations, if and only if it is not accepted beyond its address. -/
theorem acceptsAddresses_iff (g : Graphemes) (s : String) :
    g.AcceptsAddresses s ↔ ¬ g.AcceptedBeyond s := by
  constructor
  · intro h hbeyond
    exact hbeyond.not_isAddress (h.isValidEmail_iff.mp hbeyond.isValidEmail)
  · intro hnot
    have hvalid (h : g.isValidEmail s = true) : IsAddress isLetterOrDigit (utf16 s) := by
      by_contra hno
      exact hnot (isValidEmail_and_not_isAddress_iff.mp ⟨h, hno⟩)
    refine ⟨⟨hvalid, isValidEmail_of_isAddress⟩, fun userModel hemail h => ?_,
      fun userModel hemail h => ?_⟩
    · obtain ⟨_, hguard, -⟩ := bind_eq_ok_iff.mp h
      obtain ⟨hsome, hemailValid⟩ := guardLet_eq_ok_iff.mp hguard
      exact hvalid (Option.some.inj (hemail.symm.trans hsome) ▸ hemailValid)
    · obtain ⟨_, -, h⟩ := bind_eq_ok_iff.mp h
      obtain ⟨_, -, h⟩ := bind_eq_ok_iff.mp h
      obtain ⟨_, hguard, -⟩ := bind_eq_ok_iff.mp h
      obtain ⟨hsome, hemailValid⟩ := guardLet_eq_ok_iff.mp hguard
      exact hvalid (Option.some.inj (hemail.symm.trans hsome) ▸ hemailValid)

private theorem isAddress_sample : IsAddress isLetterOrDigit (utf16 "a@b") := by
  refine ⟨[codeUnit 'a'], [codeUnit 'b'], [], by decide, by decide, ?_, ?_⟩
  · exact List.forall_mem_singleton.mpr (.inl (by decide))
  · exact List.forall_mem_singleton.mpr (isLabel_singleton_iff.mpr (by decide))

/-- An address is accepted. -/
theorem acceptsAddresses_iff_address : scalars.AcceptsAddresses "a@b" :=
  (acceptsAddresses_iff scalars "a@b").mpr fun h => h.not_isAddress isAddress_sample

/-- An address with a line feed after it is accepted. -/
theorem not_acceptsAddresses : ¬ ∀ (g : Graphemes) (s : String), g.AcceptsAddresses s := by
  intro h
  have haddress : IsAddress isLetterOrDigitFolded (utf16 "a@b") :=
    isAddress_sample.imp fun u _ hu => isLetterOrDigitFolded_iff.mpr (.inl hu)
  have hbeyond : scalars.AcceptedBeyond "a@b\n" :=
    ⟨utf16 "a@b", [codeUnit '\n'], by decide, haddress,
      .inr (.inl ⟨by decide, codeUnit '\n', rfl, by decide⟩)⟩
  exact hbeyond.not_isAddress ((h scalars "a@b\n").isValidEmail_iff.mp hbeyond.isValidEmail)

end Graphemes

end TwitterLite
