import TwitterLite.Common.Email
import TwitterLite.Library.Comparator
import Mathlib.Data.Nat.Digits.Lemmas

/-!
# The order of the keys

The database client orders the children of a node by their keys: keys that spell a 32-bit integer
come first, by their value and then by their length, and the others follow in the order of their
UTF-16 units. Two constants that no key of the database equals come before and after all of them.

`FUtilities.compareKey` is the comparator of every sorted dictionary of the client. It is ranked by
`keyRank` and so arranges all keys (`isRank_compareKey`). A dictionary holds one entry for two keys
that it does not tell apart. Two different keys are confused exactly if both spell zero in the same
length, one with a minus sign and one without (`compareKey_arranges`); a key that is no integer is
confused with no other one (`eq_of_compareKey_eq`).

## Main definitions

* `TwitterLite.FKey`, `TwitterLite.tryParseStringToInt`, `TwitterLite.compareKey`.
* `TwitterLite.keyRank`.

## Main results

* `TwitterLite.isRank_compareKey`, `TwitterLite.compareKey_arranges`.
* `TwitterLite.eq_of_compareKey_eq`.

Source: `FUtilities.m`, lines 332–430; `FNamedNode.m`, lines 46–66.
-/

namespace TwitterLite

open Comparator

/-! ### Keys that spell an integer -/

/-- The loop of `tryParseStringToInt`: every unit must be a digit. -/
def parseDigits (value : ℤ) : List UInt16 → Option ℤ
  | [] => some value
  | c :: rest =>
    if c < codeUnit '0' ∨ codeUnit '9' < c then none
    else parseDigits (value * 10 + (c - codeUnit '0').toNat) rest

/-- The value, if it is one of 32 bits. -/
def int32 (value : ℤ) : Option ℤ :=
  if value < -2147483648 ∨ 2147483647 < value then none else some value

/-- `FUtilities.tryParseStringToInt`. -/
def tryParseStringToInt (str : List UInt16) : Option ℤ :=
  if 11 < str.length ∨ str.length = 0 then none
  else if str.head? = some (codeUnit '-') then
    if str.length = 1 then none else (parseDigits 0 str.tail).bind fun value => int32 (-value)
  else (parseDigits 0 str).bind int32

/-! ### The comparator -/

/-- A key of the client: the name of a child, or one of the two names around all others. -/
inductive FKey where
  | minName
  | name (text : String)
  | maxName
  deriving DecidableEq, Repr

/-- `FUtilities.compareKey:toKey:` on names of children. -/
def compareName (a b : List UInt16) : Ordering :=
  match tryParseStringToInt a, tryParseStringToInt b with
  | some aAsInt, some bAsInt =>
    if aAsInt > bAsInt then .gt
    else if aAsInt < bAsInt then .lt
    else if a.length > b.length then .gt
    else if a.length < b.length then .lt
    else .eq
  | some _, none => .lt
  | none, some _ => .gt
  | none, none => lexCompare (fun u v => compare u.toNat v.toNat) a b

/-- `FUtilities.compareKey:toKey:`. -/
def compareKey (a b : FKey) : Ordering :=
  match a, b with
  | .minName, .minName => .eq
  | .maxName, .maxName => .eq
  | .minName, _ => .lt
  | _, .maxName => .lt
  | _, .minName => .gt
  | .maxName, _ => .gt
  | .name a, .name b => if a = b then .eq else compareName (utf16 a) (utf16 b)

/-! ### The rank of a key -/

/-- The rank of a name: integers before the others. -/
def nameRank (text : List UInt16) : ℕ ×ₗ ℤ ×ₗ ℕ ×ₗ List ℕ :=
  match tryParseStringToInt text with
  | some value => toLex (1, toLex (value, toLex (text.length, [])))
  | none => toLex (2, toLex (0, toLex (0, text.map UInt16.toNat)))

/-- The rank of a key. -/
def keyRank : FKey → ℕ ×ₗ ℤ ×ₗ ℕ ×ₗ List ℕ
  | .minName => toLex (0, toLex (0, toLex (0, [])))
  | .name text => nameRank (utf16 text)
  | .maxName => toLex (3, toLex (0, toLex (0, [])))

theorem isRank_compareUnits :
    IsRank (fun u v : UInt16 => compare u.toNat v.toNat) UInt16.toNat := fun u v =>
  (compare_iff u.toNat v.toNat).mp rfl

theorem isRank_compareName : IsRank compareName nameRank := by
  intro a b
  unfold compareName nameRank
  cases ha : tryParseStringToInt a with
  | none =>
    cases hb : tryParseStringToInt b with
    | none =>
      have hlex := isRank_compareUnits.lexCompare a b
      exact compares_toLex_right (compares_toLex_right (compares_toLex_right hlex 0) 0) 2
    | some y => exact toLex_lt_toLex_of_lt (by decide) _ _
  | some x =>
    cases hb : tryParseStringToInt b with
    | none => exact toLex_lt_toLex_of_lt (by decide) _ _
    | some y =>
      dsimp only
      split_ifs with hgt hlt hlonger hshorter <;>
        simp only [Ordering.Compares, gt_iff_lt, Prod.Lex.toLex_lt_toLex, lt_self_iff_false,
          true_and, false_or, EmbeddingLike.apply_eq_iff_eq, Prod.mk.injEq, and_true] <;>
        omega

theorem nameRank_bounds (text : List UInt16) :
    keyRank .minName < nameRank text ∧ nameRank text < keyRank .maxName := by
  unfold nameRank keyRank
  cases tryParseStringToInt text with
  | none =>
    exact ⟨toLex_lt_toLex_of_lt (by decide) _ _,
      toLex_lt_toLex_of_lt (by decide) _ _⟩
  | some value =>
    exact ⟨toLex_lt_toLex_of_lt (by decide) _ _,
      toLex_lt_toLex_of_lt (by decide) _ _⟩

/-- **The comparator arranges all keys.** -/
theorem isRank_compareKey : IsRank compareKey keyRank := by
  intro a b
  cases a with
  | minName =>
    cases b with
    | minName => rfl
    | name b => exact (nameRank_bounds (utf16 b)).1
    | maxName => exact toLex_lt_toLex_of_lt (by decide) _ _
  | name a =>
    cases b with
    | minName => exact (nameRank_bounds (utf16 a)).1
    | name b =>
      rw [compareKey]
      split_ifs with h
      · rw [h]
        rfl
      · exact isRank_compareName (utf16 a) (utf16 b)
    | maxName => exact (nameRank_bounds (utf16 a)).2
  | maxName =>
    cases b with
    | minName => exact toLex_lt_toLex_of_lt (by decide) _ _
    | name b => exact (nameRank_bounds (utf16 b)).2
    | maxName => rfl

/-! ### Texts and their units -/

/-- The first scalar of a text is determined by its units. -/
theorem scalarUTF16_append_inj {c d : Char} {xs ys : List UInt16}
    (h : scalarUTF16 c ++ xs = scalarUTF16 d ++ ys) : c = d ∧ xs = ys := by
  have hc : c.toNat < 0xd800 ∨ 0xdfff < c.toNat ∧ c.toNat < 0x110000 := c.valid
  have hd : d.toNat < 0xd800 ∨ 0xdfff < d.toNat ∧ d.toNat < 0x110000 := d.valid
  unfold scalarUTF16 codeUnit at h
  split_ifs at h with h₁ h₂ h₂
  · obtain ⟨hhead, htail⟩ := List.cons.inj h
    have hnat := congrArg UInt16.toNat hhead
    simp only [Nat.toUInt16, UInt16.toNat_ofNat'] at hnat
    exact ⟨Char.toNat_inj.mp (by omega), htail⟩
  -- a surrogate is no scalar
  · have hnat := congrArg UInt16.toNat (List.cons.inj h).1
    simp only [Nat.toUInt16, UInt16.toNat_ofNat'] at hnat
    omega
  · have hnat := congrArg UInt16.toNat (List.cons.inj h).1
    simp only [Nat.toUInt16, UInt16.toNat_ofNat'] at hnat
    omega
  · obtain ⟨hhead, htail⟩ := List.cons.inj h
    obtain ⟨hsecond, htail⟩ := List.cons.inj htail
    have hnat := congrArg UInt16.toNat hhead
    have hnat' := congrArg UInt16.toNat hsecond
    simp only [Nat.toUInt16, UInt16.toNat_ofNat'] at hnat hnat'
    exact ⟨Char.toNat_inj.mp (by omega), htail⟩

theorem flatMap_scalarUTF16_injective :
    Function.Injective fun text : List Char => text.flatMap scalarUTF16 := by
  intro a b h
  induction a generalizing b with
  | nil =>
    cases b with
    | nil => rfl
    | cons d b => exact absurd h.symm (by simp [scalarUTF16_ne_nil])
  | cons c a ih =>
    cases b with
    | nil => exact absurd h (by simp [scalarUTF16_ne_nil])
    | cons d b =>
      simp only [List.flatMap_cons] at h
      obtain ⟨rfl, htail⟩ := scalarUTF16_append_inj h
      rw [ih htail]

/-- A text is determined by its units. -/
theorem utf16_injective : Function.Injective utf16 := fun _ _ h =>
  String.toList_injective (flatMap_scalarUTF16_injective h)

/-! ### Keys that are not told apart -/

section ParseDigits

variable {x y v : ℤ} {l l' : List UInt16}

theorem parseDigits_cons {c : UInt16} (h : parseDigits x (c :: l) = some v) :
    codeUnit '0' ≤ c ∧ c ≤ codeUnit '9' ∧
      parseDigits (x * 10 + (c - codeUnit '0').toNat) l = some v := by
  rw [parseDigits] at h
  split_ifs at h with hc
  rw [not_or, UInt16.not_lt, UInt16.not_lt] at hc
  exact ⟨hc.1, hc.2, h⟩

theorem digit_bounds {c : UInt16} (h : codeUnit '0' ≤ c) (h' : c ≤ codeUnit '9') :
    (c - codeUnit '0').toNat = c.toNat - 48 ∧ 48 ≤ c.toNat ∧ c.toNat ≤ 57 := by
  have hlow : 48 ≤ c.toNat := UInt16.le_iff_toNat_le.mp h
  have hhigh : c.toNat ≤ 57 := UInt16.le_iff_toNat_le.mp h'
  exact ⟨UInt16.toNat_sub_of_le _ _ h, hlow, hhigh⟩

/-- Digits of the same number in the same length are the same. -/
theorem parseDigits_inj (hx : 0 ≤ x) (hy : 0 ≤ y) (hlength : l.length = l'.length)
    (h : parseDigits x l = some v) (h' : parseDigits y l' = some v) : x = y ∧ l = l' := by
  induction l generalizing x y l' with
  | nil =>
    obtain rfl := List.eq_nil_of_length_eq_zero hlength.symm
    exact ⟨(Option.some.inj h).trans (Option.some.inj h').symm, rfl⟩
  | cons c l ih =>
    cases l' with
    | nil => cases hlength
    | cons c' l' =>
      obtain ⟨hlow, hhigh, h⟩ := parseDigits_cons h
      obtain ⟨hlow', hhigh', h'⟩ := parseDigits_cons h'
      obtain ⟨hsub, hc⟩ := digit_bounds hlow hhigh
      obtain ⟨hsub', hc'⟩ := digit_bounds hlow' hhigh'
      obtain ⟨hvalue, hrest⟩ := ih (by omega) (by omega) (Nat.succ.inj hlength) h h'
      have hunit : c.toNat = c'.toNat := by omega
      exact ⟨by omega, by rw [UInt16.toNat_inj.mp hunit, hrest]⟩

theorem parseDigits_nonneg (hx : 0 ≤ x) (h : parseDigits x l = some v) : 0 ≤ v := by
  induction l generalizing x with
  | nil => exact (Option.some.inj h) ▸ hx
  | cons c l ih => exact ih (by omega) (parseDigits_cons h).2.2

/-- Only zeros make zero. -/
theorem parseDigits_eq_zero (hx : 0 ≤ x) (h : parseDigits x l = some 0) :
    x = 0 ∧ l = List.replicate l.length (codeUnit '0') := by
  induction l generalizing x with
  | nil => exact ⟨Option.some.inj h, rfl⟩
  | cons c l ih =>
    obtain ⟨hlow, hhigh, h⟩ := parseDigits_cons h
    obtain ⟨hsub, hc⟩ := digit_bounds hlow hhigh
    obtain ⟨hvalue, hrest⟩ := ih (by omega) h
    have hunit : c.toNat = 48 := by omega
    refine ⟨by omega, ?_⟩
    rw [List.length_cons, List.replicate_succ, ← hrest]
    exact congrArg (· :: l) (UInt16.toNat_inj.mp hunit)

theorem parseDigits_zeros (n : ℕ) :
    parseDigits 0 (List.replicate n (codeUnit '0')) = some 0 := by
  induction n with
  | zero => rfl
  | succ n ih => exact ih

end ParseDigits

/-- How a text spells an integer: with a minus sign or without one. -/
theorem tryParseStringToInt_eq_some {str : List UInt16} {value : ℤ}
    (h : tryParseStringToInt str = some value) : str.length ≤ 11 ∧
      (str ≠ [] ∧ parseDigits 0 str = some value ∨
        ∃ rest, rest ≠ [] ∧ str = codeUnit '-' :: rest ∧ parseDigits 0 rest = some (-value)) := by
  have hint {x : ℤ} (hx : int32 x = some value) : x = value := by
    unfold int32 at hx
    split_ifs at hx
    exact Option.some.inj hx
  unfold tryParseStringToInt at h
  split_ifs at h with hlength hminus hone
  · rw [not_or, not_lt] at hlength
    obtain ⟨x, hx, hvalue⟩ := Option.bind_eq_some_iff.mp h
    obtain ⟨rest, rfl⟩ : ∃ rest, str = codeUnit '-' :: rest := by
      cases str with
      | nil => cases hminus
      | cons c rest => exact ⟨rest, by rw [Option.some.inj hminus]⟩
    refine ⟨hlength.1, .inr ⟨rest, ?_, rfl, ?_⟩⟩
    · rintro rfl
      exact hone rfl
    · rw [← hint hvalue, neg_neg]
      exact hx
  · rw [not_or, not_lt] at hlength
    obtain ⟨x, hx, hvalue⟩ := Option.bind_eq_some_iff.mp h
    exact ⟨hlength.1, .inl ⟨fun hnil => hlength.2 (by rw [hnil]; rfl), hint hvalue ▸ hx⟩⟩

/-- Two texts of the same length spell the same integer only if it is zero, spelled once with a
minus sign and once without one. -/
theorem eq_or_zeros_of_tryParseStringToInt {str str' : List UInt16} {value : ℤ}
    (h : tryParseStringToInt str = some value) (h' : tryParseStringToInt str' = some value)
    (hlength : str.length = str'.length) : str = str' ∨
      ∃ n, 0 < n ∧ n ≤ 10 ∧
        (str = codeUnit '-' :: List.replicate n (codeUnit '0') ∧
            str' = List.replicate (n + 1) (codeUnit '0') ∨
          str' = codeUnit '-' :: List.replicate n (codeUnit '0') ∧
            str = List.replicate (n + 1) (codeUnit '0')) := by
  have hmixed {l rest : List UInt16} (hle : l.length ≤ 11) (hl : parseDigits 0 l = some value)
      (hne : rest ≠ []) (hrest : parseDigits 0 rest = some (-value))
      (hlength : l.length = rest.length + 1) : 0 < rest.length ∧ rest.length ≤ 10 ∧
        rest = List.replicate rest.length (codeUnit '0') ∧
          l = List.replicate (rest.length + 1) (codeUnit '0') := by
    have hpos := parseDigits_nonneg le_rfl hl
    have hneg := parseDigits_nonneg le_rfl hrest
    obtain rfl : value = 0 := by omega
    refine ⟨List.length_pos_iff.mpr hne, by omega, (parseDigits_eq_zero le_rfl hrest).2, ?_⟩
    rw [← hlength]
    exact (parseDigits_eq_zero le_rfl hl).2
  obtain ⟨hle, hstr⟩ := tryParseStringToInt_eq_some h
  obtain ⟨hle', hstr'⟩ := tryParseStringToInt_eq_some h'
  rcases hstr with ⟨-, hdigits⟩ | ⟨rest, hne, rfl, hdigits⟩
  · rcases hstr' with ⟨-, hdigits'⟩ | ⟨rest', hne', rfl, hdigits'⟩
    · exact .inl (parseDigits_inj le_rfl le_rfl hlength hdigits hdigits').2
    · obtain ⟨hpos, hten, hrest, hl⟩ := hmixed hle hdigits hne' hdigits' hlength
      exact .inr ⟨rest'.length, hpos, hten, .inr ⟨by rw [← hrest], hl⟩⟩
  · rcases hstr' with ⟨-, hdigits'⟩ | ⟨rest', hne', rfl, hdigits'⟩
    · obtain ⟨hpos, hten, hrest, hl⟩ := hmixed hle' hdigits' hne hdigits hlength.symm
      exact .inr ⟨rest.length, hpos, hten, .inl ⟨by rw [← hrest], hl⟩⟩
    · refine .inl (congrArg _ ?_)
      exact (parseDigits_inj le_rfl le_rfl (Nat.succ.inj hlength) hdigits hdigits').2

/-- The text of `n` zeros. -/
def zeros (n : ℕ) : String := String.ofList (List.replicate n '0')

/-- The text of a minus sign and `n` zeros. -/
def minusZeros (n : ℕ) : String := String.ofList ('-' :: List.replicate n '0')

theorem utf16_zeros (n : ℕ) : utf16 (zeros n) = List.replicate n (codeUnit '0') := by
  rw [utf16, zeros, String.toList_ofList]
  induction n with
  | zero => rfl
  | succ n ih =>
    rw [List.replicate_succ, List.flatMap_cons, ih]
    rfl

theorem utf16_minusZeros (n : ℕ) :
    utf16 (minusZeros n) = codeUnit '-' :: List.replicate n (codeUnit '0') := by
  have h := utf16_zeros n
  rw [utf16, zeros, String.toList_ofList] at h
  rw [utf16, minusZeros, String.toList_ofList, List.flatMap_cons, h]
  rfl

theorem tryParseStringToInt_zeros {n : ℕ} (hpos : 0 < n) (hle : n ≤ 11) :
    tryParseStringToInt (List.replicate n (codeUnit '0')) = some 0 := by
  have hhead : (List.replicate n (codeUnit '0')).head? ≠ some (codeUnit '-') := by
    rw [List.head?_replicate, if_neg hpos.ne']
    decide
  rw [tryParseStringToInt, if_neg (by rw [List.length_replicate]; omega), if_neg hhead,
    parseDigits_zeros]
  rfl

theorem tryParseStringToInt_minusZeros {n : ℕ} (hpos : 0 < n) (hle : n ≤ 10) :
    tryParseStringToInt (codeUnit '-' :: List.replicate n (codeUnit '0')) = some 0 := by
  have hlength : (codeUnit '-' :: List.replicate n (codeUnit '0')).length = n + 1 := by
    rw [List.length_cons, List.length_replicate]
  rw [tryParseStringToInt, if_neg (by omega), if_pos List.head?_cons, if_neg (by omega),
    List.tail_cons,
    parseDigits_zeros]
  rfl

/-- The names have the same rank: they are the same, or integers of the same value and length. -/
theorem nameRank_eq_iff {a b : List UInt16} : nameRank a = nameRank b ↔ a = b ∨
    ∃ value, tryParseStringToInt a = some value ∧ tryParseStringToInt b = some value ∧
      a.length = b.length := by
  have hunits : Function.Injective UInt16.toNat := fun u v => UInt16.toNat_inj.mp
  unfold nameRank
  cases ha : tryParseStringToInt a with
  | none =>
    cases hb : tryParseStringToInt b with
    | none => simp [hunits.list_map.eq_iff]
    | some y =>
      have hne : a ≠ b := fun h => by rw [h, hb] at ha; cases ha
      simp [hne]
  | some x =>
    cases hb : tryParseStringToInt b with
    | none =>
      have hne : a ≠ b := fun h => by rw [h, hb] at ha; cases ha
      simp [hne]
    | some y =>
      simp only [EmbeddingLike.apply_eq_iff_eq, Prod.mk.injEq, true_and, and_true,
        Option.some.injEq]
      constructor
      · rintro ⟨rfl, hlength⟩
        exact .inr ⟨x, rfl, rfl, hlength⟩
      · rintro (rfl | ⟨value, rfl, rfl, hlength⟩)
        · exact ⟨Option.some.inj (ha.symm.trans hb), rfl⟩
        · exact ⟨rfl, hlength⟩

/-- The two keys spell zero in the same length, the first one with a minus sign. -/
def SpellZero (a b : FKey) : Prop :=
  ∃ n, 0 < n ∧ n ≤ 10 ∧ a = .name (minusZeros n) ∧ b = .name (zeros (n + 1))

theorem SpellZero.compareKey_eq {a b : FKey} (h : SpellZero a b) : compareKey a b = .eq := by
  obtain ⟨n, hpos, hle, rfl, rfl⟩ := h
  rw [isRank_compareKey.eq_iff, keyRank, keyRank, nameRank_eq_iff, utf16_minusZeros, utf16_zeros]
  refine .inr ⟨0, tryParseStringToInt_minusZeros hpos hle,
    tryParseStringToInt_zeros n.succ_pos (by omega), ?_⟩
  rw [List.length_cons, List.length_replicate, List.length_replicate]

theorem eq_or_spellZero_of_compareKey_eq {a b : FKey} (h : compareKey a b = .eq) :
    a = b ∨ SpellZero a b ∨ SpellZero b a := by
  have hrank := isRank_compareKey.eq_iff.mp h
  cases a with
  | minName =>
    cases b with
    | minName => exact .inl rfl
    | name b => exact absurd hrank (nameRank_bounds (utf16 b)).1.ne
    | maxName => exact absurd hrank (by decide)
  | name a =>
    cases b with
    | minName => exact absurd hrank (nameRank_bounds (utf16 a)).1.ne'
    | name b =>
      rcases nameRank_eq_iff.mp hrank with hunits | ⟨value, ha, hb, hlength⟩
      · exact .inl (congrArg _ (utf16_injective hunits))
      rcases eq_or_zeros_of_tryParseStringToInt ha hb hlength with
        hunits | ⟨n, hpos, hle, ⟨hminus, hzeros⟩ | ⟨hminus, hzeros⟩⟩
      · exact .inl (congrArg _ (utf16_injective hunits))
      · rw [← utf16_minusZeros] at hminus
        rw [← utf16_zeros] at hzeros
        exact .inr (.inl ⟨n, hpos, hle, congrArg _ (utf16_injective hminus),
          congrArg _ (utf16_injective hzeros)⟩)
      · rw [← utf16_minusZeros] at hminus
        rw [← utf16_zeros] at hzeros
        exact .inr (.inr ⟨n, hpos, hle, congrArg _ (utf16_injective hminus),
          congrArg _ (utf16_injective hzeros)⟩)
    | maxName => exact absurd hrank (nameRank_bounds (utf16 a)).2.ne
  | maxName =>
    cases b with
    | minName => exact absurd hrank (by decide)
    | name b => exact absurd hrank (nameRank_bounds (utf16 b)).2.ne'
    | maxName => exact .inl rfl

/-- A name that is no integer is confused with no other key. -/
theorem eq_of_compareKey_eq {text : String} (h : tryParseStringToInt (utf16 text) = none)
    {b : FKey} (heq : compareKey (.name text) b = .eq) : .name text = b := by
  rcases eq_or_spellZero_of_compareKey_eq heq with heq | ⟨n, hpos, hle, hname, -⟩ |
      ⟨n, hpos, hle, -, hname⟩
  · exact heq
  · obtain rfl := FKey.name.inj hname
    rw [utf16_minusZeros, tryParseStringToInt_minusZeros hpos hle] at h
    cases h
  · obtain rfl := FKey.name.inj hname
    rw [utf16_zeros, tryParseStringToInt_zeros n.succ_pos (by omega)] at h
    cases h

/-- **The keys are arranged, and only spellings of zero are confused.** The comparator of the
client's dictionaries is antisymmetric and transitive, and it does not tell two different keys
apart exactly if both spell zero in the same length, one with a minus sign and one without. -/
theorem compareKey_arranges (a b d : FKey) : (compareKey a b).swap = compareKey b a ∧
    (compareKey a b ≠ .gt → compareKey b d ≠ .gt → compareKey a d ≠ .gt) ∧
      (compareKey a b = .eq ↔ a = b ∨ SpellZero a b ∨ SpellZero b a) := by
  refine ⟨isRank_compareKey.swap a b, fun hab hbd => ?_, eq_or_spellZero_of_compareKey_eq, ?_⟩
  · rw [isRank_compareKey.ne_gt_iff] at hab hbd ⊢
    exact hab.trans hbd
  · rintro (rfl | h | h)
    · exact isRank_compareKey.eq_iff.mpr rfl
    · exact h.compareKey_eq
    · exact isRank_compareKey.eq_iff.mpr (isRank_compareKey.eq_iff.mp h.compareKey_eq).symm

end TwitterLite
