import TwitterLite.Library.Pattern

/-!
# Email addresses

`String.isValidEmail` searches a pattern with `NSRegularExpression`, which works on UTF-16 code
units, in the range from 0 to the number of characters of the text. A character is an extended
grapheme cluster, which may consist of several units, so the range may end before the text does.

The pattern is anchored at both ends of the range, but `$` also matches before a final line
terminator, and it ignores case, which adds the long s and the Kelvin sign to the letters. Hence a
text is accepted exactly if its range is an address in this wider alphabet, or one with a line
terminator after it (`Graphemes.isValidEmail_iff`).

## Main definitions

* `TwitterLite.utf16`, `TwitterLite.Graphemes`.
* `TwitterLite.emailPattern`, `TwitterLite.Graphemes.isValidEmail`.
* `TwitterLite.IsLabel`, `TwitterLite.IsAddress`.

## Main results

* `TwitterLite.mem_labelWords_iff`, `TwitterLite.mem_addressWords_iff`.
* `TwitterLite.Graphemes.isValidEmail_iff`.

Source: `StringExtension.swift`, lines 11–16.
-/

namespace TwitterLite

open Pattern

/-! ### Texts -/

/-- The code unit of a character of the Basic Multilingual Plane. -/
def codeUnit (c : Char) : UInt16 := c.toNat.toUInt16

/-- The UTF-16 code units of a Unicode scalar: itself, or a surrogate pair. -/
def scalarUTF16 (c : Char) : List UInt16 :=
  if c.toNat < 0x10000 then [codeUnit c]
  else [(0xd800 + (c.toNat - 0x10000) / 0x400).toUInt16,
    (0xdc00 + (c.toNat - 0x10000) % 0x400).toUInt16]

/-- `String.utf16`. -/
def utf16 (s : String) : List UInt16 := s.toList.flatMap scalarUTF16

/-- How texts are made of characters, which are extended grapheme clusters. The only two ASCII
characters that a cluster keeps together are a carriage return and a line feed. -/
structure Graphemes where
  clusters : String → List (List UInt16)
  flatten_clusters : ∀ s, (clusters s).flatten = utf16 s
  ne_nil : ∀ s, ∀ cluster ∈ clusters s, cluster ≠ []
  ascii : ∀ s, ∀ cluster ∈ clusters s, cluster.IsChain fun u v =>
    u < 0x80 → v < 0x80 → u = codeUnit '\r' ∧ v = codeUnit '\n'

/-- Every scalar is a character, but a carriage return and a line feed are one. -/
def scalarClusters : List Char → List (List UInt16)
  | [] => []
  | '\r' :: '\n' :: rest => [codeUnit '\r', codeUnit '\n'] :: scalarClusters rest
  | c :: rest => scalarUTF16 c :: scalarClusters rest

theorem flatten_scalarClusters (text : List Char) :
    (scalarClusters text).flatten = text.flatMap scalarUTF16 := by
  fun_induction scalarClusters text with
  | case1 => rfl
  | case2 rest ih =>
    rw [List.flatten_cons, ih]
    rfl
  | case3 c rest _ ih => rw [List.flatten_cons, ih, List.flatMap_cons]

theorem scalarUTF16_ne_nil (c : Char) : scalarUTF16 c ≠ [] := by
  unfold scalarUTF16
  split_ifs <;> exact List.cons_ne_nil _ _

/-- A surrogate is no ASCII character. -/
theorem isChain_scalarUTF16 (c : Char) : (scalarUTF16 c).IsChain fun u v =>
    u < 0x80 → v < 0x80 → u = codeUnit '\r' ∧ v = codeUnit '\n' := by
  unfold scalarUTF16
  split_ifs with h
  · exact .singleton _
  · refine .cons_cons (fun hlt => ?_) (.singleton _)
    have hvalid : c.toNat < 0x110000 := by
      rcases c.valid with hlow | ⟨-, hhigh⟩
      · exact Nat.lt_trans hlow (by decide)
      · exact hhigh
    rw [UInt16.lt_iff_toNat_lt, UInt16.toNat_ofNat'] at hlt
    change _ < 128 at hlt
    omega

theorem scalarClusters_cluster (text : List Char) :
    ∀ cluster ∈ scalarClusters text, cluster ≠ [] ∧ cluster.IsChain fun u v =>
      u < 0x80 → v < 0x80 → u = codeUnit '\r' ∧ v = codeUnit '\n' := by
  fun_induction scalarClusters text with
  | case1 => exact List.forall_mem_nil _
  | case2 rest ih =>
    refine List.forall_mem_cons.mpr ⟨⟨List.cons_ne_nil _ _, ?_⟩, ih⟩
    exact .cons_cons (fun _ _ => ⟨rfl, rfl⟩) (.singleton _)
  | case3 c rest _ ih =>
    exact List.forall_mem_cons.mpr ⟨⟨scalarUTF16_ne_nil c, isChain_scalarUTF16 c⟩, ih⟩

/-- The characters of texts without combining marks. -/
def Graphemes.scalars : Graphemes where
  clusters s := scalarClusters s.toList
  flatten_clusters s := flatten_scalarClusters s.toList
  ne_nil s cluster h := (scalarClusters_cluster s.toList cluster h).1
  ascii s cluster h := (scalarClusters_cluster s.toList cluster h).2

/-- `String.count`. -/
def Graphemes.count (g : Graphemes) (s : String) : ℕ := (g.clusters s).length

/-- The line terminators of regular expressions, by their code. -/
def isLineTerminator (code : ℕ) : Bool :=
  [0x0a, 0x0b, 0x0c, 0x0d, 0x85, 0x2028, 0x2029].contains code

/-! ### The pattern -/

/-- `[a-zA-Z0-9]`. -/
def isLetterOrDigit (u : UInt16) : Bool :=
  (codeUnit 'a' ≤ u && u ≤ codeUnit 'z') || (codeUnit 'A' ≤ u && u ≤ codeUnit 'Z') ||
    (codeUnit '0' ≤ u && u ≤ codeUnit '9')

/-- What the first class of the pattern has besides letters and digits. -/
def localSpecials : List UInt16 := ".!#$%&'*+/=?^_`\x7b|\x7d~-".toList.map codeUnit

/-- The case folding of the units that fold to an ASCII letter: the capital letters, the long s and
the Kelvin sign. -/
def foldCase (u : UInt16) : UInt16 :=
  if codeUnit 'A' ≤ u ∧ u ≤ codeUnit 'Z' then u + 0x20
  else if u = 0x17f then codeUnit 's'
  else if u = 0x212a then codeUnit 'k'
  else u

/-- A class under the option `caseInsensitive`, for a class that has no other letters than ASCII
ones, and these in both cases. -/
def caseInsensitive (isMember : UInt16 → Bool) (u : UInt16) : Bool :=
  isMember u || isMember (foldCase u)

/-- The units of letters and digits, as the pattern sees them. -/
def isLetterOrDigitFolded : UInt16 → Bool := caseInsensitive isLetterOrDigit

/-- `[a-zA-Z0-9](?:[a-zA-Z0-9-]{0,61}[a-zA-Z0-9])?` -/
def labelPattern : Pattern UInt16 :=
  (one isLetterOrDigitFolded).seq <| opt <|
    ((one (caseInsensitive fun u => isLetterOrDigit u || u == codeUnit '-')).upTo 61).seq
      (one isLetterOrDigitFolded)

/-- What the pattern of `String.isValidEmail` has between its anchors. -/
def addressPattern : Pattern UInt16 :=
  (one (caseInsensitive fun u => isLetterOrDigit u || localSpecials.contains u)).plus.seq <|
    (one (· == codeUnit '@')).seq <| labelPattern.seq <|
      ((one (· == codeUnit '.')).seq labelPattern).star

/-- The pattern of `String.isValidEmail`, with the option `caseInsensitive`. None of its classes has
a supplementary character, so that it may be run on the code units. -/
def emailPattern : Pattern UInt16 :=
  start.seq <| addressPattern.seq <|
    dollar (fun u => isLineTerminator u.toNat) (codeUnit '\r') (codeUnit '\n')

/-- `String.isValidEmail`. -/
def Graphemes.isValidEmail (g : Graphemes) (s : String) : Bool :=
  emailPattern.search ((utf16 s).take (g.count s))

/-! ### The grammar -/

section Grammar

variable (letterOrDigit : UInt16 → Bool)

/-- A label has 1 to 63 letters, digits and hyphens, the first and the last of which is no
hyphen. -/
structure IsLabel (word : List UInt16) : Prop where
  length_pos : 1 ≤ word.length
  length_le : word.length ≤ 63
  forall_mem : ∀ u ∈ word, letterOrDigit u = true ∨ u = codeUnit '-'
  head : ∀ u ∈ word.head?, letterOrDigit u = true
  last : ∀ u ∈ word.getLast?, letterOrDigit u = true

/-- The local part, an at sign, and labels with periods between them. -/
def IsAddress (word : List UInt16) : Prop :=
  ∃ localPart label labels,
    word = localPart ++ codeUnit '@' :: (label ++ labels.flatMap (codeUnit '.' :: ·)) ∧
    localPart ≠ [] ∧ (∀ u ∈ localPart, letterOrDigit u = true ∨ u ∈ localSpecials) ∧
    ∀ l ∈ label :: labels, IsLabel letterOrDigit l

end Grammar

/-! ### The classes -/

variable {u : UInt16} {word : List UInt16}

theorem isLetterOrDigit_iff : isLetterOrDigit u = true ↔
    (97 ≤ u.toNat ∧ u.toNat ≤ 122) ∨ (65 ≤ u.toNat ∧ u.toNat ≤ 90) ∨
      (48 ≤ u.toNat ∧ u.toNat ≤ 57) := by
  simp only [isLetterOrDigit, Bool.or_eq_true, Bool.and_eq_true, decide_eq_true_eq,
    UInt16.le_iff_toNat_le]
  exact or_assoc

theorem foldCase_eq_or (u : UInt16) : foldCase u = u ∨ isLetterOrDigit (foldCase u) = true := by
  unfold foldCase
  split_ifs with hcapital hs hk
  · right
    obtain ⟨hA, hZ⟩ : 65 ≤ u.toNat ∧ u.toNat ≤ 90 := by
      rwa [UInt16.le_iff_toNat_le, UInt16.le_iff_toNat_le] at hcapital
    have hsmall : (u + 0x20).toNat = (u.toNat + 32) % 65536 := UInt16.toNat_add u 0x20
    rw [isLetterOrDigit_iff, hsmall]
    omega
  · exact .inr rfl
  · exact .inr rfl
  · exact .inl rfl

/-- Without regard to case, a class adds the folded letters to what else it has. -/
theorem caseInsensitive_or (isMember : UInt16 → Bool) (u : UInt16) :
    caseInsensitive (fun u => isLetterOrDigit u || isMember u) u = true ↔
      isLetterOrDigitFolded u = true ∨ isMember u = true := by
  simp only [isLetterOrDigitFolded, caseInsensitive, Bool.or_eq_true]
  rcases foldCase_eq_or u with h | h
  · rw [h]
    tauto
  · tauto

/-- The folded letters are the letters and digits, the long s and the Kelvin sign. -/
theorem isLetterOrDigitFolded_iff : isLetterOrDigitFolded u = true ↔
    isLetterOrDigit u = true ∨ u = 0x17f ∨ u = 0x212a := by
  rw [isLetterOrDigitFolded, caseInsensitive, Bool.or_eq_true]
  unfold foldCase
  split_ifs with hcapital hs hk
  · obtain ⟨hA, hZ⟩ : 65 ≤ u.toNat ∧ u.toNat ≤ 90 := by
      rwa [UInt16.le_iff_toNat_le, UInt16.le_iff_toNat_le] at hcapital
    have hletter : isLetterOrDigit u = true := isLetterOrDigit_iff.mpr (.inr (.inl ⟨hA, hZ⟩))
    exact iff_of_true (.inl hletter) (.inl hletter)
  · exact iff_of_true (.inr rfl) (.inr (.inl hs))
  · exact iff_of_true (.inr rfl) (.inr (.inr hk))
  · simp only [or_self, hs, hk, or_false]

/-- Letters and digits are ASCII characters and no line terminators. -/
theorem ascii_of_isLetterOrDigit (h : isLetterOrDigit u = true) :
    u < 0x80 ∧ isLineTerminator u.toNat = false := by
  have hrange := isLetterOrDigit_iff.mp h
  constructor
  · rw [UInt16.lt_iff_toNat_lt]
    change u.toNat < 128
    omega
  · simp only [isLineTerminator, List.contains_eq_mem, List.mem_cons, List.not_mem_nil, or_false,
      decide_eq_false_iff_not]
    omega

theorem ascii_of_mem_localSpecials :
    ∀ u ∈ localSpecials, u < 0x80 ∧ isLineTerminator u.toNat = false := by
  have hall : localSpecials.all (fun u => u < 0x80 && !isLineTerminator u.toNat) = true := by decide
  intro u hu
  simpa using List.all_eq_true.mp hall u hu

/-! ### The words of the pattern -/

section Words

variable {letterOrDigit letter : UInt16 → Bool} {a b : UInt16}

theorem isLabel_singleton_iff : IsLabel letterOrDigit [a] ↔ letterOrDigit a = true := by
  constructor
  · intro h
    exact h.head a rfl
  · intro ha
    have hsame : ∀ u ∈ some a, letterOrDigit u = true := fun u hu => Option.some.inj hu ▸ ha
    exact ⟨le_rfl, by simp, List.forall_mem_singleton.mpr (.inl ha), hsame, hsame⟩

theorem isLabel_cons_concat_iff : IsLabel letterOrDigit (a :: (word ++ [b])) ↔
    letterOrDigit a = true ∧ (word.length ≤ 61 ∧
      ∀ u ∈ word, letterOrDigit u = true ∨ u = codeUnit '-') ∧ letterOrDigit b = true := by
  have hlength : (a :: (word ++ [b])).length = word.length + 2 := by
    rw [List.length_cons, List.length_append, List.length_singleton]
  have hlast : (a :: (word ++ [b])).getLast? = some b := by
    rw [← List.cons_append, List.getLast?_concat]
  constructor
  · intro h
    have hle := h.length_le
    rw [hlength] at hle
    refine ⟨h.head a rfl, ⟨by omega, fun u hu => ?_⟩, h.last b hlast⟩
    exact h.forall_mem u (List.mem_cons_of_mem _ (List.mem_append_left _ hu))
  · rintro ⟨ha, ⟨hle, hword⟩, hb⟩
    refine ⟨by omega, by omega, fun u hu => ?_, fun u hu => Option.some.inj hu ▸ ha, fun u hu => ?_⟩
    · rcases List.mem_cons.mp hu with rfl | hu
      · exact .inl ha
      · rcases List.mem_append.mp hu with hu | hu
        · exact hword u hu
        · exact .inl (List.mem_singleton.mp hu ▸ hb)
    · rw [hlast] at hu
      exact Option.some.inj hu ▸ hb

/-- A letter or digit, and possibly up to 61 letters, digits and hyphens and another one. -/
theorem mem_labelWords_iff
    (hletter : ∀ u, letter u = true ↔ letterOrDigit u = true ∨ u = codeUnit '-') :
    word ∈ wordsOf letterOrDigit {1} *
        (wordsOf letter (Set.Iic 61) * wordsOf letterOrDigit {1} + 1) ↔
      IsLabel letterOrDigit word := by
  rw [mem_wordsOf_one_mul]
  simp only [Language.mem_add, Language.mem_one, Language.mem_mul, mem_wordsOf_one]
  simp only [mem_wordsOf, hletter, Set.mem_Iic]
  constructor
  · rintro ⟨a, v, ha, ⟨inner, hinner, _, ⟨b, hb, rfl⟩, rfl⟩ | rfl, rfl⟩
    · exact isLabel_cons_concat_iff.mpr ⟨ha, hinner, hb⟩
    · exact isLabel_singleton_iff.mpr ha
  · intro h
    obtain ⟨a, v, rfl⟩ := List.exists_cons_of_ne_nil (List.length_pos_iff.mp h.length_pos)
    refine ⟨a, v, h.head a rfl, ?_, rfl⟩
    rcases List.eq_nil_or_concat v with rfl | ⟨inner, b, rfl⟩
    · exact .inr rfl
    · rw [List.concat_eq_append] at h ⊢
      obtain ⟨-, hinner, hb⟩ := isLabel_cons_concat_iff.mp h
      exact .inl ⟨inner, hinner, [b], ⟨b, hb, rfl⟩, rfl⟩

/-- The words of the labels. -/
def labelWords (letterOrDigit : UInt16 → Bool) : Language UInt16 := {w | IsLabel letterOrDigit w}

/-- The words of the addresses. -/
def addressWords (letterOrDigit : UInt16 → Bool) : Language UInt16 :=
  {w | IsAddress letterOrDigit w}

/-- Labels, each with a period before it. -/
theorem mem_kstar_labelWords_iff : word ∈ KStar.kstar
      (wordsOf (· == codeUnit '.') {1} * labelWords letterOrDigit) ↔
    ∃ labels : List (List UInt16), word = labels.flatMap (codeUnit '.' :: ·) ∧
      ∀ l ∈ labels, IsLabel letterOrDigit l := by
  simp only [Language.mem_kstar, mem_wordsOf_one_mul, beq_iff_eq, exists_and_left, exists_eq_left]
  constructor
  · rintro ⟨words, rfl, hwords⟩
    induction words with
    | nil => exact ⟨[], rfl, List.forall_mem_nil _⟩
    | cons first words ih =>
      obtain ⟨⟨l, hl, rfl⟩, hrest⟩ := List.forall_mem_cons.mp hwords
      obtain ⟨labels, hlabels, hall⟩ := ih hrest
      refine ⟨l :: labels, ?_, List.forall_mem_cons.mpr ⟨hl, hall⟩⟩
      rw [List.flatten_cons, hlabels, List.flatMap_cons]
  · rintro ⟨labels, rfl, hlabels⟩
    refine ⟨labels.map (codeUnit '.' :: ·), List.flatMap_def .., ?_⟩
    exact List.forall_mem_map.mpr fun l hl => ⟨l, hlabels l hl, rfl⟩

/-- The local part, an at sign, and the labels. -/
theorem mem_addressWords_iff
    (hletter : ∀ u, letter u = true ↔ letterOrDigit u = true ∨ u ∈ localSpecials) :
    word ∈ wordsOf letter (Set.Ici 1) * (wordsOf (· == codeUnit '@') {1} *
        (labelWords letterOrDigit *
          KStar.kstar (wordsOf (· == codeUnit '.') {1} * labelWords letterOrDigit))) ↔
      IsAddress letterOrDigit word := by
  have hlength (w : List UInt16) : 1 ≤ w.length ↔ w ≠ [] := List.length_pos_iff
  constructor
  · intro h
    obtain ⟨localPart, ⟨hne, hlocal⟩, _, hrest, rfl⟩ := Language.mem_mul.mp h
    obtain ⟨a, _, ha, hlabels, rfl⟩ := mem_wordsOf_one_mul.mp hrest
    obtain ⟨l, hl, _, hstar, rfl⟩ := Language.mem_mul.mp hlabels
    obtain ⟨labels, rfl, hall⟩ := mem_kstar_labelWords_iff.mp hstar
    obtain rfl := beq_iff_eq.mp ha
    exact ⟨localPart, l, labels, rfl, (hlength _).mp hne, fun u hu => (hletter u).mp (hlocal u hu),
      List.forall_mem_cons.mpr ⟨hl, hall⟩⟩
  · rintro ⟨localPart, l, labels, rfl, hne, hlocal, hlabels⟩
    obtain ⟨hl, hall⟩ := List.forall_mem_cons.mp hlabels
    refine Language.append_mem_mul
      ⟨(hlength _).mpr hne, fun u hu => (hletter u).mpr (hlocal u hu)⟩ ?_
    refine mem_wordsOf_one_mul.mpr ⟨_, _, beq_self_eq_true _, ?_, rfl⟩
    exact Language.append_mem_mul hl (mem_kstar_labelWords_iff.mpr ⟨labels, rfl, hall⟩)

end Words

theorem recognizes_labelPattern :
    labelPattern.Recognizes (labelWords isLetterOrDigitFolded) := by
  refine ((recognizes_one _).seq
    ((recognizes_upTo_one _ 61).seq (recognizes_one _)).opt).congr fun w => ?_
  refine mem_labelWords_iff fun u => ?_
  rw [caseInsensitive_or, beq_iff_eq]

/-- **Between its anchors the pattern has the addresses**, with the folded letters. -/
theorem recognizes_addressPattern :
    addressPattern.Recognizes (addressWords isLetterOrDigitFolded) := by
  have hlabels := ((recognizes_one (· == codeUnit '.')).seq recognizes_labelPattern).star
  refine ((recognizes_atLeast_one _ 1).seq ((recognizes_one (· == codeUnit '@')).seq
    (recognizes_labelPattern.seq hlabels))).congr fun w => ?_
  refine mem_addressWords_iff fun u => ?_
  rw [caseInsensitive_or, List.contains_iff_mem]

/-! ### Addresses -/

section Address

variable {p q : UInt16 → Bool}

/-- An address has letters and digits, and what the classes have besides, and the at sign. -/
theorem IsAddress.forall_mem (h : IsAddress p word) :
    ∀ u ∈ word, p u = true ∨ u ∈ localSpecials ∨ u = codeUnit '@' := by
  obtain ⟨localPart, l, labels, rfl, -, hlocal, hlabels⟩ := h
  have hlabel : ∀ l' ∈ l :: labels, ∀ u ∈ l',
      p u = true ∨ u ∈ localSpecials ∨ u = codeUnit '@' := by
    intro l' hl' u hu
    rcases (hlabels l' hl').forall_mem u hu with hu | rfl
    · exact .inl hu
    · exact .inr (.inl (by decide))
  obtain ⟨hfirst, hrest⟩ := List.forall_mem_cons.mp hlabel
  refine List.forall_mem_append.mpr ⟨fun u hu => ?_, List.forall_mem_cons.mpr ⟨.inr (.inr rfl), ?_⟩⟩
  · exact (hlocal u hu).imp_right .inl
  · refine List.forall_mem_append.mpr ⟨hfirst, fun u hu => ?_⟩
    obtain ⟨l', hl', hu⟩ := List.mem_flatMap.mp hu
    rcases List.mem_cons.mp hu with rfl | hu
    · exact .inr (.inl (by decide))
    · exact hrest l' hl' u hu

theorem IsLabel.imp (h : IsLabel p word) (hpq : ∀ u ∈ word, p u = true → q u = true) :
    IsLabel q word where
  length_pos := h.length_pos
  length_le := h.length_le
  forall_mem u hu := (h.forall_mem u hu).imp_left (hpq u hu)
  head u hu := hpq u (List.mem_of_mem_head? hu) (h.head u hu)
  last u hu := hpq u (List.mem_of_mem_getLast? hu) (h.last u hu)

/-- An address is one for every class that has its letters and digits. -/
theorem IsAddress.imp (h : IsAddress p word) (hpq : ∀ u ∈ word, p u = true → q u = true) :
    IsAddress q word := by
  obtain ⟨localPart, l, labels, rfl, hne, hlocal, hlabels⟩ := h
  obtain ⟨hpqLocal, hpqRest⟩ := List.forall_mem_append.mp hpq
  obtain ⟨hpqFirst, hpqLabels⟩ := List.forall_mem_append.mp (List.forall_mem_cons.mp hpqRest).2
  refine ⟨localPart, l, labels, rfl, hne, fun u hu => (hlocal u hu).imp_left (hpqLocal u hu), ?_⟩
  obtain ⟨hfirst, hrest⟩ := List.forall_mem_cons.mp hlabels
  refine List.forall_mem_cons.mpr ⟨hfirst.imp hpqFirst, fun l' hl' => (hrest l' hl').imp ?_⟩
  exact fun u hu => hpqLabels u (List.mem_flatMap.mpr ⟨l', hl', List.mem_cons_of_mem _ hu⟩)

/-- An address with ASCII letters has ASCII characters only, and no line terminator. -/
theorem IsAddress.ascii (h : IsAddress isLetterOrDigit word) :
    ∀ u ∈ word, u < 0x80 ∧ isLineTerminator u.toNat = false := by
  intro u hu
  rcases h.forall_mem u hu with hu | hu | rfl
  · exact ascii_of_isLetterOrDigit hu
  · exact ascii_of_mem_localSpecials u hu
  · decide

/-- An address has no carriage return. -/
theorem IsAddress.ne_cr (h : IsAddress isLetterOrDigitFolded word) :
    ∀ u ∈ word, u ≠ codeUnit '\r' := by
  intro u hu
  rintro rfl
  rcases h.forall_mem _ hu with hu | hu | hu
  · exact absurd hu (by decide)
  · exact absurd hu (by decide)
  · exact absurd hu (by decide)

end Address

/-! ### What is accepted -/

/-- Nothing, or one line terminator. -/
def Terminates (rest : List UInt16) : Prop :=
  rest = [] ∨ (∃ u, rest = [u] ∧ isLineTerminator u.toNat = true) ∨
    rest = [codeUnit '\r', codeUnit '\n']

/-- The pattern is found in an address that may have a line terminator after it. -/
theorem search_emailPattern_iff {text : List UInt16} : emailPattern.search text = true ↔
    ∃ address rest, text = address ++ rest ∧ IsAddress isLetterOrDigitFolded address ∧
      Terminates rest := by
  rw [search_iff]
  constructor
  · rintro ⟨w, x, y, hw, _, hstart, z, haddress, hdollar⟩
    obtain ⟨rfl, hbegin⟩ := matches_start.mp hstart
    have hnil : w = [] := by
      have hbefore := hw.2
      rw [hbegin, List.append_nil] at hbefore
      exact List.reverse_eq_nil_iff.mp hbefore.symm
    obtain rfl := Position.spans_nil.mp (hnil ▸ hw)
    obtain ⟨address, haddress, hafter, -⟩ := (recognizes_addressPattern _ _).mp haddress
    refine ⟨address, z.after, hafter, haddress, ?_⟩
    obtain ⟨-, hnil | ⟨u, hu, hterminator, -⟩ | hcrlf⟩ := matches_dollar.mp hdollar
    · exact .inl hnil
    · exact .inr (.inl ⟨u, hu, hterminator⟩)
    · exact .inr (.inr hcrlf)
  · rintro ⟨address, rest, rfl, haddress, hrest⟩
    have hspans : Position.Spans ⟨[], address ++ rest⟩ address ⟨address.reverse ++ [], rest⟩ :=
      ⟨rfl, rfl⟩
    refine ⟨[], ⟨[], address ++ rest⟩, ⟨address.reverse ++ [], rest⟩, ⟨rfl, rfl⟩, _,
      matches_start.mpr ⟨rfl, rfl⟩, _,
      (recognizes_addressPattern _ _).mpr ⟨_, haddress, hspans⟩, ?_⟩
    refine matches_dollar.mpr ⟨rfl, hrest.imp_right (Or.imp_left ?_)⟩
    rintro ⟨u, hu, hterminator⟩
    refine ⟨u, hu, hterminator, fun ⟨_, hcr⟩ => ?_⟩
    have hmem := List.mem_of_mem_head? (hcr : codeUnit '\r' ∈ _)
    rw [List.append_nil, List.mem_reverse] at hmem
    exact haddress.ne_cr _ hmem rfl

/-- **A text is accepted exactly if its first units, as many as it has characters, are an address**,
with the folded letters, and possibly a line terminator. -/
theorem Graphemes.isValidEmail_iff (g : Graphemes) (s : String) : g.isValidEmail s = true ↔
    ∃ address rest, (utf16 s).take (g.count s) = address ++ rest ∧
      IsAddress isLetterOrDigitFolded address ∧ Terminates rest :=
  search_emailPattern_iff

end TwitterLite
