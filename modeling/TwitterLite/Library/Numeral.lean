import Mathlib.Data.List.Lex
import Mathlib.Order.Monotone.Basic
import Mathlib.Tactic.Ring

/-!
# Numerals of a fixed width

A numeral is a list of digits below a base, the most significant one first. Numerals of the same
width compare lexicographically like the numbers they denote (`Numeral.lt_iff_value_lt`), so texts
that spell them with an alphabet in ascending order are sorted like these numbers
(`Numeral.map_lt_map_iff`).

## Main definitions

* `Numeral.value`, `Numeral.digits`.

## Main results

* `Numeral.lt_iff_value_lt`, `Numeral.value_digits`, `Numeral.map_lt_map_iff`.
-/

namespace Numeral

variable {b : ℕ} {l l' : List ℕ}

/-- The number that a numeral denotes. -/
def value (b : ℕ) : List ℕ → ℕ
  | [] => 0
  | d :: l => d * b ^ l.length + value b l

/-- The last digits of a number. -/
def digits (b width n : ℕ) : List ℕ := (List.range width).reverse.map fun i => n / b ^ i % b

theorem length_digits (width n : ℕ) : (digits b width n).length = width := by
  rw [digits, List.length_map, List.length_reverse, List.length_range]

theorem value_append (l l' : List ℕ) :
    value b (l ++ l') = value b l * b ^ l'.length + value b l' := by
  induction l with
  | nil => rw [List.nil_append, value, Nat.zero_mul, Nat.zero_add]
  | cons d l ih =>
    rw [List.cons_append, value, value, ih, List.length_append, pow_add]
    ring

theorem value_lt (hl : ∀ d ∈ l, d < b) : value b l < b ^ l.length := by
  induction l with
  | nil => exact Nat.one_pos
  | cons d l ih =>
    obtain ⟨hd, hl⟩ := List.forall_mem_cons.mp hl
    have hmul : (d + 1) * b ^ l.length ≤ b * b ^ l.length := Nat.mul_le_mul_right _ hd
    have hrest := ih hl
    rw [value, List.length_cons, pow_succ']
    rw [Nat.succ_mul] at hmul
    omega

/-- **Numerals of the same width compare like the numbers they denote.** -/
theorem lt_iff_value_lt (hlength : l.length = l'.length) (hl : ∀ d ∈ l, d < b)
    (hl' : ∀ d ∈ l', d < b) : l < l' ↔ value b l < value b l' := by
  induction l generalizing l' with
  | nil =>
    obtain rfl := List.length_eq_zero_iff.mp hlength.symm
    exact iff_of_false (List.not_lt_nil _) (lt_irrefl _)
  | cons d l ih =>
    cases l' with
    | nil => exact absurd hlength (Nat.succ_ne_zero _)
    | cons d' l' =>
      obtain ⟨-, hl⟩ := List.forall_mem_cons.mp hl
      obtain ⟨-, hl'⟩ := List.forall_mem_cons.mp hl'
      have hlength := Nat.succ.inj hlength
      have hrest := value_lt hl
      have hrest' := value_lt hl'
      rw [List.cons_lt_cons_iff, ih hlength hl hl', value, value, hlength]
      rw [hlength] at hrest
      constructor
      · rintro (hlt | ⟨rfl, hlt⟩)
        · have hmul : (d + 1) * b ^ l'.length ≤ d' * b ^ l'.length := Nat.mul_le_mul_right _ hlt
          rw [Nat.succ_mul] at hmul
          omega
        · exact Nat.add_lt_add_left hlt _
      · intro hlt
        rcases lt_trichotomy d d' with hdd | rfl | hdd
        · exact .inl hdd
        · exact .inr ⟨rfl, Nat.lt_of_add_lt_add_left hlt⟩
        · have hmul : (d' + 1) * b ^ l'.length ≤ d * b ^ l'.length := Nat.mul_le_mul_right _ hdd
          rw [Nat.succ_mul] at hmul
          omega

theorem value_digits (width n : ℕ) : value b (digits b width n) = n % b ^ width := by
  induction width with
  | zero => rw [pow_zero, Nat.mod_one]; rfl
  | succ width ih =>
    have hcons : digits b (width + 1) n = (n / b ^ width % b) :: digits b width n := by
      rw [digits, List.range_succ, List.reverse_concat, List.map_cons]
      rfl
    rw [hcons, value, ih, length_digits, Nat.mod_pow_succ]
    ring

theorem lt_of_mem_digits (hb : 0 < b) {width n d : ℕ} (hd : d ∈ digits b width n) : d < b := by
  obtain ⟨i, -, rfl⟩ := List.mem_map.mp hd
  exact Nat.mod_lt _ hb

/-- Spelling with an ascending alphabet keeps the lexicographic order. -/
theorem map_lt_map_iff {α β : Type*} [LinearOrder α] [LinearOrder β] {f : α → β} {s : Set α}
    (hf : StrictMonoOn f s) {l l' : List α} (hl : ∀ a ∈ l, a ∈ s) (hl' : ∀ a ∈ l', a ∈ s) :
    l.map f < l'.map f ↔ l < l' := by
  induction l generalizing l' with
  | nil =>
    cases l' with
    | nil => exact iff_of_false (List.not_lt_nil _) (List.not_lt_nil _)
    | cons a' l' => exact iff_of_true (List.nil_lt_cons _ _) (List.nil_lt_cons _ _)
  | cons a l ih =>
    cases l' with
    | nil => exact iff_of_false (List.not_lt_nil _) (List.not_lt_nil _)
    | cons a' l' =>
      obtain ⟨ha, hl⟩ := List.forall_mem_cons.mp hl
      obtain ⟨ha', hl'⟩ := List.forall_mem_cons.mp hl'
      rw [List.map_cons, List.map_cons, List.cons_lt_cons_iff, List.cons_lt_cons_iff,
        ih hl hl', hf.lt_iff_lt ha ha', hf.injOn.eq_iff ha ha']

end Numeral
