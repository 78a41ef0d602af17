import TwitterLite.Home.ViewModel
import Mathlib.Data.Rat.Floor
import Mathlib.Tactic.Ring

/-!
# The trigger row

The timeline asks for the next page when a certain row is displayed. `HomeViewModel.shouldFetchData`
finds that row from the number of rows alone: it rounds the number down to whole pages, goes back to
the middle of the last one, and compares. While there is less than one page the trigger row is the
last one.

The numbers are `Double`s in the source; they are small integers and their quotients by 5 or 10, and
modelled by exact ones.

## Main definitions

* `TwitterLite.HomeViewModel.shouldFetchData`, `TwitterLite.triggerRow`.

## Main results

* `TwitterLite.triggerRow_lt_add_iff`, `TwitterLite.HomeViewModel.shouldFetchData_iff`.
* `TwitterLite.HomeViewModel.existsUnique_shouldFetchData`.

Source: `HomeViewModel.swift`, lines 126–141; `FloatingPointExtension.swift`, lines 11–16.
-/

namespace TwitterLite

/-- `FloatingPoint.rounded(to:roundingRule:)` for the rule `.down`. -/
def roundedDown (number value : ℚ) : ℚ := (⌊number / value⌋ : ℤ) * value

/-- `FloatingPoint.truncatingRemainder(dividingBy:)`: the quotient is rounded towards zero. -/
def truncatingRemainder (number other : ℚ) : ℚ :=
  let quotient := number / other
  number - ((if 0 ≤ quotient then ⌊quotient⌋ else ⌈quotient⌉ : ℤ) : ℚ) * other

/-- `HomeViewModel.shouldFetchData`. -/
def HomeViewModel.shouldFetchData (vm : HomeViewModel) (index : ℚ) : Bool :=
  let pageSize : ℚ := vm.pageSize
  let center : ℚ := pageSize / 2
  let actualTweetCount : ℚ := vm.tweetList.length
  let tweetCount := roundedDown actualTweetCount pageSize
  let nextIndexToCall : ℚ := (⌊tweetCount - pageSize + center⌋ : ℤ)
  (index = actualTweetCount - 1 ∧ actualTweetCount < pageSize) ∨
    index ≠ 0 ∧ truncatingRemainder index center = 0 ∧ nextIndexToCall = index

/-- The row that triggers the next page of a list that is not empty. -/
def triggerRow (pageSize count : ℕ) : ℕ :=
  if count < pageSize then count - 1 else (count / pageSize - 1) * pageSize + pageSize / 2

section TriggerRow

variable {pageSize count : ℕ}

theorem triggerRow_of_lt (h : count < pageSize) : triggerRow pageSize count = count - 1 := if_pos h

theorem triggerRow_of_le (h : pageSize ≤ count) :
    triggerRow pageSize count = (count / pageSize - 1) * pageSize + pageSize / 2 :=
  if_neg h.not_gt

/-- The trigger row is a row. -/
theorem triggerRow_lt (hpos : 0 < pageSize) (h : 0 < count) :
    triggerRow pageSize count < count := by
  rcases lt_or_ge count pageSize with hlt | hle
  · rw [triggerRow_of_lt hlt]
    exact Nat.sub_lt h one_pos
  · have hwhole : count / pageSize * pageSize ≤ count := Nat.div_mul_le_self count pageSize
    have hpage : pageSize ≤ count / pageSize * pageSize :=
      Nat.le_mul_of_pos_left pageSize (Nat.div_pos hle hpos)
    rw [triggerRow_of_le hle, Nat.sub_one_mul]
    omega

/-- With a whole page there, a further one moves the trigger row down by a page. -/
theorem triggerRow_add_of_le (hpos : 0 < pageSize) (h : pageSize ≤ count) :
    triggerRow pageSize (count + pageSize) = triggerRow pageSize count + pageSize := by
  have hpages : 1 ≤ count / pageSize := Nat.div_pos h hpos
  rw [triggerRow_of_le h, triggerRow_of_le (Nat.le_add_left ..), Nat.add_div_right _ hpos,
    Nat.add_sub_cancel, add_right_comm, ← Nat.succ_mul, Nat.succ_eq_add_one,
    Nat.sub_add_cancel hpages]

/-- The first whole page moves the trigger row to the middle of a page. -/
theorem triggerRow_add_of_lt (h : count < pageSize) :
    triggerRow pageSize (count + pageSize) = pageSize / 2 := by
  rw [triggerRow_of_le (Nat.le_add_left ..), Nat.add_div_right _ (Nat.zero_lt_of_lt h),
    Nat.div_eq_of_lt h, zero_add, Nat.sub_self, Nat.zero_mul, zero_add]

/-- The trigger row stays as long as the number of whole pages does. -/
theorem triggerRow_sub_one (h : pageSize < count) (hdvd : ¬ pageSize ∣ count) :
    triggerRow pageSize (count - 1) = triggerRow pageSize count := by
  obtain ⟨count, rfl⟩ := Nat.exists_eq_add_of_lt (Nat.zero_lt_of_lt h)
  rw [zero_add] at h hdvd ⊢
  rw [Nat.add_sub_cancel, triggerRow_of_le h.le, triggerRow_of_le (Nat.le_of_lt_succ h),
    Nat.succ_div_of_not_dvd hdvd]

/-- The next trigger row, a page on, is below the one now unless the list is shorter than a page and
goes beyond its middle. -/
theorem triggerRow_lt_add_iff (hpos : 0 < pageSize) (h : 0 < count) :
    triggerRow pageSize count < triggerRow pageSize (count + pageSize) ↔
      pageSize ≤ count ∨ count ≤ pageSize / 2 := by
  rcases lt_or_ge count pageSize with hlt | hle
  · rw [triggerRow_add_of_lt hlt, triggerRow_of_lt hlt]
    omega
  · rw [triggerRow_add_of_le hpos hle]
    omega

end TriggerRow

theorem roundedDown_natCast (count pageSize : ℕ) :
    roundedDown count pageSize = ((count / pageSize * pageSize : ℕ) : ℚ) := by
  rw [roundedDown, Rat.floor_natCast_div_natCast]
  push_cast
  rfl

/-- A multiple leaves no remainder. -/
theorem truncatingRemainder_mul {other : ℚ} (h : other ≠ 0) (k : ℕ) :
    truncatingRemainder (k * other) other = 0 := by
  have hquotient : (k * other) / other = k := mul_div_cancel_right₀ _ h
  rw [truncatingRemainder, hquotient]
  simp

namespace HomeViewModel

variable (vm : HomeViewModel)

theorem pageSize_eq : vm.pageSize = 10 ∨ vm.pageSize = 20 := by
  unfold pageSize
  split_ifs <;> simp

/-- The page size is twice the distance from the trigger row to the end of the page. -/
theorem exists_pageSize_eq : ∃ center, 0 < center ∧ vm.pageSize = 2 * center := by
  rcases vm.pageSize_eq with h | h
  · exact ⟨5, by decide, h⟩
  · exact ⟨10, by decide, h⟩

/-- The row that the rounded number of rows leads to. -/
theorem nextIndexToCall_eq (pages center : ℕ) :
    ⌊((pages * (2 * center) : ℕ) : ℚ) - (2 * center : ℕ) + ((2 * center : ℕ) : ℚ) / 2⌋ =
      (pages * (2 * center) : ℤ) - center := by
  have hcast : ((pages * (2 * center) : ℕ) : ℚ) - (2 * center : ℕ) + ((2 * center : ℕ) : ℚ) / 2 =
      (((pages * (2 * center) : ℤ) - center : ℤ) : ℚ) := by
    push_cast
    ring
  rw [hcast, Int.floor_intCast]

/-- **The rows that trigger the next page**: exactly `triggerRow`. -/
theorem shouldFetchData_iff (index : ℕ) : vm.shouldFetchData index = true ↔
    vm.tweetList ≠ [] ∧ index = triggerRow vm.pageSize vm.tweetList.length := by
  obtain ⟨center, hcenter, hsize⟩ := vm.exists_pageSize_eq
  generalize hcount : vm.tweetList.length = count
  have hnil : vm.tweetList ≠ [] ↔ count ≠ 0 := by
    rw [← hcount, ne_eq, ne_eq, List.length_eq_zero_iff]
  have hlast : (index : ℚ) = count - 1 ↔ index + 1 = count := by
    rw [eq_sub_iff_add_eq]
    norm_cast
  have hnext (pages : ℕ) : (((pages * (2 * center) : ℤ) - center : ℤ) : ℚ) = (index : ℚ) ↔
      pages * (2 * center) = index + center := by
    rw [← Int.cast_natCast index, Int.cast_inj, sub_eq_iff_eq_add]
    norm_cast
  simp only [shouldFetchData, hsize, hcount, roundedDown_natCast, decide_eq_true_eq, hlast,
    Nat.cast_lt, nextIndexToCall_eq, hnil, hnext, triggerRow]
  by_cases hpage : count < 2 * center
  · have hpages : count / (2 * center) = 0 := Nat.div_eq_of_lt hpage
    rw [if_pos hpage, hpages]
    omega
  · have hpages : 0 < count / (2 * center) := Nat.div_pos (by omega) (by omega)
    obtain ⟨pages, hpages⟩ := Nat.exists_eq_add_of_lt hpages
    have hproduct : (pages + 1) * (2 * center) = pages * (2 * center) + 2 * center := by ring
    rw [if_neg hpage, hpages, zero_add, Nat.add_sub_cancel, Nat.mul_div_cancel_left _ two_pos,
      hproduct]
    constructor
    · rintro (⟨-, h⟩ | ⟨-, -, h⟩) <;> omega
    · rintro ⟨hcount, rfl⟩
      have hcenter' : (center : ℚ) ≠ 0 := Nat.cast_ne_zero.mpr hcenter.ne'
      have hindex : ((pages * (2 * center) + center : ℕ) : ℚ) =
          ((2 * pages + 1 : ℕ) : ℚ) * (((2 * center : ℕ) : ℚ) / 2) := by
        push_cast
        ring
      have hhalf : ((2 * center : ℕ) : ℚ) / 2 ≠ 0 := by
        push_cast
        simpa using hcenter'
      refine .inr ⟨Nat.cast_ne_zero.mpr (by omega), ?_, by omega⟩
      rw [hindex]
      exact truncatingRemainder_mul hhalf _

/-- **There is exactly one trigger row for every list that is not empty**, and none for the empty
list; a full page appended to a list of at least a page moves it down by a page. -/
theorem existsUnique_shouldFetchData :
    (vm.tweetList.length = 0 → ∀ index : ℕ, vm.shouldFetchData index = false) ∧
      (1 ≤ vm.tweetList.length → (∃! index : ℕ, vm.shouldFetchData index = true) ∧
        ∀ index : ℕ, vm.shouldFetchData index = true →
          index < vm.tweetList.length ∧
          (vm.tweetList.length < vm.pageSize → index = vm.tweetList.length - 1) ∧
          (vm.pageSize ≤ vm.tweetList.length →
            index = (vm.tweetList.length / vm.pageSize - 1) * vm.pageSize + vm.pageSize / 2)) ∧
      (vm.pageSize ≤ vm.tweetList.length → ∀ page : List ViewTweetModel,
        page.length = vm.pageSize → ∀ index index' : ℕ, vm.shouldFetchData index = true →
          ({ vm with tweetList := vm.tweetList ++ page }.shouldFetchData index' = true ↔
            index' = index + vm.pageSize)) := by
  have hpos : 0 < vm.pageSize := vm.pageSize_pos
  refine ⟨fun hzero index => ?_, fun hone => ⟨?_, fun index htrigger => ?_⟩, ?_⟩
  · rw [← Bool.not_eq_true, shouldFetchData_iff, List.length_eq_zero_iff.mp hzero]
    exact fun h => h.1 rfl
  · have hne : vm.tweetList ≠ [] := List.ne_nil_of_length_pos hone
    refine ⟨triggerRow vm.pageSize vm.tweetList.length, ?_, fun index htrigger => ?_⟩
    · exact (shouldFetchData_iff vm _).mpr ⟨hne, rfl⟩
    · exact ((shouldFetchData_iff vm _).mp htrigger).2
  · obtain ⟨-, rfl⟩ := (shouldFetchData_iff vm _).mp htrigger
    exact ⟨triggerRow_lt hpos hone, triggerRow_of_lt, triggerRow_of_le⟩
  · intro hle page hpage index index' htrigger
    obtain ⟨hne, rfl⟩ := (shouldFetchData_iff vm _).mp htrigger
    rw [shouldFetchData_iff, and_iff_right (List.append_ne_nil_of_left_ne_nil hne page),
      List.length_append, hpage]
    change index' = triggerRow vm.pageSize (vm.tweetList.length + vm.pageSize) ↔ _
    rw [triggerRow_add_of_le hpos hle]

end HomeViewModel

end TwitterLite
