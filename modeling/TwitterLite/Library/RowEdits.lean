import Mathlib.Data.List.InsertIdx

/-!
# Index-wise edits of a list of rows

A view that shows the rows of a data source is told about an edit of the source by a `Batch`: the
rows to delete, as indices before the edit, and the rows to insert, as indices after it. The view
deletes the former and reads each of the latter from the source. A batch is rejected unless it is
`Batch.WellFormed`: its indices are in range and its counts account for the new number of rows.

A block of new rows is described by its interval of indices (`Batch.apply_insert_block`), a removed
row by its index (`Batch.apply_delete_row`). A row may also be removed by its content: the first
equal row goes, which comes to the same exactly if the equal rows before the removed one adjoin it
(`erase_getElem_eq_iff`).

## Main definitions

* `RowEdits.Batch`, `RowEdits.Batch.apply`, `RowEdits.Batch.WellFormed`.
* `RowEdits.Adjoining`.

## Main results

* `RowEdits.Batch.apply_insert_block`, `RowEdits.Batch.wellFormed_insert_block`.
* `RowEdits.Batch.apply_delete_row`, `RowEdits.Batch.wellFormed_delete_row`.
* `RowEdits.erase_getElem_eq_iff`.
-/

namespace RowEdits

variable {α : Type*}

/-- A description of an edit: the deleted rows by their indices before it, the inserted rows by
their indices after it, both in ascending order. -/
structure Batch where
  deleted : List ℕ := []
  inserted : List ℕ := []
  deriving DecidableEq, Repr

/-- Show the `i`-th row of the source. -/
def insertRow (source rows : List α) (i : ℕ) : List α :=
  match source[i]? with
  | some row => rows.insertIdx i row
  | none => rows

namespace Batch

/-- The rows shown after the batch. Rows are deleted from the highest index down and inserted from
the lowest index up, so that every index is still the one that was meant. -/
def apply (batch : Batch) (source displayed : List α) : List α :=
  batch.inserted.foldl (insertRow source)
    (batch.deleted.foldr (fun i rows => rows.eraseIdx i) displayed)

/-- The view accepts the batch when it shows `before` rows and the source has `after` rows. -/
structure WellFormed (batch : Batch) (before after : ℕ) : Prop where
  deleted_ascending : batch.deleted.Pairwise (· < ·)
  inserted_ascending : batch.inserted.Pairwise (· < ·)
  deleted_lt : ∀ i ∈ batch.deleted, i < before
  inserted_lt : ∀ i ∈ batch.inserted, i < after
  count_eq : before + batch.inserted.length - batch.deleted.length = after

@[simp] theorem apply_empty (source displayed : List α) : apply {} source displayed = displayed :=
  rfl

theorem wellFormed_empty (n : ℕ) : WellFormed {} n n :=
  ⟨.nil, .nil, by simp, by simp, rfl⟩

/-! ### A block of new rows -/

theorem insertIdx_length_append (xs ys : List α) (row : α) :
    (xs ++ ys).insertIdx xs.length row = xs ++ row :: ys := by
  induction xs with
  | nil => rfl
  | cons x xs ih => simpa using ih

theorem insertRow_append_cons (xs l ys : List α) (row : α) :
    insertRow (xs ++ row :: (l ++ ys)) (xs ++ ys) xs.length = xs ++ row :: ys := by
  have hrow : (xs ++ row :: (l ++ ys))[xs.length]? = some row := by simp
  simp only [insertRow, hrow, insertIdx_length_append]

/-- Inserting the rows of an interval shows the block that the source has there. -/
theorem apply_insert_block (xs l ys : List α) :
    apply { inserted := List.range' xs.length l.length } (xs ++ (l ++ ys)) (xs ++ ys) =
      xs ++ (l ++ ys) := by
  simp only [apply, List.foldr_nil]
  induction l generalizing xs with
  | nil => rfl
  | cons row l ih =>
    rw [List.length_cons, List.range'_succ, List.foldl_cons, List.cons_append,
      insertRow_append_cons]
    simpa using ih (xs ++ [row])

theorem wellFormed_insert_block (i k m : ℕ) :
    WellFormed { inserted := List.range' i k } (i + m) (i + (k + m)) where
  deleted_ascending := .nil
  inserted_ascending := List.pairwise_lt_range'
  deleted_lt := by simp
  inserted_lt j hj := by
    have hbound := (List.mem_range'_1.mp hj).2
    omega
  count_eq := by
    simp only [List.length_range', List.length_nil]
    omega

/-! ### A removed row -/

@[simp] theorem apply_delete_row (source displayed : List α) (i : ℕ) :
    apply { deleted := [i] } source displayed = displayed.eraseIdx i := rfl

theorem wellFormed_delete_row {i n : ℕ} (h : i < n) : WellFormed { deleted := [i] } n (n - 1) where
  deleted_ascending := List.pairwise_singleton ..
  inserted_ascending := .nil
  deleted_lt := by simpa using h
  inserted_lt := by simp
  count_eq := by simp

end Batch

/-! ### A row removed by its content -/

/-- The rows before the `i`-th that equal it adjoin it: each is followed by another one. -/
def Adjoining (rows : List α) (i : ℕ) : Prop :=
  ∀ j < i, rows[j]? = rows[i]? → rows[j + 1]? = rows[i]?

instance [DecidableEq α] (rows : List α) (i : ℕ) : Decidable (Adjoining rows i) :=
  inferInstanceAs (Decidable (∀ j < i, rows[j]? = rows[i]? → rows[j + 1]? = rows[i]?))

theorem adjoining_succ_iff {row : α} {rows : List α} {i : ℕ} : Adjoining (row :: rows) (i + 1) ↔
    (some row = rows[i]? → rows[0]? = rows[i]?) ∧ Adjoining rows i := by
  constructor
  · intro h
    exact ⟨h 0 i.succ_pos, fun j hj => h (j + 1) (Nat.succ_lt_succ hj)⟩
  · rintro ⟨hzero, hsucc⟩ j hj
    cases j with
    | zero => exact hzero
    | succ j => exact hsucc j (Nat.lt_of_succ_lt_succ hj)

/-- If the first row equals the `i`-th, the rows up to it adjoin it if all of them equal it. -/
theorem cons_eraseIdx_eq_iff {row : α} {rows : List α} {i : ℕ} (h : rows[i]? = some row) :
    row :: rows.eraseIdx i = rows ↔ rows[0]? = some row ∧ Adjoining rows i := by
  induction rows generalizing i with
  | nil => simp at h
  | cons first rows ih =>
    cases i with
    | zero =>
      obtain rfl : first = row := Option.some.inj h
      exact iff_of_true rfl ⟨rfl, fun j hj => absurd hj j.not_lt_zero⟩
    | succ i =>
      rw [List.getElem?_cons_succ] at h
      rw [List.eraseIdx_cons_succ, List.cons.injEq, List.getElem?_cons_zero, Option.some.injEq,
        adjoining_succ_iff, h, eq_comm]
      refine and_congr_right ?_
      rintro rfl
      rw [ih h, forall_prop_of_true rfl]

/-- **Removing the first row equal to the `i`-th removes the `i`-th**, exactly if the equal rows
before it adjoin it. -/
theorem erase_getElem_eq_iff [DecidableEq α] {rows : List α} {i : ℕ} (h : i < rows.length) :
    rows.erase rows[i] = rows.eraseIdx i ↔ Adjoining rows i := by
  induction rows generalizing i with
  | nil => cases h
  | cons row rows ih =>
    cases i with
    | zero =>
      rw [List.getElem_cons_zero, List.erase_cons_head, List.eraseIdx_cons_zero]
      exact iff_of_true rfl fun j hj => absurd hj j.not_lt_zero
    | succ i =>
      have hi : i < rows.length := Nat.lt_of_succ_lt_succ h
      have hget : rows[i]? = some rows[i] := List.getElem?_eq_getElem hi
      rw [List.getElem_cons_succ, List.eraseIdx_cons_succ, adjoining_succ_iff]
      by_cases heq : row = rows[i]
      · rw [← heq] at hget
        rw [← heq, List.erase_cons_head, eq_comm, cons_eraseIdx_eq_iff hget, hget,
          forall_prop_of_true rfl]
      · rw [List.erase_cons_tail (by simpa using heq), List.cons.injEq, and_iff_right rfl, ih hi,
          hget, Option.some.injEq, forall_prop_of_false heq, true_and]

end RowEdits
