import Mathlib.Data.List.Basic
import Mathlib.Data.List.Induction
import Mathlib.Data.List.Perm.Basic

/-!
# Joining operations that complete in any order

A group of operations is started and each of them completes once, in an order that nobody
controls; when the last one has completed, the group is joined. A `Join.Schedule` of the started
operations is such an order. What the completions leave behind is a fold over the schedule, which
may depend on it: a variable that every completion overwrites holds the outcome of the last one
(`Join.foldl_overwrite`).

## Main definitions

* `Join.Schedule`.

## Main results

* `Join.foldl_overwrite`.
-/

namespace Join

variable {ι α : Type*}

/-- An order in which the started operations complete. -/
structure Schedule (started : List ι) where
  order : List ι
  perm : order.Perm started

namespace Schedule

variable {started : List ι} (s : Schedule started)

/-- The operations complete as they were started. -/
def inOrder (started : List ι) : Schedule started := ⟨started, .refl _⟩

theorem mem_order {i : ι} : i ∈ s.order ↔ i ∈ started := s.perm.mem_iff

theorem length_order : s.order.length = started.length := s.perm.length_eq

end Schedule

/-! ### What the completions leave behind -/

/-- A variable that every completion overwrites holds the outcome of the last one. -/
theorem foldl_overwrite (f : ι → α) (a : α) (l : List ι) :
    l.foldl (fun _ i => f i) a = (l.getLast?.map f).getD a := by
  induction l using List.reverseRecOn with
  | nil => rfl
  | append_singleton l i _ => simp

end Join
