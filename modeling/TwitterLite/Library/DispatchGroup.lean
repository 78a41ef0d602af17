import Mathlib.Logic.Function.Iterate

/-!
# Groups of operations with a completion block

A group counts the operations that have entered and not left it. A block may be registered with it;
the block is submitted to its queue when the count is zero, at once or by the leave that makes it
so, and it runs later. Members that enter and never leave keep the block waiting.

After `n` members have entered and the block has been registered, `k` leaves lead to
`DispatchGroup.joining n k`: the block is submitted by the last leave and by no other one
(`DispatchGroup.leave_joining`).

## Main definitions

* `DispatchGroup`, `DispatchGroup.enter`, `DispatchGroup.leave`, `DispatchGroup.notify`,
  `DispatchGroup.run`.
* `DispatchGroup.joining`.

## Main results

* `DispatchGroup.notify_iterate_enter`, `DispatchGroup.leave_joining`.
* `DispatchGroup.queued_joining`, `DispatchGroup.run_joining`.
-/

/-- The members that have not left yet, and what has become of the block. -/
structure DispatchGroup where
  count : ℕ := 0
  /-- The block waits for the members. -/
  waiting : Bool := false
  /-- The block has been submitted and has not run yet. -/
  queued : Bool := false
  deriving DecidableEq, Repr

namespace DispatchGroup

variable (group : DispatchGroup) {n k : ℕ}

/-- A member enters. -/
def enter : DispatchGroup := { group with count := group.count + 1 }

/-- A member leaves; the last one submits a waiting block. -/
def leave : DispatchGroup :=
  if group.count = 1 ∧ group.waiting then
    { group with count := 0, waiting := false, queued := true }
  else { group with count := group.count - 1 }

/-- A block is registered; without members it is submitted at once. -/
def notify : DispatchGroup :=
  if group.count = 0 then { group with queued := true } else { group with waiting := true }

/-- The submitted block runs. -/
def run : DispatchGroup := { group with queued := false }

/-- The group of `n` members with a block, after `k` of them have left. -/
def joining (n k : ℕ) : DispatchGroup :=
  if k < n then { count := n - k, waiting := true } else { queued := true }

/-- `n` members enter. -/
theorem iterate_enter (n : ℕ) : enter^[n] {} = { count := n } := by
  induction n with
  | zero => rfl
  | succ n ih => rw [Function.iterate_succ_apply', ih, enter]

/-- `n` members enter, and a block is registered. -/
theorem notify_iterate_enter (n : ℕ) : (enter^[n] {}).notify = joining n 0 := by
  rw [iterate_enter, notify, joining]
  cases n <;> rfl

/-- One more member leaves. -/
theorem leave_joining (h : k < n) : (joining n k).leave = joining n (k + 1) := by
  rw [joining, if_pos h, leave, joining]
  by_cases hlast : k + 1 < n
  · have hcount : n - k ≠ 1 := by omega
    simp only [hcount, false_and, if_false, if_pos hlast, Nat.sub_sub]
  · have hcount : n - k = 1 := by omega
    simp only [hcount, true_and, if_true, if_neg hlast]

/-- The block is submitted exactly if all members have left. -/
theorem queued_joining : (joining n k).queued = true ↔ n ≤ k := by
  rw [joining]
  by_cases h : k < n
  · rw [if_pos h]
    exact iff_of_false Bool.false_ne_true (Nat.not_le.mpr h)
  · rw [if_neg h]
    exact iff_of_true rfl (Nat.not_lt.mp h)

/-- After the block has run, nothing is left of the group. -/
theorem run_joining (h : (joining n k).queued = true) : (joining n k).run = {} := by
  rw [joining, if_neg (Nat.not_lt.mpr (queued_joining.mp h)), run]

end DispatchGroup
