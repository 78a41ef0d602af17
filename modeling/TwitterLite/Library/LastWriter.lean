import Mathlib.Data.List.Basic
import Mathlib.Data.List.TakeDrop

/-!
# Logs in which the last entry counts

A sender has the entries `ws` to deliver in order. The receiver appends the entries that it accepts
to a log, and of the entries with a given property only the last one counts. If the connection is
lost, the sender does not know how far the receiver has come, and sends everything again from a
position that may lie further back. The log then repeats entries, but no last entry is lost or
changed once the sender has come as far as before: the log continued by what is still to be sent has
the same last entries as everything that was to be delivered (`LastWriter.Continues`).

## Main definitions

* `LastWriter.Continues`.

## Main results

* `LastWriter.Continues.receive`, `LastWriter.Continues.resend`.
* `LastWriter.Continues.findRev?_append_drop`.
-/

namespace LastWriter

variable {α : Type*} {accepts holds : α → Bool} {log ws : List α} {w : α} {j k : ℕ}

theorem findRev?_append (xs ys : List α) (holds : α → Bool) :
    (xs ++ ys).findRev? holds = (ys.findRev? holds).or (xs.findRev? holds) := by
  rw [List.findRev?_eq_findRev?TR, List.findRev?TR, List.findRev?TR, List.findRev?TR,
    List.reverse_append, List.find?_append]

theorem findRev?_append_singleton (l : List α) (a : α) (holds : α → Bool) :
    (l ++ [a]).findRev? holds = if holds a then some a else l.findRev? holds := by
  rw [findRev?_append, List.findRev?, List.findRev?]
  cases holds a <;> rfl

theorem findRev?_eq_none_iff {l : List α} : l.findRev? holds = none ↔ ∀ a ∈ l, ¬ holds a := by
  rw [List.findRev?_eq_findRev?TR, List.findRev?TR, List.find?_eq_none]
  simp only [List.mem_reverse]

/-- The log, continued by the accepted ones of the entries from position `k`, has the same last
entries as all accepted entries. -/
def Continues (accepts : α → Bool) (log ws : List α) (k : ℕ) : Prop :=
  ∀ holds : α → Bool,
    (log ++ (ws.drop k).filter accepts).findRev? holds = (ws.filter accepts).findRev? holds

theorem continues_nil : Continues accepts [] ws 0 := fun _ => rfl

/-- One more entry is to be delivered. -/
theorem Continues.issue (h : Continues accepts log ws k) (hk : k ≤ ws.length) :
    Continues accepts log (ws ++ [w]) k := by
  intro holds
  rw [List.drop_append_of_le_length hk, List.filter_append, List.filter_append, ← List.append_assoc,
    findRev?_append _ ([w].filter accepts), h holds, ← findRev?_append]

/-- The entry at the position is accepted. -/
theorem Continues.receive (h : Continues accepts log ws k) (hw : ws[k]? = some w)
    (haccepts : accepts w = true) : Continues accepts (log ++ [w]) ws (k + 1) := by
  intro holds
  obtain ⟨hk, rfl⟩ := List.getElem?_eq_some_iff.mp hw
  rw [← h holds, List.drop_eq_getElem_cons hk, List.filter_cons_of_pos haccepts, List.append_assoc,
    List.singleton_append]

/-- The entry at the position is not accepted. -/
theorem Continues.reject (h : Continues accepts log ws k) (hw : ws[k]? = some w)
    (haccepts : accepts w = false) : Continues accepts log ws (k + 1) := by
  intro holds
  obtain ⟨hk, rfl⟩ := List.getElem?_eq_some_iff.mp hw
  rw [← h holds, List.drop_eq_getElem_cons hk, List.filter_cons_of_neg (by simp [haccepts])]

theorem filter_eq_append (ws : List α) (j : ℕ) :
    ws.filter accepts = (ws.take j).filter accepts ++ (ws.drop j).filter accepts := by
  rw [← List.filter_append, List.take_append_drop]

/-- If no entry from position `j` on counts, the log has the last one of those before. -/
theorem Continues.findRev?_eq_of_forall (h : Continues accepts log ws k) (hj : j ≤ k)
    (hnone : ((ws.drop j).filter accepts).findRev? holds = none) :
    log.findRev? holds = ((ws.take j).filter accepts).findRev? holds := by
  have hk : ((ws.drop k).filter accepts).findRev? holds = none := by
    rw [findRev?_eq_none_iff] at hnone ⊢
    have hsub : (ws.drop k).filter accepts ⊆ (ws.drop j).filter accepts :=
      ((List.drop_sublist_drop_left ws hj).filter _).subset
    exact fun a ha => hnone a (hsub ha)
  have hlast := h holds
  rwa [findRev?_append, hk, Option.none_or, filter_eq_append ws j, findRev?_append, hnone,
    Option.none_or] at hlast

/-- **Sending again** from a position further back does no harm. -/
theorem Continues.resend (h : Continues accepts log ws k) (hj : j ≤ k) :
    Continues accepts log ws j := by
  intro holds
  rw [filter_eq_append ws j, findRev?_append, findRev?_append]
  cases hlast : ((ws.drop j).filter accepts).findRev? holds with
  | some a => rfl
  | none => rw [h.findRev?_eq_of_forall hj hlast]

/-- The log continued by all that is left, whether it will be accepted or not. -/
theorem Continues.findRev?_append_drop (h : Continues accepts log ws k) (hj : j ≤ k)
    (holds : α → Bool) :
    (log ++ ws.drop j).findRev? holds =
      ((ws.take j).filter accepts ++ ws.drop j).findRev? holds := by
  rw [findRev?_append, findRev?_append]
  cases hlast : (ws.drop j).findRev? holds with
  | some a => rfl
  | none =>
    have hnone : ((ws.drop j).filter accepts).findRev? holds = none := by
      rw [findRev?_eq_none_iff] at hlast ⊢
      exact fun a ha => hlast a (List.mem_of_mem_filter ha)
    rw [h.findRev?_eq_of_forall hj hnone]

end LastWriter
