import Mathlib.Data.List.Sort
import Mathlib.Data.List.Infix
import Mathlib.Order.RelClasses

/-!
# The first elements of an order

A *window* of size `k` on a set `M` that a strict order `r` arranges is a list of its first `k`
elements, or of all of them if there are fewer. The order need only decide between the elements
that meet in a window. There is at most one window (`Window.IsFirst.unique`), and the first `k` of
an arrangement of `M` are one (`Window.isFirst_take`).

When `M` changes, a window of it may stay as it is (`Window.IsFirst.of_subset`,
`Window.IsFirst.of_behind`) or exchange one of its elements for another one that comes, like the
rest of the window, before everything that stays out (`Window.IsFirst.exchange`).

## Main definitions

* `Window.IsFirst`.

## Main results

* `Window.IsFirst.unique`, `Window.isFirst_take`.
* `Window.pairwise_orderedInsert`.
* `Window.isFirst_all`, `Window.IsFirst.of_subset`, `Window.IsFirst.of_behind`,
  `Window.IsFirst.exchange`.
-/

namespace Window

variable {α : Type*} {r : α → α → Prop} {k : ℕ} {M : Set α} {W W' : List α}

/-- `W` lists the first `k` elements of `M`, or all of them. -/
structure IsFirst (r : α → α → Prop) (k : ℕ) (M : Set α) (W : List α) : Prop where
  pairwise : W.Pairwise r
  mem : ∀ w ∈ W, w ∈ M
  before : ∀ w ∈ W, ∀ m ∈ M, m ∉ W → r w m
  length_le : W.length ≤ k
  complete : W.length < k → ∀ m ∈ M, m ∈ W

/-! ### Uniqueness -/

section Unique

variable [IsStrictOrder α r]

theorem nodup_of_pairwise (h : W.Pairwise r) : W.Nodup :=
  h.imp fun hab => ne_of_irrefl hab

/-- An arranged list is determined by its elements. -/
theorem eq_of_mem_iff (hW : W.Pairwise r) (hW' : W'.Pairwise r) (h : ∀ w, w ∈ W ↔ w ∈ W') :
    W = W' := by
  have hperm : W.Perm W' :=
    (List.perm_ext_iff_of_nodup (nodup_of_pairwise hW) (nodup_of_pairwise hW')).mpr h
  refine List.Perm.eq_of_pairwise (fun a b _ _ hab hba => ?_) hW hW' hperm
  exact absurd hba (asymm_of r hab)

theorem IsFirst.subset (h : IsFirst r k M W) (h' : IsFirst r k M W') : W ⊆ W' := by
  intro w hw
  by_contra hnot
  -- a full window with the element missing lists one that comes later
  have hfull : ¬ W'.length < k := fun hlt => hnot (h'.complete hlt w (h.mem w hw))
  have hlater : ∃ w' ∈ W', w' ∉ W := by
    by_contra hall
    push Not at hall
    have hsub : w :: W' ⊆ W := List.cons_subset.mpr ⟨hw, hall⟩
    have hnodup : (w :: W').Nodup := List.nodup_cons.mpr ⟨hnot, nodup_of_pairwise h'.pairwise⟩
    have hlength := (List.subperm_of_subset hnodup hsub).length_le
    rw [List.length_cons] at hlength
    exact hfull (lt_of_lt_of_le hlength h.length_le)
  obtain ⟨w', hw', hnot'⟩ := hlater
  exact asymm_of r (h.before w hw w' (h'.mem w' hw') hnot') (h'.before w' hw' w (h.mem w hw) hnot)

/-- **There is at most one window.** -/
theorem IsFirst.unique (h : IsFirst r k M W) (h' : IsFirst r k M W') : W = W' :=
  eq_of_mem_iff h.pairwise h'.pairwise fun _ => ⟨fun hw => h.subset h' hw, fun hw =>
    h'.subset h hw⟩

end Unique

/-- The first `k` of an arrangement are a window. -/
theorem isFirst_take {S : List α} (hS : S.Pairwise r) (hM : ∀ m, m ∈ M ↔ m ∈ S) :
    IsFirst r k M (S.take k) where
  pairwise := hS.sublist (List.take_sublist k S)
  mem w hw := (hM w).mpr (List.mem_of_mem_take hw)
  before w hw m hm hnot := by
    have hm : m ∈ S := (hM m).mp hm
    rw [← List.take_append_drop k S] at hS hm
    rcases List.mem_append.mp hm with hm | hm
    · exact absurd hm hnot
    · exact (List.pairwise_append.mp hS).2.2 w hw m hm
  length_le := List.length_take_le k S
  complete hlt m hm := by
    have hle : S.length ≤ k := by
      rw [List.length_take] at hlt
      omega
    rw [List.take_of_length_le hle]
    exact (hM m).mp hm

/-! ### Keeping a window up to date -/

/-- Inserting an element that the order decides on keeps a list arranged. -/
theorem pairwise_orderedInsert [DecidableRel r] [IsTrans α r] {a : α} (hW : W.Pairwise r)
    (ha : ∀ w ∈ W, r a w ∨ r w a) : (W.orderedInsert r a).Pairwise r := by
  induction W with
  | nil => exact List.pairwise_singleton r a
  | cons b W ih =>
    obtain ⟨hb, hW⟩ := List.pairwise_cons.mp hW
    obtain ⟨hab, ha⟩ := List.forall_mem_cons.mp ha
    rw [List.orderedInsert_cons]
    split_ifs with h
    · refine List.pairwise_cons.mpr ⟨?_, List.pairwise_cons.mpr ⟨hb, hW⟩⟩
      exact List.forall_mem_cons.mpr ⟨h, fun w hw => trans_of r h (hb w hw)⟩
    · refine List.pairwise_cons.mpr ⟨fun w hw => ?_, ih hW ha⟩
      rcases (List.mem_orderedInsert r).mp hw with rfl | hw
      · exact hab.resolve_left h
      · exact hb w hw

/-- A list of everything there is. -/
theorem isFirst_all (hW : W.Pairwise r) (hM : ∀ m, m ∈ W ↔ m ∈ M) (hlength : W.length ≤ k) :
    IsFirst r k M W where
  pairwise := hW
  mem w hw := (hM w).mp hw
  before _ _ m hm hnot := absurd ((hM m).mpr hm) hnot
  length_le := hlength
  complete _ m hm := (hM m).mpr hm

namespace IsFirst

variable {M' : Set α} (h : IsFirst r k M W)

include h

/-- Elements outside the window may go. -/
theorem of_subset (hW : ∀ w ∈ W, w ∈ M') (hM : ∀ m ∈ M', m ∈ M) : IsFirst r k M' W where
  pairwise := h.pairwise
  mem := hW
  before w hw m hm hnot := h.before w hw m (hM m hm) hnot
  length_le := h.length_le
  complete hlt m hm := h.complete hlt m (hM m hm)

/-- Elements may come behind a full window. -/
theorem of_behind (hfull : W.length = k) (hW : ∀ w ∈ W, w ∈ M')
    (hM : ∀ m ∈ M', m ∉ W → m ∈ M ∨ ∀ w ∈ W, r w m) : IsFirst r k M' W where
  pairwise := h.pairwise
  mem := hW
  before w hw m hm hnot := by
    rcases hM m hm hnot with hm | hbehind
    · exact h.before w hw m hm hnot
    · exact hbehind w hw
  length_le := h.length_le
  complete hlt := absurd hfull hlt.ne

/-- **One element of a full window gives way to another one.** The new element and the rest of the
window come before everything that stays out. -/
theorem exchange [IsStrictOrder α r] (hfull : W.length = k) {a b : α} (hb : b ∈ W)
    (ha : a ∈ W → a = b) (hW' : W'.Pairwise r) (hmem : ∀ w, w ∈ W' ↔ w = a ∨ w ∈ W ∧ w ≠ b)
    (hM : ∀ w ∈ W', w ∈ M')
    (hafter : ∀ m ∈ M', m ∉ W' → r a m ∧ ∀ w ∈ W, w ≠ b → r w m) : IsFirst r k M' W' := by
  classical
  have hnodup := nodup_of_pairwise h.pairwise
  have herase : a ∉ W.erase b := fun hmem =>
    (hnodup.mem_erase_iff.mp hmem).1 (ha (hnodup.mem_erase_iff.mp hmem).2)
  have hperm : W'.Perm (a :: W.erase b) := by
    refine (List.perm_ext_iff_of_nodup (nodup_of_pairwise hW')
      (List.nodup_cons.mpr ⟨herase, hnodup.erase b⟩)).mpr fun w => ?_
    rw [hmem, List.mem_cons, hnodup.mem_erase_iff, and_comm]
  have hlength : W'.length = k := by
    rw [hperm.length_eq, List.length_cons, List.length_erase_of_mem hb, ← hfull]
    exact Nat.sub_add_cancel (List.length_pos_of_mem hb)
  refine ⟨hW', hM, fun w hw m hm hnot => ?_, hlength.le, fun hlt => absurd hlength hlt.ne⟩
  obtain ⟨ham, hWm⟩ := hafter m hm hnot
  rcases (hmem w).mp hw with rfl | ⟨hw, hne⟩
  · exact ham
  · exact hWm w hw hne

end IsFirst

end Window
