import Mathlib.Order.Compare
import Mathlib.Data.Prod.Lex
import Mathlib.Data.List.Lex
import Mathlib.Order.RelClasses

/-!
# Comparators with a rank

A comparator of the source returns which of two values comes first. It is *ranked* by a function
into a linear order if it compares the ranks (`Comparator.IsRank`). Then it is a total preorder:
values of equal rank are those that it does not tell apart, and `Comparator.before` is a strict
order. Comparing by one comparator and then by another is ranked by the pair of the ranks in the
lexicographic order (`Comparator.IsRank.then`), and comparing lists element by element by the lists
of the ranks (`Comparator.IsRank.lexCompare`).

## Main definitions

* `Comparator.IsRank`, `Comparator.before`, `Comparator.directed`, `Comparator.lexCompare`.

## Main results

* `Comparator.IsRank.lt_iff`, `Comparator.IsRank.eq_iff`, `Comparator.IsRank.swap`.
* `Comparator.IsRank.then`, `Comparator.IsRank.lexCompare`.
* `Comparator.IsRank.isStrictOrder_before`.
-/

namespace Comparator

variable {α β τ σ : Type*} [LinearOrder τ] [LinearOrder σ] {c d : α → α → Ordering} {f : α → τ}
  {g : α → σ}

/-- The comparator compares the ranks. -/
def IsRank (c : α → α → Ordering) (f : α → τ) : Prop := ∀ a b, (c a b).Compares (f a) (f b)

/-- The comparator puts the first value before the second one. -/
def before (c : α → α → Ordering) (a b : α) : Prop := c a b = .lt

instance (c : α → α → Ordering) : DecidableRel (before c) := fun a b =>
  inferInstanceAs (Decidable (c a b = .lt))

/-- The comparator in a direction: backwards it gets its arguments the other way round. -/
def directed (reverse : Bool) (c : α → α → Ordering) (a b : α) : Ordering :=
  if reverse then c b a else c a b

/-- Comparing lists element by element; a list comes after its own beginnings. -/
def lexCompare (c : α → α → Ordering) : List α → List α → Ordering
  | [], [] => .eq
  | [], _ :: _ => .lt
  | _ :: _, [] => .gt
  | a :: as, b :: bs => (c a b).then (lexCompare c as bs)

/-! ### Ranks that are pairs -/

theorem toLex_lt_toLex_of_lt {a b : τ} (h : a < b) (x y : σ) : toLex (a, x) < toLex (b, y) :=
  Prod.Lex.toLex_lt_toLex.mpr (.inl h)

/-- Pairs with the same first component compare like the second ones. -/
theorem compares_toLex_right {o : Ordering} {x y : σ} (h : o.Compares x y) (a : τ) :
    o.Compares (toLex (a, x)) (toLex (a, y)) := by
  cases o with
  | lt => exact Prod.Lex.toLex_lt_toLex.mpr (.inr ⟨rfl, h⟩)
  | eq => exact congrArg toLex (Prod.ext rfl h)
  | gt => exact Prod.Lex.toLex_lt_toLex.mpr (.inr ⟨rfl, h⟩)

/-- Pairs with the same second component compare like the first ones. -/
theorem compares_toLex_left {o : Ordering} {a b : τ} (h : o.Compares a b) (x : σ) :
    o.Compares (toLex (a, x)) (toLex (b, x)) := by
  cases o with
  | lt => exact toLex_lt_toLex_of_lt h x x
  | eq => exact congrArg toLex (Prod.ext h rfl)
  | gt => exact toLex_lt_toLex_of_lt h x x

/-! ### The laws of a ranked comparator -/

namespace IsRank

variable (h : IsRank c f)

include h

theorem lt_iff {a b : α} : c a b = .lt ↔ f a < f b := (h a b).eq_lt

theorem gt_iff {a b : α} : c a b = .gt ↔ f b < f a := (h a b).eq_gt

theorem eq_iff {a b : α} : c a b = .eq ↔ f a = f b := (h a b).eq_eq

theorem ne_gt_iff {a b : α} : c a b ≠ .gt ↔ f a ≤ f b := by
  rw [ne_eq, h.gt_iff, not_lt]

theorem swap (a b : α) : (c a b).swap = c b a := by
  rcases lt_trichotomy (f a) (f b) with hlt | heq | hgt
  · rw [h.lt_iff.mpr hlt, h.gt_iff.mpr hlt, Ordering.swap]
  · rw [h.eq_iff.mpr heq, h.eq_iff.mpr heq.symm, Ordering.swap]
  · rw [h.gt_iff.mpr hgt, h.lt_iff.mpr hgt, Ordering.swap]

/-- Values that the comparator tells apart are before one another. -/
theorem before_or_before {a b : α} (hne : c a b ≠ .eq) : before c a b ∨ before c b a := by
  rw [before, before, h.lt_iff, h.lt_iff]
  exact lt_or_gt_of_ne (mt h.eq_iff.mpr hne)

theorem isStrictOrder_before : IsStrictOrder α (before c) where
  irrefl a ha := lt_irrefl (f a) (h.lt_iff.mp ha)
  trans _ _ _ hab hbd := h.lt_iff.mpr ((h.lt_iff.mp hab).trans (h.lt_iff.mp hbd))

theorem comap (e : β → α) : IsRank (fun a b => c (e a) (e b)) (fun b => f (e b)) := fun a b =>
  h (e a) (e b)

/-- Backwards the comparator is ranked by the dual order. -/
theorem directed_true : IsRank (directed true c) fun a => OrderDual.toDual (f a) := by
  intro a b
  have hba := h b a
  rw [directed, if_pos rfl]
  cases hc : c b a with
  | lt =>
    rw [hc] at hba
    exact OrderDual.toDual_lt_toDual.mpr hba
  | eq =>
    rw [hc] at hba
    exact congrArg OrderDual.toDual hba.symm
  | gt =>
    rw [hc] at hba
    exact OrderDual.toDual_lt_toDual.mpr hba

theorem directed_false : IsRank (directed false c) f := h

theorem isStrictOrder_directed (reverse : Bool) :
    IsStrictOrder α (before (directed reverse c)) := by
  cases reverse with
  | false => exact h.directed_false.isStrictOrder_before
  | true => exact h.directed_true.isStrictOrder_before

theorem directed_gt_iff {reverse : Bool} {a b : α} :
    directed reverse c a b = .gt ↔ before (directed reverse c) b a := by
  rw [before]
  cases reverse with
  | false => exact h.gt_iff.trans h.lt_iff.symm
  | true => exact h.gt_iff.trans h.lt_iff.symm

/-- Comparing by one rank and then by another. -/
theorem «then» (h' : IsRank d g) :
    IsRank (fun a b => (c a b).then (d a b)) fun a => toLex (f a, g a) := by
  intro a b
  have hc := h a b
  have hd := h' a b
  dsimp only
  cases hab : c a b with
  | lt =>
    rw [hab] at hc
    exact Prod.Lex.toLex_lt_toLex.mpr (.inl hc)
  | gt =>
    rw [hab] at hc
    exact Prod.Lex.toLex_lt_toLex.mpr (.inl hc)
  | eq =>
    rw [hab] at hc
    cases hab' : d a b with
    | lt =>
      rw [hab'] at hd
      exact Prod.Lex.toLex_lt_toLex.mpr (.inr ⟨hc, hd⟩)
    | gt =>
      rw [hab'] at hd
      exact Prod.Lex.toLex_lt_toLex.mpr (.inr ⟨hc.symm, hd⟩)
    | eq =>
      rw [hab'] at hd
      exact congrArg toLex (Prod.ext hc hd)

/-- Comparing lists element by element. -/
theorem lexCompare : IsRank (lexCompare c) fun as => as.map f := by
  intro as bs
  induction as generalizing bs with
  | nil =>
    cases bs with
    | nil => rfl
    | cons b bs => exact List.nil_lt_cons _ _
  | cons a as ih =>
    cases bs with
    | nil => exact List.nil_lt_cons _ _
    | cons b bs =>
      have hc := h a b
      have hrest := ih bs
      rw [Comparator.lexCompare]
      cases hab : c a b with
      | lt =>
        rw [hab] at hc
        exact List.cons_lt_cons_iff.mpr (.inl hc)
      | gt =>
        rw [hab] at hc
        exact List.cons_lt_cons_iff.mpr (.inl hc)
      | eq =>
        rw [hab] at hc
        cases hlex : Comparator.lexCompare c as bs with
        | lt =>
          rw [hlex] at hrest
          exact List.cons_lt_cons_iff.mpr (.inr ⟨hc, hrest⟩)
        | gt =>
          rw [hlex] at hrest
          exact List.cons_lt_cons_iff.mpr (.inr ⟨hc.symm, hrest⟩)
        | eq =>
          rw [hlex] at hrest
          exact List.cons_eq_cons.mpr ⟨hc, hrest⟩

end IsRank

end Comparator
