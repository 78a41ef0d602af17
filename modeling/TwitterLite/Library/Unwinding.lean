import Mathlib.Data.List.Forall2

/-!
# Noninterference by unwinding

A machine takes a state and an input to a next state and a list of outputs, or refuses the input.
Two states that an observer is not meant to tell apart are related, and so are two inputs.

If related inputs take related states to related states, with the same outputs, then related input
sequences have the same outputs (`Unwinding.run_related`). What every step from a state with an
invariant satisfies is satisfied by all outputs of a run (`Unwinding.run_forall`).

## Main definitions

* `Unwinding.run`.

## Main results

* `Unwinding.run_related`, `Unwinding.run_forall`.
-/

namespace Unwinding

variable {σ ι ο : Type*} (next : σ → ι → Option (σ × List ο))

/-- The last state and the outputs of the machine on a sequence of inputs. -/
def run : σ → List ι → Option (σ × List ο)
  | s, [] => some (s, [])
  | s, i :: is =>
    (next s i).bind fun first => (run first.1 is).map fun rest => (rest.1, first.2 ++ rest.2)

variable {next} {s s' t : σ} {is is' : List ι} {os : List ο}

theorem run_cons {i : ι} : run next s (i :: is) = some (t, os) ↔
    ∃ u o os', next s i = some (u, o) ∧ run next u is = some (t, os') ∧ os = o ++ os' := by
  simp only [run, Option.bind_eq_some_iff, Option.map_eq_some_iff, Prod.mk.injEq, Prod.exists]
  constructor
  · rintro ⟨u, o, hnext, t, os', hrun, rfl, rfl⟩
    exact ⟨u, o, os', hnext, hrun, rfl⟩
  · rintro ⟨u, o, os', hnext, hrun, rfl⟩
    exact ⟨u, o, hnext, t, os', hrun, rfl, rfl⟩

/-- **Related runs have the same outputs.** -/
theorem run_related {R : σ → σ → Prop} {E : ι → ι → Prop}
    (hstep : ∀ s s' i i' t o, R s s' → E i i' → next s i = some (t, o) →
      ∃ t', next s' i' = some (t', o) ∧ R t t')
    (hs : R s s') (his : List.Forall₂ E is is') (hrun : run next s is = some (t, os)) :
    ∃ t', run next s' is' = some (t', os) ∧ R t t' := by
  induction his generalizing s s' os with
  | nil =>
    obtain ⟨rfl, rfl⟩ := Prod.mk.inj (Option.some.inj hrun)
    exact ⟨s', rfl, hs⟩
  | cons hi _ ih =>
    obtain ⟨u, o, os', hnext, hrest, rfl⟩ := run_cons.mp hrun
    obtain ⟨u', hnext', hu⟩ := hstep _ _ _ _ _ _ hs hi hnext
    obtain ⟨t', hrest', ht⟩ := ih hu hrest
    exact ⟨t', run_cons.mpr ⟨u', o, os', hnext', hrest', rfl⟩, ht⟩

/-- What every step from a state with the invariant puts out is put out along every run. -/
theorem run_forall {Inv : σ → Prop} {P : ο → Prop}
    (hstep : ∀ s i t o, Inv s → next s i = some (t, o) → Inv t ∧ ∀ x ∈ o, P x)
    (hs : Inv s) (hrun : run next s is = some (t, os)) : ∀ x ∈ os, P x := by
  induction is generalizing s os with
  | nil =>
    obtain ⟨-, rfl⟩ := Prod.mk.inj (Option.some.inj hrun)
    exact fun x hx => absurd hx List.not_mem_nil
  | cons i is ih =>
    obtain ⟨u, o, os', hnext, hrest, rfl⟩ := run_cons.mp hrun
    obtain ⟨hu, ho⟩ := hstep _ _ _ _ hs hnext
    exact List.forall_mem_append.mpr ⟨ho, ih hu hrest⟩

end Unwinding
