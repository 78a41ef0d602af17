import Mathlib.Data.List.Basic

/-!
# Runs of a labelled transition system

A transition system is a relation `Step s e t`: in the state `s` the event `e` leads to the state
`t`. A *run* records its transitions in order. Four rules reason about all runs at once.

* An invariant preserved by every step holds at the end of every run (`Run.invariant`).
* An invariant preserved by the steps that satisfy a guard holds at the end of every guarded run
  (`Run.invariant_of_guard`). If moreover, from a state with the invariant, a step is good exactly
  when it satisfies the guard, then a run consists of good steps exactly when all its steps
  satisfy the guard (`Run.forall_good_iff`): the first step outside the guard is a bad one.
* A forward simulation by a machine with a deterministic step is followed along the whole run
  (`Run.simulates`).
* A rank that every step lowers bounds the length of a run (`Run.length_add_rank_le`).

## Main definitions

* `TransitionSystem.Transition`, `TransitionSystem.Run`.

## Main results

* `TransitionSystem.Run.invariant`, `TransitionSystem.Run.invariant_of_guard`.
* `TransitionSystem.Run.forall_good_iff`, `TransitionSystem.Run.forall_of_invariant`.
* `TransitionSystem.Run.simulates`, `TransitionSystem.Run.length_add_rank_le`.
-/

namespace TransitionSystem

variable {σ ε α ε' : Type*}

/-- One step of a run, with its two states. -/
structure Transition (σ ε : Type*) where
  source : σ
  event : ε
  target : σ

/-- A run from the first state to the last, through the listed transitions. -/
inductive Run (Step : σ → ε → σ → Prop) : σ → List (Transition σ ε) → σ → Prop
  | nil (s : σ) : Run Step s [] s
  | snoc {s t u : σ} {ts : List (Transition σ ε)} {e : ε} (run : Run Step s ts t)
      (step : Step t e u) : Run Step s (ts ++ [⟨t, e, u⟩]) u

namespace Run

variable {Step : σ → ε → σ → Prop} {Inv : σ → Prop} {s t u : σ} {ts us : List (Transition σ ε)}

/-- A run goes on from where another one ends. -/
theorem trans (run : Run Step s ts t) (next : Run Step t us u) : Run Step s (ts ++ us) u := by
  induction next with
  | nil => rwa [List.append_nil]
  | snoc next step ih =>
    rw [← List.append_assoc]
    exact ih.snoc step

/-- An invariant preserved by the steps that satisfy a guard holds after every guarded run. -/
theorem invariant_of_guard {Guard : Transition σ ε → Prop}
    (hstep : ∀ t e u, Inv t → Step t e u → Guard ⟨t, e, u⟩ → Inv u)
    (run : Run Step s ts t) (hs : Inv s) (hg : ∀ τ ∈ ts, Guard τ) : Inv t := by
  induction run with
  | nil => exact hs
  | @snoc t u ts e run step ih =>
    rw [List.forall_mem_append, List.forall_mem_singleton] at hg
    exact hstep t e u (ih hg.1) step hg.2

/-- An invariant preserved by every step holds after every run. -/
theorem invariant (hstep : ∀ t e u, Inv t → Step t e u → Inv u) (run : Run Step s ts t)
    (hs : Inv s) : Inv t :=
  run.invariant_of_guard (fun t e u ht hu _ => hstep t e u ht hu) hs fun _ _ => trivial

/-- If a step from a state with the invariant is good exactly when it satisfies the guard, and
guarded steps preserve the invariant, then the good runs are the guarded ones. -/
theorem forall_good_iff (Inv : σ → Prop) {Guard Good : Transition σ ε → Prop}
    (hstep : ∀ t e u, Inv t → Step t e u → Guard ⟨t, e, u⟩ → Inv u)
    (hiff : ∀ t e u, Inv t → Step t e u → (Good ⟨t, e, u⟩ ↔ Guard ⟨t, e, u⟩))
    (run : Run Step s ts t) (hs : Inv s) : (∀ τ ∈ ts, Good τ) ↔ ∀ τ ∈ ts, Guard τ := by
  induction run with
  | nil => simp
  | @snoc t u ts e run step ih =>
    simp only [List.forall_mem_append, List.forall_mem_singleton, ih]
    exact and_congr_right fun hg => hiff t e u (run.invariant_of_guard hstep hs hg) step

/-- What every step from a state with the invariant satisfies is satisfied along every run. -/
theorem forall_of_invariant {Good : Transition σ ε → Prop}
    (hstep : ∀ t e u, Inv t → Step t e u → Inv u)
    (hgood : ∀ t e u, Inv t → Step t e u → Good ⟨t, e, u⟩)
    (run : Run Step s ts t) (hs : Inv s) : ∀ τ ∈ ts, Good τ := by
  have hiff : (∀ τ ∈ ts, Good τ) ↔ ∀ τ ∈ ts, (fun _ : Transition σ ε => True) τ :=
    run.forall_good_iff Inv (fun t e u ht hu _ => hstep t e u ht hu)
      (fun t e u ht hu => iff_true_intro (hgood t e u ht hu)) hs
  exact hiff.mpr fun _ _ => trivial

/-- A relation that every step carries to the next state of an abstract machine holds after the
run, for the abstract machine driven by the images of the events. -/
theorem simulates {R : σ → α → Prop} {label : ε → ε'} {next : α → ε' → α}
    (hstep : ∀ t e u a, R t a → Step t e u → R u (next a (label e)))
    (run : Run Step s ts t) {a : α} (hs : R s a) :
    R t ((ts.map fun τ => label τ.event).foldl next a) := by
  induction run with
  | nil => exact hs
  | @snoc t u ts e run step ih =>
    rw [List.map_append, List.foldl_append]
    exact hstep t e u _ ih step

/-- If every step from a state with the invariant lowers a rank, a run is no longer than the rank
it uses up. -/
theorem length_add_rank_le {rank : σ → ℕ} (hstep : ∀ t e u, Inv t → Step t e u → Inv u)
    (hrank : ∀ t e u, Inv t → Step t e u → rank u < rank t) (run : Run Step s ts t) (hs : Inv s) :
    ts.length + rank t ≤ rank s := by
  induction run with
  | nil => simp
  | @snoc t u ts e run step ih =>
    have hlt := hrank t e u (run.invariant hstep hs) step
    rw [List.length_append, List.length_singleton]
    omega

end Run

end TransitionSystem
