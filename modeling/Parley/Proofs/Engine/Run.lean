/-
  Parley.Proofs.Engine.Run

  From steps to runs. `loop_induction` and `run_induction` carry a property of steps over to
  runs: what every step that goes on preserves holds where the run stops, whether that is by a
  last step or because the run has used up its steps.

  `Slice` is a run without its limit: steps that go on, then one that does not. A slice of no
  more steps than the limit allows is what `run` returns (`run_of_slice`), and `run` returns
  nothing else, unless it is aborted for its length (`slice_of_run`).
-/
import Parley.Proofs.Engine.Step

namespace Parley.Engine

/-! ### Invariants of runs -/

section Induction

variable {p : Program} {settings : Settings} (Going : State → Prop)
  (Stopped : State → Outcome → Prop)

/-- `Going` holds while the loop goes on, `Stopped` of what it returns. -/
theorem loop_induction {limit : Nat}
    (hgo : ∀ s, Going s → (step p settings s).outcome = .proceed → Going (step p settings s).state)
    (hstop : ∀ s, Going s → (step p settings s).outcome ≠ .proceed →
      Stopped (step p settings s).state (step p settings s).outcome)
    (hlimit : ∀ s, Going s →
      Stopped { s with status := .aborted (.stepLimit limit) } (.aborted (.stepLimit limit)))
    (fuel : Nat) (s : State) (effects : List Effect) (done : Nat) (hs : Going s) :
    Stopped (loop p settings limit fuel s effects done).1
      (loop p settings limit fuel s effects done).2.outcome := by
  induction fuel generalizing s effects done with
  | zero => exact hlimit s hs
  | succ fuel ih =>
      rw [loop]
      split
      · rename_i hproceed
        exact ih _ _ _ (hgo s hs hproceed)
      · rename_i hproceed
        exact hstop s hs hproceed

/-- The same for a run of an active state. -/
theorem run_induction
    (hgo : ∀ s, Going s → (step p settings s).outcome = .proceed → Going (step p settings s).state)
    (hstop : ∀ s, Going s → (step p settings s).outcome ≠ .proceed →
      Stopped (step p settings s).state (step p settings s).outcome)
    (hlimit : ∀ s limit, Going s →
      Stopped { s with status := .aborted (.stepLimit limit) } (.aborted (.stepLimit limit)))
    {s : State} (hactive : Active s)
    (hs : Going { s with screen := s.screen.clearOneShots }) :
    Stopped (run p settings s).1 (run p settings s).2.outcome := by
  rw [run, restingOutcome?_eq_none.2 hactive]
  exact loop_induction Going Stopped hgo hstop (fun s hgoing => hlimit s _ hgoing) _ _ _ _ hs

end Induction

/-! ### Slices -/

/-- Steps that go on, then one that does not: the state it leaves and what was put out. -/
inductive Slice (p : Program) (settings : Settings) : State → State → Output → Prop where
  | stop {s : State} (hstop : (step p settings s).outcome ≠ .proceed) :
      Slice p settings s (step p settings s).state
        ⟨(step p settings s).outcome, (step p settings s).effects, 1⟩
  | go {s t : State} {o : Output} (hgo : (step p settings s).outcome = .proceed)
      (hrest : Slice p settings (step p settings s).state t o) :
      Slice p settings s t ⟨o.outcome, (step p settings s).effects ++ o.effects, o.steps + 1⟩

theorem loop_of_slice {p : Program} {settings : Settings} {s t : State} {o : Output} {limit : Nat}
    (h : Slice p settings s t o) {fuel : Nat} (hfuel : o.steps ≤ fuel) (effects : List Effect)
    (done : Nat) :
    loop p settings limit fuel s effects done =
      (t, ⟨o.outcome, effects ++ o.effects, done + o.steps⟩) := by
  induction h generalizing fuel effects done with
  | stop hstop =>
      obtain ⟨fuel, rfl⟩ : ∃ n, fuel = n + 1 := ⟨fuel - 1, by simp only at hfuel; omega⟩
      rw [loop]
      split
      · rename_i hproceed
        exact absurd hproceed hstop
      · rfl
  | @go s t o hgo hrest ih =>
      obtain ⟨fuel, rfl⟩ : ∃ n, fuel = n + 1 := ⟨fuel - 1, by simp only at hfuel; omega⟩
      have hfuel' : o.steps ≤ fuel := by simp only at hfuel; omega
      have hsteps : done + 1 + o.steps = done + (o.steps + 1) := by omega
      rw [loop, hgo]
      simp only
      rw [ih hfuel', List.append_assoc, hsteps]

/-- A loop that was not aborted for its length is a slice. -/
theorem slice_of_loop {p : Program} {settings : Settings} {limit fuel : Nat} {s : State}
    {effects : List Effect} {done : Nat}
    (hlimit : (loop p settings limit fuel s effects done).2.outcome ≠ .aborted (.stepLimit limit)) :
    ∃ t o, Slice p settings s t o ∧ o.steps ≤ fuel := by
  induction fuel generalizing s effects done with
  | zero => exact absurd rfl hlimit
  | succ fuel ih =>
      by_cases hgo : (step p settings s).outcome = .proceed
      · rw [loop, hgo] at hlimit
        obtain ⟨t, o, hrest, hsteps⟩ := ih hlimit
        exact ⟨t, _, .go hgo hrest, by simp only; omega⟩
      · exact ⟨_, _, .stop hgo, by simp only; omega⟩

/-- A slice within the limit is what a run returns. -/
theorem run_of_slice {p : Program} {settings : Settings} {s t : State} {o : Output}
    (hactive : Active s) (h : Slice p settings { s with screen := s.screen.clearOneShots } t o)
    (hsteps : o.steps ≤ settings.maxSteps) : run p settings s = (t, o) := by
  rw [run, restingOutcome?_eq_none.2 hactive]
  simp only
  rw [loop_of_slice h hsteps, List.nil_append, Nat.zero_add]

/-- What a run returns is a slice, unless it was aborted for its length. -/
theorem slice_of_run {p : Program} {settings : Settings} {s : State} (hactive : Active s)
    (hlimit : (run p settings s).2.outcome ≠ .aborted (.stepLimit settings.maxSteps)) :
    Slice p settings { s with screen := s.screen.clearOneShots } (run p settings s).1
        (run p settings s).2 ∧
      (run p settings s).2.steps ≤ settings.maxSteps := by
  have hrun := hlimit
  rw [run, restingOutcome?_eq_none.2 hactive] at hrun
  -- The slice that the loop went through is, being short enough, also what the run returned.
  obtain ⟨t, o, hslice, hsteps⟩ := slice_of_loop hrun
  rw [run_of_slice hactive hslice hsteps]
  exact ⟨hslice, hsteps⟩

end Parley.Engine
