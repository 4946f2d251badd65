/-
  Parley.Proofs.Engine.Limit

  A run is its steps, one after another, and the limit says only how many there may be.
  `stateAfter` and `effectsOf` iterate `step` with no limit at all. As long as every step goes on,
  the loop follows them and uses up one unit of fuel for each (`loop_of_proceeding`). So a run
  returns what the first step that does not go on returns, under every limit that this step is
  within, the last step allowed included; and it is aborted only if all the steps that the limit
  allows go on (`run_eq_steps`).
-/
import Parley.Proofs.Engine.Pausing

namespace Parley.Engine

section Iteration

variable (p : Program) (settings : Settings) (s : State)

/-- The state after some steps. -/
def stateAfter : Nat → State
  | 0 => s
  | n + 1 => (step p settings (stateAfter n)).state

/-- The step that is taken after some others. -/
def stepAfter (n : Nat) : Transition := step p settings (stateAfter p settings s n)

/-- The effects of the first steps, in order. -/
def effectsOf (n : Nat) : List Effect :=
  (List.range n).flatMap fun j => (stepAfter p settings s j).effects

theorem effectsOf_succ (n : Nat) :
    effectsOf p settings s (n + 1) =
      effectsOf p settings s n ++ (stepAfter p settings s n).effects := by
  rw [effectsOf, List.range_succ, List.flatMap_append, List.flatMap_singleton, effectsOf]

/-- Each of the first steps goes on. -/
def Proceeds (n : Nat) : Prop := ∀ j < n, (stepAfter p settings s j).outcome = .proceed

end Iteration

variable {p : Program} {settings : Settings} {s : State}

theorem Proceeds.of_le {k n : Nat} (h : Proceeds p settings s n) (hk : k ≤ n) :
    Proceeds p settings s k := fun j hj => h j (Nat.lt_of_lt_of_le hj hk)

/-! ### The loop -/

/-- As long as the steps go on, the loop goes on with less fuel. -/
theorem loop_of_proceeding {k : Nat} (hgo : Proceeds p settings s k) (limit fuel : Nat) :
    loop p settings limit (fuel + k) s [] 0 =
      loop p settings limit fuel (stateAfter p settings s k) (effectsOf p settings s k) k := by
  -- On the number of steps taken: the loop has come to the last of them, which goes on too.
  induction k generalizing fuel with
  | zero => rfl
  | succ k ih =>
      have hlast : (step p settings (stateAfter p settings s k)).outcome = .proceed :=
        hgo k (Nat.lt_succ_self k)
      have hbefore := ih (hgo.of_le (Nat.le_succ k)) (fuel + 1)
      rw [Nat.add_right_comm, Nat.add_assoc] at hbefore
      rw [hbefore, loop]
      simp only [hlast]
      rw [effectsOf_succ]
      rfl

/-- A loop with fuel for no more than steps that go on is aborted after them. -/
theorem loop_of_exhausted {limit n : Nat} (hgo : Proceeds p settings s n) :
    loop p settings limit n s [] 0 =
      ({ stateAfter p settings s n with status := .aborted (.stepLimit limit) },
        ⟨.aborted (.stepLimit limit), effectsOf p settings s n, n⟩) := by
  have hloop := loop_of_proceeding hgo limit 0
  rw [Nat.zero_add] at hloop
  rw [hloop, loop]

/-- A loop with fuel for the first step that does not go on returns what that step does. -/
theorem loop_of_stopping {limit fuel k : Nat} (hfuel : k < fuel) (hgo : Proceeds p settings s k)
    (hstop : (stepAfter p settings s k).outcome ≠ .proceed) :
    loop p settings limit fuel s [] 0 =
      ((stepAfter p settings s k).state,
        ⟨(stepAfter p settings s k).outcome, effectsOf p settings s (k + 1), k + 1⟩) := by
  obtain ⟨more, rfl⟩ : ∃ more, fuel = more + 1 + k := ⟨fuel - k - 1, by omega⟩
  rw [loop_of_proceeding hgo, loop, effectsOf_succ]
  split
  · rename_i hproceed
    exact absurd hproceed hstop
  · rfl

/-! ### Runs -/

/-- The settings with another limit. -/
def limitedTo (settings : Settings) (limit : Nat) : Settings := { settings with maxSteps := limit }

/-- No step looks at the limit. -/
theorem step_limitedTo (p : Program) (settings : Settings) (limit : Nat) (s : State) :
    step p (limitedTo settings limit) s = step p settings s := by
  have hexecute : ∀ (t : State) (a : Action),
      execute p (limitedTo settings limit) t a = execute p settings t a := by
    intro t a
    rw [execute_eq, execute_eq]
    cases a <;> rfl
  cases hresting : restingOutcome? s.status with
  | some outcome => rw [step, step, hresting]
  | none =>
      rw [step, step, hresting]
      simp only [executeAt, hexecute]

theorem stateAfter_limitedTo (p : Program) (settings : Settings) (limit : Nat) (s : State)
    (n : Nat) : stateAfter p (limitedTo settings limit) s n = stateAfter p settings s n := by
  induction n with
  | zero => rfl
  | succ n ih => rw [stateAfter, stateAfter, ih, step_limitedTo]

theorem stepAfter_limitedTo (p : Program) (settings : Settings) (limit : Nat) (s : State) :
    stepAfter p (limitedTo settings limit) s = stepAfter p settings s := by
  funext n
  rw [stepAfter, stepAfter, stateAfter_limitedTo, step_limitedTo]

theorem run_of_active (hs : Active s) :
    run p settings s = loop p settings settings.maxSteps settings.maxSteps s.quiet [] 0 := by
  rw [run, restingOutcome?_eq_none.2 hs]
  rfl

/-- Under every limit that the first step that does not go on is within, a run returns what this
    step does. -/
theorem run_of_stopping (hs : Active s) {k limit : Nat} (hlimit : k < limit)
    (hgo : Proceeds p settings s.quiet k)
    (hstop : (stepAfter p settings s.quiet k).outcome ≠ .proceed) :
    run p (limitedTo settings limit) s =
      ((stepAfter p settings s.quiet k).state,
        ⟨(stepAfter p settings s.quiet k).outcome, effectsOf p settings s.quiet (k + 1),
          k + 1⟩) := by
  have hsame := stepAfter_limitedTo p settings limit s.quiet
  have heffects : effectsOf p (limitedTo settings limit) s.quiet (k + 1) =
      effectsOf p settings s.quiet (k + 1) := by rw [effectsOf, hsame, effectsOf]
  rw [← hsame] at hstop ⊢
  rw [← heffects]
  rw [Proceeds, ← hsame] at hgo
  rw [run_of_active hs]
  exact loop_of_stopping hlimit hgo hstop

/-- A run is its steps up to the limit. If all the steps that the limit allows go on, the session
    is aborted in the state that they lead to, with all their effects. Otherwise the first step
    that does not go on is the last of the run: its state and its outcome are returned, with the
    effects of all steps so far and their number, also if no further step was allowed; and every
    other limit that allows this step gives the same. -/
theorem run_eq_steps (p : Program) (settings : Settings) {s : State} (hs : Active s) :
    (Proceeds p settings s.quiet settings.maxSteps →
      run p settings s =
        ({ stateAfter p settings s.quiet settings.maxSteps with
            status := .aborted (.stepLimit settings.maxSteps) },
          ⟨.aborted (.stepLimit settings.maxSteps),
            effectsOf p settings s.quiet settings.maxSteps, settings.maxSteps⟩)) ∧
    ∀ k < settings.maxSteps, Proceeds p settings s.quiet k →
      (stepAfter p settings s.quiet k).outcome ≠ .proceed →
        run p settings s =
          ((stepAfter p settings s.quiet k).state,
            ⟨(stepAfter p settings s.quiet k).outcome, effectsOf p settings s.quiet (k + 1),
              k + 1⟩) ∧
        ∀ limit, k < limit → run p (limitedTo settings limit) s = run p settings s := by
  refine ⟨fun hgo => ?_, fun k hk hgo hstop => ?_⟩
  · rw [run_of_active hs]
    exact loop_of_exhausted hgo
  · have hrun : run p settings s = _ := run_of_stopping hs hk hgo hstop
    refine ⟨hrun, fun limit hlimit => ?_⟩
    rw [hrun]
    exact run_of_stopping hs hlimit hgo hstop

/-- A script that ends with its second action: with a limit of two it ends normally, as it does
    with any greater one, and with a limit of one it is aborted after the first. -/
theorem run_eq_steps_at_limit :
    let p := Program.ofActions [.checkpoint (some "met"), .finish]
    let two : Settings := { maxSteps := 2 }
    let one : Settings := { maxSteps := 1 }
    Active {} ∧
      (run p two {}).2 = ⟨.finished, [.checkpoint (some "met")], 2⟩ ∧
      (∀ limit, 1 < limit → run p (limitedTo two limit) {} = run p two {}) ∧
      (run p one {}).2 = ⟨.aborted (.stepLimit 1), [.checkpoint (some "met")], 1⟩ := by
  intro p two one
  have hactive : Active {} := .inl rfl
  have hgo : Proceeds p two (State.quiet {}) 1 := by
    intro j hj
    obtain rfl : j = 0 := by omega
    decide
  have hgo' : Proceeds p one (State.quiet {}) 1 := by
    intro j hj
    obtain rfl : j = 0 := by omega
    decide
  obtain ⟨hrun, hlimits⟩ := (run_eq_steps p two hactive).2 1 (by decide) hgo (by decide)
  refine ⟨hactive, ?_, hlimits, ?_⟩
  · rw [hrun]
    decide
  · rw [(run_eq_steps p one hactive).1 hgo']
    decide

end Parley.Engine
