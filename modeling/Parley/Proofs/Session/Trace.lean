/-
  Parley.Proofs.Session.Trace

  The actions that a session executes. `Session.executed` lists those of one call in order, and
  `Session.trace` those of a whole history; `Session.visited` and `Session.path` list the states
  in which they are executed.

  Inputs change no recorded part of the state. So a recorded part after a history is what the
  actions of its trace made of it, one after another (`after_recorded`); the local variables are
  such a part (`after_locals`). The same holds on the way: before every step of a history, a
  recorded part is what the actions of the steps before made of it (`path_recorded`).
-/
import Parley.Proofs.Engine.Trace
import Parley.Proofs.Session.History

namespace Parley

variable {H : Type} [Host H]

namespace Engine

/-- No input changes a recorded part. -/
theorem Recorded.resume {β : Type} {p : Program} {settings : Settings} {part : State → β}
    {write : Action → β → β} (h : Recorded settings part write) (s : State) (input : Input) :
    part (resume p s input).1 = part s := by
  obtain ⟨pc, status, choices, hresume⟩ := resume_changes p s input
  rw [hresume]
  exact (h.kept { s with pc, status } s.isDay choices s.screen.command s.screen.sound).trans
    (h.moved s pc status)

/-- The state that an input leads to, if it is accepted. -/
def accepted? : State × Except InputError Unit → Option State
  | (s, .ok ()) => some s
  | (_, .error _) => none

end Engine

namespace Session

open Engine

/-! ### Calls and histories -/

/-- The state from which a call runs on, if it does. -/
def resumption? (s : Session H) : Call → Option State
  | .start =>
    some { s.state with status := match s.state.status with
      | .idle => .running
      | status => status }
  | .choose label => accepted? (resume s.program s.state (.choose label))
  | .advance => accepted? (resume s.program s.state .advance)
  | .stop | .setDay _ | .takePending | .saved => none

/-- The actions that a call executes. -/
def executed (s : Session H) (c : Call) : List Action :=
  match s.resumption? c with
  | some r => Engine.executed s.program s.settings r
  | none => []

/-- The states that the steps of a call start from. -/
def visited (s : Session H) (c : Call) : List State :=
  match s.resumption? c with
  | some r => Engine.visited s.program s.settings r
  | none => []

/-- The actions that the calls of a history execute, in order. -/
def trace (s : Session H) : List Call → List Action
  | [] => []
  | c :: calls => s.executed c ++ (s.call c).1.trace calls

/-- The states that the steps of a history start from, in order. -/
def path (s : Session H) : List Call → List State
  | [] => []
  | c :: calls => s.visited c ++ (s.call c).1.path calls

theorem trace_append (s : Session H) (calls later : List Call) :
    s.trace (calls ++ later) = s.trace calls ++ (s.after calls).trace later := by
  induction calls generalizing s with
  | nil => rfl
  | cons c calls ih =>
      rw [List.cons_append, trace, ih, trace, List.append_assoc]
      rfl

omit [Host H] in
/-- The actions of a call are those at the positions of the states that it visits. -/
theorem executed_eq (s : Session H) (c : Call) :
    s.executed c = actionsAt s.program (s.visited c) := by
  rw [executed, visited]
  cases s.resumption? c with
  | some r => exact Engine.executed_eq _ _ _
  | none => rfl

/-- The actions of a history are those at the positions of the states on its path. -/
theorem trace_eq (s : Session H) (calls : List Call) :
    s.trace calls = actionsAt s.program (s.path calls) := by
  induction calls generalizing s with
  | nil => rfl
  | cons c calls ih =>
      have hrest := ih (s.call c).1
      rw [(call_fixed s c).1] at hrest
      rw [trace, path, executed_eq, hrest, actionsAt, actionsAt, actionsAt, List.flatMap_append]

/-- Every action of a history stands in the program. -/
theorem mem_trace {s : Session H} {calls : List Call} {a : Action} (h : a ∈ s.trace calls) :
    ∃ position, s.program.fetch position = .action a := by
  rw [trace_eq] at h
  exact mem_actionsAt h

section Recorded

variable {β : Type} {part : State → β} {write : Action → β → β}

theorem submit_recorded {s : Session H} (h : Recorded s.settings part write) (input : Input) :
    part (s.submit input).1.state =
      (match accepted? (resume s.program s.state input) with
        | some r => Engine.executed s.program s.settings r
        | none => []).foldl (fun b a => write a b) (part s.state) := by
  have hresume := h.resume (p := s.program) s.state input
  unfold submit
  split
  · rename_i state e heq
    rw [heq] at hresume ⊢
    exact hresume
  · rename_i state heq
    rw [heq] at hresume ⊢
    rw [← hresume]
    exact h.run state

theorem start_recorded {s : Session H} (h : Recorded s.settings part write) :
    part s.start.1.state = (s.executed .start).foldl (fun b a => write a b) (part s.state) := by
  cases hended : s.state.status.isTerminal with
  | false =>
      have hstatus (status : Status) : part { s.state with status } = part s.state :=
        h.moved s.state s.state.pc status
      simp only [start, hended]
      rw [← hstatus]
      exact h.run _
  | true =>
      -- A session that has ended is left alone, and a run of its state would execute nothing.
      have hnone : s.executed .start = [] := by
        cases hstatus : s.state.status with
        | idle | running | awaiting wait => rw [hstatus] at hended; cases hended
        | finished reason | aborted cause =>
            simp only [executed, resumption?, Engine.executed, hstatus, restingOutcome?]
      rw [start_of_ended hended, hnone]
      rfl

/-- A recorded part after a call is what its actions made of it. -/
theorem call_recorded {s : Session H} (h : Recorded s.settings part write) (c : Call) :
    part (s.call c).1.state = (s.executed c).foldl (fun b a => write a b) (part s.state) := by
  cases c with
  | start => exact start_recorded h
  | choose label => exact submit_recorded h (.choose label)
  | advance => exact submit_recorded h .advance
  | stop => exact h.resume (p := s.program) s.state .stop
  | setDay isDay =>
      let screen := s.state.screen
      exact h.kept s.state isDay screen.choices screen.command screen.sound
  | takePending =>
      simp only [call, takePending]
      cases s.pending <;> rfl
  | saved => rfl

/-- A recorded part after a history is what the actions of its trace made of it. -/
theorem after_recorded {s : Session H} (h : Recorded s.settings part write) (calls : List Call) :
    part (s.after calls).state = (s.trace calls).foldl (fun b a => write a b) (part s.state) := by
  induction calls generalizing s with
  | nil => rfl
  | cons c calls ih =>
      -- The settings decide what an action writes; no call changes them.
      have hrest := ih (s := (s.call c).1) (by rw [(call_fixed s c).2]; exact h)
      rw [call_recorded h c] at hrest
      rw [trace, List.foldl_append]
      exact hrest

omit [Host H] in
/-- A call runs on from a state with the same recorded parts. -/
theorem resumption?_recorded {s : Session H} (h : Recorded s.settings part write) {c : Call}
    {r : State} (hr : s.resumption? c = some r) : part r = part s.state := by
  have hinput (input : Input) (hr : accepted? (resume s.program s.state input) = some r) :
      part r = part s.state := by
    have hresume := h.resume (p := s.program) s.state input
    cases hpair : resume s.program s.state input with
    | mk t reply =>
        rw [hpair] at hr hresume
        cases reply with
        | ok =>
            obtain rfl : t = r := Option.some.inj hr
            exact hresume
        | error e => cases hr
  cases c with
  | start =>
      cases hr
      exact h.moved s.state s.state.pc _
  | choose label => exact hinput (.choose label) hr
  | advance => exact hinput .advance hr
  | stop | setDay _ | takePending | saved => cases hr

/-- A recorded part before a step of a history is what the actions of the steps before made of
    it. -/
theorem path_recorded {s : Session H} (h : Recorded s.settings part write) {calls : List Call}
    {t : State} {before rest : List State} (hpath : s.path calls = before ++ t :: rest) :
    Active t ∧
      part t = (actionsAt s.program before).foldl (fun b a => write a b) (part s.state) := by
  -- On the calls: the step is one of the first call, or one of the calls that follow.
  induction calls generalizing s before with
  | nil => simp [path] at hpath
  | cons c calls ih =>
      rw [path] at hpath
      have hlater (later : List State) (hbefore : before = s.visited c ++ later)
          (hrest : (s.call c).1.path calls = later ++ t :: rest) :
          Active t ∧
            part t = (actionsAt s.program before).foldl (fun b a => write a b) (part s.state) := by
        obtain ⟨hactive, hpart⟩ := ih (s := (s.call c).1) (by rwa [(call_fixed s c).2]) hrest
        rw [(call_fixed s c).1, call_recorded h c, executed_eq, ← List.foldl_append] at hpart
        rw [hbefore, actionsAt, List.flatMap_append]
        exact ⟨hactive, hpart⟩
      rcases List.append_eq_append_iff.1 hpath with
        ⟨later, hbefore, hrest⟩ | ⟨first, hvisited, htail⟩
      · exact hlater later hbefore hrest
      · cases first with
        | nil => exact hlater [] (by simpa using hvisited.symm) (by simpa using htail.symm)
        | cons u first =>
            obtain ⟨rfl, -⟩ := List.cons.inj htail
            rw [visited] at hvisited
            cases hr : s.resumption? c with
            | none => simp [hr] at hvisited
            | some r =>
                rw [hr] at hvisited
                rw [← resumption?_recorded h hr]
                exact h.visited hvisited

end Recorded

/-- The local variables after a history are what the actions of its trace wrote. -/
theorem after_locals (s : Session H) (calls : List Call) :
    (s.after calls).state.locals = s.state.locals.writtenBy s.settings (s.trace calls) :=
  after_recorded (recorded_locals s.settings) calls

end Session

end Parley
