/-
  Parley.Proofs.Session.Lockstep

  Two sessions side by side. Where the executions of two sessions go hand in hand, and their
  hosts and what is due are the same, a call gives both callers the same reply and keeps it so
  (`call_paired`). What a call hands out of the progress is left to the caller of the lemma: it
  may depend on parts of the state that execution does not read.
-/
import Parley.Proofs.Engine.Lockstep
import Parley.Proofs.Session.Trace

namespace Parley.Session

open Engine

variable {H : Type} [Host H]

/-- Two sessions with related states, the same host and the same due progress. -/
structure Paired (R : State → State → Prop) (s t : Session H) : Prop where
  host : s.host = t.host
  due : s.due = t.due
  state : R s.state t.state

variable {met : State → Prop} {R : State → State → Prop} {s t : Session H}

theorem runFrom_paired (h : Lockstep s.program t.program s.settings t.settings met R)
    (hs : Paired R s t) {r r' : State} (hr : R r r')
    (hmet : ∀ u ∈ Engine.visited s.program s.settings r, met u) :
    (s.runFrom r).2 = (t.runFrom r').2 ∧ Paired R (s.runFrom r).1 (t.runFrom r').1 := by
  obtain ⟨houtput, hstate⟩ := h.run_abreast hr hmet
  have hhost : (s.runFrom r).1.host = (t.runFrom r').1.host := by
    simp only [runFrom, run, houtput, hs.host]
  have hdue : (s.runFrom r).1.due = (t.runFrom r').1.due := by
    simp only [runFrom, run, houtput, hs.due]
  exact ⟨congrArg Except.ok houtput, hhost, hdue, hstate⟩

theorem start_paired (h : Lockstep s.program t.program s.settings t.settings met R)
    (hs : Paired R s t) (hmet : ∀ u ∈ s.visited .start, met u) :
    s.start.2 = t.start.2 ∧ Paired R s.start.1 t.start.1 := by
  -- Starting sets the status first; that alone keeps the states related.
  have hstatus := h.status hs.state
  have hrun := h.settled hs.state (h.pc hs.state) (rfl : Status.running = .running)
  rw [visited, resumption?] at hmet
  cases hstart : s.state.status with
  | idle =>
      rw [hstart] at hmet
      rw [start_of_active (.inl hstart), start_of_active (.inl (hstatus.symm.trans hstart))]
      exact runFrom_paired h hs hrun hmet
  | running =>
      rw [hstart] at hmet
      rw [start_of_active (.inr hstart), start_of_active (.inr (hstatus.symm.trans hstart))]
      exact runFrom_paired h hs hrun hmet
  | awaiting wait =>
      rw [start_of_awaiting hstart, start_of_awaiting (hstatus.symm.trans hstart)]
      exact ⟨rfl, hs⟩
  | finished reason | aborted cause =>
      have hended : s.state.status.isTerminal = true := by rw [hstart]; rfl
      rw [start_of_ended hended, start_of_ended (by rw [← hstatus]; exact hended)]
      exact ⟨rfl, hs⟩

theorem submit_paired (h : Lockstep s.program t.program s.settings t.settings met R)
    (hs : Paired R s t) (input : Input)
    (hmet : ∀ r, accepted? (resume s.program s.state input) = some r →
      ∀ u ∈ Engine.visited s.program s.settings r, met u) :
    (s.submit input).2 = (t.submit input).2 ∧ Paired R (s.submit input).1 (t.submit input).1 := by
  obtain ⟨hresult, hstate⟩ := h.resume_abreast hs.state input
  unfold submit
  generalize resume s.program s.state input = x at hmet hresult hstate ⊢
  generalize resume t.program t.state input = y at hresult hstate ⊢
  obtain ⟨r, result⟩ := x
  obtain ⟨r', result'⟩ := y
  simp only at hresult hstate
  subst hresult
  -- Both inputs are accepted or refused together. A refusal looks at the status once more, to
  -- see whether the progress is due.
  cases result with
  | error e =>
      have hdue : (s.due || r.status.isTerminal) = (t.due || r'.status.isTerminal) := by
        rw [hs.due, h.status hstate]
      exact ⟨rfl, hs.host, hdue, hstate⟩
  | ok accepted => exact runFrom_paired h hs hstate (hmet r rfl)

/-- One call to both sessions. -/
theorem call_paired (h : Lockstep s.program t.program s.settings t.settings met R)
    (hday : ∀ {u v : State}, R u v → ∀ isDay, R { u with isDay } { v with isDay })
    (hs : Paired R s t) (c : Call) (hprogress : c = .takePending → s.progress = t.progress)
    (hmet : ∀ u ∈ s.visited c, met u) :
    (s.call c).2 = (t.call c).2 ∧ Paired R (s.call c).1 (t.call c).1 := by
  -- What an input is answered is met by the run that it starts.
  have hinput {input : Input} (hc : s.resumption? c = accepted? (resume s.program s.state input))
      (r : State) (hr : accepted? (resume s.program s.state input) = some r) :
      ∀ u ∈ Engine.visited s.program s.settings r, met u := by
    rw [visited, hc, hr] at hmet
    exact hmet
  cases c with
  | start =>
      obtain ⟨hreply, hpaired⟩ := start_paired h hs hmet
      exact ⟨congrArg Reply.ran hreply, hpaired⟩
  | choose label =>
      obtain ⟨hreply, hpaired⟩ := submit_paired h hs (.choose label) (hinput rfl)
      exact ⟨congrArg Reply.ran hreply, hpaired⟩
  | advance =>
      obtain ⟨hreply, hpaired⟩ := submit_paired h hs .advance (hinput rfl)
      exact ⟨congrArg Reply.ran hreply, hpaired⟩
  | stop =>
      have hstate := (h.resume_abreast hs.state .stop).2
      have hdue : s.stop.due = t.stop.due := by
        simp only [stop, hs.due, h.status hs.state]
      exact ⟨rfl, hs.host, hdue, hstate⟩
  | setDay isDay => exact ⟨rfl, hs.host, hs.due, hday hs.state isDay⟩
  | takePending =>
      have hpending : s.pending = t.pending := by
        rw [pending, pending, hs.due, hprogress rfl]
      simp only [call, takePending, hpending]
      cases t.pending with
      | none => exact ⟨rfl, hs⟩
      | some record => exact ⟨rfl, hs.host, rfl, hs.state⟩
  | saved => exact ⟨rfl, hs.host, rfl, hs.state⟩

end Parley.Session
