/-
  Parley.Proofs.Autosave.Requests

  Requests to a session that saves itself. `request` is any of them; `handle` is what the
  session itself does with it before anything is saved. A request is handled, and then the
  progress is flushed (`request_run`), so one of three things happens (`Served`): nothing was
  due and nothing is saved; the one save succeeds, and nothing is due any more; or it fails, and
  the progress stays due.

  `serve` takes requests one after another and keeps an entry for each. The saves that a request
  attempts are seen by a store that writes them down (`Store.observed`).
-/
import Parley.Autosave
import Parley.Proofs.Save.Store

namespace Parley

variable {H : Type} [Host H]

/-- What a caller can ask of a session that saves itself. -/
inductive Request where
  | start
  | choose (label : String)
  | advance
  | stop
  | flush
deriving DecidableEq, Repr

/-- What the session itself does with a request, and its result if it has one. -/
def Session.handle (s : Session H) : Request → Session H × Option (Except InputError Output)
  | .start => (s.start.1, some s.start.2)
  | .choose label => ((s.choose label).1, some (s.choose label).2)
  | .advance => (s.advance.1, some s.advance.2)
  | .stop => (s.stop, none)
  | .flush => (s, none)

/-- What a request returns. -/
inductive Answer where
  | turn (result : Except TurnError Turn)
  | saved (result : Except StoreError Unit)

namespace Answer

/-- The answer to a request with the given result, after the given failure to save it. -/
def ofResult : Option (Except InputError Output) → Option StoreError → Answer
  | some (.ok output), failure => .turn (.ok ⟨output, failure⟩)
  | some (.error input), failure => .turn (.error ⟨input, failure⟩)
  | none, none => .saved (.ok ())
  | none, some failure => .saved (.error failure)

/-- What the answer says about the session. -/
def result? : Answer → Option (Except InputError Output)
  | .turn (.ok t) => some (.ok t.output)
  | .turn (.error e) => some (.error e.input)
  | .saved _ => none

/-- What the answer says about the save. -/
def failure? : Answer → Option StoreError
  | .turn (.ok t) => t.saveError
  | .turn (.error e) => e.saveError
  | .saved (.ok ()) => none
  | .saved (.error e) => some e

@[simp] theorem result?_ofResult (result : Option (Except InputError Output))
    (failure : Option StoreError) : (ofResult result failure).result? = result := by
  rcases result with _ | _ | _ <;> cases failure <;> rfl

@[simp] theorem failure?_ofResult (result : Option (Except InputError Output))
    (failure : Option StoreError) : (ofResult result failure).failure? = failure := by
  rcases result with _ | _ | _ <;> cases failure <;> rfl

end Answer

/-- A save that was attempted. -/
structure Attempt where
  record : Record
  result : Except StoreError Unit

/-- Whether the save succeeded. -/
def Attempt.succeeded (a : Attempt) : Bool :=
  match a.result with
  | .ok () => true
  | .error _ => false

/-- The same store, with its saves written down in order. -/
def Store.observed {σ : Type} (store : Store (StateM σ)) : Store (StateM (List Attempt × σ)) where
  load e := fun (log, w) =>
    let (result, w') := (store.load e).run w
    (result, (log, w'))
  save r := fun (log, w) =>
    let (result, w') := (store.save r).run w
    (result, (log ++ [⟨r, result⟩], w'))

/-- A request that was served, by which session, and what came of it. -/
structure Entry (H : Type) where
  before : Session H
  request : Request
  attempts : List Attempt
  answer : Answer

namespace Entry

/-- The session once it has processed the request, before anything is saved. -/
def handled (e : Entry H) : Session H := (e.before.handle e.request).1

/-- Whether progress was saved. -/
def saved (e : Entry H) : Bool := e.attempts.any Attempt.succeeded

/-- The records that were saved. -/
def written (e : Entry H) : List Record := (e.attempts.filter Attempt.succeeded).map Attempt.record

/-- What holds of a request, whatever came of it: it attempted to save the progress once if that
    was due, and the answer is the session's own, with the failure of the attempt if it failed. -/
structure Honest (e : Entry H) : Prop where
  attempted : e.attempts.map Attempt.record = e.handled.pending.toList
  answered : e.answer.result? = (e.before.handle e.request).2
  reported : ∀ failure,
    e.answer.failure? = some failure ↔ ∃ a ∈ e.attempts, a.result = .error failure

end Entry

namespace Autosave

/-- One request. -/
def request {m : Type → Type} [Monad m] (store : Store m) (s : Session H) :
    Request → m (Session H × Answer)
  | .start => do
    let (s, result) ← start store s
    return (s, .turn result)
  | .choose label => do
    let (s, result) ← choose store s label
    return (s, .turn result)
  | .advance => do
    let (s, result) ← advance store s
    return (s, .turn result)
  | .stop => do
    let (s, result) ← stop store s
    return (s, .saved result)
  | .flush => do
    let (s, result) ← flush store s
    return (s, .saved result)

variable {σ : Type} (store : Store (StateM σ))

/-- The entry of a request. -/
def entry (s : Session H) (w : σ) (r : Request) : Entry H where
  before := s
  request := r
  attempts := ((request store.observed s r).run ([], w)).2.1
  answer := ((request store s r).run w).1.2

/-- Serves requests one after another: their entries, and the session and the world after
    them. -/
def serve : List Request → Session H → σ → List (Entry H) × Session H × σ
  | [], s, w => ([], s, w)
  | r :: rs, s, w =>
    let next := (request store s r).run w
    let rest := serve rs next.1.1 next.2
    (entry store s w r :: rest.1, rest.2)

/-! ### One request -/

/-- The failure that a save reports. -/
def failureOf : Except StoreError Unit → Option StoreError
  | .ok () => none
  | .error e => some e

variable {store}

section Flushing

omit [Host H]

theorem flush_of_not_due {s : Session H} (h : s.due = false) (w : σ) :
    (flush store s).run w = ((s, .ok ()), w) := by
  rw [flush, Session.pending, h]
  rfl

theorem flush_of_saved {s : Session H} {w w' : σ} (h : s.due = true)
    (hsave : (store.save s.progress).run w = (.ok (), w')) :
    (flush store s).run w = ((s.saved, .ok ()), w') := by
  rw [flush, Session.pending, h]
  simp only [if_true, StateT.run_bind, hsave]
  rfl

theorem flush_of_failed {s : Session H} {w w' : σ} {e : StoreError} (h : s.due = true)
    (hsave : (store.save s.progress).run w = (.error e, w')) :
    (flush store s).run w = ((s, .error e), w') := by
  rw [flush, Session.pending, h]
  simp only [if_true, StateT.run_bind, hsave]
  rfl

/-- Saving after an input: the result of the input, with what came of the save. -/
theorem after_run {s t : Session H} {result : Except InputError Output} {w w' : σ}
    {saved : Except StoreError Unit} (h : (flush store s).run w = ((t, saved), w')) :
    (do
        let (s, result) ← after store (s, result)
        return (s, Answer.turn result) : StateM σ (Session H × Answer)).run w =
      ((t, .ofResult (some result) (failureOf saved)), w') := by
  simp only [after, StateT.run_bind, h]
  cases result <;> cases saved <;> rfl

end Flushing

/-- A request is handled by the session, and then the progress is flushed. -/
theorem request_run {s t : Session H} {r : Request} {w w' : σ} {saved : Except StoreError Unit}
    (h : (flush store (s.handle r).1).run w = ((t, saved), w')) :
    (request store s r).run w =
      ((t, .ofResult (s.handle r).2 (failureOf saved)), w') := by
  cases r with
  | start => exact after_run h
  | choose label => exact after_run h
  | advance => exact after_run h
  | stop =>
      have hstop : (stop store s).run w = ((t, saved), w') := h
      simp only [request, StateT.run_bind, hstop]
      cases saved <;> rfl
  | flush =>
      have hflush : (flush store s).run w = ((t, saved), w') := h
      simp only [request, StateT.run_bind, hflush]
      cases saved <;> rfl

/-- What serving a request can come to: the entry, the session and the world after it. -/
inductive Served (store : Store (StateM σ)) (s : Session H) (w : σ) (r : Request) :
    Entry H → Session H → σ → Prop where
  | unsaved (hdue : (s.handle r).1.due = false) :
      Served store s w r ⟨s, r, [], .ofResult (s.handle r).2 none⟩ (s.handle r).1 w
  | saved {w' : σ} (hdue : (s.handle r).1.due = true)
      (hsave : (store.save (s.handle r).1.progress).run w = (.ok (), w')) :
      Served store s w r
        ⟨s, r, [⟨(s.handle r).1.progress, .ok ()⟩], .ofResult (s.handle r).2 none⟩
        (s.handle r).1.saved w'
  | failed {w' : σ} {e : StoreError} (hdue : (s.handle r).1.due = true)
      (hsave : (store.save (s.handle r).1.progress).run w = (.error e, w')) :
      Served store s w r
        ⟨s, r, [⟨(s.handle r).1.progress, .error e⟩], .ofResult (s.handle r).2 (some e)⟩
        (s.handle r).1 w'

/-- Observing a save does not change what it does. -/
theorem observed_save {w w' : σ} {r : Record} {result : Except StoreError Unit}
    (h : (store.save r).run w = (result, w')) (log : List Attempt) :
    (store.observed.save r).run (log, w) = (result, (log ++ [⟨r, result⟩], w')) := by
  show (((store.save r).run w).1,
    (log ++ [⟨r, ((store.save r).run w).1⟩], ((store.save r).run w).2)) = _
  rw [h]

/-- Serving a request comes to one of the cases. -/
theorem served (store : Store (StateM σ)) (s : Session H) (w : σ) (r : Request) :
    Served store s w r (entry store s w r) ((request store s r).run w).1.1
      ((request store s r).run w).2 := by
  -- Each case is run twice: on the store itself for what happens, observed for the attempts.
  cases hdue : (s.handle r).1.due with
  | false =>
      rw [entry, request_run (flush_of_not_due hdue w),
        request_run (flush_of_not_due hdue ([], w))]
      exact .unsaved hdue
  | true =>
      cases hsave : (store.save (s.handle r).1.progress).run w with
      | mk result w' =>
          have hobserved := observed_save hsave []
          cases result with
          | ok done =>
              rw [entry, request_run (flush_of_saved hdue hsave),
                request_run (flush_of_saved hdue hobserved)]
              exact .saved hdue hsave
          | error e =>
              rw [entry, request_run (flush_of_failed hdue hsave),
                request_run (flush_of_failed hdue hobserved)]
              exact .failed hdue hsave

/-! ### What holds of every request -/

variable {book : σ → Entity → Book}

theorem Served.before {s s' : Session H} {w w' : σ} {r : Request} {e : Entry H}
    (h : Served store s w r e s' w') : e.before = s := by
  cases h <;> rfl

theorem Served.honest {s s' : Session H} {w w' : σ} {r : Request} {e : Entry H}
    (h : Served store s w r e s' w') : e.Honest := by
  cases h with
  | unsaved hdue =>
      refine ⟨?_, by simp, by simp⟩
      show [] = (s.handle r).1.pending.toList
      rw [Session.pending, hdue]
      rfl
  | saved hdue hsave =>
      refine ⟨?_, by simp, by simp⟩
      show [(s.handle r).1.progress] = (s.handle r).1.pending.toList
      rw [Session.pending, hdue]
      rfl
  | failed hdue hsave =>
      refine ⟨?_, by simp, by simp⟩
      show [(s.handle r).1.progress] = (s.handle r).1.pending.toList
      rw [Session.pending, hdue]
      rfl

/-- Progress is due after a request unless it was not due, or was saved. -/
theorem Served.due {s s' : Session H} {w w' : σ} {r : Request} {e : Entry H}
    (h : Served store s w r e s' w') :
    s'.due = true ↔ e.handled.due = true ∧ e.saved = false := by
  cases h with
  | unsaved hdue => simp [Entry.handled, Entry.saved]
  | saved hdue hsave => simp [Session.saved, Entry.saved, Attempt.succeeded]
  | failed hdue hsave => simp [Entry.handled, Entry.saved, Attempt.succeeded]

theorem handle_identity (s : Session H) (r : Request) : (s.handle r).1.identity = s.identity := by
  have hsubmit : ∀ input, (s.submit input).1.identity = s.identity := by
    intro input
    unfold Session.submit
    split <;> rfl
  cases r with
  | start =>
      simp only [Session.handle, Session.start]
      split <;> rfl
  | choose label => exact hsubmit (.choose label)
  | advance => exact hsubmit .advance
  | stop => rfl
  | flush => rfl

theorem Served.identity {s s' : Session H} {w w' : σ} {r : Request} {e : Entry H}
    (h : Served store s w r e s' w') : s'.identity = s.identity := by
  cases h <;> exact handle_identity s r

/-- What is written is under the keys of the session. -/
theorem Served.keys {s s' : Session H} {w w' : σ} {r : Request} {e : Entry H}
    (h : Served store s w r e s' w') {record : Record} (hrecord : record ∈ e.written) :
    record.global.entity = s.identity.entity ∧ record.own.isOf s.identity = true := by
  have hprogress : record = (s.handle r).1.progress := by
    cases h with
    | unsaved hdue => cases hrecord
    | saved hdue hsave => exact List.mem_singleton.1 hrecord
    | failed hdue hsave => cases hrecord
  subst hprogress
  rw [← handle_identity s r]
  exact ⟨rfl, by simp [LocalRecord.isOf, Session.progress, State.save]⟩

/-- What is written is entered into the book, and nothing else. -/
theorem Served.kept {s s' : Session H} {w w' : σ} {r : Request} {e : Entry H}
    (h : Served store s w r e s' w') (hstore : store.Keeps book) :
    book w' s.identity.entity = e.written.foldl Book.upsert (book w s.identity.entity) := by
  cases h with
  | unsaved hdue => rfl
  | saved hdue hsave =>
      have hentity : (s.handle r).1.progress.global.entity = s.identity.entity := by
        rw [← handle_identity s r]
        rfl
      have hsaved := hstore.saved hsave
      rw [hentity] at hsaved
      exact hsaved
  | failed hdue hsave => rw [hstore.failed hsave]; rfl

end Autosave

end Parley
