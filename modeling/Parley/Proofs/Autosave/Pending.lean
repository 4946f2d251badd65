/-
  Parley.Proofs.Autosave.Pending

  Progress stays due until it is saved. Of every history of requests, whichever saves fail on the
  way, `pending_served` says when progress is pending, which saves were attempted, what the
  callers were told, and what the store holds for the session.

  Progress is pending if a checkpoint was reached and nothing was saved since, and in one more
  case: a choice, or going on, that comes after the session has ended is refused but makes the
  progress due once more (`Entry.Late`), although nothing happened that was not saved.
  `pending_after_end` is such a history. Stopping an ended session does not do that.
-/
import Parley.Proofs.Autosave.Requests
import Parley.Proofs.Session.History

namespace Parley

variable {H : Type} [Host H]

/-- Whether a run reached a checkpoint: it noted one, or it ended the session. -/
def Output.Checkpoints (o : Output) : Prop :=
  (∃ label, .checkpoint label ∈ o.effects) ∨ o.outcome = .finished ∨
    ∃ cause, o.outcome = .aborted cause

theorem Output.reachedCheckpoint_iff {o : Output} : o.reachedCheckpoint = true ↔ o.Checkpoints := by
  have heffect : ∀ e : Effect, e.isCheckpoint = true ↔ ∃ label, e = .checkpoint label := by
    intro e
    cases e <;> simp [Effect.isCheckpoint]
  have heffects : o.effects.any Effect.isCheckpoint = true ↔
      ∃ label, .checkpoint label ∈ o.effects := by
    rw [List.any_eq_true]
    constructor
    · rintro ⟨e, he, hcheckpoint⟩
      obtain ⟨label, rfl⟩ := (heffect e).1 hcheckpoint
      exact ⟨label, he⟩
    · rintro ⟨label, hlabel⟩
      exact ⟨_, hlabel, rfl⟩
  rw [reachedCheckpoint, Bool.or_eq_true, heffects, Checkpoints]
  cases o.outcome <;> simp

/-! ### When progress becomes due -/

namespace Session

open Engine

/-- Whether an input brought a checkpoint about: its run reached one, or it was a choice whose
    label did not resolve. -/
def Reaches : Except InputError Output → Prop
  | .ok o => o.Checkpoints
  | .error (.aborted (.unresolvedLabel ..)) => True
  | .error _ => False

omit [Host H] in
theorem pending_isSome {s : Session H} : s.pending.isSome = true ↔ s.due = true := by
  rw [pending]
  cases s.due <;> simp

theorem runFrom_due (s : Session H) (r : State) :
    (s.runFrom r).1.due = true ↔ s.due = true ∨ Reaches (s.runFrom r).2 := by
  simp [runFrom, run, Reaches, Output.reachedCheckpoint_iff]

theorem start_due (s : Session H) : s.start.1.due = true ↔ s.due = true ∨ Reaches s.start.2 := by
  cases hstatus : s.state.status with
  | idle =>
      rw [start_of_active (.inl hstatus)]
      exact runFrom_due s _
  | running =>
      rw [start_of_active (.inr hstatus)]
      exact runFrom_due s _
  | awaiting wait =>
      rw [start_of_awaiting hstatus]
      simp [Reaches, Output.Checkpoints]
  | finished reason =>
      rw [start_of_ended (by rw [hstatus]; rfl)]
      simp [Reaches]
  | aborted cause =>
      rw [start_of_ended (by rw [hstatus]; rfl)]
      simp [Reaches]

theorem choose_due (s : Session H) (label : String) :
    (s.choose label).1.due = true ↔
      s.due = true ∨ Reaches (s.choose label).2 ∨ s.state.status.isTerminal = true := by
  by_cases hstatus : s.state.status = .awaiting .choice
  · have hopen : s.state.status.isTerminal = false := by rw [hstatus]; rfl
    by_cases hlabel : ∃ o ∈ s.state.screen.choices, o.label = label
    · cases htarget : s.program.target label with
      | none =>
          rw [choose_of_lost hstatus hlabel htarget]
          simp [Reaches]
      | some target =>
          rw [choose_of_found hstatus hlabel htarget, runFrom_due]
          simp [hopen]
    · rw [choose_of_unknown hstatus hlabel]
      simp [Reaches, hopen]
  · rw [choose_of_not_awaiting label hstatus]
    simp [Reaches]

theorem advance_due (s : Session H) :
    s.advance.1.due = true ↔
      s.due = true ∨ Reaches s.advance.2 ∨ s.state.status.isTerminal = true := by
  by_cases hstatus : s.state.status = .awaiting .advance
  · have hopen : s.state.status.isTerminal = false := by rw [hstatus]; rfl
    rw [advance_of_awaiting hstatus, runFrom_due]
    simp [hopen]
  · rw [advance_of_not_awaiting hstatus]
    simp [Reaches]

end Session

namespace Entry

/-- Whether the request brought a checkpoint about: as an input, or by stopping a session that
    had not ended. -/
def Reaches (e : Entry H) : Prop :=
  (∃ result, e.answer.result? = some result ∧ Session.Reaches result) ∨
    e.request = .stop ∧ e.before.state.status.isTerminal = false

/-- Whether the request was a choice, or going on, after the session had ended. -/
def Late (e : Entry H) : Prop :=
  ((∃ label, e.request = .choose label) ∨ e.request = .advance) ∧
    e.before.state.status.isTerminal = true

/-- Progress is due after a request if it was before, or the request made it so. -/
theorem handled_due {e : Entry H} (h : e.Honest) :
    e.handled.due = true ↔ e.before.due = true ∨ e.Reaches ∨ e.Late := by
  rw [Reaches, Late, h.answered]
  obtain ⟨s, r, attempts, answer⟩ := e
  cases r with
  | start =>
      show s.start.1.due = true ↔ _
      rw [Session.start_due]
      simp [Session.handle]
  | choose label =>
      show (s.choose label).1.due = true ↔ _
      rw [Session.choose_due]
      simp [Session.handle]
  | advance =>
      show s.advance.1.due = true ↔ _
      rw [Session.advance_due]
      simp [Session.handle]
  | stop =>
      show s.stop.due = true ↔ _
      simp [Session.handle, Session.stop]
  | flush =>
      show s.due = true ↔ _
      simp [Session.handle]

end Entry

namespace Autosave

/-! ### What is left unsaved -/

/-- Whether a request that `mark` holds of is among the entries, and since its own handling
    nothing was saved. -/
def Unsaved (mark : Entry H → Prop) (es : List (Entry H)) : Prop :=
  ∃ before e after, es = before ++ e :: after ∧ mark e ∧ ∀ f ∈ e :: after, f.saved = false

section Left

omit [Host H]

theorem unsaved_nil (mark : Entry H → Prop) : ¬ Unsaved mark [] := by
  rintro ⟨before, e, after, hes, -⟩
  simp at hes

theorem unsaved_cons {mark : Entry H → Prop} {e : Entry H} {es : List (Entry H)} :
    Unsaved mark (e :: es) ↔
      (mark e ∧ ∀ f ∈ e :: es, f.saved = false) ∨ Unsaved mark es := by
  constructor
  · rintro ⟨before, e', after, hes, hmark, hsaved⟩
    cases before with
    | nil =>
        obtain ⟨rfl, rfl⟩ := List.cons.inj hes
        exact .inl ⟨hmark, hsaved⟩
    | cons e₀ before =>
        obtain ⟨rfl, rfl⟩ := List.cons.inj hes
        exact .inr ⟨before, e', after, rfl, hmark, hsaved⟩
  · rintro (⟨hmark, hsaved⟩ | ⟨before, e', after, rfl, hmark, hsaved⟩)
    · exact ⟨[], e, es, rfl, hmark, hsaved⟩
    · exact ⟨e :: before, e', after, rfl, hmark, hsaved⟩

theorem unsaved_or {mark mark' : Entry H → Prop} {es : List (Entry H)} :
    Unsaved (fun e => mark e ∨ mark' e) es ↔ Unsaved mark es ∨ Unsaved mark' es := by
  constructor
  · rintro ⟨before, e, after, hes, hmark | hmark, hsaved⟩
    · exact .inl ⟨before, e, after, hes, hmark, hsaved⟩
    · exact .inr ⟨before, e, after, hes, hmark, hsaved⟩
  · rintro (⟨before, e, after, hes, hmark, hsaved⟩ | ⟨before, e, after, hes, hmark, hsaved⟩)
    · exact ⟨before, e, after, hes, .inl hmark, hsaved⟩
    · exact ⟨before, e, after, hes, .inr hmark, hsaved⟩

/-- Whether progress is left to be saved, of a session whose progress was due or not before the
    entries. -/
def Left (due : Bool) (es : List (Entry H)) : Prop :=
  (due = true ∧ ∀ e ∈ es, e.saved = false) ∨ Unsaved (fun e => e.Reaches ∨ e.Late) es

theorem left_nil {due : Bool} : Left due ([] : List (Entry H)) ↔ due = true := by
  simp [Left, unsaved_nil]

theorem left_of_not_due {es : List (Entry H)} :
    Left false es ↔ Unsaved Entry.Reaches es ∨ Unsaved Entry.Late es := by
  rw [← unsaved_or]
  simp [Left]

end Left

variable {σ : Type} {store : Store (StateM σ)} {book : σ → Entity → Book}

/-- One request earlier. -/
theorem left_cons {s s' : Session H} {w w' : σ} {r : Request} {e : Entry H}
    (h : Served store s w r e s' w') (es : List (Entry H)) :
    Left s.due (e :: es) ↔ Left s'.due es := by
  have hdue : s'.due = true ↔ (s.due = true ∨ e.Reaches ∨ e.Late) ∧ e.saved = false := by
    rw [h.due, e.handled_due h.honest, h.before]
  -- What was due before, or became due now, is left exactly if neither this request nor a
  -- later one saved it.
  rw [Left, Left, hdue, unsaved_cons]
  simp only [List.forall_mem_cons]
  constructor
  · rintro (⟨hs, he, hes⟩ | ⟨hmark, he, hes⟩ | hes)
    · exact .inl ⟨⟨.inl hs, he⟩, hes⟩
    · exact .inl ⟨⟨.inr hmark, he⟩, hes⟩
    · exact .inr hes
  · rintro (⟨⟨hs | hmark, he⟩, hes⟩ | hes)
    · exact .inl ⟨hs, he, hes⟩
    · exact .inr (.inl ⟨hmark, he, hes⟩)
    · exact .inr (.inr hes)

/-! ### Histories of requests -/

theorem serve_due (rs : List Request) (s : Session H) (w : σ) :
    (serve store rs s w).2.1.due = true ↔ Left s.due (serve store rs s w).1 := by
  induction rs generalizing s w with
  | nil => exact left_nil.symm
  | cons r rs ih => exact (ih _ _).trans (left_cons (served store s w r) _).symm

/-- The session that serves a request within a history. -/
theorem serve_before {rs : List Request} {s : Session H} {w : σ} {before after : List (Entry H)}
    {e : Entry H} (h : (serve store rs s w).1 = before ++ e :: after) :
    e.Honest ∧ (e.before.due = true ↔ Left s.due before) := by
  induction rs generalizing s w before with
  | nil => simp [serve] at h
  | cons r rs ih =>
      have hserved := served store s w r
      cases before with
      | nil =>
          obtain ⟨rfl, -⟩ := List.cons.inj h
          exact ⟨hserved.honest, left_nil.symm⟩
      | cons e₀ before =>
          obtain ⟨rfl, hrest⟩ := List.cons.inj h
          obtain ⟨hhonest, hdue⟩ := ih hrest
          exact ⟨hhonest, hdue.trans (left_cons hserved before).symm⟩

/-- What was written in a history is under the keys of the session. -/
theorem serve_keys {rs : List Request} {s : Session H} {w : σ} {r : Record}
    (h : r ∈ (serve store rs s w).1.flatMap Entry.written) :
    r.global.entity = s.identity.entity ∧ r.own.isOf s.identity = true := by
  induction rs generalizing s w with
  | nil => simp [serve] at h
  | cons request rs ih =>
      have hserved := served store s w request
      simp only [serve, List.flatMap_cons, List.mem_append] at h
      rcases h with hr | hr
      · exact hserved.keys hr
      · rw [← hserved.identity]
        exact ih hr

/-- What was written in a history is what was entered into the book. -/
theorem serve_book (hstore : store.Keeps book) (rs : List Request) (s : Session H) (w : σ) :
    book (serve store rs s w).2.2 s.identity.entity =
      ((serve store rs s w).1.flatMap Entry.written).foldl Book.upsert
        (book w s.identity.entity) := by
  induction rs generalizing s w with
  | nil => rfl
  | cons r rs ih =>
      have hserved := served store s w r
      have hrest := ih ((request store s r).run w).1.1 ((request store s r).run w).2
      rw [hserved.identity, hserved.kept hstore, ← List.foldl_append] at hrest
      exact hrest

/-- The book holds what was written last. -/
theorem serve_last (hstore : store.Keeps book) {rs : List Request} {s : Session H} {w : σ}
    {r : Record} (h : ((serve store rs s w).1.flatMap Entry.written).getLast? = some r) :
    (book (serve store rs s w).2.2 s.identity.entity).findGlobal s.identity.entity =
        some r.global ∧
      (book (serve store rs s w).2.2 s.identity.entity).findLocal s.identity = some r.own := by
  -- All that was written is under the same keys, so only the last of it is found.
  obtain ⟨earlier, hwritten⟩ := List.getLast?_eq_some_iff.1 h
  obtain ⟨hentity, hown⟩ := serve_keys (List.mem_of_getLast? h)
  rw [serve_book hstore, hwritten, List.foldl_append]
  refine ⟨?_, Book.findLocal_upsert _ hown⟩
  rw [← hentity]
  exact Book.findGlobal_upsert _ r

/-- Progress is kept until it is saved. For every store that keeps books, every session and every
    list of requests to it, whichever of the saves fail:

      * progress is pending if and only if a checkpoint was reached, or an input came after the
        end, and nothing was saved since; and in the same way it is due when a request has been
        handled, before it is saved;
      * each request attempts to save the progress once if it is due then, and not at all
        otherwise, and the answer reports a failure if and only if the attempt failed;
      * the book holds the record that was saved last. -/
theorem pending_served (hstore : store.Keeps book) (program : Program) (identity : Identity)
    (host : H) (b : Book) (settings : Settings) (entropy : UInt64) (w : σ)
    (rs : List Request) :
    let (es, s, w') := serve store rs (.ofBook program identity host b settings entropy) w
    (s.pending.isSome = true ↔ Unsaved Entry.Reaches es ∨ Unsaved Entry.Late es) ∧
      (∀ before e after, es = before ++ e :: after →
        e.Honest ∧
          (e.handled.pending.isSome = true ↔
            (Unsaved Entry.Reaches before ∨ Unsaved Entry.Late before) ∨ e.Reaches ∨ e.Late)) ∧
      ∀ r, (es.flatMap Entry.written).getLast? = some r →
        (book w' identity.entity).findGlobal identity.entity = some r.global ∧
          (book w' identity.entity).findLocal identity = some r.own := by
  refine ⟨?_, ?_, ?_⟩
  · rw [Session.pending_isSome, serve_due]
    exact left_of_not_due
  · intro before e after hes
    obtain ⟨hhonest, hdue⟩ := serve_before hes
    refine ⟨hhonest, ?_⟩
    rw [Session.pending_isSome, e.handled_due hhonest, hdue]
    exact or_congr_left left_of_not_due
  · intro r hlast
    exact serve_last hstore hlast

/-- A checkpoint whose first save fails is saved by the next request, and the book holds it. -/
theorem pending_served_retry :
    let identity : Identity := ⟨⟨"villager", "Mira"⟩, "player", true⟩
    let program := Program.ofActions [.checkpoint (some "met"), .choice [⟨"met", "Again"⟩]]
    let (es, s, w) := serve Unsteady.store [.start, .choose "bye"]
      (.ofBook program identity SilentHost.silent {} {} 0) ⟨[true], {}⟩
    Unsteady.store.Keeps (fun u => u.memory.load) ∧ es.map Entry.saved = [false, true] ∧
      s.pending.isSome = false ∧ ¬ Unsaved Entry.Reaches es ∧
      (w.memory.load identity.entity).findLocal identity =
        some ⟨identity.entity, "player", 1, some "met"⟩ := by
  intro identity program
  obtain ⟨hpending, -, hlast⟩ := pending_served Unsteady.keeps program identity
    SilentHost.silent {} {} 0 ⟨[true], {}⟩ [.start, .choose "bye"]
  refine ⟨Unsteady.keeps, by decide, by decide, ?_, (hlast _ rfl).2⟩
  intro hunsaved
  exact absurd (hpending.2 (.inl hunsaved)) (by decide)

/-- A choice after the end makes progress pending that was saved already. -/
theorem pending_after_end :
    let (es, s, _) := serve Unsteady.store [.start, .choose "bye"]
      (.ofBook (Program.ofActions [.finish]) ⟨⟨"villager", "Mira"⟩, "player", true⟩
        SilentHost.silent {} {} 0) ⟨[false, true], {}⟩
    s.pending.isSome = true ∧ ¬ Unsaved Entry.Reaches es := by
  refine ⟨by decide, ?_⟩
  intro h
  -- The end was reached by the first request, and saved there.
  rcases unsaved_cons.1 h with ⟨-, hsaved⟩ | h
  · exact absurd (hsaved _ List.mem_cons_self) (by decide)
  rcases unsaved_cons.1 h with ⟨hreaches, -⟩ | h
  · rcases hreaches with ⟨result, hresult, hreaches⟩ | ⟨hstop, -⟩
    · cases hresult
      exact hreaches
    · cases hstop
  · exact unsaved_nil _ h

end Autosave

end Parley
