/-
  Parley.Proofs.Autosave.Sharing

  Several sessions of one entity on one store. Each takes the global variables as it finds them
  when it is opened, works on them alone, and saves them all. So what the entity is left with is
  what the session that saved last found and wrote itself; what another session wrote meanwhile
  is kept only if it was there to be found (`stored_global`), and is lost otherwise
  (`trust_lost`).

  `Shared` is the store with the sessions on it, each with what it has executed, and with all
  that was saved so far. A visit opens one of the sessions or asks something of it; visits come
  in any order.
-/
import Mathlib.Logic.Function.Basic
import Parley.Proofs.Autosave.Pending
import Parley.Proofs.Session.Lifecycle
import Parley.Proofs.Session.Refusal
import Parley.Proofs.Session.Trace
import Parley.Proofs.Session.WellFormed

namespace Parley

variable {H : Type} [Host H]

/-! ### Who writes a global variable -/

namespace Action

/-- Whether an action is a creation or a change of the given global variable. -/
def writesGlobal (var : String) : Action → Bool
  | .note action name _ => action == some "create_global" && name == some var
  | .modifyGlobal m => m.var == var
  | _ => false

theorem get?_writeGlobals {var : String} {a : Action} (scope : Scope)
    (h : a.writesGlobal var = false) : (a.writeGlobals scope).get? var = scope.get? var := by
  cases a with
  | note action name init =>
      simp only [writeGlobals]
      split
      · rename_i haction
        refine Scope.get?_createIn_of_ne init ?_
        rintro rfl
        simp [writesGlobal, haction] at h
      · rfl
  | modifyGlobal m =>
      refine Engine.get?_mutate_of_ne scope ?_
      rintro rfl
      simp [writesGlobal] at h
  | _ => rfl

end Action

/-- A global variable that no action of a list writes keeps its value. -/
theorem Scope.get?_writtenGloballyBy {var : String} {actions : List Action}
    (h : ∀ a ∈ actions, a.writesGlobal var = false) (scope : Scope) :
    (scope.writtenGloballyBy actions).get? var = scope.get? var := by
  refine List.foldlRecOn (motive := fun b : Scope => b.get? var = scope.get? var) actions _ rfl ?_
  intro scope' hsame a ha
  rw [Action.get?_writeGlobals scope' (h a ha)]
  exact hsame

/-! ### What a request does to a session -/

/-- The call that a request makes to the session; a flush makes none. -/
def Request.call? : Request → Option Call
  | .start => some .start
  | .choose label => some (.choose label)
  | .advance => some .advance
  | .stop => some .stop
  | .flush => none

namespace Session

open Engine

/-- The actions that a request executes. -/
def executedFor (s : Session H) (r : Request) : List Action :=
  match r.call? with
  | some c => s.executed c
  | none => []

theorem handle_eq (s : Session H) (r : Request) :
    (s.handle r).1 =
      match r.call? with
      | some c => (s.call c).1
      | none => s := by
  cases r <;> rfl

/-- The global variables after a request are what its actions made of them. -/
theorem handle_globals (s : Session H) (r : Request) :
    (s.handle r).1.state.globals = s.state.globals.writtenGloballyBy (s.executedFor r) := by
  rw [handle_eq, executedFor]
  cases r.call? with
  | some c => exact call_recorded (recorded_globals s.settings) c
  | none => rfl

/-- A run that ends the session makes its progress due. -/
theorem runFrom_ends {s : Session H} {r : State} (hr : Active r)
    (hended : (s.runFrom r).1.state.status.isTerminal = true) : (s.runFrom r).1.due = true := by
  have hreports := run_reports s.program s.settings hr
  have hcheckpoint : (Engine.run s.program s.settings r).2.Checkpoints :=
    .inr (hreports.ended hended)
  exact (runFrom_due s r).2 (.inr hcheckpoint)

/-- A request that ends the session makes its progress due. -/
theorem handle_ends {s : Session H} {r : Request} (hopen : s.state.status.isTerminal = false)
    (hended : (s.handle r).1.state.status.isTerminal = true) : (s.handle r).1.due = true := by
  -- Where the state stays as it was, the session has not ended.
  have hnot {t : Session H} (ht : t.state = s.state) (h : t.state.status.isTerminal = true) :
      t.due = true := by
    rw [ht, hopen] at h
    cases h
  cases r with
  | start =>
      simp only [handle] at hended ⊢
      cases hstatus : s.state.status with
      | idle =>
          rw [start_of_active (.inl hstatus)] at hended ⊢
          exact runFrom_ends (.inr rfl) hended
      | running =>
          rw [start_of_active (.inr hstatus)] at hended ⊢
          exact runFrom_ends (.inr rfl) hended
      | awaiting wait =>
          rw [start_of_awaiting hstatus] at hended ⊢
          exact hnot rfl hended
      | finished reason | aborted cause =>
          rw [hstatus] at hopen
          cases hopen
  | choose label =>
      simp only [handle] at hended ⊢
      have hchosen := choose_chosen s label
      generalize s.choose label = answer at hchosen hended ⊢
      cases hchosen with
      | early => exact hnot rfl hended
      | unknown => exact hnot rfl hended
      | lost => rfl
      | found => exact runFrom_ends (.inr rfl) hended
  | advance =>
      simp only [handle] at hended ⊢
      by_cases hstatus : s.state.status = .awaiting .advance
      · rw [advance_of_awaiting hstatus] at hended ⊢
        exact runFrom_ends (.inr rfl) hended
      · rw [advance_of_not_awaiting hstatus] at hended ⊢
        exact hnot rfl hended
  | stop =>
      show s.stop.due = true
      rw [stop_of_open hopen]
  | flush => exact hnot rfl hended

/-- No request changes the global variables of a session that has ended. -/
theorem handle_frozen {s : Session H} (hended : s.state.status.isTerminal = true) (r : Request) :
    (s.handle r).1.state.globals = s.state.globals := by
  rw [handle_eq]
  cases r.call? with
  | some c =>
      obtain ⟨⟨isDay, hstate⟩, -⟩ := call_frozen hended c
      show (s.call c).1.state.globals = s.state.globals
      rw [hstate]
  | none => rfl

end Session

/-! ### Sessions on one store -/

/-- A store none of whose saves fails. -/
def Store.Unfailing {σ : Type} (store : Store (StateM σ)) : Prop :=
  ∀ r w, ∃ w', (store.save r).run w = (.ok (), w')

theorem Memory.unfailing : Memory.store.Unfailing := fun _ _ => ⟨_, rfl⟩

namespace Autosave

/-- What a session is opened with, but for the store. -/
structure Opening (H : Type) where
  program : Program
  identity : Identity
  host : H
  settings : Settings
  entropy : UInt64

/-- What is done to one of the sessions. -/
inductive Visit where
  | load
  | ask (r : Request)

/-- A session that was opened: the global variables that it found, the actions that it has
    executed since, and the session as it is. -/
structure Seat (H : Type) where
  found : Scope
  executed : List Action
  session : Session H

/-- Whether the session has ended. -/
def Seat.Ended {H : Type} (s : Seat H) : Prop := s.session.state.status.isTerminal = true

/-- Sessions on one store: those that were opened, the records that were saved, each with the
    session that saved it, in order, and the world of the store. -/
structure Shared (H ι σ : Type) where
  seats : ι → Option (Seat H)
  saves : List (ι × Record)
  world : σ

namespace Shared

variable {ι σ : Type} [DecidableEq ι] (store : Store (StateM σ)) (openings : ι → Opening H)

/-- One visit. A session is opened once, and nothing is asked of it before. -/
def visit (x : Shared H ι σ) (i : ι) : Visit → Shared H ι σ
  | .load =>
    match x.seats i with
    | some _ => x
    | none =>
      let o := openings i
      let (result, w) :=
        (load store o.program o.identity o.host o.settings o.entropy).run x.world
      match result with
      | .ok s =>
        { x with
          seats := Function.update x.seats i (some ⟨s.state.globals, [], s⟩)
          world := w }
      | .error _ => { x with world := w }
  | .ask r =>
    match x.seats i with
    | none => x
    | some s =>
      let next := (request store s.session r).run x.world
      { seats := Function.update x.seats i
          (some ⟨s.found, s.executed ++ s.session.executedFor r, next.1.1⟩)
        saves := x.saves ++ (entry store s.session x.world r).written.map (i, ·)
        world := next.2 }

/-- Visits one after another. -/
def after (x : Shared H ι σ) (visits : List (ι × Visit)) : Shared H ι σ :=
  visits.foldl (fun x v => x.visit store openings v.1 v.2) x

/-- A store before any session is opened. -/
def fresh (w : σ) : Shared H ι σ := ⟨fun _ => none, [], w⟩

end Shared

/-! ### What visits keep -/

/-- What holds of every session that was opened: nothing is left to be saved, and its global
    variables are what its actions made of those it found. -/
structure Seat.Sound {H : Type} (e : Entity) (s : Seat H) : Prop where
  entity : s.session.identity.entity = e
  settled : s.session.due = false
  globals : s.session.state.globals = s.found.writtenGloballyBy s.executed

/-- The store holds the global variables that were saved last. If the session that saved them
    has ended, they are its own; and whoever has ended has saved. -/
structure Shared.Sound {H ι σ : Type} (book : σ → Entity → Book) (e : Entity)
    (x : Shared H ι σ) : Prop where
  seat {i : ι} {s : Seat H} (h : x.seats i = some s) : s.Sound e
  last {i : ι} {r : Record} (h : x.saves.getLast? = some (i, r)) :
    (book x.world e).findGlobal e = some r.global ∧
      ∃ s, x.seats i = some s ∧ (s.Ended → r.global.scope = s.session.state.globals)
  ended {i : ι} {s : Seat H} (h : x.seats i = some s) (hended : s.Ended) : ∃ r, (i, r) ∈ x.saves

namespace Shared

variable {ι σ : Type} [DecidableEq ι] {store : Store (StateM σ)} {book : σ → Entity → Book}
  {openings : ι → Opening H} {e : Entity} {x : Shared H ι σ}

omit [Host H] in
theorem update_cases {seats : ι → Option (Seat H)} {i j : ι} {s t : Seat H}
    (h : Function.update seats i (some s) j = some t) :
    (j = i ∧ t = s) ∨ (j ≠ i ∧ seats j = some t) := by
  by_cases hj : j = i
  · subst hj
    rw [Function.update_self] at h
    cases h
    exact .inl ⟨rfl, rfl⟩
  · rw [Function.update_of_ne hj] at h
    exact .inr ⟨hj, h⟩

omit [Host H] in
/-- A session is opened, or answers a request without a save: it has not ended, or it had and
    is as it was. -/
theorem Sound.silent (h : x.Sound book e) {i : ι} {s : Seat H} (hs : s.Sound e)
    (hended : s.Ended → ∃ s₀, x.seats i = some s₀ ∧ s₀.Ended ∧
      s.session.state.globals = s₀.session.state.globals) :
    Sound book e { x with seats := Function.update x.seats i (some s) } where
  seat ht := by
    obtain ⟨-, rfl⟩ | ⟨-, ht⟩ := update_cases ht
    · exact hs
    · exact h.seat ht
  last {j r} hlast := by
    obtain ⟨hstored, t, ht, hsaved⟩ := h.last hlast
    refine ⟨hstored, ?_⟩
    -- If it is the session that saved last, its global variables are still those it saved.
    by_cases hj : j = i
    · subst hj
      refine ⟨s, Function.update_self .., fun hs => ?_⟩
      obtain ⟨s₀, hs₀, hended₀, hsame⟩ := hended hs
      rw [ht] at hs₀
      cases hs₀
      rw [hsame, hsaved hended₀]
    · exact ⟨t, (Function.update_of_ne hj ..).trans ht, hsaved⟩
  ended ht htended := by
    obtain ⟨rfl, rfl⟩ | ⟨-, ht⟩ := update_cases ht
    · obtain ⟨s₀, hs₀, hended₀, -⟩ := hended htended
      exact h.ended hs₀ hended₀
    · exact h.ended ht htended

omit [Host H] in
/-- A session answers a request and saves its global variables. -/
theorem Sound.saving (h : x.Sound book e) {i : ι} {s : Seat H} (hs : s.Sound e) {r : Record} {w : σ}
    (hr : r.global.scope = s.session.state.globals)
    (hstored : (book w e).findGlobal e = some r.global) :
    Sound book e ⟨Function.update x.seats i (some s), x.saves ++ [(i, r)], w⟩ where
  seat ht := by
    obtain ⟨-, rfl⟩ | ⟨-, ht⟩ := update_cases ht
    · exact hs
    · exact h.seat ht
  last hlast := by
    rw [List.getLast?_concat] at hlast
    cases hlast
    exact ⟨hstored, s, Function.update_self .., fun _ => hr⟩
  ended {j t} ht htended := by
    obtain ⟨rfl, rfl⟩ | ⟨-, ht⟩ := update_cases ht
    · exact ⟨r, List.mem_append_right _ (List.mem_singleton_self _)⟩
    · obtain ⟨r', hr'⟩ := h.ended ht htended
      exact ⟨r', List.mem_append_left _ hr'⟩

omit [Host H] in
theorem load_run (hstore : store.Keeps book) (o : Opening H) (w : σ) :
    (load store o.program o.identity o.host o.settings o.entropy).run w =
      (.ok (.ofBook o.program o.identity o.host (book w o.identity.entity) o.settings o.entropy),
        w) := by
  simp only [load, StateT.run_bind, hstore.load]
  rfl

/-- A request to a session that was opened. -/
theorem Sound.ask (h : x.Sound book e) (hstore : store.Keeps book) (hsaves : store.Unfailing)
    {i : ι} {s : Seat H} (hseat : x.seats i = some s) (r : Request) :
    (x.visit store openings i (.ask r)).Sound book e := by
  have hs := h.seat hseat
  have hidentity : (s.session.handle r).1.identity.entity = e := by
    rw [handle_identity]
    exact hs.entity
  have hglobals : (s.session.handle r).1.state.globals =
      s.found.writtenGloballyBy (s.executed ++ s.session.executedFor r) := by
    rw [Session.handle_globals, hs.globals]
    exact List.foldl_append.symm
  -- One of three things happens; the store rules the third one out.
  have hserved := served store s.session x.world r
  simp only [visit, hseat]
  generalize entry store s.session x.world r = entry,
    (request store s.session r).run x.world = next at hserved ⊢
  obtain ⟨⟨t, answer⟩, w⟩ := next
  cases hserved with
  | unsaved hdue =>
      rw [show Entry.written ⟨s.session, r, [], _⟩ = [] from rfl, List.map_nil, List.append_nil]
      refine h.silent ⟨hidentity, hdue, hglobals⟩ fun hended => ⟨s, hseat, ?_⟩
      -- Had the request ended the session, its progress would be due.
      cases hopen : s.session.state.status.isTerminal with
      | true => exact ⟨hopen, Session.handle_frozen hopen r⟩
      | false =>
          rw [Session.handle_ends hopen hended] at hdue
          cases hdue
  | saved hdue hsave =>
      refine h.saving ⟨hidentity, rfl, hglobals⟩ rfl ?_
      have hstored := hstore.saved hsave
      have hentity : (s.session.handle r).1.progress.global.entity = e := hidentity
      rw [hentity] at hstored
      rw [hstored, ← hentity]
      exact Book.findGlobal_upsert _ _
  | failed hdue hsave =>
      obtain ⟨w', hok⟩ := hsaves (s.session.handle r).1.progress x.world
      rw [hok] at hsave
      cases hsave

theorem Sound.visit (h : x.Sound book e) (hstore : store.Keeps book) (hsaves : store.Unfailing)
    (hentity : ∀ i, (openings i).identity.entity = e) (i : ι) (v : Visit) :
    (x.visit store openings i v).Sound book e := by
  cases hseat : x.seats i with
  | none =>
      cases v with
      | load =>
          simp only [Shared.visit, hseat, load_run hstore]
          refine h.silent ⟨hentity i, rfl, rfl⟩ ?_
          -- A session that was just opened has not ended.
          intro hended
          cases hended
      | ask r =>
          simp only [Shared.visit, hseat]
          exact h
  | some s =>
      cases v with
      | load =>
          simp only [Shared.visit, hseat]
          exact h
      | ask r => exact h.ask hstore hsaves hseat r

omit [DecidableEq ι] [Host H] in
theorem sound_fresh (w : σ) : (fresh w : Shared H ι σ).Sound book e where
  seat h := by cases h
  last h := by cases h
  ended h := by cases h

theorem Sound.after (h : x.Sound book e) (hstore : store.Keeps book) (hsaves : store.Unfailing)
    (hentity : ∀ i, (openings i).identity.entity = e) (visits : List (ι × Visit)) :
    (x.after store openings visits).Sound book e := by
  induction visits generalizing x with
  | nil => exact h
  | cons v visits ih => exact ih (h.visit hstore hsaves hentity v.1 v.2)

/-- Sessions of one entity, opened and asked in any order, on a store none of whose saves fails.
    One of them writes a global variable, and no other does. Once all have ended, the store
    holds what was saved last:

      * if by another session, then the variable is as that session found it;
      * so it has the value of the session that writes it if and only if that session saved last
        or the last one found this value. -/
theorem stored_global (hstore : store.Keeps book) (hsaves : store.Unfailing)
    (hentity : ∀ i, (openings i).identity.entity = e) (w : σ) (visits : List (ι × Visit))
    {writer : ι} {var : String} {s : Seat H}
    (hwriter : ((fresh w).after store openings visits).seats writer = some s) (hended : s.Ended)
    (hothers : ∀ i t, ((fresh w).after store openings visits).seats i = some t → i ≠ writer →
      t.Ended ∧ ∀ a ∈ t.executed, a.writesGlobal var = false) :
    let x := (fresh w).after store openings visits
    ∃ last t r, x.saves.getLast? = some (last, r) ∧ x.seats last = some t ∧
      (book x.world e).findGlobal e = some r.global ∧
      (last ≠ writer → r.global.scope.get? var = t.found.get? var) ∧
      (r.global.scope.get? var = s.session.state.globals.get? var ↔
        last = writer ∨ t.found.get? var = s.session.state.globals.get? var) := by
  intro x
  have hsound : x.Sound book e := (sound_fresh w).after hstore hsaves hentity visits
  -- The writer has ended and so has saved; hence there is a last save.
  obtain ⟨saved, hmem⟩ := hsound.ended hwriter hended
  obtain ⟨⟨last, r⟩, hlast⟩ : ∃ l, x.saves.getLast? = some l := by
    cases hnone : x.saves.getLast? with
    | none =>
        rw [List.getLast?_eq_none_iff.1 hnone] at hmem
        cases hmem
    | some l => exact ⟨l, rfl⟩
  obtain ⟨hstored, t, ht, hscope⟩ := hsound.last hlast
  refine ⟨last, t, r, hlast, ht, hstored, ?_⟩
  -- Another session than the writer has saved what it found, with its own writes to other names.
  have hother (hne : last ≠ writer) : r.global.scope.get? var = t.found.get? var := by
    obtain ⟨htended, hwrites⟩ := hothers last t ht hne
    rw [hscope htended, (hsound.seat ht).globals]
    exact Scope.get?_writtenGloballyBy hwrites t.found
  refine ⟨hother, ?_⟩
  by_cases heq : last = writer
  · subst heq
    rw [hwriter] at ht
    cases ht
    rw [hscope hended]
    exact iff_of_true rfl (.inl rfl)
  · rw [hother heq]
    exact ⟨.inr, fun h => h.resolve_left heq⟩

end Shared

/-! ### Two players at once -/

/-- A program in which one answer sets a global variable and the other does not. -/
def trustProgram : Program := .ofActions
  [.choice [⟨"trust", "Trust her"⟩, ⟨"leave", "Leave"⟩], .label "trust",
    .modifyGlobal ⟨"trust", .set, .text "high"⟩, .label "leave", .finish]

/-- Two players of one entity. -/
def twoPlayers (first : Bool) : Opening SilentHost where
  program := trustProgram
  identity := ⟨⟨"villager", "Mira"⟩, if first then "player-1" else "player-2", true⟩
  host := .silent
  settings := {}
  entropy := 0

/-- One player after the other: the second session finds what the first one wrote. -/
theorem trust_kept :
    let mira : Entity := ⟨"villager", "Mira"⟩
    let x := (Shared.fresh {}).after Memory.store twoPlayers
      [(true, .load), (true, .ask .start), (true, .ask (.choose "trust")),
        (false, .load), (false, .ask .start), (false, .ask (.choose "leave"))]
    Memory.store.Keeps Memory.load ∧ Memory.store.Unfailing ∧
    (∃ s, x.seats true = some s ∧ s.Ended ∧
      s.session.state.globals.get? "trust" = some (.text "high")) ∧
    (∃ t, x.seats false = some t ∧ t.Ended ∧ ∀ a ∈ t.executed, a.writesGlobal "trust" = false) ∧
    ∃ g, (x.world.load mira).findGlobal mira = some g ∧
      g.scope.get? "trust" = some (.text "high") := by
  intro mira x
  obtain ⟨s, hs, hsended, hvalue⟩ : ∃ s, x.seats true = some s ∧ s.Ended ∧
      s.session.state.globals.get? "trust" = some (.text "high") := ⟨_, rfl, rfl, rfl⟩
  obtain ⟨t, ht, htended, hwrites, hfound⟩ : ∃ t, x.seats false = some t ∧ t.Ended ∧
      (∀ a ∈ t.executed, a.writesGlobal "trust" = false) ∧
      t.found.get? "trust" = some (.text "high") := ⟨_, rfl, rfl, by decide, rfl⟩
  have hentity (i : Bool) : (twoPlayers i).identity.entity = mira := rfl
  have hothers : ∀ i u, x.seats i = some u → i ≠ true →
      u.Ended ∧ ∀ a ∈ u.executed, a.writesGlobal "trust" = false := by
    intro i u hu hi
    obtain rfl : i = false := Bool.eq_false_iff.2 hi
    rw [ht] at hu
    cases hu
    exact ⟨htended, hwrites⟩
  obtain ⟨last, u, r, -, hu, hstored, -, hkept⟩ :=
    Shared.stored_global Memory.keeps Memory.unfailing hentity {} _ hs hsended hothers
  refine ⟨Memory.keeps, Memory.unfailing, ⟨s, hs, hsended, hvalue⟩, ⟨t, ht, htended, hwrites⟩,
    r.global, hstored, ?_⟩
  -- Whichever session saved last, it had the value.
  rw [← hvalue]
  refine hkept.2 ?_
  cases last with
  | true => exact .inl rfl
  | false =>
      have hsame : x.seats false = some u := hu
      rw [ht] at hsame
      cases hsame
      exact .inr (hfound.trans hvalue.symm)

/-- The first player's session sets the variable, ends and is saved, while that of the second
    player is open. That one does not write it, and its save takes it away. -/
theorem trust_lost :
    let mira : Entity := ⟨"villager", "Mira"⟩
    let x := (Shared.fresh {}).after Memory.store twoPlayers
      [(true, .load), (false, .load), (true, .ask .start), (true, .ask (.choose "trust")),
        (false, .ask .start), (false, .ask (.choose "leave"))]
    (∃ s, x.seats true = some s ∧ s.Ended ∧
      s.session.state.globals.get? "trust" = some (.text "high")) ∧
    (∃ t, x.seats false = some t ∧ t.Ended ∧ ∀ a ∈ t.executed, a.writesGlobal "trust" = false) ∧
    ∃ g, (x.world.load mira).findGlobal mira = some g ∧ g.scope.get? "trust" = none := by
  intro mira x
  exact ⟨⟨_, rfl, rfl, rfl⟩, ⟨_, rfl, rfl, by decide⟩, ⟨_, rfl, rfl⟩⟩

end Autosave

end Parley
