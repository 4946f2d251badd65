/-
  Parley.Proofs.Session.Savable

  Every number that a script can compute stays finite, so it stays savable. A variable is written
  by creating it, by changing it, by unlocking events and by a checkpoint. The first two write a
  literal or a sum, and a sum is only written if it is finite (`Mutation.Writes.finite`); the last
  two write no numbers. So finite scopes stay finite along the steps of a run and over inputs
  (`State.Finite`), and they are from the beginning if the save book holds finite numbers only.

  The record of such a session is written without `null` for a number, and its text reads back
  with the same names and kinds. For this the saved position has to fit a word as well, and the
  positions that a session can be at are known (`after_pc`).
-/
import Parley.Proofs.Program.Loading
import Parley.Proofs.Save.Reread
import Parley.Proofs.Session.Checkpoint
import Parley.Proofs.Session.Position

namespace Parley

variable {H : Type} [Host H]

/-! ### Writing to a scope -/

namespace Scope

variable {scope : Scope}

theorem finite_empty : Finite .empty := by
  intro e he
  cases he

theorem Finite.insert (h : scope.Finite) {v : Value} (hv : v.Finite) (name : String) :
    Finite (scope.insert name v) := by
  intro e he
  rcases Table.mem_put he with rfl | hold
  · exact hv
  · exact h e hold

theorem Finite.createIn (h : scope.Finite) {init : Value} (hinit : init.Finite)
    (var : Option String) : Finite (scope.createIn var init) := by
  cases var with
  | none => exact h
  | some name =>
      simp only [Scope.createIn, create]
      split
      · exact h
      · exact h.insert hinit name

end Scope

/-- What a change writes is the literal, a sum that was found finite, or a list. -/
theorem Mutation.Writes.finite {m : Mutation} {old : Option Value} {v : Value}
    (h : m.Writes old v) (hm : m.value.Finite) : v.Finite := by
  cases h with
  | set => exact hm
  | add _ _ _ hfinite => exact hfinite
  | appendText | appendItems => trivial

theorem Engine.mutate_finite {m : Mutation} (hm : m.value.Finite) {scope : Scope}
    (h : scope.Finite) : (mutate m scope).Finite := by
  rw [mutate]
  rcases m.apply_cases scope with ⟨v, hwrites, happly⟩ | ⟨-, e, happly⟩
  · rw [happly]
    exact h.insert (hwrites.finite hm) m.var
  · rw [happly]
    exact h

/-! ### Actions and steps -/

namespace State

/-- Every variable is finite, local or global. -/
structure Finite (s : State) : Prop where
  locals : s.locals.Finite
  globals : s.globals.Finite

end State

namespace Engine

variable {p : Program} {settings : Settings}

theorem writeLocals_finite {a : Action} (ha : a.Writable) {scope : Scope} (h : scope.Finite) :
    (a.writeLocals settings scope).Finite := by
  cases a with
  | note action var init =>
      simp only [Action.writeLocals]
      split
      · exact h.createIn ha var
      · exact h
  | modifyLocal m => exact mutate_finite ha h
  | unlock events => exact h.insert (v := .list _) trivial settings.unlockedVar
  | checkpoint target =>
      refine h.insert ?_ settings.checkpointVar
      cases target <;> trivial
  | _ => exact h

theorem writeGlobals_finite {a : Action} (ha : a.Writable) {scope : Scope} (h : scope.Finite) :
    (a.writeGlobals scope).Finite := by
  cases a with
  | note action var init =>
      simp only [Action.writeGlobals]
      split
      · exact h.createIn ha var
      · exact h
  | modifyGlobal m => exact mutate_finite ha h
  | _ => exact h

variable (hprogram : ∀ position a, p.fetch position = .action a → a.Writable)

include hprogram

/-- A step writes finite numbers only. -/
theorem step_finite {s : State} (h : s.Finite) : (step p settings s).state.Finite := by
  cases hresting : restingOutcome? s.status with
  | some outcome =>
      rw [step, hresting]
      exact h
  | none =>
      have hstep := step_cases p settings (restingOutcome?_eq_none.1 hresting)
      generalize step p settings s = t at hstep ⊢
      cases hstep with
      | ended | malformed => exact ⟨h.locals, h.globals⟩
      | next hslot | goto hslot | await hslot | finish hslot | abort hslot =>
          have ha := hprogram s.pc _ hslot
          exact ⟨writeLocals_finite ha h.locals, writeGlobals_finite ha h.globals⟩

theorem visitedWithin_finite (fuel : Nat) {s : State} (h : s.Finite) :
    ∀ t ∈ visitedWithin p settings fuel s, t.Finite := by
  -- On the fuel: the first state is given, and the others are visited from where its step leads.
  induction fuel generalizing s with
  | zero => exact List.forall_mem_nil _
  | succ fuel ih =>
      rw [visitedWithin, List.forall_mem_cons]
      refine ⟨h, ?_⟩
      split
      · exact ih (step_finite hprogram h)
      · exact List.forall_mem_nil _

/-- The states of a run are finite if its first one is. -/
theorem visited_finite {s : State} (h : s.Finite) : ∀ t ∈ visited p settings s, t.Finite := by
  have hfresh : State.Finite { s with screen := s.screen.clearOneShots } := ⟨h.locals, h.globals⟩
  rw [visited]
  cases restingOutcome? s.status with
  | some outcome => exact List.forall_mem_nil _
  | none => exact visitedWithin_finite hprogram settings.maxSteps hfresh

theorem run_finite {s : State} (hs : Active s) (h : s.Finite) : (run p settings s).1.Finite := by
  refine run_induction State.Finite (fun t _ => t.Finite) ?_ ?_ ?_ hs ⟨h.locals, h.globals⟩
  · exact fun t ht _ => step_finite hprogram ht
  · exact fun t ht _ => step_finite hprogram ht
  · exact fun t limit ht => ⟨ht.locals, ht.globals⟩

theorem Moved.finite {s s' : State} {output : Option Output}
    (hmoved : Moved p settings s s' output) (h : s.Finite) : s'.Finite := by
  cases hmoved with
  | same | wait => exact h
  | day | stop | lose => exact ⟨h.locals, h.globals⟩
  | run hresumed =>
      refine run_finite hprogram hresumed.active ?_
      cases hresumed <;> exact ⟨h.locals, h.globals⟩

end Engine

/-! ### Histories -/

namespace Session

open Engine

omit [Host H] in
/-- A call runs on from a state with the same variables. -/
theorem resumption?_finite {s : Session H} {c : Call} {r : State} (hr : s.resumption? c = some r)
    (h : s.state.Finite) : r.Finite where
  locals := by
    have hlocals : r.locals = s.state.locals :=
      resumption?_recorded (recorded_locals s.settings) hr
    rw [hlocals]
    exact h.locals
  globals := by
    have hglobals : r.globals = s.state.globals :=
      resumption?_recorded (recorded_globals s.settings) hr
    rw [hglobals]
    exact h.globals

/-- Every number is finite in the states that the steps of a history start from, and after it. -/
theorem path_finite {s : Session H}
    (hprogram : ∀ position a, s.program.fetch position = .action a → a.Writable)
    (h : s.state.Finite) (calls : List Call) :
    (∀ t ∈ s.path calls, t.Finite) ∧ (s.after calls).state.Finite := by
  -- On the calls: the path of the first one starts from a finite state, and it leaves one behind.
  induction calls generalizing s with
  | nil => exact ⟨List.forall_mem_nil _, h⟩
  | cons c calls ih =>
      have hcall : (s.call c).1.state.Finite := (call_moved s c).finite hprogram h
      obtain ⟨hrest, hafter⟩ := ih (s := (s.call c).1) (by rwa [(call_fixed s c).1]) hcall
      refine ⟨fun t ht => ?_, hafter⟩
      rw [path] at ht
      rcases List.mem_append.1 ht with hvisited | hlater
      · rw [visited] at hvisited
        split at hvisited
        · rename_i r hr
          exact visited_finite hprogram (resumption?_finite hr h) t hvisited
        · cases hvisited
      · exact hrest t hlater

omit [Host H] in
/-- A session starts with the global variables that the book holds, and without local ones. -/
theorem ofBook_finite (program : Program) (identity : Identity) (host : H) {book : Book}
    (settings : Settings) (entropy : UInt64) (hglobals : ∀ g ∈ book.globals, g.scope.Finite) :
    (ofBook program identity host book settings entropy).state.Finite where
  locals := Scope.finite_empty
  globals := by
    simp only [ofBook, State.load]
    split
    · rename_i r hr
      exact hglobals r (List.mem_of_find?_eq_some hr)
    · exact Scope.finite_empty

/-- A conditional goes on at a position that fits 64 bits. -/
theorem endsAt_lt {program : Program}
    (hprogram : ∀ position a, program.fetch position = .action a → a.Writable) {position : Nat}
    (h : program.EndsAt position) : position < Nat.pow 2 64 := by
  obtain ⟨i, a, hslot, hends⟩ := h
  have ha := hprogram i a hslot
  cases a with
  | whenLocal c | whenGlobal c =>
      cases hends
      exact ha.2
  | _ => cases hends

/-- The counter that is saved fits 64 bits if the positions of the program do, and the counters
    that the book holds. -/
theorem counter_progress_lt {program : Program} (hsize : program.size < Nat.pow 2 64)
    (hprogram : ∀ position a, program.fetch position = .action a → a.Writable)
    (identity : Identity) (host : H) {book : Book}
    (hlocals : ∀ l ∈ book.locals, l.counter < Nat.pow 2 64) (settings : Settings)
    (entropy : UInt64) (calls : List Call) :
    ((ofBook program identity host book settings entropy).after calls).progress.own.counter <
      Nat.pow 2 64 := by
  have hpos : 0 < Nat.pow 2 64 := by decide
  show State.savedCounter _ < _
  rw [State.savedCounter_eq]
  split
  · exact hpos
  · -- A session that has not ended by itself is saved where it is.
    rcases after_pc program identity host book settings entropy calls with
      (hin | hends) | ⟨l, hl, hcounter⟩
    · exact Nat.lt_of_le_of_lt hin hsize
    · exact endsAt_lt hprogram hends
    · rw [hcounter]
      exact hlocals l (List.mem_of_find?_eq_some hl)

/-- Every number that a script can compute stays savable. The literals of the program and the
    numbers of the book are finite, and positions, amounts and counters fit the integers that they
    are read as. Then every number is finite in every state of every history; so the record of the
    progress never writes a number as `null`, and its text reads back as a record with the same
    names, under each of them a value of the same kind. -/
theorem numbers_savable (program : Program)
    (hprogram : ∀ position a, program.fetch position = .action a → a.Writable)
    (hsize : program.size < Nat.pow 2 64) (identity : Identity) (host : H) (book : Book)
    (hglobals : ∀ g ∈ book.globals, g.scope.Finite)
    (hlocals : ∀ l ∈ book.locals, l.counter < Nat.pow 2 64) (settings : Settings)
    (entropy : UInt64) (calls : List Call) :
    let s := ofBook program identity host book settings entropy
    let r := (s.after calls).progress
    (∀ t ∈ s.path calls, t.locals.Finite ∧ t.globals.Finite) ∧
    (s.after calls).state.locals.Finite ∧ (s.after calls).state.globals.Finite ∧
    (∀ name x, r.global.scope.get? name = some (.number x) →
      ∃ n, r.writtenFor? name = some (.num n) ∧ n.text ≠ "null") ∧
    ∃ back, Record.decode? r.encode = some back ∧
      back.global.entity = r.global.entity ∧ back.own = r.own ∧
      back.global.scope.names = r.global.scope.names ∧
      ∀ name, (back.global.scope.get? name).map Value.kind =
        (r.global.scope.get? name).map Value.kind := by
  intro s r
  have hstart := ofBook_finite program identity host settings entropy hglobals
  obtain ⟨hpath, hafter⟩ := path_finite (s := s) hprogram hstart calls
  have hcounter : r.own.counter < Nat.pow 2 64 :=
    counter_progress_lt hsize hprogram identity host hlocals settings entropy calls
  have hscope : r.global.scope.Finite := hafter.globals
  refine ⟨fun t ht => ⟨(hpath t ht).locals, (hpath t ht).globals⟩, hafter.locals, hafter.globals,
    fun name x => Record.writtenFor?_number hscope, r.reread,
    Record.decode?_reread hcounter hscope, rfl, rfl, Scope.names_reread _, fun name => ?_⟩
  show (r.global.scope.reread.get? name).map Value.kind = _
  rw [Scope.get?_reread, Option.map_map]
  congr 1
  funext v
  exact v.kind_reread

/-- A sum beyond the largest float is not written, and the number that was there before is read
    back. -/
theorem numbers_savable_near_greatest :
    let entity : Entity := ⟨"villager", "Mira"⟩
    let actions : List Action :=
      [.modifyGlobal ⟨"gold", .add, .number 1e308⟩, .modifyGlobal ⟨"debt", .add, .number 0.1⟩,
        .note (some "create_var") (some "mood") .null]
    let program := Program.ofActions actions
    let book : Book :=
      { globals := [⟨entity, .ofList [("gold", .number 1.7e308), ("home", .text "inn")]⟩] }
    let s := ofBook program ⟨entity, "player", true⟩ SilentHost.silent book {} 0
    let r := (s.after [.start]).progress
    (∀ position a, program.fetch position = .action a → a.Writable) ∧
    program.size < Nat.pow 2 64 ∧ (∀ g ∈ book.globals, g.scope.Finite) ∧
    (∀ l ∈ book.locals, l.counter < Nat.pow 2 64) ∧
    (r.global.scope == .ofList
      [("gold", .number 1.7e308), ("home", .text "inn"), ("debt", .number 0.1)]) = true ∧
    ∃ back, Record.decode? r.encode = some back ∧
      back.global.scope.names = ["debt", "gold", "home"] := by
  intro entity actions program book s r
  have hprogram : ∀ position a, program.fetch position = .action a → a.Writable := by
    have hall : ∀ a ∈ actions, a.Writable := by decide +kernel
    exact fun position a hslot => hall a (Program.mem_of_fetch_ofActions hslot)
  have hglobals : ∀ g ∈ book.globals, g.scope.Finite := by decide +kernel
  have hlocals : ∀ l ∈ book.locals, l.counter < Nat.pow 2 64 := nofun
  have hsize : program.size < Nat.pow 2 64 := by decide
  obtain ⟨-, -, -, -, back, hback, -, -, hnames, -⟩ :=
    numbers_savable program hprogram hsize ⟨entity, "player", true⟩ SilentHost.silent book
      hglobals hlocals {} 0 [.start]
  exact ⟨hprogram, hsize, hglobals, hlocals, by decide +kernel, back, hback,
    hnames.trans (by decide +kernel)⟩

end Session

end Parley
