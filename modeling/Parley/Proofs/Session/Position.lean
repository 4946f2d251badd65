/-
  Parley.Proofs.Session.Position

  Where a session can be in its program. Positions are natural numbers here and 64-bit words in
  the running engine, so every sum that is computed has to stay below 2 ^ 64. Two sums are ever
  computed: the position after an action, and the position after a label. Both lie behind a slot
  of the program (`fetch_lt`, `resolve_lt`), so they are at most its length.

  A step can also lead to the `end` of a conditional, which is any number that its record gives
  (`Program.EndsAt`), and a session begins at any counter that a save file gives. No sum is
  computed there, for past the last slot nothing is executed. So a session stays at its origin or
  at a place that the program names, `Placed`, whatever is called.
-/
import Parley.Proofs.Program.Labels
import Parley.Proofs.Session.History

namespace Parley

variable {H : Type} [Host H]

/-- Where a conditional goes on if it fails. -/
def Action.otherwise? : Action → Option Nat
  | .whenLocal c | .whenGlobal c => some c.otherwise
  | _ => none

namespace Program

/-- A conditional of the program goes on at the position if it fails. -/
def EndsAt (p : Program) (position : Nat) : Prop :=
  ∃ i a, p.fetch i = .action a ∧ a.otherwise? = some position

/-- The places that a program names: its slots, its end, and the ends of its conditionals. -/
def Names (p : Program) (position : Nat) : Prop := position ≤ p.size ∨ p.EndsAt position

theorem fetch_lt {p : Program} {position : Nat} {a : Action}
    (hslot : p.fetch position = .action a) : position < p.size := by
  unfold fetch at hslot
  split at hslot
  · rename_i hget
    exact (Array.getElem?_eq_some_iff.1 hget).1
  · cases hslot
  · cases hslot

theorem size_le_of_end {p : Program} {position : Nat}
    (hslot : p.fetch position = .endOfProgram) : p.size ≤ position := by
  unfold fetch at hslot
  split at hslot
  · cases hslot
  · cases hslot
  · rename_i hget
    exact Array.getElem?_eq_none_iff.1 hget

theorem resolve_lt {p : Program} {label : String} {position : Nat}
    (h : p.resolve label = some position) : position < p.size :=
  fetch_lt (resolve_eq_some_iff.1 h).1

theorem target_le {p : Program} {label : String} {target : Nat}
    (h : p.target label = some target) : target ≤ p.size := by
  obtain ⟨position, hposition, rfl⟩ := Option.map_eq_some_iff.1 h
  exact resolve_lt hposition

end Program

namespace Engine

variable {p : Program} {settings : Settings}

/-! ### Steps and inputs -/

/-- Where execution goes on at once is named by the program: it is the next position, or behind a
    label, or the end of a conditional. -/
theorem names_goto {s : State} {a : Action} {target : Nat} (hslot : p.fetch s.pc = .action a)
    (hflow : flowOf p settings s a = .goto target) : p.Names target := by
  have hleads := leads_flowOf p settings s a
  rw [hflow] at hleads
  cases hleads with
  | skipLocal => exact .inr ⟨s.pc, _, hslot, rfl⟩
  | skipGlobal => exact .inr ⟨s.pc, _, hslot, rfl⟩
  | jump htarget => exact .inl (Program.target_le htarget)
  | chat _ htarget => exact .inl (Program.target_le htarget)

/-- An action that waits is taken up again where it stands or just behind. -/
theorem resumeAt_cases {s : State} {a : Action} {wait : Wait} {resumeAt : Nat}
    (hflow : flowOf p settings s a = .await wait resumeAt) :
    resumeAt = s.pc ∨ resumeAt = s.pc + 1 := by
  have hleads := leads_flowOf p settings s a
  rw [hflow] at hleads
  cases hleads with
  | pause => exact .inr rfl
  | present => exact .inl rfl

/-- No action ends the script; only its last slot does. -/
theorem flowOf_ne_endOfScript (s : State) (a : Action) :
    flowOf p settings s a ≠ .finish .endOfScript := by
  intro hflow
  have hleads := leads_flowOf p settings s a
  rw [hflow] at hleads
  cases hleads

/-- A step leaves the position, or moves it to a place that the program names. -/
theorem step_pc (p : Program) (settings : Settings) (s : State) :
    (step p settings s).state.pc = s.pc ∨ p.Names (step p settings s).state.pc := by
  cases hresting : restingOutcome? s.status with
  | some outcome =>
      left
      rw [step, hresting]
  | none =>
      have hstep := step_cases p settings (restingOutcome?_eq_none.1 hresting)
      generalize step p settings s = t at hstep ⊢
      cases hstep with
      | ended | malformed | finish | abort => exact .inl rfl
      | next hslot => exact .inr (.inl (Program.fetch_lt hslot))
      | goto hslot hflow => exact .inr (names_goto hslot hflow)
      | await hslot hflow =>
          rcases resumeAt_cases hflow with rfl | rfl
          · exact .inl rfl
          · exact .inr (.inl (Program.fetch_lt hslot))

/-- An input leaves the position, or moves it behind a label. -/
theorem resume_pc (p : Program) (s : State) (input : Input) :
    (resume p s input).1.pc = s.pc ∨ (resume p s input).1.pc ≤ p.size := by
  cases input with
  | choose label =>
      simp only [resume, choose]
      split
      · exact .inl rfl
      · split
        · exact .inl rfl
        · split
          · exact .inl rfl
          · rename_i htarget
            exact .inr (Program.target_le htarget)
  | advance =>
      simp only [resume, advance]
      split <;> exact .inl rfl
  | stop =>
      simp only [resume, stop]
      split <;> exact .inl rfl

/-! ### Runs and calls -/

/-- A session that began at `origin` is there or at a place that the program names; if the script
    ended, it is past the last slot. -/
structure Placed (p : Program) (origin : Nat) (s : State) : Prop where
  pc : s.pc = origin ∨ p.Names s.pc
  past : s.status = .finished .endOfScript → p.size ≤ s.pc

variable {origin : Nat}

/-- A state with the position of one that is placed, unless the script ends there. -/
theorem Placed.at {s t : State} (h : Placed p origin s) (hpc : t.pc = s.pc)
    (hstatus : t.status ≠ .finished .endOfScript) : Placed p origin t where
  pc := by
    rw [hpc]
    exact h.pc
  past hended := absurd hended hstatus

theorem Placed.step {s : State} (h : Placed p origin s) (hs : Active s) :
    Placed p origin (step p settings s).state where
  pc := by
    rcases step_pc p settings s with hsame | hnamed
    · rw [hsame]
      exact h.pc
    · exact .inr hnamed
  past hended := by
    have hstep := step_cases p settings hs
    generalize Engine.step p settings s = t at hstep hended ⊢
    cases hstep with
    | ended hslot => exact Program.size_le_of_end hslot
    | malformed | next | goto | await | abort => cases hended
    | @finish a _ _ hflow =>
        cases hended
        exact absurd hflow (flowOf_ne_endOfScript s a)

theorem Placed.run {s : State} (h : Placed p origin s) (hs : Active s) :
    Placed p origin (run p settings s).1 := by
  have hfresh : Placed p origin { s with screen := s.screen.clearOneShots } := ⟨h.pc, h.past⟩
  refine run_induction (fun t => Active t ∧ Placed p origin t) (fun t _ => Placed p origin t)
    ?_ ?_ ?_ hs ⟨hs, hfresh⟩
  · exact fun t ht hproceed => ⟨step_active ht.1 hproceed, ht.2.step ht.1⟩
  · exact fun t ht _ => ht.2.step ht.1
  · exact fun t limit ht => ht.2.at rfl nofun

theorem Placed.moved {s s' : State} {output : Option Output} (h : Placed p origin s)
    (hmoved : Moved p settings s s' output) : Placed p origin s' := by
  cases hmoved with
  | same | wait => exact h
  | day => exact ⟨h.pc, h.past⟩
  | stop | lose => exact h.at rfl nofun
  | run hresumed =>
      refine Placed.run ?_ hresumed.active
      cases hresumed with
      | start | advance => exact h.at rfl nofun
      | choose _ _ htarget => exact ⟨.inr (.inl (Program.target_le htarget)), nofun⟩

end Engine

namespace Session

open Engine

/-- A record starts at its counter, or at a place that the program names. -/
theorem startingPoint_cases (r : LocalRecord) (p : Program) :
    r.startingPoint p = r.counter ∨ r.startingPoint p ≤ p.size := by
  unfold LocalRecord.startingPoint
  split
  · exact .inl rfl
  · right
    cases htarget : r.checkpoint.bind p.target with
    | none => exact Nat.zero_le _
    | some target =>
        obtain ⟨label, -, hlabel⟩ := Option.bind_eq_some_iff.1 htarget
        exact Program.target_le hlabel

omit [Host H] in
/-- A session begins at a place that the program names, or at the counter of the record that it
    goes on from. -/
theorem ofBook_pc (program : Program) (identity : Identity) (host : H) (book : Book)
    (settings : Settings) (entropy : UInt64) :
    let s := ofBook program identity host book settings entropy
    program.Names s.state.pc ∨
      ∃ r, book.findLocal identity = some r ∧ s.state.pc = r.counter := by
  intro s
  simp only [s, ofBook, State.load]
  cases book.findLocal identity with
  | none => exact .inl (.inl (Nat.zero_le _))
  | some r =>
      rcases startingPoint_cases r program with hcounter | hbound
      · exact .inr ⟨r, rfl, hcounter⟩
      · exact .inl (.inl hbound)

theorem after_placed (program : Program) (identity : Identity) (host : H) (book : Book)
    (settings : Settings) (entropy : UInt64) (calls : List Call) :
    let s := ofBook program identity host book settings entropy
    Placed program s.state.pc (s.after calls).state :=
  after_induction (fun _ _ _ h hmoved => h.moved hmoved) ⟨.inl rfl, nofun⟩ calls

/-- So it is after every history. -/
theorem after_pc (program : Program) (identity : Identity) (host : H) (book : Book)
    (settings : Settings) (entropy : UInt64) (calls : List Call) :
    let s := (ofBook program identity host book settings entropy).after calls
    program.Names s.state.pc ∨
      ∃ r, book.findLocal identity = some r ∧ s.state.pc = r.counter := by
  intro s
  rcases (after_placed program identity host book settings entropy calls).pc with horigin | hnamed
  · rw [horigin]
    exact ofBook_pc program identity host book settings entropy
  · exact .inl hnamed

/-- The position never wraps and only goes to known places. The position after an action and the
    position after a label are at most the length of the program, and a 64-bit word holds them.
    Every step and every input leaves the position, or moves it to at most the length, or to the
    end of a conditional. So a session is at such a place after every history, or at the counter
    of the record that it went on from; and if its script has ended, it is past the last slot. -/
theorem position_known (program : Program) (hsize : program.size < Nat.pow 2 64) :
    (∀ position a, program.fetch position = .action a →
      position + 1 ≤ program.size ∧ (UInt64.ofNat position + 1).toNat = position + 1) ∧
    (∀ label position, program.resolve label = some position →
      position + 1 ≤ program.size ∧ (UInt64.ofNat position + 1).toNat = position + 1) ∧
    (∀ settings u,
      let t := (step program settings u).state
      t.pc = u.pc ∨ t.pc ≤ program.size ∨ program.EndsAt t.pc) ∧
    (∀ u input,
      let t := (resume program u input).1
      t.pc = u.pc ∨ t.pc ≤ program.size) ∧
    ∀ (identity : Identity) (host : H) (book : Book) (settings : Settings) (entropy : UInt64)
      (calls : List Call),
      let s := ((ofBook program identity host book settings entropy).after calls).state
      (s.pc ≤ program.size ∨ program.EndsAt s.pc ∨
        ∃ r, book.findLocal identity = some r ∧ s.pc = r.counter) ∧
      (s.status = .finished .endOfScript → program.size ≤ s.pc) := by
  -- A position in the program is below the length, so neither it nor the next one wraps.
  have hword : ∀ position < program.size, (UInt64.ofNat position + 1).toNat = position + 1 := by
    intro position hposition
    have hpow : Nat.pow 2 64 = 18446744073709551616 := rfl
    have hone : (1 : UInt64).toNat = 1 := rfl
    rw [UInt64.toNat_add, UInt64.toNat_ofNat', hone]
    omega
  refine ⟨?_, ?_, step_pc program, resume_pc program, ?_⟩
  · intro position a hslot
    have hposition := Program.fetch_lt hslot
    exact ⟨hposition, hword position hposition⟩
  · intro label position hlabel
    have hposition := Program.resolve_lt hlabel
    exact ⟨hposition, hword position hposition⟩
  · intro identity host book settings entropy calls
    refine ⟨?_, (after_placed program identity host book settings entropy calls).past⟩
    rw [← or_assoc]
    exact after_pc program identity host book settings entropy calls

/-- A conditional that goes on at the greatest position there is: the session stays there, at the
    end of its script, and that position is never counted up. -/
theorem position_known_at_greatest :
    let far : Condition := ⟨none, .night, .null, Nat.pow 2 64 - 1⟩
    let program := Program.ofActions [.whenLocal far]
    let s := (ofBook program ⟨⟨"villager", "Mira"⟩, "player", true⟩ SilentHost.silent {} {}
      0).after [.start]
    program.size < Nat.pow 2 64 ∧ s.state.pc = Nat.pow 2 64 - 1 ∧
      s.state.status = .finished .endOfScript ∧
      (s.state.pc ≤ program.size ∨ program.EndsAt s.state.pc ∨
        ∃ r, (({} : Book)).findLocal ⟨⟨"villager", "Mira"⟩, "player", true⟩ = some r ∧
          s.state.pc = r.counter) ∧
      program.size ≤ s.state.pc := by
  intro far program s
  have hsize : program.size < Nat.pow 2 64 := by decide
  have hstatus : s.state.status = .finished .endOfScript := by decide
  obtain ⟨-, -, -, -, hafter⟩ := position_known (H := SilentHost) program hsize
  obtain ⟨hknown, hpast⟩ :=
    hafter ⟨⟨"villager", "Mira"⟩, "player", true⟩ .silent {} {} 0 [.start]
  exact ⟨hsize, by decide, hstatus, hknown, hpast hstatus⟩

end Session

end Parley
