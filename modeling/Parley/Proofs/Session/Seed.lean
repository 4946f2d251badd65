/-
  Parley.Proofs.Session.Seed

  The seed matters only where there is something to choose. A draw from a list gives one of its
  elements, and nothing only if the list is empty (`pick_eq_none_iff`); so from a list of at most
  one element every seed draws the same. Only idle chat draws, from the unlocked labels. Two
  sessions that differ in their seeds alone stay that way, and tell their callers the same, as
  long as no idle chat of the first one meets two labels or more (`seed_unread`).
-/
import Parley.Proofs.Session.Lockstep
import Parley.Proofs.Session.Reopening

namespace Parley

variable {H : Type} [Host H]

/-! ### Draws -/

namespace Random

/-- The high half of a word times `n` is below `n`. -/
theorem high_lt (w : UInt32) {n : Nat} (hn : 0 < n) : w.toNat * n / Nat.pow 2 32 < n := by
  have hword : w.toNat < Nat.pow 2 32 := w.toNat_lt
  have hproduct : w.toNat * n < Nat.pow 2 32 * n := Nat.mul_lt_mul_of_pos_right hword hn
  exact Nat.div_lt_of_lt_mul hproduct

theorem search_lt (key : Key) {n : Nat} (hn : 0 < n) (fuel i : Nat) :
    (search key n fuel i).1 < n := by
  induction fuel generalizing i with
  | zero => exact high_lt (key.word i) hn
  | succ fuel ih =>
      rw [search]
      split
      · exact high_lt (key.word i) hn
      · exact ih (i + 1)

theorem draw_lt (seed : UInt64) {n : Nat} (hn : 0 < n) : (draw seed n).1 < n := by
  -- With the number of words known, a check of this proof would look through all of them. So it
  -- is made unknown before the function is applied.
  have hdraw : draw = draw := rfl
  conv at hdraw => rhs; delta draw
  obtain ⟨fuel, hfuel⟩ : ∃ fuel, fuel = patience := ⟨_, rfl⟩
  rw [← hfuel] at hdraw
  rw [hdraw]
  exact search_lt (keyOf seed) hn fuel 0

/-- Nothing is drawn only from the empty list. -/
theorem pick_eq_none_iff {α : Type} {seed : UInt64} {l : List α} : pick seed l = none ↔ l = [] := by
  rw [pick]
  constructor
  · intro h
    have hlength := List.getElem?_eq_none_iff.1 (Option.map_eq_none_iff.1 h)
    cases l with
    | nil => rfl
    | cons a rest =>
        have hdraw := draw_lt seed (n := (a :: rest).length) (Nat.succ_pos _)
        omega
  · rintro rfl
    rfl

/-- From a list of at most one element every seed draws the same. -/
theorem pick_fst_congr {α : Type} {l : List α} (h : l.length ≤ 1) (seed seed' : UInt64) :
    (pick seed l).map (·.1) = (pick seed' l).map (·.1) := by
  match l, h with
  | [], _ => rw [pick_eq_none_iff.2 rfl, pick_eq_none_iff.2 rfl]
  | [a], _ =>
      have honly (seed : UInt64) : (pick seed [a]).map (·.1) = some a := by
        cases hpick : pick seed [a] with
        | none => simp [pick_eq_none_iff] at hpick
        | some drawn =>
            have hmem : drawn.1 ∈ [a] := Engine.mem_of_pick hpick
            rw [Option.map_some, List.mem_singleton.1 hmem]
      rw [honly, honly]

end Random

/-! ### Execution with two seeds -/

namespace Engine

/-- Two states that differ in their seeds at most. -/
def SameButSeed (s t : State) : Prop := t = { s with seed := t.seed }

/-- An idle chat at the position of the state has one label to choose from at most. -/
def NoChoice (p : Program) (settings : Settings) (s : State) : Prop :=
  p.fetch s.pc = .action .idleChat → (unlockedEvents s.locals settings.unlockedVar).length ≤ 1

/-- An idle chat with nothing to choose leads to the same place with every seed. -/
theorem flowOf_idleChat (p : Program) (settings : Settings) (s : State) (seed : UInt64)
    (h : (unlockedEvents s.locals settings.unlockedVar).length ≤ 1) :
    flowOf p settings s .idleChat = flowOf p settings { s with seed } .idleChat := by
  -- Only the label that is drawn matters for the way on, not the seed after it.
  have hsame := Random.pick_fst_congr h s.seed seed
  simp only [flowOf, drawEvent]
  generalize Random.pick s.seed (unlockedEvents s.locals settings.unlockedVar) = drawn at hsame ⊢
  generalize Random.pick seed (unlockedEvents s.locals settings.unlockedVar) = drawn' at hsame ⊢
  cases drawn <;> cases drawn' <;> simp_all

/-- Whatever seeds the settings fix, executions go hand in hand up to the seed, as long as no
    idle chat has a choice. -/
theorem lockstep_seed (p : Program) (settings : Settings) (a b : Option UInt64) :
    Lockstep p p { settings with seed := a } { settings with seed := b } (NoChoice p settings)
      SameButSeed where
  limit := rfl
  target _ := rfl
  pc h := by rw [h]
  status h := by rw [h]
  choices h := by rw [h]
  moved h _ _ _ := by rw [h]; rfl
  fresh h := by rw [h]; rfl
  slot _ _ := rfl
  flow {s t action} h hmet hslot := by
    rw [h]
    cases action with
    | idleChat => exact flowOf_idleChat p settings s t.seed (hmet hslot)
    | _ => rfl
  performed h _ _ := by rw [h]; rfl

/-- Only an idle chat with a label to choose from changes the seed. -/
theorem reseed_ne {settings : Settings} {locals : Scope} {seed : UInt64} {a : Action}
    (h : reseed settings locals seed a ≠ seed) :
    a = .idleChat ∧ unlockedEvents locals settings.unlockedVar ≠ [] := by
  cases a with
  | idleChat =>
      refine ⟨rfl, fun hnone => h ?_⟩
      rw [reseed, drawEvent, Random.pick_eq_none_iff.2 hnone]
      rfl
  | _ => exact absurd rfl h

/-- A step changes the seed only where an idle chat has a label to choose from. -/
theorem step_seed {p : Program} {settings : Settings} {s : State}
    (h : (step p settings s).state.seed ≠ s.seed) :
    Active s ∧ p.fetch s.pc = .action .idleChat ∧
      unlockedEvents s.locals settings.unlockedVar ≠ [] := by
  have hs : Active s := by
    cases hresting : restingOutcome? s.status with
    | none => exact restingOutcome?_eq_none.1 hresting
    | some outcome =>
        rw [step, hresting] at h
        exact absurd rfl h
  have hstep := step_cases p settings hs
  generalize step p settings s = t at hstep h
  cases hstep with
  | ended hslot | malformed hslot => exact absurd rfl h
  | next hslot | goto hslot | await hslot | finish hslot | abort hslot =>
      -- Moving on keeps the seed that the action left.
      obtain ⟨rfl, hlabels⟩ := reseed_ne h
      exact ⟨hs, hslot, hlabels⟩

end Engine

/-! ### Sessions with two seeds -/

namespace Session

open Engine

/-- The replies to the calls of a history, in order. -/
def replies (s : Session H) : List Call → List Reply
  | [] => []
  | c :: calls => (s.call c).2 :: (s.call c).1.replies calls

/-- Two sessions that differ in their seeds at most: in the one that the settings fix, and in
    that of the next draw. -/
structure Twins (s t : Session H) : Prop where
  program : s.program = t.program
  identity : s.identity = t.identity
  settings : t.settings = { s.settings with seed := t.settings.seed }
  paired : Paired SameButSeed s t

omit [Host H] in
theorem Twins.progress {s t : Session H} (h : Twins s t) : s.progress = t.progress := by
  rw [Session.progress, Session.progress, h.identity, h.settings, h.paired.state]
  rfl

/-- One call changes equal identities to equal identities. -/
theorem call_identity_congr {s t : Session H} (h : s.identity = t.identity) (c : Call) :
    (s.call c).1.identity = (t.call c).1.identity := by
  -- Only setting the time of day changes an identity, and it does not look at the old one.
  by_cases hday : ∃ isDay, c = .setDay isDay
  · obtain ⟨isDay, rfl⟩ := hday
    simp only [call, setDay, h]
  · have hother : ∀ isDay, c ≠ .setDay isDay := fun isDay hc => hday ⟨isDay, hc⟩
    rw [call_identity s hother, call_identity t hother, h]

/-- One call to twins, with nothing to choose in the first of them. -/
theorem call_twins {s t : Session H} (h : Twins s t) (c : Call)
    (hmet : ∀ u ∈ s.visited c, NoChoice s.program s.settings u) :
    (s.call c).2 = (t.call c).2 ∧ Twins (s.call c).1 (t.call c).1 := by
  have hlockstep : Lockstep s.program t.program s.settings t.settings
      (NoChoice s.program s.settings) SameButSeed := by
    rw [h.settings, ← h.program]
    exact lockstep_seed s.program s.settings s.settings.seed t.settings.seed
  have hday {u v : State} (huv : SameButSeed u v) (isDay : Bool) :
      SameButSeed { u with isDay } { v with isDay } := by
    rw [huv]
    rfl
  obtain ⟨hreply, hpaired⟩ :=
    call_paired hlockstep hday h.paired c (fun _ => h.progress) hmet
  obtain ⟨hprogram, hsettings⟩ := call_fixed s c
  obtain ⟨hprogram', hsettings'⟩ := call_fixed t c
  refine ⟨hreply, ?_, call_identity_congr h.identity c, ?_, hpaired⟩
  · rw [hprogram, hprogram', h.program]
  · rw [hsettings, hsettings']
    exact h.settings

/-- Twins answer every history alike, with nothing to choose in the first of them. -/
theorem after_twins {s t : Session H} (h : Twins s t) (calls : List Call)
    (hmet : ∀ u ∈ s.path calls, NoChoice s.program s.settings u) :
    s.replies calls = t.replies calls ∧ Twins (s.after calls) (t.after calls) := by
  induction calls generalizing s t with
  | nil => exact ⟨rfl, h⟩
  | cons c calls ih =>
      -- The path of a history is that of its first call, and then that of the rest.
      rw [path] at hmet
      obtain ⟨hreply, hcall⟩ :=
        call_twins h c fun u hu => hmet u (List.mem_append.2 (.inl hu))
      obtain ⟨hprogram, hsettings⟩ := call_fixed s c
      have hrest : ∀ u ∈ (s.call c).1.path calls,
          NoChoice (s.call c).1.program (s.call c).1.settings u := by
        rw [hprogram, hsettings]
        exact fun u hu => hmet u (List.mem_append.2 (.inr hu))
      obtain ⟨hreplies, hafter⟩ := ih hcall hrest
      refine ⟨?_, hafter⟩
      rw [replies, replies, hreply, hreplies]

/-- The seed matters only where there is something to choose. Two sessions are opened alike but
    for their seeds, and given the same calls. As long as no idle chat of the first one meets two
    labels or more, both reply the same to every call, and their states are the same but for the
    seed. And a step changes the seed only if it is an idle chat with a label to choose from. -/
theorem seed_unread (program : Program) (identity : Identity) (host : H) (book : Book)
    (settings : Settings) (a b : Option UInt64) (e e' : UInt64) (calls : List Call) :
    let s := ofBook program identity host book { settings with seed := a } e
    let t := ofBook program identity host book { settings with seed := b } e'
    ((∀ u ∈ s.path calls, program.fetch u.pc = .action .idleChat →
        (unlockedEvents u.locals settings.unlockedVar).length ≤ 1) →
      s.replies calls = t.replies calls ∧
      SameButSeed (s.after calls).state (t.after calls).state ∧
      (t.after calls).host = (s.after calls).host ∧ (t.after calls).due = (s.after calls).due) ∧
    ∀ u, (step program settings u).state.seed ≠ u.seed →
      Active u ∧ program.fetch u.pc = .action .idleChat ∧
        unlockedEvents u.locals settings.unlockedVar ≠ [] := by
  intro s t
  have htwins : Twins s t := ⟨rfl, rfl, rfl, ⟨rfl, rfl, rfl⟩⟩
  refine ⟨fun hmet => ?_, fun u hseed => step_seed hseed⟩
  obtain ⟨hreplies, hafter⟩ := after_twins htwins calls hmet
  exact ⟨hreplies, hafter.paired.state, hafter.paired.host.symm, hafter.paired.due.symm⟩

/-- An idle chat draws the only label there is, and a second one is unlocked behind it. -/
theorem seed_unread_one_label :
    let program := Program.ofActions
      [.unlock ["inn"], .idleChat, .label "inn", .unlock ["road"], .choice [⟨"inn", "Stay"⟩]]
    let identity : Identity := ⟨⟨"villager", "Mira"⟩, "player-1", true⟩
    let settings : Settings := {}
    let s := ofBook program identity SilentHost.silent {} { settings with seed := some 1 } 0
    let t := ofBook program identity SilentHost.silent {} { settings with seed := some 2 } 0
    (∀ u ∈ s.path [.start, .stop], program.fetch u.pc = .action .idleChat →
      (unlockedEvents u.locals settings.unlockedVar).length ≤ 1) ∧
    s.replies [.start, .stop] = t.replies [.start, .stop] ∧
    SameButSeed (s.after [.start, .stop]).state (t.after [.start, .stop]).state := by
  intro program identity settings s t
  have hmet : ∀ u ∈ s.path [.start, .stop], program.fetch u.pc = .action .idleChat →
      (unlockedEvents u.locals settings.unlockedVar).length ≤ 1 := by
    -- Two labels are met at the choice alone.
    have hchecked : ∀ u ∈ s.path [.start, .stop],
        (unlockedEvents u.locals settings.unlockedVar).length ≤ 1 ∨ u.pc = 4 := by
      decide +kernel
    intro u hu hslot
    rcases hchecked u hu with hone | hpc
    · exact hone
    · rw [hpc] at hslot
      cases hslot
  obtain ⟨hreplies, hstate, -⟩ :=
    (seed_unread program identity SilentHost.silent {} settings (some 1) (some 2) 0 0
      [.start, .stop]).1 hmet
  exact ⟨hmet, hreplies, hstate⟩

end Session

end Parley
