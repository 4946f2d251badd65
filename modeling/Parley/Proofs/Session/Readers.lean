/-
  Parley.Proofs.Session.Readers

  Who reads the global variables, and who reads the time of day. Every action is free to write
  globals, and a write may succeed on some globals and fail on others; but only a conditional on
  globals looks at them. The time of day is looked at by the predicates `day` and `night` and by
  a night choice that has options. In a program without such readers, two sessions that differ
  in that part alone reply the same to every sequence of calls, and still differ in it alone.

  Both are instances of `Lockstep`, with the relation "equal but for this part". For the time of
  day the two callers may also set it differently, so the calls are related too
  (`Call.SameButDay`).
-/
import Parley.Proofs.Session.Seed
import Parley.Proofs.Session.WellFormed
import Mathlib.Data.List.Forall2

namespace Parley

variable {H : Type} [Host H]

/-! ### Readers -/

namespace Action

/-- Whether the action looks at the global variables. -/
def readsGlobals : Action → Bool
  | .whenGlobal _ => true
  | _ => false

/-- Whether the action looks at the time of day. -/
def readsDay : Action → Bool
  | .whenLocal c | .whenGlobal c => c.predicate == .day || c.predicate == .night
  | .nightChoice options => !options.isEmpty
  | _ => false

end Action

/-- Whether an action of the program passes the test. -/
def Program.uses (p : Program) (test : Action → Bool) : Bool :=
  p.slots.toList.any fun
    | .action a => test a
    | .malformed .. => false

theorem Program.uses_of_fetch {p : Program} {test : Action → Bool} (h : p.uses test = false)
    {position : Nat} {a : Action} (hslot : p.fetch position = .action a) : test a = false := by
  have hnone := List.any_eq_false.1 h (.action a) (mem_of_fetch hslot)
  exact Bool.eq_false_iff.2 hnone

/-- A condition that asks for no time of day holds at every one. -/
theorem Condition.holds_day {c : Condition}
    (hpredicate : (c.predicate == .day || c.predicate == .night) = false) (scope : Scope)
    (isDay isDay' : Bool) : c.holds scope isDay = c.holds scope isDay' := by
  unfold holds
  cases hp : c.predicate with
  | day | night => rw [hp] at hpredicate; cases hpredicate
  | equal | notEqual | lessThan | greaterThan => rfl

/-! ### Execution -/

namespace Engine

/-- Two states that differ in their global variables at most. -/
def SameButGlobals (s t : State) : Prop := t = { s with globals := t.globals }

/-- Two states that differ in the time of day at most. -/
def SameButDay (s t : State) : Prop := t = { s with isDay := t.isDay }

/-- The way on from an action that is no reader of globals is the same for all globals. -/
theorem flowOf_globals {a : Action} (h : a.readsGlobals = false) (p : Program)
    (settings : Settings) (s : State) (globals : Scope) :
    flowOf p settings s a = flowOf p settings { s with globals } a := by
  cases a with
  | whenGlobal => cases h
  | _ => rfl

/-- The way on from an action that is no reader of the day is the same at every time. -/
theorem flowOf_day {a : Action} (h : a.readsDay = false) (p : Program) (settings : Settings)
    (s : State) (isDay : Bool) :
    flowOf p settings s a = flowOf p settings { s with isDay } a := by
  cases a with
  | whenLocal c => simp only [flowOf, branch, Condition.holds_day h s.locals s.isDay isDay]
  | whenGlobal c => simp only [flowOf, branch, Condition.holds_day h s.globals s.isDay isDay]
  | nightChoice options =>
      -- Without options the choice is passed by, whatever the time.
      obtain rfl : options = [] := by simpa [Action.readsDay] using h
      simp only [flowOf, or_true, if_true]
  | _ => rfl

/-- An action that is no reader of the day paints the same at every time. -/
theorem paint_day {a : Action} (h : a.readsDay = false) (x : Screen) (isDay isDay' : Bool) :
    a.paint isDay x = a.paint isDay' x := by
  cases a with
  | nightChoice options =>
      obtain rfl : options = [] := by simpa [Action.readsDay] using h
      simp only [Action.paint, Action.offers, ite_self, if_true]
  | _ => rfl

theorem lockstep_globals {p : Program} (hp : p.uses Action.readsGlobals = false)
    (settings : Settings) :
    Lockstep p p settings settings (fun _ => True) SameButGlobals where
  limit := rfl
  target _ := rfl
  pc h := by rw [h]
  status h := by rw [h]
  choices h := by rw [h]
  moved h _ _ _ := by rw [h]; rfl
  fresh h := by rw [h]; rfl
  slot _ _ := rfl
  flow {s t a} h _ hslot := by
    rw [h]
    exact flowOf_globals (Program.uses_of_fetch hp hslot) p settings s t.globals
  performed h _ _ := by rw [h]; rfl

theorem lockstep_day {p : Program} (hp : p.uses Action.readsDay = false) (settings : Settings) :
    Lockstep p p settings settings (fun _ => True) SameButDay where
  limit := rfl
  target _ := rfl
  pc h := by rw [h]
  status h := by rw [h]
  choices h := by rw [h]
  moved h _ _ _ := by rw [h]; rfl
  fresh h := by rw [h]; rfl
  slot _ _ := rfl
  flow {s t a} h _ hslot := by
    rw [h]
    exact flowOf_day (Program.uses_of_fetch hp hslot) p settings s t.isDay
  performed {s t a} h _ hslot := by
    have hpaint := paint_day (Program.uses_of_fetch hp hslot) s.screen s.isDay t.isDay
    rw [h, SameButDay, perform, perform, hpaint]

end Engine

/-! ### Histories -/

/-- Two calls that are the same, or both set the time of day. -/
inductive Call.SameButDay : Call → Call → Prop where
  | same (c : Call) : SameButDay c c
  | setDay (isDay isDay' : Bool) : SameButDay (.setDay isDay) (.setDay isDay')

namespace Session

open Engine

/-- Two sessions that differ in their global variables at most. -/
def SameButGlobals (s t : Session H) : Prop :=
  t = { s with state := { s.state with globals := t.state.globals } }

/-- Two sessions that differ in the time of day at most. -/
def SameButDay (s t : Session H) : Prop :=
  t = { s with
    identity := { s.identity with isDay := t.identity.isDay }
    state := { s.state with isDay := t.state.isDay } }

/-- What related calls preserve, related histories preserve. -/
theorem after_related {R : Session H → Session H → Prop} {alike : Call → Call → Prop}
    (hcall : ∀ {s t c c'}, R s t → alike c c' →
      (s.call c).2 = (t.call c').2 ∧ R (s.call c).1 (t.call c').1)
    {s t : Session H} (h : R s t) {calls calls' : List Call}
    (hcalls : List.Forall₂ alike calls calls') :
    s.replies calls = t.replies calls' ∧ R (s.after calls) (t.after calls') := by
  induction hcalls generalizing s t with
  | nil => exact ⟨rfl, h⟩
  | cons hc _ ih =>
      obtain ⟨hreply, hnext⟩ := hcall h hc
      obtain ⟨hreplies, hafter⟩ := ih hnext
      exact ⟨congrArg₂ List.cons hreply hreplies, hafter⟩

/-- Two sessions of the same program under the same settings, with related identities and
    states, the same host and the same due progress. -/
structure Matched (R : State → State → Prop) (I : Identity → Identity → Prop)
    (s t : Session H) : Prop where
  program : s.program = t.program
  settings : s.settings = t.settings
  identity : I s.identity t.identity
  paired : Paired R s t

/-- One call to sessions that match, in a relation that setting the time of day preserves. -/
theorem call_matched {R : State → State → Prop} {I : Identity → Identity → Prop} {s t : Session H}
    (h : Lockstep s.program s.program s.settings s.settings (fun _ => True) R)
    (hstate : ∀ {u v : State}, R u v → ∀ isDay, R { u with isDay } { v with isDay })
    (hidentity : ∀ {i j : Identity}, I i j → ∀ isDay, I { i with isDay } { j with isDay })
    (hs : Matched R I s t) (c : Call) (hprogress : c = .takePending → s.progress = t.progress) :
    (s.call c).2 = (t.call c).2 ∧ Matched R I (s.call c).1 (t.call c).1 := by
  have hlockstep : Lockstep s.program t.program s.settings t.settings (fun _ => True) R := by
    rw [← hs.program, ← hs.settings]
    exact h
  obtain ⟨hreply, hpaired⟩ :=
    call_paired hlockstep hstate hs.paired c hprogress fun _ _ => trivial
  obtain ⟨hprogram, hsettings⟩ := call_fixed s c
  obtain ⟨hprogram', hsettings'⟩ := call_fixed t c
  refine ⟨hreply, ?_, ?_, ?_, hpaired⟩
  · rw [hprogram, hprogram', hs.program]
  · rw [hsettings, hsettings', hs.settings]
  · -- Only setting the time of day changes an identity.
    by_cases hday : ∃ isDay, c = .setDay isDay
    · obtain ⟨isDay, rfl⟩ := hday
      exact hidentity hs.identity isDay
    · have hother : ∀ isDay, c ≠ .setDay isDay := fun isDay hc => hday ⟨isDay, hc⟩
      rw [call_identity s hother, call_identity t hother]
      exact hs.identity

/-! ### Global variables -/

omit [Host H] in
theorem sameButGlobals_iff {s t : Session H} :
    SameButGlobals s t ↔ Matched Engine.SameButGlobals Eq s t := by
  constructor
  · intro h
    rw [h]
    exact ⟨rfl, rfl, rfl, rfl, rfl, rfl⟩
  · rintro ⟨hprogram, hsettings, hidentity, hhost, hdue, hstate⟩
    obtain ⟨program, identity, host, settings, state, due⟩ := t
    subst hprogram hsettings hidentity hhost hdue
    rw [SameButGlobals, ← hstate]

theorem call_sameButGlobals {s t : Session H} (hp : s.program.uses Action.readsGlobals = false)
    (h : SameButGlobals s t) {c : Call} (hc : c ≠ .takePending) :
    (s.call c).2 = (t.call c).2 ∧ SameButGlobals (s.call c).1 (t.call c).1 := by
  rw [sameButGlobals_iff] at h ⊢
  have hstate {u v : State} (huv : Engine.SameButGlobals u v) (isDay : Bool) :
      Engine.SameButGlobals { u with isDay } { v with isDay } := by
    rw [huv]
    rfl
  exact call_matched (lockstep_globals hp s.settings) hstate
    (fun hij isDay => congrArg (fun i : Identity => { i with isDay }) hij) h c
    fun htake => absurd htake hc

omit [Host H] in
/-- Sessions that are opened on two books with the same own record differ in their global
    variables at most. -/
theorem ofBook_sameButGlobals (program : Program) {identity : Identity} (host : H)
    {book book' : Book} (settings : Settings) (entropy : UInt64)
    (hown : book.findLocal identity = book'.findLocal identity) :
    SameButGlobals (ofBook program identity host book settings entropy)
      (ofBook program identity host book' settings entropy) := by
  simp only [SameButGlobals, ofBook, State.load, hown]

/-! ### The time of day -/

omit [Host H] in
theorem sameButDay_iff {s t : Session H} :
    SameButDay s t ↔
      Matched Engine.SameButDay (fun i j => j = { i with isDay := j.isDay }) s t := by
  constructor
  · intro h
    rw [h]
    exact ⟨rfl, rfl, rfl, rfl, rfl, rfl⟩
  · rintro ⟨hprogram, hsettings, hidentity, hhost, hdue, hstate⟩
    obtain ⟨program, identity, host, settings, state, due⟩ := t
    subst hprogram hsettings hhost hdue
    rw [SameButDay, ← hstate, ← hidentity]

theorem call_sameButDay {s t : Session H} (hp : s.program.uses Action.readsDay = false)
    (h : SameButDay s t) {c c' : Call} (hc : c.SameButDay c') :
    (s.call c).2 = (t.call c').2 ∧ SameButDay (s.call c).1 (t.call c').1 := by
  cases hc with
  | setDay isDay isDay' =>
      refine ⟨rfl, ?_⟩
      rw [h]
      rfl
  | same =>
      -- No record says what time it is.
      have hprogress : s.progress = t.progress := by
        rw [h]
        rfl
      rw [sameButDay_iff] at h ⊢
      have hstate {u v : State} (huv : Engine.SameButDay u v) (isDay : Bool) :
          Engine.SameButDay { u with isDay } { v with isDay } := by
        rw [huv]
        rfl
      have hidentity {i j : Identity} (hij : j = { i with isDay := j.isDay }) (isDay : Bool) :
          { j with isDay } = { { i with isDay } with isDay } := by
        rw [hij]
      exact call_matched (lockstep_day hp s.settings) hstate hidentity h c fun _ => hprogress

omit [Host H] in
/-- Sessions that are opened by day and by night differ in the time of day at most. -/
theorem ofBook_sameButDay (program : Program) (identity : Identity) (isDay : Bool) (host : H)
    (book : Book) (settings : Settings) (entropy : UInt64) :
    SameButDay (ofBook program identity host book settings entropy)
      (ofBook program { identity with isDay } host book settings entropy) := rfl

/-- Global variables and the time of day are read by their readers alone. In a program without a
    conditional on globals, two sessions that differ in their global variables alone give equal
    replies to the same calls, whatever the actions write to the globals on the way, and still
    differ in these alone. In a program without a predicate on the day and without a night choice
    that has options, the same holds of two sessions that differ in the time of day alone, even
    if the calls set it differently. A record of the progress is not asked for in the first case:
    it holds the global variables. -/
theorem globals_and_day_unread (program : Program) :
    (program.uses Action.readsGlobals = false →
      ∀ s t : Session H, s.program = program → SameButGlobals s t →
        ∀ calls : List Call, .takePending ∉ calls →
          s.replies calls = t.replies calls ∧ SameButGlobals (s.after calls) (t.after calls)) ∧
    (program.uses Action.readsDay = false →
      ∀ s t : Session H, s.program = program → SameButDay s t →
        ∀ calls calls' : List Call, List.Forall₂ Call.SameButDay calls calls' →
          s.replies calls = t.replies calls' ∧ SameButDay (s.after calls) (t.after calls')) := by
  -- The test is of the program, which no call changes.
  have hkept {s : Session H} {test : Action → Bool} (hs : s.program.uses test = false) (c : Call) :
      (s.call c).1.program.uses test = false := by
    rw [(call_fixed s c).1]
    exact hs
  constructor
  · rintro hp s t rfl h calls hcalls
    have hsame : List.Forall₂ (fun c c' => c = c' ∧ c ≠ Call.takePending) calls calls := by
      refine List.forall₂_same.2 fun c hc => ⟨rfl, ?_⟩
      rintro rfl
      exact hcalls hc
    obtain ⟨hreplies, -, hafter⟩ := after_related
      (R := fun s t => s.program.uses Action.readsGlobals = false ∧ SameButGlobals s t)
      (fun hst hc => by
        obtain ⟨rfl, hc⟩ := hc
        obtain ⟨hreply, hcall⟩ := call_sameButGlobals hst.1 hst.2 hc
        exact ⟨hreply, hkept hst.1 _, hcall⟩)
      ⟨hp, h⟩ hsame
    exact ⟨hreplies, hafter⟩
  · rintro hp s t rfl h calls calls' hcalls
    obtain ⟨hreplies, -, hafter⟩ := after_related
      (R := fun s t => s.program.uses Action.readsDay = false ∧ SameButDay s t)
      (fun hst hc => by
        obtain ⟨hreply, hcall⟩ := call_sameButDay hst.1 hst.2 hc
        exact ⟨hreply, hkept hst.1 _, hcall⟩)
      ⟨hp, h⟩ hcalls
    exact ⟨hreplies, hafter⟩

/-- A change of a global that succeeds on one book and is refused on the other, and a scene that
    two callers play by day and by night. -/
theorem globals_and_day_unread_in_scene :
    let program := Program.ofActions
      [.modifyGlobal ⟨"fame", .add, .number 1⟩, .nightChoice [],
        .whenLocal ⟨some "seen", .equal, .bool true, 4⟩, .finish,
        .choice [⟨"inn", "Stay"⟩], .label "inn", .checkpoint (some "inn")]
    let identity : Identity := ⟨⟨"villager", "Mira"⟩, "player-1", true⟩
    let famous : Book := { globals := [⟨⟨"villager", "Mira"⟩, .ofList [("fame", .number 2)]⟩] }
    let odd : Book := { globals := [⟨⟨"villager", "Mira"⟩, .ofList [("fame", .text "much")]⟩] }
    let s := ofBook program identity SilentHost.silent famous {} 0
    let t := ofBook program identity SilentHost.silent odd {} 0
    let u := ofBook program { identity with isDay := false } SilentHost.silent famous {} 0
    let calls : List Call := [.start, .setDay true, .choose "inn"]
    let calls' : List Call := [.start, .setDay false, .choose "inn"]
    program.uses Action.readsGlobals = false ∧ program.uses Action.readsDay = false ∧
      s.replies calls = t.replies calls ∧ SameButGlobals (s.after calls) (t.after calls) ∧
      s.replies calls = u.replies calls' ∧ SameButDay (s.after calls) (u.after calls') := by
  intro program identity famous odd s t u calls calls'
  have hglobals : program.uses Action.readsGlobals = false := by decide
  have hday : program.uses Action.readsDay = false := by decide
  have hst : SameButGlobals s t := ofBook_sameButGlobals program SilentHost.silent {} 0 rfl
  have hsu : SameButDay s u :=
    ofBook_sameButDay program identity false SilentHost.silent famous {} 0
  have hcalls : List.Forall₂ Call.SameButDay calls calls' :=
    .cons (.same _) (.cons (.setDay _ _) (.cons (.same _) .nil))
  obtain ⟨hreplies, hafter⟩ :=
    (globals_and_day_unread program).1 hglobals s t rfl hst calls (by decide)
  obtain ⟨hreplies', hafter'⟩ :=
    (globals_and_day_unread program).2 hday s u rfl hsu calls calls' hcalls
  exact ⟨hglobals, hday, hreplies, hafter, hreplies', hafter'⟩

end Session

end Parley
