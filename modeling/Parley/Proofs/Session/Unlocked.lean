/-
  Parley.Proofs.Session.Unlocked

  The events that idle chat draws from. Unlocking puts an event at the end of a list unless it is
  there, so after some actions the list holds their events in the order in which they were first
  unlocked (`foldl_addEvent`). If no other action writes the variable of this list, that is what
  the variable holds before and after every step of a history (`Scope.Lists`), and the list of an
  earlier moment is the beginning of every later one.

  An idle chat draws one of these events. It ends the session if there is none, goes on behind the
  label of the event, or aborts if there is no such label (`Chats`).
-/
import Parley.Proofs.Session.Announced
import Parley.Proofs.Session.Seed
import Parley.Proofs.Program.Labels

namespace Parley

variable {H : Type} [Host H]

namespace Action

/-- The events that an action unlocks. -/
def events : Action → List String
  | .unlock events => events
  | _ => []

def unlocks : Action → Bool
  | .unlock _ => true
  | _ => false

theorem events_of_not_unlocks {a : Action} (h : a.unlocks = false) : a.events = [] := by
  cases a with
  | unlock => cases h
  | _ => rfl

end Action

/-! ### The list -/

/-- The list of the different elements holds none of them twice. -/
theorem nodup_eraseDups {α : Type} [BEq α] [LawfulBEq α] (l : List α) : l.eraseDups.Nodup := by
  cases l with
  | nil => exact List.nodup_nil
  | cons a rest =>
      rw [List.eraseDups_cons, List.nodup_cons]
      refine ⟨?_, nodup_eraseDups (rest.filter fun b => !b == a)⟩
      -- The first element was taken out of the rest before its duplicates are erased.
      rw [List.mem_eraseDups]
      simp
termination_by l.length
decreasing_by exact Nat.lt_succ_of_le (List.length_filter_le _ rest)

namespace Engine

theorem addEvent_eraseDups (events : List String) (event : String) :
    addEvent events.eraseDups event = (events ++ [event]).eraseDups := by
  rw [List.eraseDups_append, addEvent]
  by_cases h : event ∈ events
  · simp [List.removeAll, h]
  · simp [List.removeAll, h, List.eraseDups_cons]

/-- Adding events one after another keeps every event where it was unlocked first. -/
theorem foldl_addEvent (new events : List String) :
    new.foldl addEvent events.eraseDups = (events ++ new).eraseDups := by
  induction new generalizing events with
  | nil => rw [List.foldl_nil, List.append_nil]
  | cons event new ih =>
      rw [List.foldl_cons, addEvent_eraseDups, ih, List.append_assoc, List.singleton_append]

end Engine

/-- What is first in a list stays in front of what comes later. -/
theorem eraseDups_prefix_append (as bs : List String) : as.eraseDups <+: (as ++ bs).eraseDups := by
  rw [List.eraseDups_append]
  exact List.prefix_append _ _

/-! ### The variable -/

/-- The variable holds the events that some actions unlocked, each once and in the order in which
    they were unlocked first; it is absent if none of them unlocks anything. -/
def Scope.Lists (scope : Scope) (var : String) (actions : List Action) : Prop :=
  (scope.get? var = none ∧ ∀ a ∈ actions, a.unlocks = false) ∨
  ∃ events, scope.get? var = some (.list events) ∧ events.Nodup ∧
    (∀ event, event ∈ events ↔ ∃ a ∈ actions, event ∈ a.events) ∧
    events = (actions.flatMap Action.events).eraseDups

/-- The same of the value that the variable holds. -/
def unlockedBy (actions : List Action) : Option Value :=
  if actions.any Action.unlocks then some (.list (actions.flatMap Action.events).eraseDups) else none

theorem Scope.lists_of_unlockedBy {scope : Scope} {var : String} {actions : List Action}
    (h : scope.get? var = unlockedBy actions) : scope.Lists var actions := by
  unfold unlockedBy at h
  split at h
  · refine .inr ⟨_, h, nodup_eraseDups _, fun event => ?_, rfl⟩
    rw [List.mem_eraseDups, List.mem_flatMap]
  · rename_i hnone
    exact .inl ⟨h, by simpa using hnone⟩

theorem Scope.Lists.unlockedEvents_eq {scope : Scope} {var : String} {actions : List Action}
    (h : scope.Lists var actions) :
    Engine.unlockedEvents scope var = (actions.flatMap Action.events).eraseDups := by
  rcases h with ⟨habsent, hnone⟩ | ⟨events, hlist, -, -, rfl⟩
  · have hnil : actions.flatMap Action.events = [] := by
      rw [List.flatMap_eq_nil_iff]
      exact fun a ha => Action.events_of_not_unlocks (hnone a ha)
    rw [Engine.unlockedEvents, habsent, hnil]
    rfl
  · rw [Engine.unlockedEvents, hlist]

/-- No event is listed just if the variable is absent or the list is empty. -/
theorem Scope.Lists.unlockedEvents_eq_nil_iff {scope : Scope} {var : String}
    {actions : List Action} (h : scope.Lists var actions) :
    Engine.unlockedEvents scope var = [] ↔
      scope.get? var = none ∨ scope.get? var = some (.list []) := by
  rcases h with ⟨habsent, -⟩ | ⟨events, hlist, -⟩
  · simp [Engine.unlockedEvents, habsent]
  · simp [Engine.unlockedEvents, hlist]

section Variable

variable {settings : Settings} (hvars : settings.checkpointVar ≠ settings.unlockedVar)

include hvars

theorem Action.get?_unlockedVar {a : Action} {scope : Scope} {actions : List Action}
    (hassigns : a.assigns settings.unlockedVar = false)
    (h : scope.get? settings.unlockedVar = unlockedBy actions) :
    (a.writeLocals settings scope).get? settings.unlockedVar = unlockedBy (actions ++ [a]) := by
  cases hunlocks : a.unlocks with
  | false =>
      have hwrites : a.writes settings settings.unlockedVar = false := by
        cases a with
        | unlock => cases hunlocks
        | checkpoint => simpa [writes] using hvars
        | _ => exact hassigns
      rw [get?_writeLocals scope hwrites, h]
      simp [unlockedBy, hunlocks, events_of_not_unlocks hunlocks]
  | true =>
      cases a with
      | unlock new =>
          -- The list so far is the one of the actions so far, also if the variable is absent.
          have hevents := (Scope.lists_of_unlockedBy h).unlockedEvents_eq
          simp only [writeLocals, Table.get?_insert_self, hevents, Engine.foldl_addEvent]
          simp [unlockedBy, unlocks, events]
      | _ => cases hunlocks

/-- The variable holds what the actions unlocked, if they do not write it otherwise. -/
theorem Scope.get?_unlockedVar {actions : List Action}
    (hassigns : ∀ a ∈ actions, a.assigns settings.unlockedVar = false) :
    (Scope.writtenBy .empty settings actions).get? settings.unlockedVar = unlockedBy actions := by
  induction actions using List.reverseRecOn with
  | nil => rfl
  | append_singleton actions a ih =>
      have hbefore := ih fun b hb => hassigns b (List.mem_append_left [a] hb)
      rw [writtenBy, List.foldl_append]
      exact Action.get?_unlockedVar hvars (hassigns a (by simp)) hbefore

end Variable

/-! ### Idle chat -/

namespace Engine

/-- What an idle chat at a position comes to, if the given events are unlocked. -/
inductive Chats (p : Program) (events : List String) (position : Nat) (t : Transition) : Prop where
  | exhausted (hnone : events = []) (houtcome : t.outcome = .finished)
      (hstatus : t.state.status = .finished .idleChatExhausted)
  | goOn {label : String} {found : Nat} (hmem : label ∈ events)
      (hfound : p.resolve label = some found) (houtcome : t.outcome = .proceed)
      (hpc : t.state.pc = found + 1)
  | lost {label : String} (hmem : label ∈ events) (hlost : p.resolve label = none)
      (houtcome : t.outcome = .aborted (.unresolvedLabel label position))
      (hstatus : t.state.status = .aborted (.unresolvedLabel label position))

theorem step_chats {p : Program} (settings : Settings) {s : State} (hs : Active s)
    (hslot : p.fetch s.pc = .action .idleChat) :
    Chats p (unlockedEvents s.locals settings.unlockedVar) s.pc (step p settings s) := by
  rw [step_of_action hs hslot, flowOf]
  cases hdraw : drawEvent settings s.locals s.seed with
  | none => exact .exhausted (Random.pick_eq_none_iff.1 hdraw) rfl rfl
  | some drawn =>
      -- What is drawn is one of the events. Whether it goes on is a question of its label.
      obtain ⟨label, seed⟩ := drawn
      have hmem := mem_of_pick hdraw
      cases hresolve : p.resolve label with
      | none =>
          have hflow : jump p label s.pc = .abort (.unresolvedLabel label s.pc) := by
            rw [jump, Program.target_eq_none_iff.2 hresolve]
          simp only [Option.map_some, Option.getD_some, hflow]
          exact .lost hmem hresolve rfl rfl
      | some found =>
          have hflow : jump p label s.pc = .goto (found + 1) := by
            rw [jump, Program.target_of_resolve hresolve]
          simp only [Option.map_some, Option.getD_some, hflow]
          exact .goOn hmem hresolve rfl rfl

theorem Chats.finished_iff {p : Program} {events : List String} {position : Nat} {t : Transition}
    (h : Chats p events position t) : t.outcome = .finished ↔ events = [] := by
  cases h with
  | exhausted hnone houtcome => simp [hnone, houtcome]
  | goOn hmem _ houtcome => simp [List.ne_nil_of_mem hmem, houtcome]
  | lost hmem _ houtcome => simp [List.ne_nil_of_mem hmem, houtcome]

end Engine

/-! ### Histories -/

namespace Session

open Engine

/-- Unlocked events form a growing list without duplicates, and idle chat stays inside it. If no
    action creates or changes the variable of this list, and checkpoints are noted in another one,
    then after every history, and before and after every step of it, the variable holds the events
    that were unlocked so far, each once and in the order in which they were unlocked first; so the
    list of one moment is the beginning of every later one. An idle chat ends the session just if
    no event is listed; else it goes on behind the label of a listed event, or aborts if this event
    is no label. -/
theorem unlocked_in_order (program : Program) (identity : Identity) (host : H) (book : Book)
    (settings : Settings) (entropy : UInt64)
    (hvars : settings.checkpointVar ≠ settings.unlockedVar)
    (hassigns : program.assigns settings.unlockedVar = false) (calls later : List Call) :
    let opened := ofBook program identity host book settings entropy
    let var := settings.unlockedVar
    (opened.after calls).state.locals.Lists var (opened.trace calls) ∧
    unlockedEvents (opened.after calls).state.locals var <+:
      unlockedEvents (opened.after (calls ++ later)).state.locals var ∧
    ∀ before s rest, opened.path calls = before ++ s :: rest →
      let next := step program settings s
      s.locals.Lists var (actionsAt program before) ∧
      next.state.locals.Lists var (actionsAt program (before ++ [s])) ∧
      unlockedEvents s.locals var <+: unlockedEvents next.state.locals var ∧
      (program.fetch s.pc = .action .idleChat →
        Chats program (unlockedEvents s.locals var) s.pc next ∧
        (next.outcome = .finished ↔
          s.locals.get? var = none ∨ s.locals.get? var = some (.list []))) := by
  intro opened var
  -- What a session executes stands in its program, which the hypothesis is about.
  have hlists (actions : List Action)
      (hactions : ∀ a ∈ actions, ∃ position, program.fetch position = .action a) :
      (Scope.writtenBy .empty settings actions).Lists var actions := by
    refine Scope.lists_of_unlockedBy (Scope.get?_unlockedVar hvars fun a ha => ?_)
    obtain ⟨position, hslot⟩ := hactions a ha
    exact Program.assigns_of_fetch hassigns hslot
  have hafter (calls : List Call) :
      (opened.after calls).state.locals.Lists var (opened.trace calls) := by
    rw [after_locals]
    exact hlists _ fun a ha => mem_trace ha
  have hstates (states : List State) :
      (Scope.writtenBy .empty settings (actionsAt program states)).Lists var
        (actionsAt program states) :=
    hlists _ fun a ha => mem_actionsAt ha
  refine ⟨hafter calls, ?_, fun before s rest hpath => ?_⟩
  · rw [(hafter calls).unlockedEvents_eq, (hafter (calls ++ later)).unlockedEvents_eq,
      trace_append, List.flatMap_append]
    exact eraseDups_prefix_append _ _
  · intro next
    obtain ⟨hactive, hlocals⟩ := path_recorded (recorded_locals opened.settings) hpath
    have hlocals : s.locals = Scope.writtenBy .empty settings (actionsAt program before) := hlocals
    have hs : s.locals.Lists var (actionsAt program before) := by
      rw [hlocals]
      exact hstates before
    have ht : next.state.locals.Lists var (actionsAt program (before ++ [s])) := by
      -- The step adds its own action to those that lie behind.
      have hstep : next.state.locals = s.locals.writtenBy settings (program.action? s.pc).toList :=
        (recorded_locals settings).toWritten.step hactive
      rw [hstep, hlocals, Scope.writtenBy_writtenBy, ← actionsAt_concat]
      exact hstates (before ++ [s])
    refine ⟨hs, ht, ?_, fun hslot => ?_⟩
    · rw [hs.unlockedEvents_eq, ht.unlockedEvents_eq, actionsAt, actionsAt, List.flatMap_append,
        List.flatMap_append]
      exact eraseDups_prefix_append _ _
    · have hchats := step_chats settings hactive hslot
      exact ⟨hchats, hchats.finished_iff.trans hs.unlockedEvents_eq_nil_iff⟩

/-- Two events are unlocked, and in the next run once more in another order; the idle chat that
    follows draws one of them. -/
theorem unlocked_in_order_of_two_runs :
    let program := Program.ofActions
      [.unlock ["mill", "inn"], .choice [⟨"ask", "Ask"⟩], .label "ask",
        .unlock ["inn", "inn", "mill"], .idleChat, .label "mill", .finish, .label "inn", .finish]
    let identity : Identity := ⟨⟨"villager", "Mira"⟩, "player-1", true⟩
    let opened := ofBook program identity SilentHost.silent {} {} 0
    let calls := [Call.start, .choose "ask"]
    "checkpoint" ≠ "unlocked_events" ∧ program.assigns "unlocked_events" = false ∧
      unlockedEvents (opened.after calls).state.locals "unlocked_events" = ["mill", "inn"] ∧
      (opened.after calls).state.locals.Lists "unlocked_events" (opened.trace calls) ∧
      ∃ s ∈ opened.path calls, program.fetch s.pc = .action .idleChat ∧
        Chats program ["mill", "inn"] s.pc (step program {} s) := by
  intro program identity opened calls
  have hvars : "checkpoint" ≠ "unlocked_events" := by decide
  have hassigns : program.assigns "unlocked_events" = false := by decide +kernel
  have hevents : unlockedEvents (opened.after calls).state.locals "unlocked_events" =
      ["mill", "inn"] := by
    decide +kernel
  have hchat : ∃ s ∈ opened.path calls, s.pc = 4 ∧
      unlockedEvents s.locals "unlocked_events" = ["mill", "inn"] := by
    decide +kernel
  obtain ⟨s, hs, hpc, hlist⟩ := hchat
  have hslot : program.fetch s.pc = .action .idleChat := by
    rw [hpc]
    rfl
  obtain ⟨before, rest, hpath⟩ := List.append_of_mem hs
  have hopened : opened = ofBook program identity SilentHost.silent {} {} 0 := rfl
  obtain ⟨hlists, -, hsteps⟩ :=
    unlocked_in_order program identity SilentHost.silent {} {} 0 hvars hassigns calls []
  rw [← hopened] at hlists hsteps
  obtain ⟨-, -, -, hidle⟩ := hsteps before s rest hpath
  have hchats := (hidle hslot).1
  rw [hlist] at hchats
  exact ⟨hvars, hassigns, hevents, hlists, s, hs, hslot, hchats⟩

end Session

end Parley
