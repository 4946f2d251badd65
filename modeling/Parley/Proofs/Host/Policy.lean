/-
  Parley.Proofs.Host.Policy

  Which commands run. A policy looks at a command without the white space in front of it, so that
  white space can neither hide a command nor give it away (`Policy.allows_spaced`). A ledger runs
  the commands that its policy allows and no others, in order (`Ledger.executed_applyAll`).

  A blocked text that begins with white space itself is never found, for nothing is left in front
  of what is looked at. Such a text is void (`Policy.allows_effective`), and a command that begins
  with it as written may run (`Ledger.blocked_text_run`). With this exception no command runs that
  begins with a blocked text, whether as written or without the white space in front of it.
-/
import Parley.Proofs.Session.Delivery
import Parley.Proofs.Text.Blank

namespace Parley

open Text (isBlank dropBlank)

/-! ### White space -/

namespace Text

/-- Whether a text has white space in front. -/
def startsBlank (s : String) : Bool := s.toList.head?.any isBlank

/-- The second text is the first with some white space in front. -/
def Spaced (s t : String) : Prop :=
  ∃ blanks : List Char, (∀ c ∈ blanks, isBlank c = true) ∧ t.toList = blanks ++ s.toList

theorem Spaced.refl (s : String) : Spaced s s := by
  refine ⟨[], fun c hc => ?_, rfl⟩
  cases hc

theorem Spaced.dropBlank_eq {s t : String} (h : Spaced s t) :
    dropBlank t.toList = dropBlank s.toList := by
  obtain ⟨blanks, hblanks, ht⟩ := h
  rw [ht, dropBlank_append hblanks]

end Text

open Text (startsBlank Spaced)

/-! ### Policies -/

namespace Policy

theorem allows_iff {p : Policy} {command : String} :
    p.allows command = true ↔
      ∀ text ∈ p.blocked, ¬ text.toList <+: dropBlank command.toList := by
  simp [allows]

/-- White space in front of a command does not matter. -/
theorem allows_spaced (p : Policy) {s t : String} (h : Spaced s t) :
    p.allows t = p.allows s := by
  rw [allows, allows, h.dropBlank_eq]

/-- What begins with white space is not found where there is none. -/
theorem not_prefix_of_startsBlank {text : String} (h : startsBlank text = true) (cs : List Char) :
    ¬ text.toList <+: dropBlank cs := by
  rintro ⟨rest, hrest⟩
  obtain ⟨c, hc, hblank⟩ := (Option.any_eq_true _ _).1 h
  have hhead : (dropBlank cs).head? = some c := by
    rw [← hrest, List.head?_append, hc]
    rfl
  rw [Text.head?_dropBlank hhead] at hblank
  cases hblank

/-- An allowed command begins with no blocked text as written, but for those that begin with
    white space. -/
theorem startsBlank_of_allows {p : Policy} {command text : String} (h : p.allows command = true)
    (htext : text ∈ p.blocked) (hbegins : text.toList <+: command.toList) :
    startsBlank text = true := by
  by_contra hblank
  refine allows_iff.1 h text htext ?_
  rw [startsBlank] at hblank
  cases hchars : text.toList with
  | nil => exact List.nil_prefix
  | cons c cs =>
      -- The command begins like the text, so there is no white space to drop.
      obtain ⟨rest, hrest⟩ := hbegins
      have hc : isBlank c = false := by simpa [hchars] using hblank
      rw [← hrest, hchars, List.cons_append, Text.dropBlank_of_head hc, ← List.cons_append]
      exact List.prefix_append _ rest

/-- The policy without the texts that begin with white space. -/
def effective (p : Policy) : Policy := ⟨p.blocked.filter fun text => !startsBlank text⟩

/-- A text that begins with white space blocks nothing. -/
theorem allows_effective (p : Policy) (command : String) :
    p.effective.allows command = p.allows command := by
  rw [Bool.eq_iff_iff, allows_iff, allows_iff]
  constructor
  · intro h text htext
    cases hblank : startsBlank text with
    | true => exact not_prefix_of_startsBlank hblank _
    | false => exact h text (List.mem_filter.2 ⟨htext, by rw [hblank]; rfl⟩)
  · intro h text htext
    exact h text (List.mem_filter.1 htext).1

end Policy

/-! ### Ledgers -/

/-- The same effect, with white space in front of the command if it is one. -/
inductive Effect.Respaced : Effect → Effect → Prop
  | same (e : Effect) : Respaced e e
  | command {s t : String} (h : Spaced s t) : Respaced (.command s) (.command t)

namespace Ledger

/-- A ledger runs just the commands that its policy allows, in order. -/
theorem executed_applyAll (l : Ledger) (effects : List Effect) :
    (Host.applyAll l effects).executed =
      l.executed ++ (effects.filterMap Effect.command?).filter l.policy.allows := by
  induction effects generalizing l with
  | nil => exact (List.append_nil _).symm
  | cons e effects ih =>
      have hrest := ih (Host.apply l e)
      rw [policy_apply, executed_apply, List.append_assoc, ← List.filter_append,
        ← List.filterMap_append] at hrest
      exact hrest

end Ledger

/-- White space in front of commands changes neither which of them are allowed nor their order. -/
theorem Policy.forall₂_allowed (p : Policy) {effects effects' : List Effect}
    (h : List.Forall₂ Effect.Respaced effects effects') :
    List.Forall₂ Spaced ((effects.filterMap Effect.command?).filter p.allows)
      ((effects'.filterMap Effect.command?).filter p.allows) := by
  induction h with
  | nil => exact .nil
  | @cons e e' effects effects' hhead _ ih =>
      have hcommand (s t : String) (h : Spaced s t) :
          List.Forall₂ Spaced ((s :: effects.filterMap Effect.command?).filter p.allows)
            ((t :: effects'.filterMap Effect.command?).filter p.allows) := by
        rw [List.filter_cons, List.filter_cons, p.allows_spaced h]
        split
        · exact .cons h ih
        · exact ih
      cases hhead with
      | command h => exact hcommand _ _ h
      | same =>
          cases e with
          | command s => exact hcommand s s (.refl s)
          | giveItem item amount => exact ih
          | checkpoint label => exact ih

namespace Ledger

/-- Blocked commands do not run. A ledger that has run nothing yet runs, of any effects, just the
    commands that its policy allows. None of them begins with a blocked text, when the white space
    in front of it is dropped; none begins with one as written either, unless that text begins
    with white space itself, and such texts block nothing at all. With any white space put in
    front of any of the commands, the same ones run. -/
theorem blocked_never_run (inventory : Table Nat) (policy : Policy) (effects : List Effect) :
    let l : Ledger := ⟨inventory, policy, []⟩
    let run := (Host.applyAll l effects).executed
    run = (effects.filterMap Effect.command?).filter policy.allows ∧
      (∀ command ∈ run, ∀ text ∈ policy.blocked,
        ¬ text.toList <+: dropBlank command.toList ∧
          (text.toList <+: command.toList → startsBlank text = true)) ∧
      (∀ command, policy.effective.allows command = policy.allows command) ∧
      ∀ effects', List.Forall₂ Effect.Respaced effects effects' →
        List.Forall₂ Spaced run (Host.applyAll l effects').executed := by
  intro l run
  have hexecuted (effects : List Effect) : (Host.applyAll l effects).executed =
      (effects.filterMap Effect.command?).filter policy.allows :=
    executed_applyAll l effects
  have hrun : run = _ := hexecuted effects
  refine ⟨hrun, fun command hcommand text htext => ?_, policy.allows_effective,
    fun effects' hrespaced => ?_⟩
  · have hallowed : policy.allows command = true := by
      rw [hrun] at hcommand
      exact (List.mem_filter.1 hcommand).2
    exact ⟨Policy.allows_iff.1 hallowed text htext, Policy.startsBlank_of_allows hallowed htext⟩
  · rw [hrun, hexecuted effects']
    exact policy.forall₂_allowed hrespaced

/-- A blocked command, one that is not, and both again with white space in front. -/
theorem blocked_never_run_spaced :
    let policy : Policy := ⟨["/op", "\u3000/say"]⟩
    let l : Ledger := ⟨.empty, policy, []⟩
    let effects : List Effect := [.command "/op me", .giveItem "coin" 1, .command "/say hi"]
    let effects' : List Effect :=
      [.command "\u2003 /op me", .giveItem "coin" 1, .command "\u3000/say hi"]
    List.Forall₂ Effect.Respaced effects effects' ∧
      (Host.applyAll l effects).executed = ["/say hi"] ∧
      List.Forall₂ Spaced (Host.applyAll l effects).executed
        (Host.applyAll l effects').executed := by
  intro policy l effects effects'
  have hrespaced : List.Forall₂ Effect.Respaced effects effects' :=
    .cons (.command ⟨['\u2003', ' '], by simp [isBlank], rfl⟩) <| .cons (.same _) <|
      .cons (.command ⟨['\u3000'], by simp [isBlank], rfl⟩) .nil
  obtain ⟨hexecuted, -, -, hspaced⟩ := blocked_never_run .empty policy effects
  refine ⟨hrespaced, ?_, hspaced effects' hrespaced⟩
  rw [hexecuted]
  decide +kernel

/-- A command that begins with a blocked text as written runs, for the text begins with white
    space. -/
theorem blocked_text_run :
    let policy : Policy := ⟨[" /op"]⟩
    let l : Ledger := ⟨.empty, policy, []⟩
    ∃ command ∈ (Host.applyAll l [.command " /op me"]).executed,
      ∃ text ∈ policy.blocked, text.toList <+: command.toList := by
  intro policy l
  have hrun : (Host.applyAll l [.command " /op me"]).executed = [" /op me"] := by
    rw [executed_applyAll]
    decide +kernel
  exact ⟨_, by rw [hrun]; exact List.mem_singleton_self _, _, List.mem_singleton_self _,
    by decide +kernel⟩

end Ledger

end Parley
