/-
  Parley.Proofs.Session.OnScreen

  What is on screen after a history. The parts of a screen live for different lengths of time:

    * sprites and the spoken text stay until an action changes them, so they are what all actions
      of the history made of them (`recorded_sprites`, `recorded_content`);
    * the command and the sound end where the next slice begins, so they are what the actions of
      the last slice made of them (`written_command`, `written_sound`).

  All but the sprites are of one kind: the last action that has something to say is the one that
  counts (`foldl_or`). The sprites are those of a stage (`Stage.Shows`).
-/
import Parley.Proofs.Screen.Stage
import Parley.Proofs.Session.Delivery

namespace Parley

variable {H : Type} [Host H]

/-! ### Parts of a screen -/

namespace Action

/-- The text that an action shows. Empty text is not shown. -/
def spoken? : Action → Option String
  | .line _ (some text) _ => if text.isEmpty then none else some text
  | _ => none

/-- The command that an action issues. -/
def command? : Action → Option String
  | .command text => some text
  | _ => none

/-- The sound that an action plays. -/
def sound? : Action → Option String
  | .playSound sound => some sound
  | _ => none

section Paint

variable (isDay : Bool) (a : Action) (x : Screen)

theorem paint_sprites : (a.paint isDay x).sprites = a.arrange x.sprites := by
  cases a with
  | choice options => cases options <;> rfl
  | nightChoice options => cases isDay <;> cases options <;> rfl
  | _ => rfl

theorem paint_content : (a.paint isDay x).content = a.spoken?.or x.content := by
  cases a with
  | line speaker content voice =>
      cases content with
      | none => rfl
      | some text =>
          simp only [paint, Screen.setLine, spoken?]
          split <;> rfl
  | choice options => cases options <;> rfl
  | nightChoice options => cases isDay <;> cases options <;> rfl
  | _ => rfl

theorem paint_command : (a.paint isDay x).command = a.command?.or x.command := by
  cases a with
  | choice options => cases options <;> rfl
  | nightChoice options => cases isDay <;> cases options <;> rfl
  | _ => rfl

theorem paint_sound : (a.paint isDay x).sound = a.sound?.or x.sound := by
  cases a with
  | choice options => cases options <;> rfl
  | nightChoice options => cases isDay <;> cases options <;> rfl
  | _ => rfl

end Paint

theorem spoken?_ne_empty (a : Action) : a.spoken? ≠ some "" := by
  unfold spoken?
  split
  · split
    · nofun
    · rename_i h
      rintro ⟨⟩
      exact h rfl
  · nofun

/-- The commands of actions are those that they ask the host to carry out. -/
theorem filterMap_command?_requests (a : Action) :
    a.requests.filterMap Effect.command? = a.command?.toList := by
  cases a <;> rfl

end Action

namespace Engine

variable (settings : Settings)

theorem recorded_sprites :
    Recorded settings (fun s => s.screen.sprites) Action.arrange where
  performed s a := a.paint_sprites s.isDay s.screen
  moved _ _ _ := rfl
  kept _ _ _ _ _ := rfl

theorem recorded_content :
    Recorded settings (fun s => s.screen.content) (fun a text => a.spoken?.or text) where
  performed s a := a.paint_content s.isDay s.screen
  moved _ _ _ := rfl
  kept _ _ _ _ _ := rfl

theorem written_command :
    Written settings (fun s => s.screen.command) (fun a text => a.command?.or text) where
  performed s a := a.paint_command s.isDay s.screen
  moved _ _ _ := rfl

theorem written_sound :
    Written settings (fun s => s.screen.sound) (fun a sound => a.sound?.or sound) where
  performed s a := a.paint_sound s.isDay s.screen
  moved _ _ _ := rfl

end Engine

/-- The last of what some actions say, or else what was said before. -/
theorem foldl_or (f : Action → Option String) (actions : List Action) (before : Option String) :
    actions.foldl (fun said a => (f a).or said) before =
      (actions.filterMap f).getLast?.or before := by
  induction actions generalizing before with
  | nil => rfl
  | cons a actions ih =>
      rw [List.foldl_cons, ih, List.filterMap_cons]
      cases f a with
      | none => rfl
      | some text =>
          -- What the rest says comes last, so it counts if there is any.
          cases hrest : (actions.filterMap f).getLast? with
          | none => simp [List.getLast?_eq_none_iff.1 hrest]
          | some last => simp [List.getLast?_cons, hrest]

theorem filterMap_command?_flatMap (actions : List Action) :
    (actions.flatMap Action.requests).filterMap Effect.command? =
      actions.filterMap Action.command? := by
  induction actions with
  | nil => rfl
  | cons a actions ih =>
      rw [List.flatMap_cons, List.filterMap_append, ih, a.filterMap_command?_requests,
        List.filterMap_cons]
      cases a.command? <;> rfl

/-! ### Slices -/

namespace Engine

/-- An answer or going on, if it is accepted, leads to a state that runs. -/
theorem active_of_accepted {p : Program} {s r : State} {input : Input} (hinput : input ≠ .stop)
    (h : accepted? (resume p s input) = some r) : Active r := by
  cases input with
  | stop => exact absurd rfl hinput
  | choose label =>
      simp only [resume, choose] at h
      split at h
      · cases h
      · split at h
        · cases h
        · split at h
          · cases h
          · cases h
            exact .inr rfl
  | advance =>
      simp only [resume, advance] at h
      split at h
      · cases h
      · cases h
        exact .inr rfl

end Engine

namespace Session

open Engine

/-- Whether a call begins a new slice: the first start, or an input that is accepted. -/
def BeginsSlice (s : Session H) : Call → Prop
  | .start => s.state.status = .idle
  | .choose label => ∃ output, (s.choose label).2 = .ok output
  | .advance => ∃ output, s.advance.2 = .ok output
  | .stop | .setDay _ | .takePending | .saved => False

/-- A call that runs on from an active state. -/
structure RunsFrom (s : Session H) (c : Call) (r : State) : Prop where
  active : Active r
  resumption : s.resumption? c = some r
  call : s.call c = ((s.runFrom r).1, .ran (s.runFrom r).2)

theorem runsFrom_of_submit {s : Session H} {c : Call} (input : Input) (hinput : input ≠ .stop)
    (hresume : s.resumption? c = accepted? (Engine.resume s.program s.state input))
    (hcall : s.call c = ((s.submit input).1, .ran (s.submit input).2))
    (hok : ∃ output, (s.submit input).2 = .ok output) : ∃ r, s.RunsFrom c r := by
  obtain ⟨output, hok⟩ := hok
  unfold submit at hcall hok
  split at hcall
  · rename_i state e heq
    rw [heq] at hok
    cases hok
  · rename_i state heq
    rw [heq] at hresume
    have haccepted : accepted? (Engine.resume s.program s.state input) = some state := by
      rw [heq]
      rfl
    exact ⟨state, active_of_accepted hinput haccepted, hresume, hcall⟩

theorem BeginsSlice.runs {s : Session H} {c : Call} (h : s.BeginsSlice c) :
    ∃ r, s.RunsFrom c r := by
  cases c with
  | start =>
      have hidle : s.state.status = .idle := h
      refine ⟨{ s.state with status := .running }, .inr rfl, ?_, ?_⟩
      · rw [resumption?, hidle]
      · rw [call, start_of_active (.inl hidle)]
  | choose label => exact runsFrom_of_submit (.choose label) (by simp) rfl rfl h
  | advance => exact runsFrom_of_submit .advance (by simp) rfl rfl h
  | stop | setDay _ | takePending | saved => exact h.elim

/-- A part that starts anew with every slice is after the slice what its actions said last. -/
theorem RunsFrom.oneShot {s : Session H} {c : Call} {r : State} (h : s.RunsFrom c r)
    {part : State → Option String} {f : Action → Option String}
    (hpart : Written s.settings part (fun a text => (f a).or text))
    (hfresh : ∀ t : State, part { t with screen := t.screen.clearOneShots } = none) :
    part (s.call c).1.state = ((s.executed c).filterMap f).getLast? := by
  -- The run begins where the one-shots have ended, so nothing is left of the slices before.
  have hrun := hpart.run (p := s.program) h.active
  rw [foldl_or, hfresh, Option.or_none] at hrun
  rw [h.call, executed, h.resumption]
  exact hrun

/-- The text on screen after a history is the last one that was spoken. -/
theorem after_content (s : Session H) (calls : List Call) :
    (s.after calls).state.screen.content =
      ((s.trace calls).filterMap Action.spoken?).getLast?.or s.state.screen.content :=
  (after_recorded (recorded_content s.settings) calls).trans (foldl_or _ _ _)

/-- What is on screen after a history is consistent with what was executed. The ids of the sprites
    are distinct, and the sprites are those of the stage on which all actions were played. No empty
    text is ever shown, and once there is a text there always is one. After a call that began a new
    slice, the command is the last one in the output of the call, and the sound is the last one
    that the slice played; if there was none, there is none on screen. -/
theorem on_screen_after (program : Program) (identity : Identity) (host : H) (book : Book)
    (settings : Settings) (entropy : UInt64) (calls : List Call) :
    let opened := ofBook program identity host book settings entropy
    let s := opened.after calls
    (s.state.screen.sprites.map Sprite.id).Nodup ∧
    s.state.screen.sprites = (Stage.after (opened.trace calls)).sprites ∧
    s.state.screen.content ≠ some "" ∧
    (s.state.screen.content ≠ none →
      ∀ later, (s.after later).state.screen.content ≠ none) ∧
    ∀ c, s.BeginsSlice c → ∃ output, (s.call c).2 = .ran (.ok output) ∧
      (s.call c).1.state.screen.command = (output.effects.filterMap Effect.command?).getLast? ∧
      (s.call c).1.state.screen.sound = ((s.executed c).filterMap Action.sound?).getLast? := by
  intro opened s
  -- A session begins with an empty screen.
  have hshows : (Stage.after (opened.trace calls)).Shows s.state.screen.sprites := by
    have hsprites := after_recorded (recorded_sprites opened.settings) calls
    rw [hsprites]
    exact Stage.shows_empty.playAll (opened.trace calls)
  refine ⟨?_, hshows.eq_sprites, ?_, fun hsome later => ?_, fun c hc => ?_⟩
  · rw [hshows.order]
    exact hshows.nodup
  · have hcontent : s.state.screen.content =
        ((opened.trace calls).filterMap Action.spoken?).getLast? :=
      (after_content opened calls).trans Option.or_none
    intro hempty
    rw [hcontent] at hempty
    obtain ⟨a, -, ha⟩ := List.mem_filterMap.1 (List.mem_of_getLast? hempty)
    exact a.spoken?_ne_empty ha
  · rw [after_content]
    intro hnone
    exact hsome (Option.or_eq_none_iff.1 hnone).2
  · obtain ⟨r, hr⟩ := hc.runs
    have hcommand := hr.oneShot (written_command s.settings) fun _ => rfl
    have hsound := hr.oneShot (written_sound s.settings) fun _ => rfl
    refine ⟨(Engine.run s.program s.settings r).2, by rw [hr.call]; rfl, ?_, hsound⟩
    rw [run_effects, filterMap_command?_flatMap]
    rw [executed, hr.resumption] at hcommand
    exact hcommand

/-- Two sprites change places as one of them leaves and comes back, and in the second slice nothing
    is left of the sound of the first. -/
theorem on_screen_after_two_slices :
    let program := Program.ofActions
      [.showSprite "mira" none none none, .showSprite "kai" none none none, .playSound "bell",
        .command "/say hello", .line (some "Mira") (some "Hello.") none,
        .choice [⟨"go", "Go"⟩], .label "go", .showSprite "kai" none (some "LEFT") none,
        .removeSprite "mira", .showSprite "mira" none none none, .command "/say bye",
        .line none (some "") none]
    let identity : Identity := ⟨⟨"villager", "Mira"⟩, "player-1", true⟩
    let opened := ofBook program identity SilentHost.silent {} {} 0
    let s := opened.after [.start]
    s.BeginsSlice (.choose "go") ∧
      s.state.screen.sprites.map Sprite.id = ["mira", "kai"] ∧
      s.state.screen.sprites = (Stage.after (opened.trace [.start])).sprites ∧
      s.state.screen.sound = some "bell" ∧
      (s.executed (.choose "go")).filterMap Action.sound? = [] ∧
      (s.call (.choose "go")).1.state.screen.sprites.map Sprite.id = ["kai", "mira"] ∧
      (s.call (.choose "go")).1.state.screen.content = some "Hello." ∧
      ∃ output, (s.call (.choose "go")).2 = .ran (.ok output) ∧
        (s.call (.choose "go")).1.state.screen.command =
          (output.effects.filterMap Effect.command?).getLast? ∧
        (s.call (.choose "go")).1.state.screen.sound = none := by
  intro program identity opened s
  have hs : s = (ofBook program identity SilentHost.silent {} {} 0).after [.start] := rfl
  have hbegins : s.BeginsSlice (.choose "go") := by
    have hok : (s.choose "go").2.isOk = true := by decide +kernel
    cases hresult : (s.choose "go").2 with
    | ok output => exact ⟨output, hresult⟩
    | error e =>
        rw [hresult] at hok
        cases hok
  have hsilent : (s.executed (.choose "go")).filterMap Action.sound? = [] := by decide +kernel
  obtain ⟨-, hstage, -, -, hslice⟩ :=
    on_screen_after program identity SilentHost.silent {} {} 0 [.start]
  rw [← hs] at hstage hslice
  obtain ⟨output, hreply, hcommand, hsound⟩ := hslice (.choose "go") hbegins
  rw [hsilent] at hsound
  exact ⟨hbegins, by decide +kernel, hstage, by decide +kernel, hsilent, by decide +kernel,
    by decide +kernel, output, hreply, hcommand, hsound⟩

end Session

end Parley
