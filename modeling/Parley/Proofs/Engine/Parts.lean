/-
  Parley.Proofs.Engine.Parts

  What an action does, part by part. Executing an action changes every part of a state by a
  function of that part and of very little else:

    * `Action.writeLocals`, `Action.writeGlobals` — the two scopes;
    * `Action.paint` — the screen, given whether it is day;
    * `Engine.reseed` — the seed, which only idle chat draws from;
    * `Action.requests` — the effects, which depend on the action alone;
    * `Engine.flowOf` — where execution goes on, which reads everything but the screen.

  `execute_eq` says that these parts together are `execute`. Position, status and time of day
  are not among them: no action changes those by itself, only `settle` does. What later modules
  prove about steps, they prove about one of the parts.
-/
import Parley.Engine.Run

namespace Parley

/-- The scope after the creation of a variable whose name may be missing. -/
def Scope.createIn (scope : Scope) (var : Option String) (init : Value) : Scope :=
  match var with
  | some name => scope.create name init
  | none => scope

namespace Action

/-- The choices that an action presents; none if it presents nothing. -/
def offers (isDay : Bool) : Action → List ChoiceOption
  | .choice options => options
  | .nightChoice options => if isDay then [] else options
  | _ => []

/-- The screen after an action. -/
def paint (isDay : Bool) (a : Action) (x : Screen) : Screen :=
  match a with
  | .showSprite id location position layout =>
    x.showSprite ⟨id, location, position.getD Sprite.defaultPosition, layout.getD {}⟩
  | .removeSprite id => x.removeSprite id
  | .line speaker content voice => x.setLine speaker content voice
  | .command text => { x with command := some text }
  | .setBackground background => { x with background := some background }
  | .clearBackground => { x with background := none }
  | .playSound sound => { x with sound := some sound }
  | .playMusic music => { x with music }
  | a => if a.offers isDay = [] then x else { x with choices := a.offers isDay }

/-- The value under which a checkpoint is noted. -/
def checkpointValue : Option String → Value
  | some name => .text name
  | none => .null

/-- The local variables after an action. -/
def writeLocals (settings : Settings) (a : Action) (scope : Scope) : Scope :=
  match a with
  | .note action var init => if action = some "create_var" then scope.createIn var init else scope
  | .modifyLocal m => Engine.mutate m scope
  | .unlock events =>
    scope.insert settings.unlockedVar
      (.list (events.foldl Engine.addEvent (Engine.unlockedEvents scope settings.unlockedVar)))
  | .checkpoint target => scope.insert settings.checkpointVar (checkpointValue target)
  | _ => scope

/-- The global variables after an action. -/
def writeGlobals (a : Action) (scope : Scope) : Scope :=
  match a with
  | .note action var init =>
    if action = some "create_global" then scope.createIn var init else scope
  | .modifyGlobal m => Engine.mutate m scope
  | _ => scope

/-- What an action asks of the host. -/
def requests : Action → List Effect
  | .giveItem item amount => [.giveItem item amount]
  | .command text => [.command text]
  | .checkpoint target => [.checkpoint target]
  | _ => []

end Action

namespace Engine

/-- The event that idle chat draws, and the seed after it. -/
def drawEvent (settings : Settings) (locals : Scope) (seed : UInt64) : Option (String × UInt64) :=
  Random.pick seed (unlockedEvents locals settings.unlockedVar)

/-- What is drawn from a list is one of its elements. -/
theorem mem_of_pick {α : Type} {seed next : UInt64} {l : List α} {x : α}
    (h : Random.pick seed l = some (x, next)) : x ∈ l := by
  rw [Random.pick] at h
  obtain ⟨y, hy, hpair⟩ := Option.map_eq_some_iff.1 h
  cases hpair
  exact List.mem_of_getElem? hy

/-- The seed after an action. -/
def reseed (settings : Settings) (locals : Scope) (seed : UInt64) : Action → UInt64
  | .idleChat => ((drawEvent settings locals seed).map (·.2)).getD seed
  | _ => seed

/-- Where execution goes after an action. -/
def flowOf (p : Program) (settings : Settings) (s : State) : Action → Flow
  | .note action var _ =>
    if (action = some "create_var" ∨ action = some "create_global") ∧ var = none then
      .abort (.malformedAction s.pc "meta" "missing field `var`")
    else .next
  | .line .. => if settings.pauseOnLine then .await .advance (s.pc + 1) else .next
  | .whenLocal c => branch c s.locals s.isDay
  | .whenGlobal c => branch c s.globals s.isDay
  | .transition action label =>
    if action = "jump" then
      match label with
      | none => .abort (.malformedAction s.pc "transition" "missing field `label`")
      | some label => jump p label s.pc
    else .next
  | .choice options =>
    if options = [] then .abort (.malformedAction s.pc "choice" "choice list is empty")
    else .await .choice s.pc
  | .nightChoice options => if s.isDay ∨ options = [] then .next else .await .choice s.pc
  | .idleChat =>
    ((drawEvent settings s.locals s.seed).map fun drawn => jump p drawn.1 s.pc).getD
      (.finish .idleChatExhausted)
  | .finish => .finish .finishAction
  | _ => .next

/-- Where an action leads does not depend on what is on screen. -/
theorem flowOf_screen (p : Program) (settings : Settings) (s : State) (x : Screen) (a : Action) :
    flowOf p settings { s with screen := x } a = flowOf p settings s a := by
  cases a <;> rfl

theorem createVariable_eq (p : Program) (settings : Settings) (s : State)
    (action var : Option String) (init : Value) :
    createVariable s action var init =
      { state := { s with
          locals := (Action.note action var init).writeLocals settings s.locals
          globals := (Action.note action var init).writeGlobals s.globals }
        flow := flowOf p settings s (.note action var init) } := by
  by_cases hvar : action = some "create_var"
  · subst hvar
    cases var <;> rfl
  · by_cases hglobal : action = some "create_global"
    · subst hglobal
      cases var <;> rfl
    · unfold createVariable
      split <;> simp_all [Action.writeLocals, Action.writeGlobals, flowOf]

/-- `chat` with its body written out. -/
theorem chat_apply (p : Program) (settings : Settings) (s : State) :
    chat p settings s =
      match Random.pick s.seed (unlockedEvents s.locals settings.unlockedVar) with
      | none => { state := s, flow := .finish .idleChatExhausted }
      | some (label, seed) => { state := { s with seed }, flow := jump p label s.pc } := by
  -- Unfolding the applied function would make the kernel evaluate the draw on an unknown
  -- seed to decide the match, so the function is unfolded before it is applied.
  have hbody : chat = fun p settings s =>
      match Random.pick s.seed (unlockedEvents s.locals settings.unlockedVar) with
      | none => { state := s, flow := .finish .idleChatExhausted }
      | some (label, seed) => { state := { s with seed }, flow := jump p label s.pc } := rfl
  rw [hbody]

theorem chat_eq (p : Program) (settings : Settings) (s : State) :
    chat p settings s =
      { state := { s with seed := reseed settings s.locals s.seed .idleChat }
        flow := flowOf p settings s .idleChat } := by
  rw [chat_apply, reseed, flowOf, drawEvent]
  generalize Random.pick s.seed (unlockedEvents s.locals settings.unlockedVar) = drawn
  cases drawn <;> rfl

/-- Executing an action, part by part. -/
theorem execute_eq (p : Program) (settings : Settings) (s : State) (a : Action) :
    execute p settings s a =
      { state := { s with
          locals := a.writeLocals settings s.locals
          globals := a.writeGlobals s.globals
          screen := a.paint s.isDay s.screen
          seed := reseed settings s.locals s.seed a }
        effects := a.requests
        flow := flowOf p settings s a } := by
  -- Most actions are their parts by definition. The others test something first, and the
  -- parts test it each for themselves.
  cases a with
  | note action var init => exact createVariable_eq p settings s action var init
  | idleChat => exact chat_eq p settings s
  | transition action label =>
      by_cases h : action = "jump"
      · subst h
        cases label <;> rfl
      · simp only [execute, ne_eq, h, not_false_eq_true, if_true, flowOf, if_false]
        rfl
  | choice options => cases options <;> rfl
  | nightChoice options =>
      obtain ⟨pc, status, locals, globals, screen, isDay, seed⟩ := s
      cases isDay <;> cases options <;> rfl
  | checkpoint label => cases label <;> rfl
  | _ => rfl

/-! ### Waiting -/

theorem offers_eq {isDay : Bool} {a : Action} (h : a.offers isDay ≠ []) :
    a = .choice (a.offers isDay) ∨ a = .nightChoice (a.offers isDay) := by
  cases a with
  | choice options => exact .inl rfl
  | nightChoice options =>
      cases isDay with
      | false => exact .inr rfl
      | true => exact absurd rfl h
  | _ => exact absurd rfl h

/-- An action publishes what it offers; otherwise the choices on screen stay. -/
theorem paint_choices (isDay : Bool) (a : Action) (x : Screen) :
    (a.paint isDay x).choices = if a.offers isDay = [] then x.choices else a.offers isDay := by
  cases a with
  | choice options => cases options <;> rfl
  | nightChoice options => cases isDay <;> cases options <;> rfl
  | _ => rfl

theorem flowOf_of_offers {p : Program} {settings : Settings} {s : State} {a : Action}
    (h : a.offers s.isDay ≠ []) : flowOf p settings s a = .await .choice s.pc := by
  rcases offers_eq h with ha | ha
  · rw [ha, flowOf, if_neg h]
  · -- By day a night choice offers nothing.
    have hday : s.isDay = false := by
      cases hd : s.isDay with
      | false => rfl
      | true => rw [ha, hd] at h; exact absurd rfl h
    rw [ha, flowOf, if_neg]
    rintro (hisDay | hnil)
    · simp [hday] at hisDay
    · exact h hnil

/-! ### Where execution can go -/

/-- The ways on from an action, each with what it takes. -/
inductive Leads (p : Program) (settings : Settings) (s : State) : Action → Flow → Prop where
  | next {a : Action} : Leads p settings s a .next
  | pause {speaker content voice : Option String} (hpause : settings.pauseOnLine = true) :
      Leads p settings s (.line speaker content voice) (.await .advance (s.pc + 1))
  | present {a : Action} (hoffers : a.offers s.isDay ≠ []) :
      Leads p settings s a (.await .choice s.pc)
  | skipLocal {c : Condition} (hfails : c.holds s.locals s.isDay = false) :
      Leads p settings s (.whenLocal c) (.goto c.otherwise)
  | skipGlobal {c : Condition} (hfails : c.holds s.globals s.isDay = false) :
      Leads p settings s (.whenGlobal c) (.goto c.otherwise)
  | jump {label : String} {target : Nat} (htarget : p.target label = some target) :
      Leads p settings s (.transition "jump" (some label)) (.goto target)
  | chat {label : String} {seed : UInt64} {target : Nat}
      (hdraw : drawEvent settings s.locals s.seed = some (label, seed))
      (htarget : p.target label = some target) :
      Leads p settings s .idleChat (.goto target)
  | chatEnd (hdraw : drawEvent settings s.locals s.seed = none) :
      Leads p settings s .idleChat (.finish .idleChatExhausted)
  | finish : Leads p settings s .finish (.finish .finishAction)
  | jumpLost {label : String} (htarget : p.target label = none) :
      Leads p settings s (.transition "jump" (some label)) (.abort (.unresolvedLabel label s.pc))
  | chatLost {label : String} {seed : UInt64}
      (hdraw : drawEvent settings s.locals s.seed = some (label, seed))
      (htarget : p.target label = none) :
      Leads p settings s .idleChat (.abort (.unresolvedLabel label s.pc))
  | noName {action : Option String} {init : Value}
      (haction : action = some "create_var" ∨ action = some "create_global") :
      Leads p settings s (.note action none init)
        (.abort (.malformedAction s.pc "meta" "missing field `var`"))
  | noLabel :
      Leads p settings s (.transition "jump" none)
        (.abort (.malformedAction s.pc "transition" "missing field `label`"))
  | noOptions :
      Leads p settings s (.choice [])
        (.abort (.malformedAction s.pc "choice" "choice list is empty"))

theorem leads_branch {p : Program} {settings : Settings} {s : State} {a : Action} {c : Condition}
    {scope : Scope}
    (hskip : c.holds scope s.isDay = false → Leads p settings s a (.goto c.otherwise)) :
    Leads p settings s a (branch c scope s.isDay) := by
  unfold branch
  split
  · exact .next
  · rename_i h
    exact hskip (by simpa using h)

theorem leads_jump {p : Program} {settings : Settings} {s : State} {a : Action} {label : String}
    (hfound : ∀ {target : Nat}, p.target label = some target → Leads p settings s a (.goto target))
    (hlost : p.target label = none →
      Leads p settings s a (.abort (.unresolvedLabel label s.pc))) :
    Leads p settings s a (Engine.jump p label s.pc) := by
  unfold Engine.jump
  split
  · rename_i target htarget
    exact hfound htarget
  · rename_i htarget
    exact hlost htarget

/-- The flow of an action is one of the ways on from it. -/
theorem leads_flowOf (p : Program) (settings : Settings) (s : State) (a : Action) :
    Leads p settings s a (flowOf p settings s a) := by
  cases a with
  | note action var init =>
      rw [flowOf]
      split
      · rename_i h
        obtain ⟨haction, rfl⟩ := h
        exact .noName haction
      · exact .next
  | line speaker content voice =>
      rw [flowOf]
      split
      · rename_i h
        exact .pause h
      · exact .next
  | whenLocal c => exact leads_branch .skipLocal
  | whenGlobal c => exact leads_branch .skipGlobal
  | transition action label =>
      by_cases h : action = "jump"
      · subst h
        cases label with
        | none => exact .noLabel
        | some label => exact leads_jump .jump .jumpLost
      · simp only [flowOf, h, if_false]
        exact .next
  | choice options =>
      cases options with
      | nil => exact .noOptions
      | cons option rest => exact .present (by simp [Action.offers])
  | nightChoice options =>
      rw [flowOf]
      split
      · exact .next
      · rename_i h
        exact .present (by simpa [Action.offers] using h)
  | idleChat =>
      rw [flowOf]
      cases hdraw : drawEvent settings s.locals s.seed with
      | none => exact .chatEnd hdraw
      | some drawn =>
          obtain ⟨label, seed⟩ := drawn
          exact leads_jump (.chat hdraw) (.chatLost hdraw)
  | finish => exact .finish
  | _ => exact .next

end Engine

end Parley
