/-
  Parley.Action.Basic

  The instructions a script is made of. A record is told apart by its tag; a tag that is
  not in the catalogue makes an action that does nothing.
-/
import Parley.Value

namespace Parley

/-- What a mutation does to a variable. -/
inductive MutationOp where
  | set
  | add
  | append
deriving BEq, DecidableEq, Repr

/-- A change of one variable. -/
structure Mutation where
  var : String
  op : MutationOp
  value : Value
deriving BEq

/-- The tests a condition can make. -/
inductive Predicate where
  | equal
  | notEqual
  | lessThan
  | greaterThan
  | day
  | night
deriving BEq, DecidableEq, Repr

/-- A test, and the position to go on from if it does not hold. -/
structure Condition where
  var : Option String
  predicate : Predicate
  value : Value
  otherwise : Nat
deriving BEq

/-- One way to answer a choice: the label it leads to, and its text. -/
structure ChoiceOption where
  label : String
  text : String
deriving BEq, DecidableEq, Repr

/-- Where on the grid of the screen a sprite stands. Rows count from 1. -/
structure Layout where
  width : Float := 16.0
  height : Float := 9.0
  frameWidth : Float := 4.0
  frameHeight : Float := 8.0
  column : Float := 7.0
  row : Float := 1.0
deriving BEq, Inhabited

inductive Action where
  /-- Creates a variable, if `action` names one of the two scopes. -/
  | note (action var : Option String) (init : Value)
  | showSprite (sprite : String) (location position : Option String) (layout : Option Layout)
  | removeSprite (sprite : String)
  | line (speaker content voice : Option String)
  | modifyLocal (m : Mutation)
  | modifyGlobal (m : Mutation)
  | giveItem (item : String) (amount : Nat)
  | whenLocal (c : Condition)
  | whenGlobal (c : Condition)
  | transition (action : String) (label : Option String)
  | choice (options : List ChoiceOption)
  | nightChoice (options : List ChoiceOption)
  | command (command : String)
  | label (name : String)
  | setBackground (background : String)
  | clearBackground
  | unlock (events : List String)
  | playSound (sound : String)
  | playMusic (music : Option String)
  /-- Records the label from which the script is taken up again after it has ended. -/
  | checkpoint (label : Option String)
  | idleChat
  | finish
  | checkInventory
  | unknown
deriving BEq

namespace Action

/-- The tag by which records name the action. -/
def tag : Action → String
  | .note .. => "meta"
  | .showSprite .. => "show_sprite"
  | .removeSprite _ => "remove_sprite"
  | .line .. => "dialogue"
  | .modifyLocal _ => "modify_variable"
  | .modifyGlobal _ => "modify_global"
  | .giveItem .. => "give_item"
  | .whenLocal _ => "conditional"
  | .whenGlobal _ => "conditional_global"
  | .transition .. => "transition"
  | .choice _ => "choice"
  | .nightChoice _ => "night_choice"
  | .command _ => "command"
  | .label _ => "label"
  | .setBackground _ => "modify_background"
  | .clearBackground => "clear_background"
  | .unlock _ => "unlock_dialogues"
  | .playSound _ => "play_sound"
  | .playMusic _ => "play_music"
  | .checkpoint _ => "next"
  | .idleChat => "idle_chat"
  | .finish => "finish_dialogue"
  | .checkInventory => "check_inventory"
  | .unknown => "unknown"

/-- The name a label action marks its position with. -/
def labelName? : Action → Option String
  | .label name => some name
  | _ => none

end Action

end Parley
