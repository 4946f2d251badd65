/-
  Parley.Action.Record

  Action records: JSON objects with a `type`, or arrays that begin with it, and the fields
  of the tag. `Action.read` reads a record, `Action.toJson` writes one with all fields.
-/
import Parley.Action.Basic
import Parley.Json.Record

namespace Parley

/-! ### Parts of records -/

def MutationOp.name : MutationOp → String
  | .set => "set"
  | .add => "add"
  | .append => "append"

/-- The accepted spellings; `increment` is another name of `add`. -/
def MutationOp.names : List (String × MutationOp) :=
  [("set", .set), ("add", .add), ("increment", .add), ("append", .append)]

/-- Inside a record (`bare`) the name may also be the only entry of an object that holds an
empty object. -/
def MutationOp.read (bare : Bool) : Decoder MutationOp := Decode.choice bare names

def Predicate.name : Predicate → String
  | .equal => "equal"
  | .notEqual => "not_equal"
  | .lessThan => "less_than"
  | .greaterThan => "greater_than"
  | .day => "day"
  | .night => "night"

def Predicate.names : List (String × Predicate) :=
  [("equal", .equal), ("not_equal", .notEqual), ("less_than", .lessThan),
    ("greater_than", .greaterThan), ("day", .day), ("night", .night)]

def Predicate.read (bare : Bool) : Decoder Predicate := Decode.choice bare names

def Mutation.fields : Fields [String, MutationOp, Value] :=
  .cons (.required "var" Decode.text) <|
  .cons (.required "action" (MutationOp.read true)) <|
  .cons (.withDefault "value" Value.read .null) .nil

def Mutation.ofRow : Row [String, MutationOp, Value] → Mutation
  | (var, op, value, ()) => ⟨var, op, value⟩

def Condition.fields (bare : Bool) : Fields [Option String, Predicate, Value, Nat] :=
  .cons (.withDefault "var" (Decode.option Decode.text) none) <|
  .cons (.required "condition" (Predicate.read bare)) <|
  .cons (.withDefault "value" Value.read .null) <|
  .cons (.required "end" Decode.position) .nil

def Condition.ofRow : Row [Option String, Predicate, Value, Nat] → Condition
  | (var, predicate, value, otherwise, ()) => ⟨var, predicate, value, otherwise⟩

/-- A condition that stands alone, outside a record. -/
def Condition.read : Decoder Condition := fun j =>
  ((Condition.fields false).read "struct Condition" j).map ofRow

def ChoiceOption.fields : Fields [String, String] :=
  .cons (.required "label" Decode.text) <|
  .cons ((Field.withDefault "text" Decode.text "").orNamed "content") .nil

def ChoiceOption.read : Decoder ChoiceOption := fun j =>
  (fields.read "struct ChoiceOption" j).map fun (label, text, ()) => ⟨label, text⟩

def ChoiceOption.toJson (o : ChoiceOption) : Json :=
  .obj [("label", .str o.label), ("text", .str o.text)]

def Layout.fields : Fields [Float, Float, Float, Float, Float, Float] :=
  let default : Layout := {}
  .cons (.withDefault "w_ratio" Decode.float default.width) <|
  .cons (.withDefault "h_ratio" Decode.float default.height) <|
  .cons (.withDefault "frame_w_ratio" Decode.float default.frameWidth) <|
  .cons (.withDefault "frame_h_ratio" Decode.float default.frameHeight) <|
  .cons (.withDefault "column" Decode.float default.column) <|
  .cons (.withDefault "row" Decode.float default.row) .nil

def Layout.read : Decoder Layout := fun j =>
  (fields.read "struct SpriteLayout" j).map fun (w, h, fw, fh, c, r, ()) => ⟨w, h, fw, fh, c, r⟩

def Layout.toJson (l : Layout) : Json :=
  .obj [("w_ratio", .float l.width), ("h_ratio", .float l.height),
    ("frame_w_ratio", .float l.frameWidth), ("frame_h_ratio", .float l.frameHeight),
    ("column", .float l.column), ("row", .float l.row)]

/-! ### The catalogue of tags -/

/-- What a tag declares: its fields, and the action they make. -/
structure Kind where
  title : String
  types : List Type
  fields : Fields types
  build : Row types → Action

namespace Kind

/-- A kind of action without fields. -/
def plain (a : Action) : Kind := ⟨"unit", [], .nil, fun () => a⟩

/-- A kind of action whose fields are its own. -/
def ofFields {αs : List Type} (name : String) (fs : Fields αs) (build : Row αs → Action) : Kind :=
  ⟨"struct variant Action::" ++ name, αs, fs, build⟩

def optionalText (name : String) : Field (Option String) :=
  .withDefault name (Decode.option Decode.text) none

def textField (name : String) : Field String := .required name Decode.text

def optionsField : Field (List ChoiceOption) :=
  .withDefault "choice" (Decode.list ChoiceOption.read) []

/-- The kind of a tag; a tag that is not listed is unknown. -/
def ofTag (tag : String) : Kind :=
  match tag with
  | "meta" => ofFields "Meta"
    (.cons (optionalText "action") <| .cons (optionalText "var") <|
      .cons (.withDefault "init" Value.read .null) .nil)
    fun (action, var, init, ()) => .note action var init
  | "show_sprite" => ofFields "ShowSprite"
    (.cons (textField "sprite") <| .cons (optionalText "location") <|
      .cons (optionalText "position") <|
      .cons (.withDefault "layout" (Decode.option Layout.read) none) .nil)
    fun (sprite, location, position, layout, ()) => .showSprite sprite location position layout
  | "remove_sprite" => ofFields "RemoveSprite" (.cons (textField "sprite") .nil)
    fun (sprite, ()) => .removeSprite sprite
  | "dialogue" => ofFields "Dialogue"
    (.cons (optionalText "label") <| .cons (optionalText "content") <|
      .cons (optionalText "voice") .nil)
    fun (speaker, content, voice, ()) => .line speaker content voice
  | "modify_variable" =>
    ⟨"struct Mutation", _, Mutation.fields, fun row => .modifyLocal (Mutation.ofRow row)⟩
  | "modify_global" =>
    ⟨"struct Mutation", _, Mutation.fields, fun row => .modifyGlobal (Mutation.ofRow row)⟩
  | "give_item" => ofFields "GiveItem"
    (.cons (textField "item") <|
      .cons (.required "amount" (Decode.natBelow (Nat.pow 2 32) "u32")) .nil)
    fun (item, amount, ()) => .giveItem item amount
  | "conditional" =>
    ⟨"struct Condition", _, Condition.fields true, fun row => .whenLocal (Condition.ofRow row)⟩
  | "conditional_global" =>
    ⟨"struct Condition", _, Condition.fields true, fun row => .whenGlobal (Condition.ofRow row)⟩
  | "transition" => ofFields "Transition"
    (.cons (textField "action") <| .cons (optionalText "label") .nil)
    fun (action, label, ()) => .transition action label
  | "choice" => ofFields "Choice" (.cons optionsField .nil)
    fun (options, ()) => .choice options
  | "night_choice" => ofFields "NightChoice" (.cons optionsField .nil)
    fun (options, ()) => .nightChoice options
  | "command" => ofFields "Command" (.cons (textField "command") .nil)
    fun (command, ()) => .command command
  | "label" => ofFields "Label" (.cons ((textField "label").orNamed "name") .nil)
    fun (name, ()) => .label name
  | "modify_background" => ofFields "ModifyBackground" (.cons (textField "background") .nil)
    fun (background, ()) => .setBackground background
  | "clear_background" => plain .clearBackground
  | "unlock_dialogues" => ofFields "UnlockDialogues"
    (.cons (.required "events" Decode.texts) .nil)
    fun (events, ()) => .unlock events
  | "play_sound" => ofFields "PlaySound" (.cons (textField "sound") .nil)
    fun (sound, ()) => .playSound sound
  | "play_music" => ofFields "PlayMusic" (.cons (optionalText "music") .nil)
    fun (music, ()) => .playMusic music
  | "next" => ofFields "Next" (.cons (optionalText "label") .nil)
    fun (label, ()) => .checkpoint label
  | "idle_chat" => plain .idleChat
  | "finish_dialogue" => plain .finish
  | "check_inventory" => plain .checkInventory
  | _ => plain .unknown

end Kind

namespace Action

/-! ### Reading -/

/-- The tag of a record. -/
def readTag : Decoder String
  | .str tag => .ok tag
  | j => .error (.wrongType j "variant identifier")

/-- Reads an action off its record. -/
def read : Decoder Action
  | .obj es =>
    match Table.find "type" es with
    | none => .error (.missingField "type")
    | some t => do
      let kind := Kind.ofTag (← readTag t)
      let row ← kind.fields.ofEntries es
      return kind.build row
  | .arr [] => .error (.missingField "type")
  | .arr (t :: js) => do
    let kind := Kind.ofTag (← readTag t)
    let row ← kind.fields.ofArray kind.title js
    return kind.build row
  | j => .error (.wrongType j "internally tagged enum Action")

/-! ### Writing -/

/-- An optional text, `null` if absent. -/
def optionJson (s : Option String) : Json := Json.ofOption .str s

/-- The fields of an action, as its record lists them. -/
def fieldsJson : Action → List (String × Json)
  | .note action var init =>
    [("action", optionJson action), ("var", optionJson var), ("init", init.toJson)]
  | .showSprite sprite location position layout =>
    [("sprite", .str sprite), ("location", optionJson location),
      ("position", optionJson position), ("layout", Json.ofOption Layout.toJson layout)]
  | .removeSprite sprite => [("sprite", .str sprite)]
  | .line speaker content voice =>
    [("label", optionJson speaker), ("content", optionJson content), ("voice", optionJson voice)]
  | .modifyLocal m | .modifyGlobal m =>
    [("var", .str m.var), ("action", .str m.op.name), ("value", m.value.toJson)]
  | .giveItem item amount => [("item", .str item), ("amount", .nat amount)]
  | .whenLocal c | .whenGlobal c =>
    [("var", optionJson c.var), ("condition", .str c.predicate.name), ("value", c.value.toJson),
      ("end", .nat c.otherwise)]
  | .transition action target => [("action", .str action), ("label", optionJson target)]
  | .choice options | .nightChoice options =>
    [("choice", .arr (options.map ChoiceOption.toJson))]
  | .command text => [("command", .str text)]
  | .label name => [("label", .str name)]
  | .setBackground background => [("background", .str background)]
  | .unlock events => [("events", .texts events)]
  | .playSound sound => [("sound", .str sound)]
  | .playMusic music => [("music", optionJson music)]
  | .checkpoint target => [("label", optionJson target)]
  | .clearBackground | .idleChat | .finish | .checkInventory | .unknown => []

/-- The record of an action: its tag and all its fields. -/
def toJson (a : Action) : Json := .obj (("type", .str a.tag) :: a.fieldsJson)

end Action

end Parley
