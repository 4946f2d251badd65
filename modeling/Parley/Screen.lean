/-
  Parley.Screen

  What is on screen at the current point of a script: the line that is spoken, background,
  music, sprites, and the choices that wait for an answer. The sound and the command are
  one-shots: they belong to the slice that set them.
-/
import Parley.Action.Record

namespace Parley

/-- A sprite on screen. -/
structure Sprite where
  id : String
  location : Option String
  position : String
  layout : Layout
deriving BEq

/-- The place of a sprite whose action names none. -/
def Sprite.defaultPosition : String := "CENTER"

/-- A sprite in the default place. -/
def Sprite.centered (id : String) : Sprite := ⟨id, none, Sprite.defaultPosition, {}⟩

structure Screen where
  speaker : Option String := none
  content : Option String := none
  voice : Option String := none
  background : Option String := none
  command : Option String := none
  music : Option String := none
  sound : Option String := none
  sprites : List Sprite := []
  choices : List ChoiceOption := []
deriving BEq, Inhabited

namespace Screen

/-- Shows a line. Empty content leaves the content as it was. -/
def setLine (s : Screen) (speaker content voice : Option String) : Screen :=
  { s with
    speaker
    content := match content with
      | some text => if text.isEmpty then s.content else some text
      | none => s.content
    voice }

/-- Replaces the first sprite of the same id, or puts the sprite at the end. -/
def placeSprite (sprite : Sprite) : List Sprite → List Sprite
  | [] => [sprite]
  | s :: rest => if s.id = sprite.id then sprite :: rest else s :: placeSprite sprite rest

def showSprite (s : Screen) (sprite : Sprite) : Screen :=
  { s with sprites := placeSprite sprite s.sprites }

/-- Whether a sprite of this id is shown. -/
def hasSprite (s : Screen) (id : String) : Bool := s.sprites.any (·.id == id)

/-- Takes every sprite of this id off the screen. -/
def removeSprite (s : Screen) (id : String) : Screen :=
  { s with sprites := s.sprites.filter (·.id != id) }

/-- Ends the one-shots of the previous slice. -/
def clearOneShots (s : Screen) : Screen := { s with command := none, sound := none }

end Screen

/-! ### JSON -/

def Sprite.fields : Fields [String, Option String, String, Layout] :=
  .cons (.required "sprite" Decode.text) <|
  .cons (.optional "location" Decode.text) <|
  .cons (.required "position" Decode.text) <|
  .cons (.required "layout" Layout.read) .nil

def Sprite.read : Decoder Sprite := fun j =>
  (fields.read "struct SpriteState" j).map fun (id, location, position, layout, ()) =>
    ⟨id, location, position, layout⟩

def Sprite.toJson (s : Sprite) : Json :=
  .obj [("sprite", .str s.id), ("location", Json.ofOption .str s.location),
    ("position", .str s.position), ("layout", s.layout.toJson)]

namespace Screen

def fields : Fields [Option String, Option String, Option String, Option String, Option String,
    Option String, Option String, List Sprite, List ChoiceOption] :=
  .cons (.optional "label" Decode.text) <|
  .cons (.optional "content" Decode.text) <|
  .cons (.optional "voice" Decode.text) <|
  .cons (.optional "background" Decode.text) <|
  .cons (.optional "command" Decode.text) <|
  .cons (.optional "music" Decode.text) <|
  .cons (.optional "sound" Decode.text) <|
  .cons (.required "sprites" (Decode.list Sprite.read)) <|
  .cons (.required "choices" (Decode.list ChoiceOption.read)) .nil

def read : Decoder Screen := fun j =>
  (fields.read "struct DialogueState" j).map
    fun (speaker, content, voice, background, command, music, sound, sprites, choices, ()) =>
      { speaker, content, voice, background, command, music, sound, sprites, choices }

def toJson (s : Screen) : Json :=
  .obj [("label", Json.ofOption .str s.speaker), ("content", Json.ofOption .str s.content),
    ("voice", Json.ofOption .str s.voice), ("background", Json.ofOption .str s.background),
    ("command", Json.ofOption .str s.command), ("music", Json.ofOption .str s.music),
    ("sound", Json.ofOption .str s.sound), ("sprites", .arr (s.sprites.map Sprite.toJson)),
    ("choices", .arr (s.choices.map ChoiceOption.toJson))]

end Screen

end Parley
