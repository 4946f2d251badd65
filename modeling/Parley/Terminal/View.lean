/-
  Parley.Terminal.View

  What a terminal shows. A view remembers what is on display; given the screen of a session
  it reports the changes since then. A sound is reported whenever there is one, a line only
  if it is not the one that was shown last.
-/
import Parley.Screen

namespace Parley.Terminal

/-- A speaker, if there is one, and what is said. -/
abbrev Line := Option String × String

structure View where
  background : Option String := none
  /-- The sprites on display, by id. -/
  sprites : Table Sprite := .empty
  music : Option String := none
  /-- The line that was shown last. -/
  line : Option Line := none

/-- What has to be shown. -/
structure Delta where
  /-- Changes, in words. -/
  changes : List String := []
  line : Option Line := none
deriving BEq, DecidableEq, Repr

def Delta.isEmpty (d : Delta) : Bool := d.changes.isEmpty && d.line.isNone

namespace View

/-- The change from one optional thing to another, in words. -/
def changeOf (title gone : String) (old new : Option String) : List String :=
  if new = old then []
  else
    match new with
    | some name => [title ++ ": " ++ name]
    | none => [gone]

/-- The sprites of a screen by id; of two with one id the last. -/
def spritesOf (s : Screen) : Table Sprite :=
  .ofList (s.sprites.map fun sprite => (sprite.id, sprite))

/-- A sprite goes by its location if it has one. -/
def spriteText (s : Sprite) : String :=
  "ShowSprite: " ++ s.location.getD s.id ++ " (" ++ s.position ++ ")"

/-- The sprites that are new or have changed, by id. -/
def shown (old new : Table Sprite) : List String :=
  new.entries.filterMap fun (id, sprite) =>
    if old.get? id == some sprite then none else some (spriteText sprite)

/-- The sprites that are gone, by id. -/
def removed (old new : Table Sprite) : List String :=
  old.entries.filterMap fun (id, _) =>
    if new.contains id then none else some ("RemoveSprite: " ++ id)

/-- The line of a screen. -/
def lineOf (s : Screen) : Option Line := s.content.map fun text => (s.speaker, text)

/-- Takes over a screen, and says what changed. -/
def apply (v : View) (s : Screen) : View × Delta :=
  let sprites := spritesOf s
  let changes :=
    changeOf "Background" "ClearBackground" v.background s.background ++
    shown v.sprites sprites ++ removed v.sprites sprites ++
    changeOf "PlayMusic" "StopMusic" v.music s.music ++
    (match s.sound with
      | some sound => ["PlaySound: " ++ sound]
      | none => [])
  let line := if lineOf s = v.line then none else lineOf s
  ({ background := s.background, sprites, music := s.music, line := (lineOf s).or v.line },
    { changes, line })

/-- Forgets the last line, so that it is shown again. -/
def forgetLine (v : View) : View := { v with line := none }

end View

/-- The text of a change of the display. -/
def Delta.render (d : Delta) : String :=
  String.join (d.changes.map fun change => "[" ++ change ++ "]\n") ++
    match d.line with
    | none => ""
    | some (speaker, text) =>
      (match speaker with
        | some name => name ++ ":\n"
        | none => "") ++ text ++ "\n\n"

end Parley.Terminal
