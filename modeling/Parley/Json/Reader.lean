/-
  Parley.Json.Reader

  Reading JSON text. The reader takes one token after another and keeps the open arrays
  and objects on a stack, so its depth is not bounded by the text. `Json.parse?` reads a
  whole text: one value, with nothing but space around it.
-/
import Parley.Json.Token

namespace Parley.Json

/-- A container that is still open. Items and entries are held latest first. -/
inductive Frame where
  | array (items : List Json)
  | object (entries : List (Option String × Json))
  /-- The name of an entry whose value has not been read. -/
  | member (name : Option String)

/-- What the text may go on with. -/
inductive Need where
  | value
  /-- The first item of an array, or its end. -/
  | firstItem
  | name
  /-- The first name of an object, or its end. -/
  | firstName
  | colon
  /-- A comma, or the end of the container. -/
  | next

/-- Open containers, innermost first, and what may follow. -/
inductive Reader where
  | reading (stack : List Frame) (need : Need)
  | finished (j : Json)

namespace Reader

/-- The object with the given entries, latest first. A name that stands for no text makes the
object unreadable. -/
def closeObject (entries : List (Option String × Json)) : Json :=
  match entries.reverse.mapM fun (k, j) => k.map (·, j) with
  | some named => .obj named
  | none => .unreadable

/-- Puts a finished value where it belongs. -/
def complete (j : Json) : List Frame → Option Reader
  | [] => some (.finished j)
  | .array items :: stack => some (.reading (.array (j :: items) :: stack) .next)
  | .member k :: .object entries :: stack =>
    some (.reading (.object ((k, j) :: entries) :: stack) .next)
  | _ => none

/-- Starts or completes a value. -/
def value (stack : List Frame) : Token → Option Reader
  | .openArray => some (.reading (.array [] :: stack) .firstItem)
  | .openObject => some (.reading (.object [] :: stack) .firstName)
  | .null => complete .null stack
  | .bool b => complete (.bool b) stack
  | .num (some n) => complete (.num n) stack
  | .num none => complete .unreadable stack
  | .str (some s) => complete (.str s) stack
  | .str none => complete .unreadable stack
  | _ => none

/-- The reader after one more token; `none` if the token may not stand there. -/
def feed (t : Token) : Reader → Option Reader
  | .finished _ => none
  | .reading stack .value => value stack t
  | .reading stack .firstItem =>
    match t, stack with
    | .closeArray, .array items :: stack => complete (.arr items.reverse) stack
    | t, stack => value stack t
  | .reading stack .firstName =>
    match t, stack with
    | .closeObject, .object entries :: stack => complete (closeObject entries) stack
    | .str k, stack => some (.reading (.member k :: stack) .colon)
    | _, _ => none
  | .reading stack .name =>
    match t with
    | .str k => some (.reading (.member k :: stack) .colon)
    | _ => none
  | .reading stack .colon =>
    match t with
    | .colon => some (.reading stack .value)
    | _ => none
  | .reading stack .next =>
    match t, stack with
    | .comma, .array items :: stack => some (.reading (.array items :: stack) .value)
    | .closeArray, .array items :: stack => complete (.arr items.reverse) stack
    | .comma, .object entries :: stack => some (.reading (.object entries :: stack) .name)
    | .closeObject, .object entries :: stack => complete (closeObject entries) stack
    | _, _ => none

/-- Reads the text to its end. Every round takes at least one character, so the length of the
text is enough fuel. -/
def run : Nat → Reader → List Char → Option Reader
  | 0, _, _ => none
  | fuel + 1, r, cs =>
    match cs.dropWhile Token.isSpace with
    | [] => some r
    | c :: rest =>
      match Token.scan (c :: rest) with
      | none => none
      | some (t, rest) =>
        match r.feed t with
        | none => none
        | some r => run fuel r rest

end Reader

/-- The value of a JSON text. -/
def parse? (text : String) : Option Json :=
  let cs := text.toList
  match Reader.run (cs.length + 1) (.reading [] .value) cs with
  | some (.finished j) => some j
  | _ => none

end Parley.Json
