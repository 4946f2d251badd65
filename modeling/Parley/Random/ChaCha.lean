/-
  Parley.Random.ChaCha

  The stream of random words of a key: ChaCha with 12 rounds, a 64-bit block counter and no
  nonce. The sixteen words of a block stand in four rows of four; one half of a double round
  works on the columns, the other on the diagonals, which a turn of the rows makes columns.
-/

namespace Parley.Random

/-- A row of four words. -/
structure Quad where
  x0 : UInt32
  x1 : UInt32
  x2 : UInt32
  x3 : UInt32
deriving DecidableEq, Repr

/-- Rotates a word to the left. -/
def rotateLeft (w n : UInt32) : UInt32 := (w <<< n) ||| (w >>> (32 - n))

namespace Quad

def add (a b : Quad) : Quad := ⟨a.x0 + b.x0, a.x1 + b.x1, a.x2 + b.x2, a.x3 + b.x3⟩

/-- Adds modulo two, then rotates every word to the left. -/
def mix (a b : Quad) (n : UInt32) : Quad :=
  ⟨rotateLeft (a.x0 ^^^ b.x0) n, rotateLeft (a.x1 ^^^ b.x1) n,
    rotateLeft (a.x2 ^^^ b.x2) n, rotateLeft (a.x3 ^^^ b.x3) n⟩

/-- The row turned to the left by one place. -/
def turn (a : Quad) : Quad := ⟨a.x1, a.x2, a.x3, a.x0⟩

def words (a : Quad) : List UInt32 := [a.x0, a.x1, a.x2, a.x3]

end Quad

/-- The state of a block. -/
structure Block where
  a : Quad
  b : Quad
  c : Quad
  d : Quad
deriving DecidableEq, Repr

namespace Block

/-- The four quarter rounds on the columns. -/
def columns (s : Block) : Block :=
  let a := s.a.add s.b
  let d := s.d.mix a 16
  let c := s.c.add d
  let b := s.b.mix c 12
  let a := a.add b
  let d := d.mix a 8
  let c := c.add d
  let b := b.mix c 7
  ⟨a, b, c, d⟩

/-- Columns, then diagonals. -/
def doubleRound (s : Block) : Block :=
  let s := s.columns
  let s : Block := ⟨s.a, s.b.turn, s.c.turn.turn, s.d.turn.turn.turn⟩
  let s := s.columns
  ⟨s.a, s.b.turn.turn.turn, s.c.turn.turn, s.d.turn⟩

def rounds : Nat → Block → Block
  | 0, s => s
  | n + 1, s => rounds n s.doubleRound

/-- The sixteen words of output: the state after twelve rounds added to the state before. -/
def output (s : Block) : List UInt32 :=
  let t := rounds 6 s
  (t.a.add s.a).words ++ (t.b.add s.b).words ++ (t.c.add s.c).words ++ (t.d.add s.d).words

end Block

/-- The eight words of a key, in two rows. -/
structure Key where
  low : Quad
  high : Quad
deriving DecidableEq, Repr

/-- The state of the block with the given number. -/
def Key.block (key : Key) (number : Nat) : Block where
  a := ⟨0x61707865, 0x3320646e, 0x79622d32, 0x6b206574⟩
  b := key.low
  c := key.high
  d := ⟨UInt32.ofNat number, UInt32.ofNat (number / Nat.pow 2 32), 0, 0⟩

/-- Word `i` of the stream. -/
def Key.word (key : Key) (i : Nat) : UInt32 := (key.block (i / 16)).output.getD (i % 16) 0

end Parley.Random
