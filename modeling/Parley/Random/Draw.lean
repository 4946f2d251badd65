/-
  Parley.Random.Draw

  Drawing an index. A seed of 64 bits is spread over a key by a linear congruential sequence
  whose states are permuted into words. An index below `n` is the high half of `n` times a
  word; words whose low half would favour some indices are passed over. The two words after
  the accepted one make the next seed.
-/
import Parley.Random.ChaCha

namespace Parley.Random

/-- The next state of the sequence that spreads a seed. -/
def advance (s : UInt64) : UInt64 := s * 6364136223846793005 + 11634580027462260723

/-- The word of a state: a part of it, rotated by its top bits. -/
def permute (s : UInt64) : UInt32 :=
  let x : UInt32 := (((s >>> 18) ^^^ s) >>> 27).toUInt32
  let r : UInt32 := (s >>> 59).toUInt32
  rotateLeft x (32 - r)

/-- The states after the first, second, … step from a seed. -/
def states : Nat → UInt64 → List UInt64
  | 0, _ => []
  | n + 1, s => advance s :: states n (advance s)

/-- The key of a seed: eight words. -/
def keyOf (seed : UInt64) : Key :=
  let w := (states 8 seed).map permute
  ⟨⟨w.getD 0 0, w.getD 1 0, w.getD 2 0, w.getD 3 0⟩,
    ⟨w.getD 4 0, w.getD 5 0, w.getD 6 0, w.getD 7 0⟩⟩

/-- The greatest low half that is accepted for an index below `n`: one less than `n` shifted
up as far as 32 bits allow. -/
def zone (n : Nat) : Nat := n * Nat.pow 2 (31 - n.log2) - 1

/-- How many words are looked at before a word is taken as it is. Every second word at the
least is accepted. -/
def patience : Nat := 4096

/-- The first accepted word from `i` on: its index below `n`, and the position after it. -/
def search (key : Key) (n : Nat) : Nat → Nat → Nat × Nat
  | 0, i => ((key.word i).toNat * n / Nat.pow 2 32, i + 1)
  | fuel + 1, i =>
    let product := (key.word i).toNat * n
    if product % Nat.pow 2 32 ≤ zone n then (product / Nat.pow 2 32, i + 1)
    else search key n fuel (i + 1)

/-- An index below `n` and the next seed. -/
def draw (seed : UInt64) (n : Nat) : Nat × UInt64 :=
  let key := keyOf seed
  let (index, next) := search key n patience 0
  (index, (key.word next).toUInt64 ||| ((key.word (next + 1)).toUInt64 <<< 32))

/-- An element of a list and the next seed; nothing is drawn from an empty list. -/
def pick {α : Type} (seed : UInt64) (l : List α) : Option (α × UInt64) :=
  let drawn := draw seed l.length
  l[drawn.1]?.map (·, drawn.2)

end Parley.Random
