/-!
The 64-bit lane hash of a byte string.

Input is taken in stripes of four 8-byte words, each word into a lane of its own; the lanes are then
folded into one word, the bytes that are left are mixed in, and a last mixing spreads every bit over
the word. All arithmetic is modulo `2 ^ 64`.
-/

namespace Resharding.Hash

def prime1 : UInt64 := 0x9E3779B185EBCA87
def prime2 : UInt64 := 0xC2B2AE3D27D4EB4F
def prime3 : UInt64 := 0x165667B19E3779F9
def prime4 : UInt64 := 0x85EBCA77C2B2AE63
def prime5 : UInt64 := 0x27D4EB2F165667C5

/-- The bits moved up by `n`, those pushed out coming in below. -/
def rotate (w : UInt64) (n : UInt64) : UInt64 := (w <<< n) ||| (w >>> (64 - n))

/-- The word whose lowest byte is the first of the list. -/
def littleEndian (bytes : List UInt8) : UInt64 :=
  bytes.foldr (fun b w => (w <<< 8) ||| b.toUInt64) 0

/-- One word mixed into a lane. -/
def mixLane (lane word : UInt64) : UInt64 := rotate (lane + word * prime2) 31 * prime1

/-- The four lanes of a running hash. -/
structure Lanes where
  first : UInt64
  second : UInt64
  third : UInt64
  fourth : UInt64

namespace Lanes

/-- The lanes before any input. -/
def start (seed : UInt64) : Lanes :=
  ⟨seed + prime1 + prime2, seed + prime2, seed, seed - prime1⟩

/-- Each lane with its word of a 32-byte stripe mixed in. -/
def absorb (l : Lanes) (stripe : List UInt8) : Lanes :=
  let word (i : Nat) := littleEndian ((stripe.drop (8 * i)).take 8)
  ⟨mixLane l.first (word 0), mixLane l.second (word 1), mixLane l.third (word 2),
    mixLane l.fourth (word 3)⟩

/-- The lanes after the first `count` stripes of the input, and the rest of the input. -/
def absorbStripes : Nat → Lanes → List UInt8 → Lanes × List UInt8
  | 0, l, bytes => (l, bytes)
  | count + 1, l, bytes => absorbStripes count (l.absorb bytes) (bytes.drop 32)

/-- The lanes folded into one word. -/
def fold (l : Lanes) : UInt64 :=
  let merge (acc lane : UInt64) : UInt64 := (acc ^^^ mixLane 0 lane) * prime1 + prime4
  let sum := rotate l.first 1 + rotate l.second 7 + rotate l.third 12 + rotate l.fourth 18
  merge (merge (merge (merge sum l.first) l.second) l.third) l.fourth

end Lanes

/-- Mix in the last bytes one by one. -/
def mixBytes (acc : UInt64) (bytes : List UInt8) : UInt64 :=
  bytes.foldl (fun acc b => rotate (acc ^^^ (b.toUInt64 * prime5)) 11 * prime1) acc

/-- Mix in four bytes at once if that many are left, then the rest one by one. -/
def mixHalfWord (acc : UInt64) (bytes : List UInt8) : UInt64 :=
  if 4 ≤ bytes.length then
    let acc := rotate (acc ^^^ (littleEndian (bytes.take 4) * prime1)) 23 * prime2 + prime3
    mixBytes acc (bytes.drop 4)
  else mixBytes acc bytes

/-- Mix in `count` words of eight bytes, then what is left. -/
def mixWords : Nat → UInt64 → List UInt8 → UInt64
  | 0, acc, bytes => mixHalfWord acc bytes
  | count + 1, acc, bytes =>
    let acc := rotate (acc ^^^ mixLane 0 (littleEndian (bytes.take 8))) 27 * prime1 + prime4
    mixWords count acc (bytes.drop 8)

/-- Spread every bit over the word. -/
def avalanche (w : UInt64) : UInt64 :=
  let w := (w ^^^ (w >>> 33)) * prime2
  let w := (w ^^^ (w >>> 29)) * prime3
  w ^^^ (w >>> 32)

/-- The hash of a byte string under a seed. -/
def hash64 (seed : UInt64) (bytes : List UInt8) : UInt64 :=
  let length := UInt64.ofNat bytes.length
  let (acc, rest) :=
    if 32 ≤ bytes.length then
      let (lanes, rest) := (Lanes.start seed).absorbStripes (bytes.length / 32) bytes
      (lanes.fold, rest)
    else (seed + prime5, bytes)
  avalanche (mixWords (rest.length / 8) (acc + length) rest)

end Resharding.Hash
