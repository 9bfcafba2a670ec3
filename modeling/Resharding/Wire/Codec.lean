import Resharding.Ordered.Map
import Resharding.Ordered.Set
import Resharding.Wire.Reader
import Resharding.Wire.Utf8

/-!
Writing values as bytes and reading them back.

A codec writes a value and reads one from the front of a byte string, handing back what is left.
Codecs of records are put together from those of their fields, so each shape of value has one codec
here: numbers of a fixed width with the lowest byte first, texts and lists behind their length,
optional values behind a tag, variants as their index, sets and maps as lists.
-/

namespace Resharding.Wire

/-- A way to write values and to read one from the front of a byte string. -/
structure Codec (α : Type) where
  encode : α → List UInt8
  reader : Reader α
  /-- The values that the written form has room for; only counts and numbers can be too large. -/
  fits : α → Prop

namespace Codec

variable {α β : Type}

/-- Read a value from the front of a byte string, which gives the value and the bytes after it. -/
def decode (c : Codec α) (bytes : List UInt8) : Except Fault (α × List UInt8) := c.reader.run bytes

/-- Read a value from a byte string and ignore what is left. -/
def read (c : Codec α) (bytes : List UInt8) : Except Fault α := (c.decode bytes).map (·.1)

/-! ### Putting codecs together -/

/-- Write values of `β` as those of `α`. -/
def convert (c : Codec α) (wrap : α → β) (unwrap : β → α) : Codec β where
  encode b := c.encode (unwrap b)
  reader := do return wrap (← c.reader)
  fits b := c.fits (unwrap b)

/-- One value after another. -/
def pair (a : Codec α) (b : Codec β) : Codec (α × β) where
  encode p := a.encode p.1 ++ b.encode p.2
  reader := do
    let x ← a.reader
    let y ← b.reader
    return (x, y)
  fits p := a.fits p.1 ∧ b.fits p.2

/-! ### Numbers -/

/-- The `width` lowest bytes of a number, the lowest first. -/
def lowBytes : Nat → Nat → List UInt8
  | 0, _ => []
  | width + 1, n => UInt8.ofNat n :: lowBytes width (n / 256)

/-- The number of some bytes, the lowest first. -/
def numberOfBytes : List UInt8 → Nat
  | [] => 0
  | b :: rest => b.toNat + 256 * numberOfBytes rest

/-- Numbers below `256 ^ width`. -/
def number (width : Nat) : Codec Nat where
  encode := lowBytes width
  reader := do return numberOfBytes (← Reader.take width .endOfInput)
  fits n := n < Nat.pow 256 width

def byte : Codec UInt8 := (number 1).convert UInt8.ofNat UInt8.toNat
def word16 : Codec UInt16 := (number 2).convert UInt16.ofNat UInt16.toNat
def word32 : Codec UInt32 := (number 4).convert UInt32.ofNat UInt32.toNat
def word64 : Codec UInt64 := (number 8).convert UInt64.ofNat UInt64.toNat

/-! ### Counted values -/

/-- The text of bytes that were taken. -/
def readText (bytes : List UInt8) : Reader String :=
  match textOfBytes bytes with
  | .ok s => return s
  | .error fault => .fail (.badText fault)

/-- A text behind the count of its bytes. -/
def text : Codec String where
  encode s := (number 8).encode (textBytes s).length ++ textBytes s
  reader := do
    let count ← (number 8).reader
    readText (← Reader.take count .textBeyondInput)
  fits s := (number 8).fits (textBytes s).length

/-- The next `count` items. -/
def takeItems (item : Reader α) : Nat → Reader (List α)
  | 0 => return []
  | count + 1 => .pass .item do
    let x ← item
    let xs ← takeItems item count
    return x :: xs

/-- A list behind the count of its items. -/
def list (item : Codec α) : Codec (List α) where
  encode xs := (number 8).encode xs.length ++ xs.flatMap item.encode
  reader := do takeItems item.reader (← (number 8).reader)
  fits xs := (number 8).fits xs.length ∧ ∀ x ∈ xs, item.fits x

/-- A collection as the list of its items; read in any order, with repeats. -/
def collection (item : Codec α) (ascend : List α → Prop) (gather : List α → β)
    (listing : β → List α) : Codec β where
  encode b := item.list.encode (listing b)
  reader := do
    let xs ← item.list.reader
    .pass (.keys (ascend xs)) (return gather xs)
  fits b := item.list.fits (listing b)

/-- A set as the list of its members. -/
def set [Ord α] [Std.TransOrd α] (item : Codec α) : Codec (SortedSet α) :=
  item.collection (·.Pairwise fun a b => compare a b = .lt) SortedSet.ofList SortedSet.toList

/-- A map as the list of its entries; the last entry of a key counts. -/
def map [Ord α] [Std.TransOrd α] (key : Codec α) (value : Codec β) : Codec (SortedMap α β) :=
  (key.pair value).collection (·.Pairwise fun a b => compare a.1 b.1 = .lt) SortedMap.ofList
    SortedMap.toList

/-! ### Tagged values -/

/-- A value behind a one, or a zero in its place. -/
def option (item : Codec α) : Codec (Option α) where
  encode
    | none => byte.encode 0
    | some x => byte.encode 1 ++ item.encode x
  reader := do
    let tag ← byte.reader
    if tag == 0 then return none
    else if tag == 1 then return some (← item.reader)
    else .fail (.badOptionTag tag.toNat)
  fits x := ∀ y ∈ x, item.fits y

/-- A variant as its position in the list of all of them. -/
def variant [DecidableEq α] (variants : List α) : Codec α where
  encode x := (number 4).encode (variants.idxOf x)
  reader := do
    let index ← (number 4).reader
    match variants[index]? with
    | some x => return x
    | none => .fail (.badVariant index variants.length)
  fits x := x ∈ variants ∧ (number 4).fits variants.length

end Codec

end Resharding.Wire
