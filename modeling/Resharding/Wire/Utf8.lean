import Resharding.Wire.Fault

/-!
UTF-8 texts as bytes.

A text is its bytes together with the fact that they are valid, so reading gives back what was
written and writing gives back what was read. `faultAt` looks at invalid bytes again to tell where
the first bad character begins and how much of it is sound.
-/

namespace Resharding.Wire

/-- Bytes that continue a character. -/
def isContinuation (b : UInt8) : Bool := 0x80 ≤ b && b < 0xC0

/-- The bytes that may follow the first byte of a character, position by position; none for a byte
that begins no character. The second byte is narrowed where the character would otherwise be written
too long, be a surrogate, or lie beyond the last code. -/
def continuations (first : UInt8) : Option (List (UInt8 → Bool)) :=
  let within (low high : UInt8) (b : UInt8) : Bool := low ≤ b && b ≤ high
  if first < 0x80 then some []
  else if first < 0xC2 then none
  else if first < 0xE0 then some [isContinuation]
  else if first == 0xE0 then some [within 0xA0 0xBF, isContinuation]
  else if first == 0xED then some [within 0x80 0x9F, isContinuation]
  else if first < 0xF0 then some [isContinuation, isContinuation]
  else if first == 0xF0 then some [within 0x90 0xBF, isContinuation, isContinuation]
  else if first == 0xF4 then some [within 0x80 0x8F, isContinuation, isContinuation]
  else if first < 0xF4 then some [isContinuation, isContinuation, isContinuation]
  else none

/-- How the bytes after a first byte miss what is expected of them, `read` bytes of the character
being sound; `none` if they are as expected. -/
def continuationFault (index : Nat) : Nat → List (UInt8 → Bool) → List UInt8 → Option TextFault
  | _, [], _ => none
  | _, _ :: _, [] => some (.incomplete index)
  | read, expected :: more, b :: rest =>
    if expected b then continuationFault index (read + 1) more rest
    else some (.invalid read index)

/-- The first fault of the bytes from `index` on, the first `skip` of which belong to a character
already read. -/
def faultAt : Nat → Nat → List UInt8 → Option TextFault
  | _, _, [] => none
  | index, skip + 1, _ :: rest => faultAt (index + 1) skip rest
  | index, 0, b :: rest =>
    match continuations b with
    | none => some (.invalid 1 index)
    | some expected =>
      match continuationFault index 1 expected rest with
      | some fault => some fault
      | none => faultAt (index + 1) expected.length rest

/-- The bytes of a text. -/
def textBytes (s : String) : List UInt8 := s.toByteArray.data.toList

/-- The text of bytes that are UTF-8, or else their first fault. -/
def textOfBytes (bytes : List UInt8) : Except TextFault String :=
  match String.fromUTF8? ⟨bytes.toArray⟩ with
  | some s => .ok s
  | none => .error ((faultAt 0 0 bytes).getD (.incomplete bytes.length))

end Resharding.Wire
