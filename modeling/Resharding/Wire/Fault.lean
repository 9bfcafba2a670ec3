/-!
What can be wrong with a byte string that is read as a record.
-/

namespace Resharding.Wire

/-- Where and how bytes stop being UTF-8. -/
inductive TextFault where
  /-- The `length` bytes at `index` begin no character. -/
  | invalid (length index : Nat)
  /-- The bytes end inside the character that begins at `index`. -/
  | incomplete (index : Nat)
deriving DecidableEq, Repr

def TextFault.message : TextFault → String
  | .invalid length index =>
    "invalid utf-8 sequence of " ++ toString length ++ " bytes from index " ++ toString index
  | .incomplete index => "incomplete utf-8 byte sequence from index " ++ toString index

/-- Why a byte string is no record of the expected kind. -/
inductive Fault where
  /-- The input ends inside a number or tag. -/
  | endOfInput
  /-- A text is announced to be longer than the input. -/
  | textBeyondInput
  | badText (fault : TextFault)
  /-- An enumeration of `count` variants is given the variant `index`. -/
  | badVariant (index count : Nat)
  /-- An optional value is announced by neither zero nor one. -/
  | badOptionTag (tag : Nat)
  /-- A reason given by the caller. -/
  | other (text : String)
deriving DecidableEq, Repr

def Fault.message : Fault → String
  | .endOfInput => "io error: unexpected end of file"
  | .textBeyondInput => "io error: "
  | .badText fault => "string is not valid utf8: " ++ fault.message
  | .badVariant index count =>
    "invalid value: integer `" ++ toString index ++ "`, expected variant index 0 <= i < " ++
      toString count
  | .badOptionTag tag => "tag for enum is not valid, found " ++ toString tag
  | .other text => text

end Resharding.Wire
