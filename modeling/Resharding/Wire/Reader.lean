import Resharding.Wire.Fault

/-!
Reading bytes piece by piece.

A reader is a program that asks for the next bytes and goes on with what it is given. What it reads
(`Reader.run`), how long it takes (`Reader.steps`) and whether the keys that it meets are in order
(`Reader.InOrder`) are told of one and the same program.
-/

namespace Resharding.Wire

/-- What a reader passes without taking bytes. -/
inductive Mark where
  /-- The next item of a list begins. -/
  | item
  /-- The keys of a set or map are there; whether they ascend does not matter to what is read. -/
  | keys (ascend : Prop)

/-- A program that reads a value from the front of a byte string. -/
inductive Reader (α : Type) where
  | done (value : α)
  | fail (fault : Fault)
  /-- Ask for the next `count` bytes, the fault being that there are fewer. -/
  | ask (count : Nat) (fault : Fault) (next : List UInt8 → Reader α)
  | pass (mark : Mark) (next : Reader α)

namespace Reader

variable {α β : Type}

/-- One reader, and then another that may depend on what was read. -/
def bind (next : α → Reader β) : Reader α → Reader β
  | done value => next value
  | fail fault => fail fault
  | ask count fault more => ask count fault fun bytes => (more bytes).bind next
  | pass mark more => pass mark (more.bind next)

instance : Monad Reader where
  pure := done
  bind r next := r.bind next

/-- The next `count` bytes. -/
def take (count : Nat) (fault : Fault) : Reader (List UInt8) := ask count fault done

/-- The value that is read, and the bytes after it. -/
def run : Reader α → List UInt8 → Except Fault (α × List UInt8)
  | done value, bytes => .ok (value, bytes)
  | fail fault, _ => .error fault
  | ask count fault next, bytes =>
    if bytes.length < count then .error fault
    else (next (bytes.take count)).run (bytes.drop count)
  | pass _ next, bytes => next.run bytes

/-- How many times bytes are asked for or an item is begun until there is a value or a fault. -/
def steps : Reader α → List UInt8 → Nat
  | done _, _ => 0
  | fail _, _ => 0
  | ask count _ next, bytes =>
    if bytes.length < count then 1 else (next (bytes.take count)).steps (bytes.drop count) + 1
  | pass .item next, bytes => next.steps bytes + 1
  | pass (.keys _) next, bytes => next.steps bytes

/-- Every set and map that is read lists its keys in ascending order, each of them once. -/
def InOrder : Reader α → List UInt8 → Prop
  | done _, _ => True
  | fail _, _ => True
  | ask count _ next, bytes =>
    bytes.length < count ∨ (next (bytes.take count)).InOrder (bytes.drop count)
  | pass .item next, bytes => next.InOrder bytes
  | pass (.keys ascend) next, bytes => ascend ∧ next.InOrder bytes

end Reader

end Resharding.Wire
