/-!
Layouts of the files of a read-only store.
-/

namespace Resharding

/-- A version of the layout. -/
inductive StorageFormat where
  | version0
  | version1
  | version2
deriving DecidableEq, Repr

namespace StorageFormat

/-- The only layout in which partitions can be moved. -/
def movable : StorageFormat := version2

def code : StorageFormat → String
  | version0 => "ro0"
  | version1 => "ro1"
  | version2 => "ro2"

/-- The layout of a code. -/
def ofCode? (code : String) : Option StorageFormat :=
  [version0, version1, version2].find? fun f => f.code == code

theorem ofCode?_code (f : StorageFormat) : ofCode? f.code = some f := by cases f <;> decide

end StorageFormat

end Resharding
