import Resharding.Version.Clock

/-!
Values with the version they were written at.
-/

namespace Resharding

/-- A value and its version. -/
structure Versioned (α : Type) where
  value : α
  version : Clock
deriving DecidableEq

namespace Versioned

variable {α β : Type}

/-- A value before any update. -/
def initial (value : α) : Versioned α := ⟨value, .empty⟩

/-- How the versions relate, whatever the values. -/
def relation (a b : Versioned α) : Causality := a.version.relation b.version

/-- Another value at the same version. -/
def map (f : α → β) (v : Versioned α) : Versioned β := ⟨f v.value, v.version⟩

end Versioned

end Resharding
