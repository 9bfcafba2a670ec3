/-!
Lists inside texts: items separated by a comma and a blank, bare or in brackets or braces.
-/

namespace Resharding.Text

/-- The items with a comma and a blank between them. -/
def commaSeparated (items : List String) : String := ", ".intercalate items

/-- The items in square brackets. -/
def bracketed (items : List String) : String := "[" ++ commaSeparated items ++ "]"

/-- The items in curly braces. -/
def braced (items : List String) : String := "\x7b" ++ commaSeparated items ++ "\x7d"

end Resharding.Text
