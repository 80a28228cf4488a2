import Treewalk.Decimal.Literal
import Treewalk.Text.Blank

/-! # The call limit

How many calls may run inside one another, unless something else is asked for.
-/

namespace Treewalk.Limit

/-- The limit when nothing else is set. -/
def default : Nat := 4096

/-- A number that fits into 64 bits, with a plus sign in front if need be. -/
def number? (text : List Char) : Option Nat :=
  let digits := if text.head? == some '+' then text.tail else text
  if digits.isEmpty || !digits.all Char.isDigit then none
  else
    let n := Decimal.digitsValue digits
    if n < 18446744073709551616 then some n else none

/-- The limit that a setting asks for: a positive number, with blanks around it
    if need be. -/
def ofSetting? (setting : String) : Option Nat :=
  (number? (Text.trim setting.toList)).filter (0 < ·)

/-- The limit under a setting. What makes no sense is ignored. -/
def ofSetting (setting : Option String) : Nat :=
  (setting.bind ofSetting?).getD default

end Treewalk.Limit
