/-! # Finding text in text -/

namespace Treewalk.Text

/-- Whether a text occurs in another. -/
def occursIn (needle : List Char) : List Char → Bool
  | [] => needle.isEmpty
  | c :: cs => needle.isPrefixOf (c :: cs) || occursIn needle cs

/-- Whether a string has another in it. -/
def mentions (s needle : String) : Bool := occursIn needle.toList s.toList

end Treewalk.Text
