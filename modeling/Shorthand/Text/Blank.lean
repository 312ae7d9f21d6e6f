/-!
# Blank characters

Which characters are blank, and the text left when blanks are taken off both ends.
-/

namespace Shorthand.Text

/-- The Unicode blanks, together with the control characters 1C to 1F that separate records. -/
def isBlank (c : Char) : Bool :=
  let n := c.toNat
  (0x09 ≤ n && n ≤ 0x0D) || (0x1C ≤ n && n ≤ 0x20) || n == 0x85 || n == 0xA0 || n == 0x1680 ||
    (0x2000 ≤ n && n ≤ 0x200A) || n == 0x2028 || n == 0x2029 || n == 0x202F || n == 0x205F || n == 0x3000

/-- Blank characters only, or none at all. -/
def isBlankText (s : String) : Bool := s.toList.all isBlank

def stripList (cs : List Char) : List Char :=
  ((cs.dropWhile isBlank).reverse.dropWhile isBlank).reverse

def strip (s : String) : String := .ofList (stripList s.toList)

end Shorthand.Text
