/-!
# Blank characters

The characters of Unicode's `White_Space` property, and the text that is left when they are taken
from both ends.
-/

namespace LayeredMachines

/-- The Unicode property `White_Space`. -/
def isBlank (c : Char) : Bool :=
  let code := c.toNat
  (0x9 ≤ code && code ≤ 0xD) || code == 0x20 || code == 0x85 || code == 0xA0 || code == 0x1680 ||
    (0x2000 ≤ code && code ≤ 0x200A) || code == 0x2028 || code == 0x2029 || code == 0x202F ||
    code == 0x205F || code == 0x3000

/-- A text without the blank characters at its start. -/
def trimStart (text : List Char) : List Char :=
  text.dropWhile isBlank

/-- A text without the blank characters at its start and at its end. -/
def trim (text : List Char) : List Char :=
  (trimStart (trimStart text).reverse).reverse

end LayeredMachines
