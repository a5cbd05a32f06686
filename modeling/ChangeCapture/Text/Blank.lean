/-!
# Blank characters

The white space of Unicode: 25 characters, ASCII and not. The zero-width ones (the byte order mark
and its kin) are not among them. Trimming takes blanks off both ends.

## Main definitions

* `isBlank`, `trim`.
-/

namespace ChangeCapture

/-- The characters with the property White_Space. -/
def isBlank (c : Char) : Bool :=
  let n := c.toNat
  (9 ≤ n && n ≤ 13) || n == 0x20 || n == 0x85 || n == 0xA0 || n == 0x1680 ||
    (0x2000 ≤ n && n ≤ 0x200A) || n == 0x2028 || n == 0x2029 || n == 0x202F || n == 0x205F ||
    n == 0x3000

/-- Characters without the blanks at either end. -/
def trimChars (cs : List Char) : List Char :=
  ((cs.dropWhile isBlank).reverse.dropWhile isBlank).reverse

/-- A string without the blanks at either end. -/
def trim (s : String) : String :=
  String.ofList (trimChars s.toList)

/-- An ASCII capital in lower case; any other character as it is. -/
def lowerAscii (s : String) : String :=
  String.ofList (s.toList.map Char.toLower)

end ChangeCapture
