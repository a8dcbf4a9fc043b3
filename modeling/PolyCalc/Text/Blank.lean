/-!
# Blanks

The blank characters are those with the Unicode property `White_Space`, which
is more than the four blanks that `Char.isWhitespace` knows: the other line
breaks, the no-break spaces, and the spaces of typography count too. The
byte order mark does not.

Texts are lists of characters here, since everything that is said about them
is said about characters one after the other.

## Main definitions

* `isBlank`: Membership in the class.
* `strip`: A text with every blank removed.
* `trim`: A text with the blanks at its ends removed.
-/

namespace PolyCalc

namespace Text

/-- The blanks: five controls, the space, next line, the no-break space, the
    Ogham space, the typographical spaces and the two separators, the narrow
    no-break space, the mathematical and the ideographic space. -/
def isBlank (c : Char) : Bool :=
  (0x09 ≤ c.toNat && c.toNat ≤ 0x0D) || c.toNat = 0x20 || c.toNat = 0x85
    || c.toNat = 0xA0 || c.toNat = 0x1680 || (0x2000 ≤ c.toNat && c.toNat ≤ 0x200A)
    || c.toNat = 0x2028 || c.toNat = 0x2029 || c.toNat = 0x202F
    || c.toNat = 0x205F || c.toNat = 0x3000

/-- The text without its blanks. -/
def strip (text : List Char) : List Char := text.filter fun c => !isBlank c

/-- The text without the blanks at its start. -/
def trimStart (text : List Char) : List Char := text.dropWhile isBlank

/-- The text without the blanks at its end. -/
def trimEnd (text : List Char) : List Char := (trimStart text.reverse).reverse

/-- The text without the blanks at its ends. -/
def trim (text : List Char) : List Char := trimEnd (trimStart text)

end Text

end PolyCalc
