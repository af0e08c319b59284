/-!
# Blank characters

A character is blank when Unicode gives it the property `White_Space`.  `trim` removes
the blanks at both ends of a text, `splitFirst` cuts a text at the first character with
a property, and `splitLast` at the last one.  Texts are lists of characters here, so
that readers recurse on them.
-/

namespace Conformance.Text

/-- The characters with the Unicode property `White_Space`. -/
def isBlank (c : Char) : Bool :=
  let n := c.toNat
  (0x09 ≤ n && n ≤ 0x0D) || n == 0x20 || n == 0x85 || n == 0xA0 || n == 0x1680
    || (0x2000 ≤ n && n ≤ 0x200A) || n == 0x2028 || n == 0x2029 || n == 0x202F
    || n == 0x205F || n == 0x3000

/-- A text without the blanks it starts with. -/
def trimStart (cs : List Char) : List Char := cs.dropWhile isBlank

/-- A text without the blanks it ends with. -/
def trimEnd (cs : List Char) : List Char := (cs.reverse.dropWhile isBlank).reverse

/-- A text without the blanks at its two ends. -/
def trim (cs : List Char) : List Char := trimEnd (trimStart cs)

/-- The parts of a text before and after the first character that satisfies `p`. -/
def splitFirst (p : Char → Bool) : List Char → Option (List Char × List Char)
  | [] => none
  | c :: cs =>
    if p c then some ([], cs) else (splitFirst p cs).map fun (h, t) => (c :: h, t)

/-- The last character of a text that satisfies `p`, with the parts before and after it. -/
def splitLast (p : Char → Bool) : List Char → Option (List Char × Char × List Char)
  | [] => none
  | c :: cs =>
    match splitLast p cs with
    | some (h, d, t) => some (c :: h, d, t)
    | none => if p c then some ([], c, cs) else none

end Conformance.Text
