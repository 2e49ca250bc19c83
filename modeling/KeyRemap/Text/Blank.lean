/-!
# Blank characters

The blank characters are those with the Unicode property White_Space. Trimming takes them from
both ends of a text and leaves the inside alone.
-/

namespace KeyRemap.Text

/-- The characters with the property White_Space: the five controls from tab to carriage return,
next line, and the spaces and separators of the general punctuation. Zero-width characters and the
information separators are not among them. -/
def isBlank (c : Char) : Bool :=
  let n := c.toNat
  (0x09 ≤ n && n ≤ 0x0D) || n == 0x20 || n == 0x85 || n == 0xA0 || n == 0x1680 ||
    (0x2000 ≤ n && n ≤ 0x200A) || n == 0x2028 || n == 0x2029 || n == 0x202F || n == 0x205F ||
    n == 0x3000

def trimStart (cs : List Char) : List Char :=
  cs.dropWhile isBlank

def trimEnd (cs : List Char) : List Char :=
  (cs.reverse.dropWhile isBlank).reverse

/-- A text without the blanks at its two ends. -/
def trim (cs : List Char) : List Char :=
  trimEnd (trimStart cs)

def trimmed (s : String) : String :=
  String.ofList (trim s.toList)

end KeyRemap.Text
