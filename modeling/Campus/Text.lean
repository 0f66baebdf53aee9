/-!
# Blank text

The characters that count as blank are those with the Unicode property White_Space. Requests
are trimmed of them, and a line, a dataset id or a directory name that holds nothing else
counts as empty.
-/

namespace Campus.Text

/-- Unicode White_Space: the controls from tab to carriage return, the space, next line, the
no-break space, and the separators of the blocks from Ogham to CJK. -/
def isBlank (c : Char) : Bool :=
  (9 ≤ c.toNat && c.toNat ≤ 13) || c.toNat = 0x20 || c.toNat = 0x85 || c.toNat = 0xA0 ||
    c.toNat = 0x1680 || (0x2000 ≤ c.toNat && c.toNat ≤ 0x200A) || c.toNat = 0x2028 ||
    c.toNat = 0x2029 || c.toNat = 0x202F || c.toNat = 0x205F || c.toNat = 0x3000

/-- Whether `cs` holds blanks only. -/
def allBlank (cs : List Char) : Bool := cs.all isBlank

/-- `cs` without its leading blanks. -/
def trimLeft (cs : List Char) : List Char := cs.dropWhile isBlank

/-- `cs` without the blanks at either end. -/
def trim (cs : List Char) : List Char := (trimLeft (trimLeft cs).reverse).reverse

end Campus.Text
