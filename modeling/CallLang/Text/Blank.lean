/-
  CallLang/Text/Blank.lean
  ========================
  **Blank characters.**

  Programs may be laid out with any Unicode white space, and the console trims
  the same characters from a typed line.  `isBlank` is the one test for them;
  `strip` removes them from both ends of a text.
-/

namespace CallLang.Text

/-- The code points of the blank characters, as closed ranges: the ASCII
    controls that move the cursor, the information separators, the next-line
    and no-break characters, and the Unicode spaces and line separators. -/
def blankRanges : List (Nat × Nat) :=
  [(0x09, 0x0D), (0x1C, 0x20), (0x85, 0x85), (0xA0, 0xA0), (0x1680, 0x1680),
   (0x2000, 0x200A), (0x2028, 0x2029), (0x202F, 0x202F), (0x205F, 0x205F),
   (0x3000, 0x3000)]

/-- A blank character separates tokens and means nothing else. -/
def isBlank (c : Char) : Bool :=
  blankRanges.any fun (low, high) => low ≤ c.toNat && c.toNat ≤ high

def strip (text : String) : String :=
  let trimmed := text.toList.dropWhile isBlank
  String.ofList (trimmed.reverse.dropWhile isBlank).reverse

def isBlankText (text : String) : Bool :=
  text.toList.all isBlank

end CallLang.Text
