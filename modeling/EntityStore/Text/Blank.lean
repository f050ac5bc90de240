import EntityStore.Text.Ranges
/-!
# White space

The characters with the White_Space property, and the text between the blanks at its two ends.
-/
namespace EntityStore.Blank

/-- The ranges of the White_Space property, ends included. -/
def ranges : List (Nat × Nat) :=
  [(0x9, 0xd), (0x20, 0x20), (0x85, 0x85), (0xa0, 0xa0), (0x1680, 0x1680), (0x2000, 0x200a),
   (0x2028, 0x2029), (0x202f, 0x202f), (0x205f, 0x205f), (0x3000, 0x3000)]

def isBlank (c : Char) : Bool := Ranges.hold ranges c

/-- The text without the blanks at its beginning and end. -/
def trim (s : String) : String :=
  String.ofList ((s.toList.dropWhile isBlank).reverse.dropWhile isBlank).reverse

end EntityStore.Blank
