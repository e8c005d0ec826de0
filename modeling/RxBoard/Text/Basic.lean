/-!
Source text as a list of characters, and the rules by which it is cut up.

White space is the Unicode property of that name, lines end at a line feed
only, and letter case is an ASCII matter.
-/

namespace RxBoard

abbrev Text := List Char

namespace Text

/-- The characters with the Unicode property `White_Space`. -/
def isWhiteSpace (character : Char) : Bool :=
  let code := character.toNat
  (0x09 ≤ code && code ≤ 0x0D) || code == 0x20 || code == 0x85 ||
    code == 0xA0 || code == 0x1680 ||
    (0x2000 ≤ code && code ≤ 0x200A) || code == 0x2028 ||
    code == 0x2029 || code == 0x202F || code == 0x205F ||
    code == 0x3000

def trimStart (text : Text) : Text :=
  text.dropWhile isWhiteSpace

def trimEnd (text : Text) : Text :=
  (text.reverse.dropWhile isWhiteSpace).reverse

def trim (text : Text) : Text :=
  trimEnd (trimStart text)

/-- Text with the letters `a` to `z` replaced by their capitals. -/
def upper (text : Text) : Text :=
  text.map Char.toUpper

/-- The lines of a text.  A line ends at a line feed, which is dropped together
with one carriage return just before it.  What follows the last line feed is a
line only if it is not empty, and keeps its carriage return. -/
def lines : Text → List Text
  | [] => []
  | '\n' :: rest => [] :: lines rest
  | '\r' :: '\n' :: rest => [] :: lines rest
  | character :: rest =>
      match lines rest with
      | [] => [[character]]
      | line :: more => (character :: line) :: more

def joinLines (pieces : List Text) : Text :=
  List.intercalate ['\n'] pieces

def padEnd (width : Nat) (text : Text) : Text :=
  text ++ List.replicate (width - text.length) ' '

end Text

end RxBoard
