import DocBlock.Text.Word

/-! Source text is a list of symbols: characters, and single bytes from which no character could be
read. Such a byte belongs to no character class and is written back as it was. An escape in the
settings can also spell half of a surrogate pair, which no encoding can write. -/

namespace DocBlock

inductive Sym where
  | char (c : Char)
  | byte (b : UInt8)
  | surrogate (u : UInt16)
  deriving DecidableEq, Repr, Inhabited

instance : Coe Char Sym := ⟨.char⟩

abbrev Text := List Sym

def blankRanges : List CodeRange :=
  [(0x09, 0x0D), (0x1C, 0x20), (0x85, 0x85), (0xA0, 0xA0), (0x1680, 0x1680), (0x2000, 0x200A),
    (0x2028, 0x2029), (0x202F, 0x202F), (0x205F, 0x205F), (0x3000, 0x3000)]

def punctuationRanges : List CodeRange :=
  [(0x21, 0x2F), (0x3A, 0x40), (0x5B, 0x60), (0x7B, 0x7E)]

namespace Sym

def char? : Sym → Option Char
  | char c => some c
  | byte _ | surrogate _ => none

def isSurrogate : Sym → Bool
  | surrogate _ => true
  | char _ | byte _ => false

/-- The code point by which a symbol is spelled. Bytes that are no characters take the low surrogates
from U+DC80 on. -/
def code : Sym → Nat
  | char c => c.toNat
  | byte b => 0xDC00 + b.toNat
  | surrogate u => u.toNat

/-- The symbol that a code point spells. -/
def ofCode? (n : Nat) : Option Sym :=
  if n.isValidChar then some (char (Char.ofNat n))
  else if 0xDC80 ≤ n ∧ n ≤ 0xDCFF then some (byte (n - 0xDC00).toUInt8)
  else if n < 0xE000 then some (surrogate n.toUInt16)
  else none

/-- A character of the class `p`; what is no character is in none. -/
def isIn (p : Char → Bool) : Sym → Bool
  | char c => p c
  | byte _ | surrogate _ => false

def isBlank : Sym → Bool := isIn (inRanges blankRanges)

/-- ASCII punctuation, the underscore included. -/
def isPunctuation : Sym → Bool := isIn (inRanges punctuationRanges)

def isWord : Sym → Bool := isIn isWordChar

/-- What frames a comment: blanks, slashes and stars. -/
def isFrame (s : Sym) : Bool := s.isBlank || s = '/' || s = '*'

/-- What may stand before and after the first word of a comment. -/
def isFiller (s : Sym) : Bool := s.isBlank || s.isPunctuation

def isNewline (s : Sym) : Bool := s = '\n' || s = '\r'

@[simp] theorem isIn_byte (p : Char → Bool) (b : UInt8) : isIn p (byte b) = false := rfl

@[simp] theorem isIn_surrogate (p : Char → Bool) (u : UInt16) : isIn p (surrogate u) = false := rfl

@[simp] theorem isIn_char (p : Char → Bool) (c : Char) : isIn p (char c) = p c := rfl

end Sym

/-- Cuts at every element of the class `p`, which itself is dropped; there is always a last part. -/
def cutAt {α : Type} (p : α → Bool) (l : List α) : List (List α) :=
  l.foldr (fun a parts => if p a then [] :: parts else
    match parts with
    | [] => [[a]]
    | part :: rest => (a :: part) :: rest) [[]]

namespace Text

def ofString (s : String) : Text := s.toList.map .char

/-- Drops the longest suffix of the class `p`. -/
def trimRight (p : Sym → Bool) (t : Text) : Text := (t.reverse.dropWhile p).reverse

/-- Drops what belongs to the class `p` at either end. -/
def trim (p : Sym → Bool) (t : Text) : Text := trimRight p (t.dropWhile p)

def strip (t : Text) : Text := t.trim Sym.isBlank

/-- The body of a comment, without its frame and the blanks around it. -/
def commentBody (t : Text) : Text := t.trim Sym.isFrame

def lines (t : Text) : List Text := cutAt (· = .char '\n') t

def joinLines (ls : List Text) : Text := List.intercalate ['\n'] ls

/-- What follows the whole word `w` at the start of the text. -/
def afterWord? (w : Text) (t : Text) : Option Text :=
  if w.isPrefixOf t && !(t.drop w.length).head?.any Sym.isWord then some (t.drop w.length) else none

/-- The string that the text spells, if all its symbols are characters. -/
def toString? (t : Text) : Option String := (t.mapM Sym.char?).map String.ofList

/-- Whether `part` occurs as a contiguous piece of the text. -/
def occursIn (part : Text) : Text → Bool
  | [] => part.isEmpty
  | s :: rest => part.isPrefixOf (s :: rest) || occursIn part rest

end Text

end DocBlock
