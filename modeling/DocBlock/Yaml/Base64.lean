import DocBlock.Text.Encoding

/-! Bytes in base 64. Foreign characters are passed over, and reading ends at the padding that completes
a group of four. -/

namespace DocBlock.Yaml.Base64

def digit? (c : Char) : Option Nat :=
  if c.isUpper then some (c.toNat - 'A'.toNat)
  else if c.isLower then some (c.toNat - 'a'.toNat + 26)
  else if c.isDigit then some (c.toNat - '0'.toNat + 52)
  else if c = '+' then some 62
  else if c = '/' then some 63
  else none

/-- The digits, of which `count` were read before, with `pads` marks of padding since the last. An
incomplete group without its padding is refused. -/
def digits? (count pads : Nat) : List Char → Option (List Nat)
  | [] => if count % 4 = 0 then some [] else none
  | c :: cs =>
    if c = '=' then
      if count % 4 < 2 then digits? count pads cs
      else if count % 4 + pads < 3 then digits? count (pads + 1) cs
      else some []
    else
      match digit? c with
      | none => digits? count pads cs
      | some d => (digits? (count + 1) 0 cs).map (d :: ·)

/-- Four digits make three bytes; a last group of three makes two, and one of two makes one. -/
def bytes : List Nat → Bytes
  | a :: b :: c :: d :: rest =>
    (a * 4 + b / 16).toUInt8 :: (b * 16 + c / 4).toUInt8 :: (c * 64 + d).toUInt8 :: bytes rest
  | [a, b, c] => [(a * 4 + b / 16).toUInt8, (b * 16 + c / 4).toUInt8]
  | [a, b] => [(a * 4 + b / 16).toUInt8]
  | _ => []

/-- The bytes that an ASCII text spells. -/
def decode? (t : Text) : Option Bytes := do
  let cs ← t.mapM Sym.char?
  if cs.any (127 < ·.toNat) then none
  (digits? 0 0 cs).map bytes

end DocBlock.Yaml.Base64
