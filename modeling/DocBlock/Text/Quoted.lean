import DocBlock.Text.Basic
import DocBlock.Text.Printable

/-! Text in quotes, as diagnostics show it. Single quotes are used unless the text holds one and no
double quote; what cannot be seen is escaped. -/

namespace DocBlock

namespace Quoted

/-- The number in hexadecimal with at least `width` digits. -/
def hex (width n : Nat) : List Char :=
  let digits := Nat.toDigits 16 n
  List.replicate (width - digits.length) '0' ++ digits

def escapedCode (n : Nat) : List Char :=
  if n < 0x100 then '\\' :: 'x' :: hex 2 n
  else if n < 0x10000 then '\\' :: 'u' :: hex 4 n
  else '\\' :: 'U' :: hex 8 n

def escaped (quote : Char) : Sym → List Char
  | .char c =>
    if c = quote || c = '\\' then ['\\', c]
    else if c = '\n' then ['\\', 'n']
    else if c = '\r' then ['\\', 'r']
    else if c = '\t' then ['\\', 't']
    else if isPrintableChar c then [c]
    else escapedCode c.toNat
  | s => escapedCode s.code

def quoteFor (t : Text) : Char :=
  if t.contains (.char '\'') && !t.contains (.char '"') then '"' else '\''

def ofText (t : Text) : String :=
  let quote := quoteFor t
  String.ofList (quote :: t.flatMap (escaped quote) ++ [quote])

def quoted (name : String) : String := ofText (.ofString name)

end Quoted

/-- The text as a message shows it; what is no character is escaped. -/
def Text.display (t : Text) : String :=
  String.ofList (t.flatMap fun
    | .char c => [c]
    | s => Quoted.escapedCode s.code)

end DocBlock
