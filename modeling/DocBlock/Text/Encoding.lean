import DocBlock.Text.Basic

/-! Encodings between bytes and text. Three of them are defined here; their decoding never fails: a
byte that starts no encoded character becomes a symbol of its own, and encoding writes it back
unchanged. Any other encoding is a `Codec`, which may fail both ways.

Left out: the tables of the other encodings, and the portions in which a stream is read. How much text
there is before bytes that make no sense is for the codec to say. -/

namespace DocBlock

abbrev Bytes := List UInt8

inductive Encoding where
  | utf8 | latin1 | ascii
  deriving DecidableEq, Repr

namespace Encoding

/-- The code point that a UTF-8 sequence starting with `b` would stand for. -/
def utf8Value (b : UInt8) (rest : Bytes) : Nat :=
  let tail i := (rest.getD i 0).toNat % 64
  if b < 0x80 then b.toNat
  else if b < 0xE0 then b.toNat % 32 * 64 + tail 0
  else if b < 0xF0 then (b.toNat % 16 * 64 + tail 0) * 64 + tail 1
  else ((b.toNat % 8 * 64 + tail 0) * 64 + tail 1) * 64 + tail 2

/-- The character whose UTF-8 form stands at the front of the bytes. Since that form is unique,
overlong, truncated and out-of-range sequences have none. -/
def utf8Front? (b : UInt8) (rest : Bytes) : Option Char :=
  let c := Char.ofNat (utf8Value b rest)
  if (String.utf8EncodeChar c).isPrefixOf (b :: rest) then some c else none

def decodeUtf8From (done : Array Sym) : Bytes → Text
  | [] => done.toList
  | b :: rest =>
    match utf8Front? b rest with
    | some c => decodeUtf8From (done.push c) (rest.drop (c.utf8Size - 1))
    | none => decodeUtf8From (done.push (.byte b)) rest
termination_by bytes => bytes.length
decreasing_by
  · simp only [List.length_drop, List.length_cons]
    omega
  · simp only [List.length_cons]
    omega

def decode (e : Encoding) (bytes : Bytes) : Text :=
  match e with
  | utf8 => decodeUtf8From #[] bytes
  | latin1 => bytes.map fun b => .char (Char.ofNat b.toNat)
  | ascii => bytes.map fun b => if b < 0x80 then .char (Char.ofNat b.toNat) else .byte b

def encodeSym? (e : Encoding) : Sym → Option Bytes
  | .byte b => some [b]
  | .surrogate _ => none
  | .char c =>
    match e with
    | utf8 => some (String.utf8EncodeChar c)
    | latin1 => if c.toNat < 256 then some [c.toNat.toUInt8] else none
    | ascii => if c.toNat < 128 then some [c.toNat.toUInt8] else none

/-- `none` when the encoding lacks some character of the text. -/
def encode? (e : Encoding) (t : Text) : Option Bytes :=
  (t.mapM e.encodeSym?).map List.flatten

end Encoding

/-- What was read from bytes: all the text in them, or what came before bytes that make no sense. -/
structure Decoded where
  text : Text
  isComplete : Bool := true
  deriving DecidableEq, Repr, Inhabited

/-- A way to read and to write text. Text is written in pieces: `encode?` gives the bytes that a piece
adds behind the earlier pieces, of which the last stands first. -/
structure Codec where
  decode : Bytes → Decoded
  encode? : List Text → Text → Option Bytes
  /-- Where there is nothing, nothing is read. -/
  decode_nil : decode [] = { text := [] }

namespace Encoding

def codec (e : Encoding) : Codec where
  decode bytes := { text := e.decode bytes }
  encode? _ := e.encode?
  decode_nil := by cases e <;> simp [decode, decodeUtf8From]

instance : Coe Encoding Codec := ⟨codec⟩

/-- A name in lower case, with each run of marks between its words made one underscore. -/
def normalName (name : String) : String :=
  let step (acc : List Char × Bool) (c : Char) : List Char × Bool :=
    if c.isAlphanum || c == '.' then
      (c.toLower :: (if acc.2 && !acc.1.isEmpty then '_' :: acc.1 else acc.1), false)
    else (acc.1, true)
  String.ofList (name.toList.foldl step ([], false)).1.reverse

def utf8Names : List String :=
  ["utf_8", "utf8", "u8", "utf", "utf8_ucs2", "utf8_ucs4", "cp65001"]

def latin1Names : List String :=
  ["latin_1", "latin1", "latin", "l1", "iso8859_1", "iso_8859_1", "iso8859", "8859", "cp819",
    "csisolatin1", "ibm819", "iso_8859_1_1987", "iso_ir_100"]

def asciiNames : List String :=
  ["ascii", "us_ascii", "us", "646", "ansi_x3.4_1968", "ansi_x3_4_1968", "ansi_x3.4_1986", "cp367",
    "csascii", "ibm367", "iso646_us", "iso_646.irv_1991", "iso_ir_6"]

def ofName? (name : String) : Option Encoding :=
  let n := normalName name
  if utf8Names.contains n then some utf8
  else if latin1Names.contains n then some latin1
  else if asciiNames.contains n then some ascii
  else none

def codec? (name : String) : Option Codec := (ofName? name).map codec

end Encoding

end DocBlock
