import XmlRecords.Xml.Declaration

/-!
Character encodings of documents. A byte order mark settles the encoding, else the declaration does,
and UTF-8 is meant if neither is there.
-/

set_option autoImplicit false
set_option relaxedAutoImplicit false

namespace XmlRecords.Xml

inductive Encoding where
  | utf8
  | utf16 (bigEndian : Bool)
  | latin1
  | latin9
  | windows1252
  | ascii
  deriving DecidableEq, Repr

namespace Encoding

/-- The encoding of a name, in whatever case. UTF-16 without a byte order mark has none. -/
def ofName? (name : String) : Option Encoding :=
  match String.ofList (name.toList.map Char.toLower) with
  | "utf-8" | "utf8" => some .utf8
  | "iso-8859-1" | "iso_8859-1" | "iso8859-1" | "latin1" | "iso-latin-1" => some .latin1
  | "iso-8859-15" | "iso8859-15" | "latin-9" => some .latin9
  | "windows-1252" | "cp1252" => some .windows1252
  | "us-ascii" | "ascii" => some .ascii
  | _ => none

/-- The characters of Windows-1252 from 0x80 to 0x9F; zero stands for none. -/
def windowsHigh : List Nat := [
  0x20AC, 0, 0x201A, 0x192, 0x201E, 0x2026, 0x2020, 0x2021, 0x2C6, 0x2030, 0x160, 0x2039, 0x152, 0,
  0x17D, 0, 0, 0x2018, 0x2019, 0x201C, 0x201D, 0x2022, 0x2013, 0x2014, 0x2DC, 0x2122, 0x161, 0x203A,
  0x153, 0, 0x17E, 0x178]

def windowsChar? (b : UInt8) : Option Char :=
  if 0x80 ≤ b ∧ b < 0xA0 then
    match windowsHigh[b.toNat - 0x80]? with
    | some 0 | none => none
    | some code => some (Char.ofNat code)
  else some (Char.ofNat b.toNat)

def latin9Char (b : UInt8) : Char :=
  match b.toNat with
  | 0xA4 => Char.ofNat 0x20AC
  | 0xA6 => Char.ofNat 0x160
  | 0xA8 => Char.ofNat 0x161
  | 0xB4 => Char.ofNat 0x17D
  | 0xB8 => Char.ofNat 0x17E
  | 0xBC => Char.ofNat 0x152
  | 0xBD => Char.ofNat 0x153
  | 0xBE => Char.ofNat 0x178
  | n => Char.ofNat n

def latin1Char (b : UInt8) : Char := Char.ofNat b.toNat

/-- The 16-bit units of bytes; an odd byte at the end is refused. -/
def units? (bigEndian : Bool) : List UInt8 → Option (List Nat)
  | [] => some []
  | [_] => none
  | a :: b :: rest =>
    let unit := if bigEndian then a.toNat * 256 + b.toNat else b.toNat * 256 + a.toNat
    (units? bigEndian rest).map (unit :: ·)

/-- The characters of UTF-16 units; a unit without its partner is refused. -/
def ofUnits? : List Nat → Option (List Char)
  | [] => some []
  | u :: units =>
    if 0xD800 ≤ u ∧ u < 0xDC00 then
      match units with
      | v :: rest =>
        if 0xDC00 ≤ v ∧ v < 0xE000 then
          (ofUnits? rest).map (Char.ofNat (0x10000 + (u - 0xD800) * 0x400 + (v - 0xDC00)) :: ·)
        else none
      | [] => none
    else if 0xDC00 ≤ u ∧ u < 0xE000 then none
    else (ofUnits? units).map (Char.ofNat u :: ·)

/-- The characters that bytes stand for, if they are right in the encoding. -/
def decode? (encoding : Encoding) (bytes : List UInt8) : Option (List Char) :=
  match encoding with
  | .utf8 => (String.fromUTF8? ⟨bytes.toArray⟩).map String.toList
  | .utf16 bigEndian => (units? bigEndian bytes).bind ofUnits?
  | .latin1 => some (bytes.map latin1Char)
  | .latin9 => some (bytes.map latin9Char)
  | .windows1252 => bytes.mapM windowsChar?
  | .ascii => if bytes.all (· < 0x80) then some (bytes.map latin1Char) else none

end Encoding

/-- The encoding that the first bytes give away, and the bytes after a byte order mark. -/
def detectEncoding? : List UInt8 → Option (Encoding × List UInt8)
  | 0xEF :: 0xBB :: 0xBF :: rest => some (.utf8, rest)
  | 0xFE :: 0xFF :: rest => some (.utf16 true, rest)
  | 0xFF :: 0xFE :: rest => some (.utf16 false, rest)
  | 0x00 :: 0x3C :: 0x00 :: 0x3F :: rest =>
    some (.utf16 true, 0x00 :: 0x3C :: 0x00 :: 0x3F :: rest)
  | 0x3C :: 0x00 :: 0x3F :: 0x00 :: rest =>
    some (.utf16 false, 0x3C :: 0x00 :: 0x3F :: 0x00 :: rest)
  | _ => none

/-- The encoding that the declaration at the start names, none if it names none that is known. -/
def declaredEncoding? (bytes : List UInt8) : Option Encoding :=
  match takeDeclaration? ((bytes.take 1000).map Encoding.latin1Char) with
  | some (some { encoding := some name, .. }, _) => Encoding.ofName? name
  | _ => some .utf8

def decodeDocument? (bytes : List UInt8) : Option (List Char) :=
  match detectEncoding? bytes with
  | some (encoding, rest) => encoding.decode? rest
  | none => (declaredEncoding? bytes).bind (·.decode? bytes)

end XmlRecords.Xml
