import WikiFeed.Text.Quoted

/-! # Bytes in hexadecimal

Each byte is written as two digits. -/

namespace WikiFeed.Text

def digitValue (c : Char) : Nat :=
  if c.isDigit then c.toNat - 48 else if 'a' ≤ c && c ≤ 'f' then c.toNat - 87
  else if 'A' ≤ c && c ≤ 'F' then c.toNat - 55 else 0

def bytesOfDigits : List Char → List UInt8
  | a :: b :: r => (digitValue a * 16 + digitValue b).toUInt8 :: bytesOfDigits r
  | _ => []

def ofHexadecimal (s : String) : List UInt8 := bytesOfDigits s.toList

def toHexadecimal (bs : List UInt8) : String :=
  String.ofList (bs.flatMap fun b => hexadecimal 2 b.toNat)

end WikiFeed.Text
