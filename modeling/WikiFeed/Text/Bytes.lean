import WikiFeed.Text.Quoted

/-! # The text of bytes

Bytes are shown between quotes: printable characters as themselves, all else by number. -/

namespace WikiFeed.Text

def shownByte (mark : Char) (b : UInt8) : List Char :=
  let c := Char.ofNat b.toNat
  if c == mark || c == '\\' then ['\\', c]
  else if c == '\t' then ['\\', 't']
  else if c == '\n' then ['\\', 'n']
  else if c == '\r' then ['\\', 'r']
  else if 0x20 ≤ b.toNat && b.toNat < 0x7F then [c]
  else '\\' :: 'x' :: hexadecimal 2 b.toNat

def quoteBytes (bs : List UInt8) : String :=
  let mark := quoteFor (bs.map fun b => Char.ofNat b.toNat)
  String.ofList ('b' :: mark :: bs.flatMap (shownByte mark) ++ [mark])

end WikiFeed.Text
