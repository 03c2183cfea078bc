import WikiFeed.Folder.Path
import WikiFeed.Text.Bytes

/-! # Scrambled archives

An archive is scrambled in blocks of eight bytes: each byte is combined with a key byte and moved to
another place of its block. A block is scrambled only if more bytes follow it, so that the last one
to eight bytes stay as they are. A scrambled file that begins like a plain archive is taken for
one. -/

namespace WikiFeed.Cipher

def blockSize : Nat := 8

def places : List Nat := [5, 3, 6, 7, 4, 2, 0, 1]

def sources : List Nat := [6, 7, 5, 1, 4, 0, 2, 3]

def keyByte (i : Nat) : UInt8 := 0x8D + i.toUInt8

def key : List UInt8 := (List.range blockSize).map keyByte

def scrambleBlock (block : List UInt8) : List UInt8 :=
  sources.map fun i => block.getD i 0 ^^^ keyByte i

def restoreBlock (block : List UInt8) : List UInt8 :=
  (List.range blockSize).map fun i => block.getD (places.getD i 0) 0 ^^^ keyByte i

/-- The blocks of a text, each but the last one changed. -/
def blocks (change : List UInt8 → List UInt8) (bytes : List UInt8) : List (List UInt8) :=
  if bytes.isEmpty then []
  else if blockSize < bytes.length then
    change (bytes.take blockSize) :: blocks change (bytes.drop blockSize)
  else [bytes]
termination_by bytes.length
decreasing_by
  simp only [List.length_drop, blockSize] at *
  omega

def scramble (bytes : List UInt8) : List UInt8 := (blocks scrambleBlock bytes).flatten

def isPlain (bytes : List UInt8) : Bool := bytes.take 2 == [0x50, 0x4B]

def restore (bytes : List UInt8) : List UInt8 :=
  if isPlain bytes then bytes else (blocks restoreBlock bytes).flatten

/-! ### Files -/

def isScrambled (path : String) : Bool := Path.ending path == ".dyn"

def target (path : String) : String :=
  Path.stem path ++ (if isScrambled path then ".zip" else ".dyn")

def convert (path : String) (bytes : List UInt8) : List UInt8 :=
  if isScrambled path then restore bytes else scramble bytes

def opening (path : String) : String := "convert_dyn" ++ path ++ "\n"

def details (path : String) (bytes : List UInt8) : List String :=
  let copied := isScrambled path && isPlain bytes
  let change := if isScrambled path then restoreBlock else scrambleBlock
  let parts := if copied then [] else blocks change bytes
  let text (i : Nat) (part : List UInt8) : String :=
    if blockSize * (i + 1) < bytes.length then "bytearray(" ++ Text.quoteBytes part ++ ")"
    else Text.quoteBytes part
  parts.mapIdx fun i part => "out = " ++ text i part

def settings (path : String) : List String := [
  "chunk size = 8, key = bytearray(" ++ Text.quoteBytes key ++ "), indices = [" ++
    ", ".intercalate (places.map toString) ++ "]",
  "filename = " ++ path ++ ", dest = " ++ target path]

def plainNote : String := "IT IS A ZIP!\n"

def closing (path : String) (bytes : List UInt8) : String :=
  if isScrambled path && isPlain bytes then plainNote
  else (if isScrambled path then "Decrypted " else "Encrypted ") ++ path ++ " to " ++ target path ++
    "\n"

def report (path : String) (bytes : List UInt8) (detailed : Bool) : String :=
  let extra (lines : List String) : String :=
    if detailed then String.join (lines.map (· ++ "\n")) else ""
  opening path ++ extra (settings path) ++ extra (details path bytes) ++ closing path bytes

end WikiFeed.Cipher
