import WikiFeed.Places
import WikiFeed.Sprite.Data
import WikiFeed.Text.Case

/-! # Names of symbols and layers

Animation files hold names as codes of 32 bits, which do not tell capital letters from small ones,
and end with a table that leads back from the codes to the names. An animation's name ends in its
facing, which files hold as a set of bits. -/

namespace WikiFeed.Sprite

/-! ### Codes -/

/-- The value of a letter: that of its small form, which has to be a single character. -/
def letterValue (c : Char) : Result UInt32 :=
  match Text.small c with
  | [d] => .ok d.val
  | _ => .error .kind

def codeStep (code value : UInt32) : UInt32 := value + (code <<< 6) + (code <<< 16) - code

def nameCode (name : String) : Result UInt32 :=
  name.toList.foldlM (fun code c => do return codeStep code (← letterValue c)) 0

/-- Names by their codes, in the order in which the codes came up. -/
abbrev NameTable := List (UInt32 × String)

namespace NameTable

def name? (t : NameTable) (code : UInt32) : Option String := t.lookup code

def put (t : NameTable) (code : UInt32) (name : String) : NameTable := Places.put t code name

def record (t : NameTable) (name : String) : Result (UInt32 × NameTable) := do
  let code ← nameCode name
  return (code, t.put code name)

end NameTable

/-! ### Facings -/

def facings : List (UInt8 × String) := [
  (2, "_up"), (8, "_down"), (5, "_side"), (4, "_left"), (1, "_right"), (48, "_upside"),
  (192, "_downside"), (32, "_upleft"), (16, "_upright"), (128, "_downleft"), (64, "_downright"),
  (240, "_45s"), (15, "_90s")]

def everyFacing : UInt8 := 255

def facingEnding (n : Nat) : String :=
  ((facings.find? fun e => e.1.toNat == n).map (·.2)).getD ""

def lastLine (cs : List Char) : List Char := (cs.reverse.takeWhile (· != '\n')).reverse

def stem? (ending name : String) : Option String :=
  if ending.toList.isSuffixOf name.toList then
    some (String.ofList (lastLine (name.toList.take (name.length - ending.length))))
  else none

def splitFacing (name : String) : UInt8 × String :=
  (facings.findSome? fun e => (stem? e.2 name).map fun stem => (e.1, stem)).getD
    (everyFacing, name)

def swaps : List (String × List String) := [
  ("swap_frozen", ["frozen"]),
  ("swap_object", ["swap_spear", "swap_axe", "swap_spear", "swap_lantern"]),
  ("swap_hat", ["hat_ice"]),
  ("SWAP_BODY", ["swap_body"]),
  ("SWAP_BODY_TALL", ["swap_body_tall"]),
  ("BEARD", ["beardsilk_long", "beard_long"]),
  ("LANTERN_OVERLAY", ["lantern_overlay"])]

def swapSymbol (symbol : String) : String :=
  let found := swaps.find? fun e => e.2.contains symbol || e.2.contains (Text.lower symbol)
  Text.lower ((found.map (·.1)).getD symbol)

end WikiFeed.Sprite
