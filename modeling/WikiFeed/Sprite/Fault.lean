import WikiFeed.Decimal.Number

/-! # Faults of sprite files

The causes for which work on animation files, pictures and folders stops. -/

namespace WikiFeed.Sprite

inductive Fault where
  /-- a value of the wrong kind -/
  | kind
  /-- a value outside of what an operation takes -/
  | value
  /-- a position behind the end -/
  | position
  /-- a key that is not there -/
  | key
  /-- a member that a value does not have -/
  | member
  | zeroDivision
  | overflow
  /-- a field of a file that does not fit its width or is cut off -/
  | field
  | undecodable
  | unencodable
  /-- a failed check with its text -/
  | check (text : String)
  | missingFile
  /-- a folder where a file is asked for -/
  | isFolder
  /-- a file where a folder is asked for -/
  | isFile
  /-- a file that is no archive -/
  | notArchive
  /-- a text that is not JSON data -/
  | notJson
  /-- a text that is not well-formed markup -/
  | notMarkup
  /-- a file that is no picture -/
  | notPicture
  /-- a texture tool that reports a failure -/
  | toolFailed
  /-- a picture that is larger than any page -/
  | oversize
  /-- a question without an answer -/
  | noAnswer
  /-- a chain that never ends -/
  | tooDeep
  /-- a picture without a pixel where one is written -/
  | emptyPicture
  /-- a setting that was never made -/
  | unset
  /-- a catalog that is not well formed -/
  | notCatalog
deriving DecidableEq, Inhabited

abbrev Result := Except Fault

def Fault.ofNumber : Number.Fault → Fault
  | .zeroDivision => .zeroDivision
  | .overflow => .overflow
  | .domain => .value

def calculated {α : Type} (r : Number.Outcome α) : Result α :=
  match r with
  | .ok a => .ok a
  | .error e => .error (.ofNumber e)

end WikiFeed.Sprite
