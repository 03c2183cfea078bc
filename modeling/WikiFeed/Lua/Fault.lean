import WikiFeed.Lua.Reader
import WikiFeed.Lua.Value

/-! # Faults

The causes for which an evaluation stops. The wording of those that carry one is in
`Fault.message`. -/

namespace WikiFeed.Lua

inductive Fault where
  /-- a value of the wrong kind, or a wrong number of arguments -/
  | kind
  /-- a value outside of what an operation takes -/
  | value
  /-- a position behind the end -/
  | position
  /-- a key that is not there -/
  | key
  /-- a member that an object does not have -/
  | member
  | zeroDivision
  | overflow
  /-- an object that was changed while it was traversed -/
  | changed
  /-- a name without a binding in a chain of scopes that is asked directly -/
  | unbound (name : Value)
  /-- a name without a binding in a chain of scopes -/
  | notFound (name : String)
  /-- syntax that the prefab evaluator does not carry out, by its class -/
  | noRule (className : String)
  /-- syntax that the record evaluator does not carry out, by its display name -/
  | noHandler (display : String)
  /-- a failed check with its text -/
  | check (text : String)
  /-- a fault with a text of its own -/
  | other (text : String)
  | unreadable (e : ReadError)
  | missingFile
  | undecodable
  | unencodable
  /-- a pattern that is not well formed -/
  | pattern
  /-- a text that is not JSON data -/
  | notJson
  /-- all that was asked for is done -/
  | complete
  /-- a loop was left outside of any loop that can be left -/
  | strayBreak
  /-- a function was left outside of any function -/
  | strayReturn
  /-- values are nested too deeply -/
  | tooDeep
deriving Inhabited

def Fault.nameText : Value → String
  | .str s => s
  | .nil => "None"
  | .int n => Decimal.intText n
  | _ => ""

def Fault.message : Fault → Option String
  | .unbound n => some ("name '" ++ nameText n ++ "' is not defined")
  | .notFound n => some ("Not Found identifier: " ++ n)
  | .noRule c => some ("No visit_" ++ c ++ " method")
  | .noHandler d => some ("No visit handler for node type: " ++ d)
  | .check t => some t
  | .other t => some t
  | .complete => some ""
  | .strayBreak => some "Lua跳出循环"
  | .strayReturn => some "Lua返回值"
  | _ => none

end WikiFeed.Lua
