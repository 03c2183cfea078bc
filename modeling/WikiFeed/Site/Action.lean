import WikiFeed.Picture.Basic

/-! # Actions on the wiki

What an errand asks for, in the order of asking: changes of pages and files, and commands. -/

namespace WikiFeed

inductive Action where
  | save (title text : String) (summary : Option String)
  | edit (title text : String) (summary : Option String)
  | touch (title : String)
  | delete (title reason : String)
  | upload (name text : String) (replace : Bool) (picture : Picture)
  | command (line : String)

end WikiFeed
