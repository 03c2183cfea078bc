/-! # Paths

A path is a text whose steps are divided by slashes. -/

namespace WikiFeed.Path

def cutLast (cs : List Char) : List Char × List Char :=
  let name := (cs.reverse.takeWhile (· != '/')).reverse
  (cs.take (cs.length - name.length), name)

/-- The folder of a path and the name in it. Slashes at the end of the folder are dropped unless
there is nothing else. -/
def split (path : String) : String × String :=
  let (folder, name) := cutLast path.toList
  let bare := (folder.reverse.dropWhile (· == '/')).reverse
  (String.ofList (if bare.isEmpty then folder else bare), String.ofList name)

def folder (path : String) : String := (split path).1

def name (path : String) : String := (split path).2

/-- A path without its ending, and the ending: what follows the last dot of the name, the dot
included. Dots at the beginning of the name do not count. -/
def splitEnding (path : String) : String × String :=
  let (folder, name) := cutLast path.toList
  let dots := name.takeWhile (· == '.')
  let body := name.dropWhile (· == '.')
  if body.contains '.' then
    let ending := (body.reverse.takeWhile (· != '.')).reverse
    let stem := body.take (body.length - ending.length - 1)
    (String.ofList (folder ++ dots ++ stem), String.ofList ('.' :: ending))
  else (path, "")

def stem (path : String) : String := (splitEnding path).1

def ending (path : String) : String := (splitEnding path).2

def join (folder path : String) : String :=
  if path.startsWith "/" then path
  else if folder == "" || folder.endsWith "/" then folder ++ path
  else folder ++ "/" ++ path

end WikiFeed.Path
