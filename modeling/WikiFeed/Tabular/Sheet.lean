import WikiFeed.Json.Datum
import WikiFeed.Places
import WikiFeed.Text.Search

/-! # Tables of the wiki

A table has columns of three kinds and rows that are checked before they are saved. A row that is
saved stays the same row, so a later change of it shows in the table. -/

namespace WikiFeed.Tabular

/-- What cells a column takes. A column of no kind takes none. -/
inductive ColumnKind where
  | text
  | number
  | truth
  | none
deriving DecidableEq, Inhabited

/-- A column: the key of its cells in a row, its name and titles, whether a cell may be null,
whether it may be left out of a new row, and whether it is the key of the table. -/
structure Column where
  key : String
  kind : ColumnKind
  name : Datum
  null : Bool
  blank : Bool
  english : Datum
  chinese : Datum
  primary : Bool

inductive Trouble where
  /-- a cell that may not be left out -/
  | blank (key : String)
  /-- cells of no column -/
  | extra (keys : List String)
  /-- two key columns -/
  | keys (first second : Datum)
  /-- null where it is not allowed -/
  | nullCell (column : Datum)
  /-- a cell of another kind than its column takes -/
  | wrongKind (className : String) (column : Datum) (kind : ColumnKind)
  | fault (f : Lua.Fault)

def nameText : Datum → String
  | .str s => s
  | .null => "None"
  | .bool b => if b then "True" else "False"
  | .int n => Decimal.intText n
  | .float x => Decimal.text x
  | _ => ""

def ColumnKind.wanted : ColumnKind → String
  | .text => "字符串"
  | .number => "数字"
  | .truth => "布尔"
  | .none => ""

def Trouble.message : Trouble → Option String
  | .blank k => some ("BlankValueError: " ++ k ++ "字段不能为空")
  | .extra ks => some ("TabxInitError: 传入了多余的参数: [" ++
      ", ".intercalate (ks.map Text.quote) ++ "]")
  | .keys a b => some ("TabxInitError: 多个字段:" ++ nameText a ++ "," ++ nameText b ++ "定义为主键")
  | .nullCell c => some ("FieldValidationError: 值为None但是" ++ nameText c ++ "字段不能为空")
  | .wrongKind k c w => some ("FieldValidationError: 值类型为<class '" ++ k ++ "'>但是" ++ nameText c ++
      "字段应该是" ++ w.wanted)
  | .fault f => f.message

abbrev Outcome := Except Trouble

abbrev Row := List (String × Datum)

namespace Row

def cell (r : Row) (key : String) : Datum := (r.lookup key).getD .null

def put (r : Row) (key : String) (d : Datum) : Row := Places.put r key d

end Row

/-! ### Columns -/

def ColumnKind.takes : ColumnKind → Datum → Bool
  | .text, .str _ => true
  | .number, .bool _ | .number, .int _ | .number, .float _ => true
  | .truth, .bool _ => true
  | _, _ => false

def Column.check (c : Column) (d : Datum) : Outcome Unit :=
  match c.kind, d with
  | .none, _ => .error (.fault .member)
  | _, .null => if c.null then .ok () else .error (.nullCell c.name)
  | k, d => if k.takes d then .ok () else .error (.wrongKind d.className c.name k)

def ColumnKind.typeName : ColumnKind → Datum
  | .text => .str "string"
  | .number => .str "number"
  | .truth => .str "boolean"
  | .none => .null

def Column.describe (c : Column) : Datum :=
  .dict [(.str "name", c.name), (.str "type", c.kind.typeName),
    (.str "title", .dict [(.str "en", c.english), (.str "zh", c.chinese)])]

def Column.summary (c : Column) : Datum :=
  let name := nameText c.name
  .list [.str ("Field:" ++ name), .str ("<Field: " ++ name ++ ">"), c.describe, .bool c.null,
    .bool c.blank, .bool c.primary]

structure Declaration where
  attr : String
  kind : ColumnKind
  name : Datum
  null : Bool
  blank : Bool
  english : Datum
  chinese : Datum
  primary : Bool

def plainKey (attr : String) : String :=
  let cs := (attr.toList.dropWhile (· == '_')).reverse.dropWhile (· == '_')
  String.ofList cs.reverse

def orElse (d e : Datum) : Datum :=
  match d with
  | .null => e
  | d => d

def Declaration.column (d : Declaration) : Column :=
  let key := plainKey d.attr
  let name := orElse d.name (.str key)
  let english := if d.english.isSomething then d.english else name
  ⟨key, d.kind, name, d.null, d.blank, english, orElse d.chinese (.str ""), d.primary⟩

/-- The columns of declarations. Of two columns with one key the later one takes the place of the
earlier one. Two key columns are refused if the first one has a name of its own. -/
def columnsOf : Datum → List Column → List Declaration → Outcome (List Column)
  | _, done, [] => .ok done
  | first, done, d :: ds =>
    if d.primary && first.isSomething then .error (.keys first d.name)
    else
      let c := d.column
      let done := if done.any fun o => o.key == c.key then
          done.map fun o => if o.key == c.key then c else o
        else done ++ [c]
      columnsOf (if d.primary then d.name else first) done ds

/-! ### Tables -/

/-- A table: its columns, its description and what is done to a row before it is checked. A row that
cannot be prepared is kept as far as it was. -/
structure Schema where
  columns : List Column
  description : Datum
  prepare : Row → Row × Outcome Unit

/-- A table with all rows that were made, and the places of those that are saved. -/
structure Sheet where
  schema : Schema
  rows : Array Row
  saved : List Nat

def Sheet.ofSchema (s : Schema) : Sheet := ⟨s, #[], []⟩

def fillCells : List Column → Row → Row → Outcome (Row × Row)
  | [], rest, done => .ok (done, rest)
  | c :: cs, rest, done =>
    match rest.lookup c.key with
    | some d => fillCells cs (rest.filter fun p => p.1 != c.key) (done ++ [(c.key, d)])
    | none => if c.blank then fillCells cs rest (done ++ [(c.key, .null)]) else
      .error (.blank c.key)

def Schema.newRow (s : Schema) (cells : Row) : Outcome Row := do
  let (row, rest) ← fillCells s.columns cells []
  if rest.isEmpty then return row else .error (.extra (rest.map (·.1)))

def Schema.validate (s : Schema) (r : Row) : Outcome Unit :=
  s.columns.forM fun c => c.check (r.cell c.key)

def stripCell (r : Row) (c : Column) : Row :=
  match c.kind, r.cell c.key with
  | .text, .str t => r.put c.key (.str (Text.strip t))
  | _, _ => r

def Schema.strip (s : Schema) (r : Row) : Row := s.columns.foldl stripCell r

def Schema.cells (s : Schema) (r : Row) : List Datum := s.columns.map fun c => r.cell c.key

namespace Sheet

def row (t : Sheet) (i : Nat) : Row := t.rows.getD i []

def setRow (t : Sheet) (i : Nat) (r : Row) : Sheet := { t with rows := t.rows.modify i fun _ => r }

def add (t : Sheet) (cells : Row) : Outcome (Sheet × Nat) := do
  let r ← t.schema.newRow cells
  return ({ t with rows := t.rows.push r }, t.rows.size)

/-- Saves a row: it is prepared, checked and stripped. A row that is refused stays as far as it was
prepared. -/
def save (t : Sheet) (i : Nat) : Sheet × Outcome Unit :=
  match t.schema.prepare (t.row i) with
  | (r, .error e) => (t.setRow i r, .error e)
  | (r, .ok _) =>
    match t.schema.validate r with
    | .error e => (t.setRow i r, .error e)
    | .ok _ =>
      let t := t.setRow i (t.schema.strip r)
      ({ t with saved := t.saved ++ [i] }, .ok ())

def toList (t : Sheet) : List (List Datum) := t.saved.map fun i => t.schema.cells (t.row i)

def clear (t : Sheet) : Sheet := { t with saved := [] }

def document (t : Sheet) (version : Option String) : Datum :=
  let patch := match version with
    | some v => if v == "" then "未知版本" else v
    | none => "未知版本"
  .dict
    [(.str "license", .str "CC0-1.0"),
     (.str "description", .dict [(.str "zh", t.schema.description)]),
     (.str "sources", .str ("Extract data from patch " ++ patch)),
     (.str "schema", .dict [(.str "fields", .list (t.schema.columns.map Column.describe))]),
     (.str "data", .list (t.toList.map Datum.list))]

end Sheet

/-! ### Differences -/

def itemsOf : Datum → Lua.Result (List Datum)
  | .list xs | .tuple xs => .ok xs
  | .str s => .ok (s.toList.map fun c => .str (String.singleton c))
  | .dict es => .ok (es.map (·.1))
  | _ => .error .kind

def itemAt (d : Datum) (i : Nat) : Lua.Result Datum :=
  let at_ (xs : List Datum) : Lua.Result Datum :=
    match xs[i]? with
    | some x => .ok x
    | none => .error .position
  match d with
  | .list xs | .tuple xs => at_ xs
  | .str s => at_ (s.toList.map fun c => .str (String.singleton c))
  | .dict es =>
    match Datum.lookup es (.int i) with
    | some x => .ok x
    | none => .error .key
  | _ => .error .kind

def byFirst : List (Datum × Datum) → List Datum → Lua.Result (List (Datum × Datum))
  | done, [] => .ok done
  | done, row :: rows => do
    let k ← itemAt row 0
    if k.isKey then byFirst (Datum.put done k row) rows else .error .kind

def rowChanged (old : Datum) : Nat → List Datum → Lua.Result Bool
  | _, [] => .ok false
  | i, x :: xs => do
    let y ← itemAt old i
    if x.same y then rowChanged old (i + 1) xs else return true

structure Difference where
  added : List (Datum × Datum)
  removed : List (Datum × Datum)
  changed : List (Datum × Datum)

/-- Compares the rows of a new table with those of an old one. What is left of the old ones at the
end is gone. -/
def compareRows : Difference → List (Datum × Datum) → Lua.Result Difference
  | d, [] => .ok d
  | d, (k, row) :: rows =>
    match Datum.lookup d.removed k with
    | none => compareRows { d with added := Datum.put d.added k row } rows
    | some old => do
      let changed ← rowChanged old 0 (match row with
        | .list xs => xs
        | _ => [])
      let d := { d with removed := Datum.erase d.removed k }
      compareRows
        (if changed then { d with changed := Datum.put d.changed k (.tuple [old, row]) }
          else d) rows

def difference (old : Datum) (new : List (List Datum)) : Lua.Result Difference := do
  let old ← byFirst [] (← itemsOf old)
  let new ← byFirst [] (new.map Datum.list)
  compareRows ⟨[], old, []⟩ new

end WikiFeed.Tabular
