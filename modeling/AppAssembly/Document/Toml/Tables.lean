import AppAssembly.Document.Node
import AppAssembly.Entries.Basic

/-!
# Tables in TOML

A document fills tables step by step: headers open them and dotted keys go into them. Every key is
set once, a table is opened once, and a table made by dotted keys can't be opened by a header.
-/

namespace AppAssembly.Toml

mutual

/-- What stands under a key. -/
inductive Item where
  | value (node : Node)
  | table (t : Table)
  /-- A list of tables, each opened by a header. -/
  | tables (ts : List Table)

/-- A table and how it came to be. -/
structure Table where
  /-- Whether it was only named on the way to another one. -/
  implicit : Bool
  /-- Whether dotted keys made it. -/
  dotted : Bool
  items : List (String × Item)

end

/-- An empty table that was opened by a header. -/
def Table.opened : Table := ⟨false, false, []⟩

mutual

def Table.toNode : Table → Node
  | ⟨_, _, items⟩ => .table (itemNodes items)

def Item.toNode : Item → Node
  | .value node => node
  | .table t => t.toNode
  | .tables ts => .list (tableNodes ts)

def tableNodes : List Table → List Node
  | [] => []
  | t :: ts => t.toNode :: tableNodes ts

def itemNodes : List (String × Item) → List (Option String × Node)
  | [] => []
  | (key, item) :: rest => (some key, item.toNode) :: itemNodes rest

end

def changeLast (change : Table → Option Table) : List Table → Option (List Table)
  | [] => none
  | [t] => (change t).map fun t => [t]
  | t :: ts => (changeLast change ts).map (t :: ·)

/-- Changes the table at the end of a path; tables that are missing on the way are made. Dotted
keys don't lead into tables that were opened by a header. -/
def Table.changeAt (dotted : Bool) (change : Table → Option Table) :
    List String → Table → Option Table
  | [], t => change t
  | key :: path, t => do
      let item ←
        match Entries.get? t.items key with
        | none => (changeAt dotted change path ⟨true, dotted, []⟩).map Item.table
        | some (.table inner) =>
            if dotted && !inner.implicit then none
            else (changeAt dotted change path inner).map Item.table
        | some (.tables ts) => (changeLast (changeAt dotted change path) ts).map Item.tables
        | some (.value _) => none
      return { t with items := Entries.insert t.items key item }

/-- Sets a key that a path may lead to. -/
def Table.set (path : List String) (key : String) (node : Node) (t : Table) : Option Table :=
  t.changeAt true (fun inner =>
    if inner.dotted == path.isEmpty || Entries.contains inner.items key then none
    else some { inner with items := inner.items ++ [(key, .value node)] }) path

/-- Opens a table. One that was only named before is opened with what it holds. -/
def Table.openTable (path : List String) (key : String) (t : Table) : Option Table :=
  t.changeAt false (fun parent =>
    match Entries.get? parent.items key with
    | none => some { parent with items := parent.items ++ [(key, .table .opened)] }
    | some (.table inner) =>
        if inner.implicit && !inner.dotted then
          let others := parent.items.filter (·.1 ≠ key)
          some { parent with items := others ++ [(key, .table { inner with implicit := false })] }
        else none
    | some _ => none) path

/-- Opens a further table of a list. -/
def Table.openElement (path : List String) (key : String) (t : Table) : Option Table :=
  t.changeAt false (fun parent =>
    match Entries.get? parent.items key with
    | none => some { parent with items := parent.items ++ [(key, .tables [.opened])] }
    | some (.tables ts) =>
        some { parent with items := Entries.insert parent.items key (.tables (ts ++ [.opened])) }
    | some _ => none) path

end AppAssembly.Toml
