namespace TypedTree.Toml

mutual

/-- What a key stands for. Numbers and moments are told apart from other things and no more. -/
inductive Entry where
  | text (value : String)
  | integer (value : Int)
  | number
  | boolean (value : Bool)
  /-- A date, a time or both. -/
  | moment
  | list (items : List Entry)
  /-- A table in braces, which is complete where it stands. -/
  | inline (table : Table)
  | table (table : Table)
  /-- The tables of a repeated header. -/
  | tables (items : List Table)

structure Table where
  entries : List (String × Entry)
  /-- Only paths through the table have mentioned it so far. -/
  isImplicit : Bool
  /-- The path of a dotted key has made it. -/
  isDotted : Bool

end

namespace Table

/-- The table of a header or of braces. -/
def empty : Table := ⟨[], false, false⟩

def get? (t : Table) (key : String) : Option Entry := t.entries.lookup key

/-- Puts an entry in the place of the one with its key, or at the end. -/
def set (t : Table) (key : String) (entry : Entry) : Table :=
  if (t.get? key).isSome then
    { t with entries := t.entries.map fun e => if e.1 = key then (key, entry) else e }
  else { t with entries := t.entries ++ [(key, entry)] }

/-- Changes the table at the end of a path. What the path lacks is made on the way; of repeated
tables it takes the last. A dotted key does not enter a table that has a header. -/
def updateAt (dotted : Bool) (change : Table → Option Table) :
    List String → Table → Option Table
  | [], t => change t
  | key :: path, t => do
    let entry ← match (t.get? key).getD (.table ⟨[], true, dotted⟩) with
      | .table inner =>
        if dotted && !inner.isImplicit then none
        else (updateAt dotted change path inner).map .table
      | .tables items => do
        let last ← updateAt dotted change path (← items.getLast?)
        pure (.tables (items.dropLast ++ [last]))
      | _ => none
    return t.set key entry

/-- Adds a new key to the table at the end of a dotted path. -/
def insert? (t : Table) (path : List String) (key : String) (entry : Entry) : Option Table :=
  t.updateAt true (fun inner =>
    if inner.isDotted == path.isEmpty || (inner.get? key).isSome then none
    else some (inner.set key entry)) path

/-- Starts the table of a header, which only paths may have mentioned before. -/
def startTable? (t : Table) (path : List String) (key : String) : Option Table :=
  t.updateAt false (fun parent =>
    match parent.get? key with
    | none => some (parent.set key (.table empty))
    | some (.table inner) =>
      if inner.isImplicit && !inner.isDotted then
        some (parent.set key (.table { inner with isImplicit := false }))
      else none
    | some _ => none) path

/-- Starts one more table of a repeated header. -/
def startElement? (t : Table) (path : List String) (key : String) : Option Table :=
  t.updateAt false (fun parent =>
    match parent.get? key with
    | none => some (parent.set key (.tables [empty]))
    | some (.tables items) => some (parent.set key (.tables (items ++ [empty])))
    | some _ => none) path

end Table

end TypedTree.Toml
