import PackageResolution.Document
/-!
# Layout of tables

How entries, written one by one with dotted keys and under headers, come to stand in one tree of
tables. A table that only came about as part of a longer key or header is *implicit*, and one that
came about as part of a dotted key is *dotted*. Keys are not given twice; a dotted key does not add
to a table that was written out, nor a header to one that was written out or dotted before.
-/
namespace PackageResolution.Toml

/-- What stands under a key while a document is read. -/
inductive Item where
  | value (v : Value)
  | table (isImplicit isDotted : Bool) (entries : List (String × Item))
  /-- The tables under headers in double brackets, by their entries. -/
  | tables (elements : List (List (String × Item)))

/-- Entries while a document is read, in the order in which they were written. -/
abbrev Items := List (String × Item)

/-- The entries with the item of a key replaced, or added at the end. -/
def Items.set (items : Items) (key : String) (item : Item) : Items :=
  match items with
  | [] => [(key, item)]
  | e :: rest => if e.1 = key then (key, item) :: rest else e :: Items.set rest key item

/-- Changes the entries at the end of a way of keys. Tables that are missing on the way are made,
and a list of tables is entered at its last one. The change learns whether the table it is given is
dotted. -/
def Items.modifyAt (dotted : Bool) (change : Bool → Items → Option Items) :
    List String → Bool → Items → Option Items
  | [], isDotted, items => change isDotted items
  | key :: way, _, items =>
    match items.lookup key with
    | none => do
      let made ← Items.modifyAt dotted change way dotted []
      return items ++ [(key, .table true dotted made)]
    | some (.value _) => none
    | some (.table isImplicit isDotted inner) =>
      if dotted && !isImplicit then none
      else do
        let inner ← Items.modifyAt dotted change way isDotted inner
        return items.set key (.table isImplicit isDotted inner)
    | some (.tables elements) => do
      let last ← elements.getLast?
      let last ← Items.modifyAt dotted change way false last
      return items.set key (.tables (elements.dropLast ++ [last]))

/-- Adds a value under a dotted key. -/
def Items.addValue (items : Items) (way : List String) (key : String) (v : Value) : Option Items :=
  Items.modifyAt true (fun isDotted inner =>
    if isDotted == way.isEmpty || (inner.lookup key).isSome then none
    else some (inner ++ [(key, .value v)])) way false items

mutual

def Item.toValue : Item → Value
  | .value v => v
  | .table _ _ items => .table (Items.toEntries items)
  | .tables elements => .list (Items.toTables elements)

def Items.toEntries : List (String × Item) → List (String × Value)
  | [] => []
  | (key, item) :: rest => (key, item.toValue) :: Items.toEntries rest

def Items.toTables : List (List (String × Item)) → List Value
  | [] => []
  | items :: rest => .table (Items.toEntries items) :: Items.toTables rest

end

/-- A document while it is read: what is finished, and the entries of the table whose header was
read last. -/
structure Draft where
  finished : Items := []
  /-- The header's keys, none while no header was read. -/
  header : List String := []
  /-- Whether the header was in double brackets. -/
  repeated : Bool := false
  current : Items := []

namespace Draft

/-- Puts the current table in its place. -/
def close (d : Draft) : Option Items :=
  match d.header.getLast? with
  | none => some d.current
  | some key =>
    Items.modifyAt false (fun _ items =>
      if d.repeated then
        match items.lookup key with
        | some (.tables elements) => some (items.set key (.tables (elements ++ [d.current])))
        | some _ => none
        | none => some (items ++ [(key, .tables [d.current])])
      else some (items ++ [(key, .table false false d.current)]))
      d.header.dropLast false d.finished

/-- Begins a table under a header in single brackets. A table that is there only as part of longer
headers is taken up again, and stands last from then on. -/
def openTable (d : Draft) (way : List String) (key : String) : Option Draft := do
  let finished ← d.close
  let found ← Items.modifyAt false (fun _ items =>
    match items.lookup key with
    | none => some items
    | some (.table true false _) => some items
    | some _ => none) way false finished
  let cleared ← Items.modifyAt false (fun _ items => some (items.filter (·.1 != key))) way false found
  return { finished := cleared, header := way ++ [key], repeated := false,
           current := innerAt (way ++ [key]) found }
where
  /-- The entries of the table at the end of a way of keys. -/
  innerAt : List String → Items → Items
    | [], items => items
    | key :: way, items =>
      match items.lookup key with
      | some (.table _ _ inner) => innerAt way inner
      | some (.tables elements) => innerAt way (elements.getLast?.getD [])
      | _ => []

/-- Begins a table under a header in double brackets. -/
def openElement (d : Draft) (way : List String) (key : String) : Option Draft := do
  let finished ← d.close
  let finished ← Items.modifyAt false (fun _ items =>
    match items.lookup key with
    | none => some (items ++ [(key, .tables [])])
    | some (.tables _) => some items
    | some _ => none) way false finished
  return { finished, header := way ++ [key], repeated := true }

def add (d : Draft) (way : List String) (key : String) (v : Value) : Option Draft := do
  return { d with current := ← d.current.addValue way key v }

end Draft
end PackageResolution.Toml
