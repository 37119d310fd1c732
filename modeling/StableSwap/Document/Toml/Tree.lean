import StableSwap.Document

/-!
# The tables of a TOML document

Tables come from headers, from dotted keys, and on the way to other tables. A header may not open a
table that another header opened or that dotted keys made, dotted keys may not enter a table that a
header opened, and a key is given once. `Tree` remembers how each table came to be, so that each of
these is refused where it happens.
-/

namespace StableSwap.Document.Toml

/-- How a table came to be. -/
inductive Origin where
  /-- On the way to a table that was opened. -/
  | implied
  /-- By dotted keys. -/
  | dotted
  /-- By a header. -/
  | header
  deriving DecidableEq

/-- What stands under a key. -/
inductive Node where
  /-- A value, with which nothing can happen any more. -/
  | leaf (value : Value)
  /-- A table. -/
  | table (origin : Origin) (members : List (String × Node))
  /-- A list of tables, the last one first. -/
  | tables (items : List (List (String × Node)))

/-- The keys of a table and what stands under them. -/
abbrev Tree : Type := List (String × Node)

namespace Tree

/-- What stands under a key. -/
def find? (key : String) (tree : Tree) : Option Node := tree.lookup key

/-- Puts a node under a key: in the place of what stood there, or at the end. -/
def put (key : String) (node : Node) : Tree → Tree
  | [] => [(key, node)]
  | (other, old) :: rest =>
    if other = key then (key, node) :: rest else (other, old) :: put key node rest

/-- Opens the table of a header. -/
def openTable : String → List String → Tree → Option Tree
  | key, [], tree =>
    match tree.find? key with
    | none => some (tree.put key (.table .header []))
    | some (.table .implied members) => some (tree.put key (.table .header members))
    | some _ => none
  | key, second :: rest, tree =>
    match tree.find? key with
    | none => do
      let inner ← openTable second rest []
      return tree.put key (.table .implied inner)
    | some (.table origin members) => do
      let inner ← openTable second rest members
      return tree.put key (.table origin inner)
    | some (.tables (last :: earlier)) => do
      let inner ← openTable second rest last
      return tree.put key (.tables (inner :: earlier))
    | some _ => none

/-- Opens the next table of a list of tables. -/
def openItem : String → List String → Tree → Option Tree
  | key, [], tree =>
    match tree.find? key with
    | none => some (tree.put key (.tables [[]]))
    | some (.tables items) => some (tree.put key (.tables ([] :: items)))
    | some _ => none
  | key, second :: rest, tree =>
    match tree.find? key with
    | none => do
      let inner ← openItem second rest []
      return tree.put key (.table .implied inner)
    | some (.table origin members) => do
      let inner ← openItem second rest members
      return tree.put key (.table origin inner)
    | some (.tables (last :: earlier)) => do
      let inner ← openItem second rest last
      return tree.put key (.tables (inner :: earlier))
    | some _ => none

/-- Gives a value under a dotted key. All tables on the way belong to dotted keys, or lie on the way
to opened ones, and the last one belongs to dotted keys. -/
def give (value : Value) : String → List String → Tree → Option Tree
  | key, [], tree =>
    match tree.find? key with
    | none => some (tree.put key (.leaf value))
    | some _ => none
  | key, second :: rest, tree =>
    match tree.find? key with
    | none => do
      let inner ← give value second rest []
      return tree.put key (.table .dotted inner)
    | some (.table .dotted members) => do
      let inner ← give value second rest members
      return tree.put key (.table .dotted inner)
    | some (.table .implied members) =>
      if rest.isEmpty then none
      else do
        let inner ← give value second rest members
        return tree.put key (.table .implied inner)
    | some (.tables (last :: earlier)) =>
      if rest.isEmpty then none
      else do
        let inner ← give value second rest last
        return tree.put key (.tables (inner :: earlier))
    | some _ => none

/-- Changes the table that a path of opened tables leads to. -/
def changeAt (change : Tree → Option Tree) : List String → Tree → Option Tree
  | [], tree => change tree
  | key :: rest, tree =>
    match tree.find? key with
    | some (.table origin members) => do
      let inner ← changeAt change rest members
      return tree.put key (.table origin inner)
    | some (.tables (last :: earlier)) => do
      let inner ← changeAt change rest last
      return tree.put key (.tables (inner :: earlier))
    | _ => none

end Tree

mutual

/-- The value of a node. -/
def Node.toValue : Node → Value
  | .leaf value => value
  | .table _ members => .table (membersToValues members)
  | .tables items => .list (tablesToValues items).reverse

/-- The values of the members of a table. -/
def membersToValues : List (String × Node) → List (String × Value)
  | [] => []
  | (key, node) :: rest => (key, node.toValue) :: membersToValues rest

/-- The values of a list of tables. -/
def tablesToValues : List (List (String × Node)) → List Value
  | [] => []
  | members :: rest => .table (membersToValues members) :: tablesToValues rest

end

end StableSwap.Document.Toml
