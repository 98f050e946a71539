import DspCheck.Value

/-!
# Tables of TOML

A table grows while a document is read.  Whether it may grow further depends on how it came about:

* A header names a table that is new, or that only other headers have led through.
* Dotted keys lead through tables that no header has named.  Such a table can be named no more.
* Both lead on through the last table of an array, but its own entries stand under its header.
* The tables of values are complete at once.
-/

namespace DspCheck
namespace Toml

/-- How a table came about. -/
inductive TableKind
  /-- Headers of other tables lead through it. -/
  | implied
  /-- A header names it. -/
  | named
  /-- Dotted keys lead through it. -/
  | dotted
  deriving DecidableEq, Repr

/-- What stands under a key. -/
inductive Node
  /-- A value, complete at once. -/
  | value (v : Value)
  | table (kind : TableKind) (entries : List (Text × Node))
  /-- An array of tables, the last one first. -/
  | tables (items : List (List (Text × Node)))

/-- The entries of a table in order. -/
abbrev Table := List (Text × Node)

namespace Table

/-- What stands under a key. -/
def node? (t : Table) (key : Text) : Option Node :=
  (t.find? fun e => e.1 = key).map Prod.snd

/-- The table with another node under a key. -/
def put (key : Text) (n : Node) : Table → Table
  | [] => [(key, n)]
  | e :: es => if e.1 = key then (key, n) :: es else e :: put key n es

/-- Changing the table that keys of a header lead to. -/
def alongHeader? (change : Table → Option Table) : List Text → Table → Option Table
  | [], t => change t
  | key :: keys, t =>
      match t.node? key with
      | none => (alongHeader? change keys []).map fun sub => t.put key (.table .implied sub)
      | some (.table kind sub) =>
          (alongHeader? change keys sub).map fun sub => t.put key (.table kind sub)
      | some (.tables (last :: items)) =>
          (alongHeader? change keys last).map fun last => t.put key (.tables (last :: items))
      | some _ => none

/-- Changing the table that dotted keys lead to.  It is no table of an array. -/
def alongDots? (change : Table → Option Table) : List Text → Table → Option Table
  | [], t => change t
  | key :: keys, t =>
      match t.node? key with
      | none => (alongDots? change keys []).map fun sub => t.put key (.table .dotted sub)
      | some (.table kind sub) =>
          if kind = .named then none
          else (alongDots? change keys sub).map fun sub => t.put key (.table .dotted sub)
      | some (.tables (last :: items)) =>
          if keys = [] then none
          else (alongDots? change keys last).map fun last => t.put key (.tables (last :: items))
      | some _ => none

/-- The table with a new value under a dotted key. -/
def define? (keys : List Text) (v : Value) (t : Table) : Option Table :=
  match keys.getLast? with
  | none => none
  | some key =>
      alongDots? (fun sub => if (sub.node? key).isSome then none else some (sub.put key (.value v)))
        keys.dropLast t

/-- The table with a table that a header names. -/
def nameTable? (keys : List Text) (t : Table) : Option Table :=
  match keys.getLast? with
  | none => none
  | some key =>
      alongHeader? (fun sub =>
        match sub.node? key with
        | none => some (sub.put key (.table .named []))
        | some (.table .implied entries) => some (sub.put key (.table .named entries))
        | some _ => none) keys.dropLast t

/-- The table with another table in an array that a header names. -/
def appendTable? (keys : List Text) (t : Table) : Option Table :=
  match keys.getLast? with
  | none => none
  | some key =>
      alongHeader? (fun sub =>
        match sub.node? key with
        | none => some (sub.put key (.tables [[]]))
        | some (.tables items) => some (sub.put key (.tables ([] :: items)))
        | some _ => none) keys.dropLast t

end Table

mutual

/-- The value of a node. -/
def Node.toValue : Node → Value
  | .value v => v
  | .table _ entries => .record (fieldsOf entries)
  | .tables items => .list (recordsOf items).reverse

/-- The fields of a record with the entries of a table. -/
def fieldsOf : List (Text × Node) → List (Text × Value)
  | [] => []
  | (key, n) :: es => (key, n.toValue) :: fieldsOf es

/-- The records with the entries of tables. -/
def recordsOf : List (List (Text × Node)) → List Value
  | [] => []
  | t :: ts => .record (fieldsOf t) :: recordsOf ts

end

/-- The value of a table. -/
def Table.toValue (t : Table) : Value :=
  .record (fieldsOf t)

end Toml
end DspCheck
