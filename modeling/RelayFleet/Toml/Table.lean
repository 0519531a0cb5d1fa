import RelayFleet.Toml.Value

/-!
# The tables of a TOML document

A document defines its tables in pieces: a header opens a table, a path with dots reaches into one,
and the same table may be met many times on the way to another. `Node` is a table in the making,
with what is needed to tell an extension that is allowed from a second definition, which is not:
`Node.ofSections?` refuses a document that defines anything twice.
-/

namespace RelayFleet.Toml

/-- A path: the keys of the tables on the way, and the key at its end. -/
structure Path where
  tables : List String
  key : String
deriving Repr, DecidableEq, Inhabited

/-- An entry as it is written. -/
structure Entry where
  path : Path
  value : Value
deriving Repr, Inhabited

/-- What opens a section: nothing at the start of the document, then the header of a table or the
header of the next item of an array of tables. -/
inductive Header where
  | root
  | table (path : Path)
  | item (path : Path)
deriving Repr, DecidableEq, Inhabited

/-- A header with the entries below it. -/
structure Section where
  header : Header
  entries : List Entry
deriving Repr, Inhabited

/-- The section with its entries the other way round. -/
def Section.inOrder (s : Section) : Section := { s with entries := s.entries.reverse }

/-- How a table came into being. -/
inductive TableKind where
  /-- By its own header, or as the root. -/
  | explicit
  /-- On the way to a table with a header. -/
  | implicit
  /-- On the way to the key of an entry. -/
  | dotted
deriving Repr, DecidableEq, Inhabited

/-- A value, or a table in the making. -/
inductive Node where
  | value (v : Value)
  | table (kind : TableKind) (entries : List (String × Node))
  /-- An array of tables, the last one first; each of them is explicit. -/
  | tables (last : List (List (String × Node)))
deriving Repr, Inhabited

/-- The entries of a table in the making. -/
abbrev Node.Entries := List (String × Node)

namespace Node

mutual

/-- The value that has been made. -/
def toValue : Node → Value
  | .value v => v
  | .table _ entries => .table (entriesToValue entries)
  | .tables items => .array (itemsToValue items).reverse

/-- The entries of a table that has been made. -/
def entriesToValue : List (String × Node) → List (String × Value)
  | [] => []
  | (k, n) :: rest => (k, n.toValue) :: entriesToValue rest

/-- The tables of an array. -/
def itemsToValue : List (List (String × Node)) → List Value
  | [] => []
  | entries :: rest => .table (entriesToValue entries) :: itemsToValue rest

end

@[simp] theorem toValue_value (v : Value) : (value v).toValue = v := by rw [toValue]

/-- Entries keep their keys. -/
theorem entriesToValue_eq_map (entries : List (String × Node)) :
    entriesToValue entries = entries.map fun e => (e.1, e.2.toValue) := by
  induction entries with
  | nil => rfl
  | cons e entries ih => rw [entriesToValue, ih, List.map_cons]

/-- A table is made entry by entry. -/
theorem toValue_table (kind : TableKind) (entries : List (String × Node)) :
    (table kind entries).toValue = .table (entries.map fun e => (e.1, e.2.toValue)) := by
  rw [toValue, entriesToValue_eq_map]

/-- An array of tables is made table by table. -/
theorem toValue_tables (items : List (List (String × Node))) :
    (tables items).toValue = .array
      (items.map fun entries => .table (entries.map fun e => (e.1, e.2.toValue))).reverse := by
  rw [toValue]
  congr
  induction items with
  | nil => rfl
  | cons entries items ih => rw [itemsToValue, ih, List.map_cons, entriesToValue_eq_map]

/-- What stands under a key. -/
def lookup (key : String) (entries : Entries) : Option Node :=
  (entries.find? (·.1 == key)).map (·.2)

/-- Puts a node under a key, in the place of what stands there. -/
def store (key : String) (node : Node) : Entries → Entries
  | [] => [(key, node)]
  | (k, n) :: rest => if k = key then (k, node) :: rest else (k, n) :: store key node rest

/-- Changes the table at the end of a way through tables; tables that are not there yet come into
being with kind `via`. An entry's way may not lead through a table that has a header of its own. -/
def descend (via : TableKind) (change : TableKind → Entries → Option Entries) :
    List String → TableKind → Entries → Option Entries
  | [], kind, entries => change kind entries
  | key :: way, _, entries => do
    let node ← match lookup key entries with
      | none => (descend via change way via []).map (Node.table via)
      | some (.value _) => none
      | some (.table k inner) =>
        if via = .dotted ∧ k = .explicit then none
        else (descend via change way k inner).map (Node.table k)
      | some (.tables []) => none
      | some (.tables (last :: before)) =>
        (descend via change way .explicit last).map fun last => Node.tables (last :: before)
    return store key node entries

/-- Puts an entry into a table. A path with dots must end in a table that such paths made, a path
without dots in one they did not make. -/
def insert? (entries : Entries) (e : Entry) : Option Entries :=
  descend .dotted (fun kind inner =>
    if (kind = .dotted) = (e.path.tables = []) ∨ (lookup e.path.key inner).isSome then none
    else some (store e.path.key (.value e.value) inner)) e.path.tables .explicit entries

/-- Puts entries into a table, in order. -/
def insertAll? (entries : Entries) (es : List Entry) : Option Entries := es.foldlM insert? entries

/-- The table with these entries alone. -/
def ofEntries? (es : List Entry) : Option Node := (insertAll? [] es).map (.table .explicit)

/-- Puts a section into the root table: a header may stand for a table that is not there or that
only led to others, and for an array of tables that is not there or that such headers made. -/
def addSection? (root : Entries) (s : Section) : Option Entries :=
  match s.header with
  | .root => insertAll? root s.entries
  | .table path =>
    descend .implicit (fun _ inner => do
      let start ← match lookup path.key inner with
        | none => some []
        | some (.table .implicit entries) => some entries
        | some _ => none
      let entries ← insertAll? start s.entries
      return store path.key (.table .explicit entries) inner) path.tables .explicit root
  | .item path =>
    descend .implicit (fun _ inner => do
      let before ← match lookup path.key inner with
        | none => some []
        | some (.tables items) => some items
        | some _ => none
      let entries ← insertAll? [] s.entries
      return store path.key (.tables (entries :: before)) inner) path.tables .explicit root

/-- The root table of a document. -/
def ofSections? (sections : List Section) : Option Node :=
  (sections.foldlM addSection? []).map (.table .explicit)

end Node

end RelayFleet.Toml
