import Warehouse.Error
import Warehouse.Query.Basic

/-! # Catalogs

The tables that a query may read, by their names. No two tables of a catalog have the
same name. -/

namespace Warehouse.Query

open Plan

/-- Tables with different names. -/
structure Catalog where
  tables : List Table
  names_nodup : (tables.map Table.name).Nodup

namespace Catalog

/-- The catalog without tables. -/
def empty : Catalog := ⟨[], List.nodup_nil⟩

/-- The table with a name. -/
def table? (catalog : Catalog) (name : String) : Option Table :=
  catalog.tables.find? fun table => table.name == name

/-- The table with a name. -/
def table (catalog : Catalog) (name : String) : Except Error Table :=
  match catalog.table? name with
  | some table => .ok table
  | none => .error (.invalidPlan s!"unknown relation {name}")

/-- Add a table, whose name must be new. -/
def add (catalog : Catalog) (table : Table) : Except Error Catalog :=
  if h : table.name ∈ catalog.tables.map Table.name then
    .error (.invalidPlan s!"relation {table.name} defined twice")
  else .ok ⟨table :: catalog.tables, List.nodup_cons.2 ⟨h, catalog.names_nodup⟩⟩

/-- The catalog of some tables. -/
def ofTables (tables : List Table) : Except Error Catalog := tables.foldlM add empty

end Catalog

end Warehouse.Query
