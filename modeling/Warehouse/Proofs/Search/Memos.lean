import Warehouse.Proofs.Outcomes
import Warehouse.Search.Memo

/-! # The memo of a query

The groups of an expression come after the groups that are in the memo already, and its last group has one
expression, which is the root of what was inserted. All columns that it uses come from the groups below. -/

namespace Warehouse.Search

open Plan Query

variable {catalog : Catalog} {memo : Memo} {goal : Goal} {stats : NodeStats} {id : GroupId} {group : Group}

/-! ## Looking up groups -/

namespace Memo

theorem lt_length_of_group? (known : memo.group? id = some group) : id < memo.length := by
  induction memo with
  | nil => contradiction
  | cons last earlier ih =>
      rw [group?] at known
      split at known
      · rename_i is_last
        rw [is_last]
        exact Nat.lt_succ_self _
      · exact Nat.lt_succ_of_lt (ih known)

/-- Groups that come later do not matter. -/
theorem group?_suffix {larger : Memo} (suffix : memo <:+ larger) (less : id < memo.length) :
    larger.group? id = memo.group? id := by
  obtain ⟨later, rfl⟩ := suffix
  induction later with
  | nil => rfl
  | cons group later ih =>
      have before : id ≠ (later ++ memo).length := by
        rw [List.length_append]
        exact Nat.ne_of_lt (Nat.lt_add_left _ less)
      rw [List.cons_append, group?, if_neg before, ih]

end Memo

/-! ## Inserting expressions -/

theorem missing?_eq_none {used available : List ColumnId} : missing? used available = none ↔ used ⊆ available := by
  rw [missing?, List.find?_eq_none]
  exact forall₂_congr fun column _ => by simp

theorem checkColumns_eq_ok {used available : List ColumnId} {use : String}
    (h : checkColumns used available use = .ok ()) : used ⊆ available := by
  rw [checkColumns] at h
  split at h
  · rename_i complete
    exact missing?_eq_none.mp complete
  · contradiction

theorem insert_get_eq_ok {name : String} {columns : Option (List ColumnId)}
    (h : insert catalog (.get name columns stats) memo = .ok goal) :
    ∃ table, catalog.table? name = some table ∧ columns.getD table.columns ⊆ table.columns ∧
      goal = ⟨⟨[.get table (columns.getD table.columns)], stats, [table.name], columns.getD table.columns⟩, memo⟩ := by
  obtain ⟨_, -, h⟩ := bind_eq_ok.mp h
  obtain ⟨table, found, h⟩ := bind_eq_ok.mp h
  obtain ⟨group, scanned, h⟩ := bind_eq_ok.mp h
  obtain rfl := pure_eq_ok.mp h
  have known : catalog.table? name = some table := by
    rw [Catalog.table] at found
    split at found
    · rename_i known
      rw [known, Except.ok.inj found]
    · contradiction
  rw [scanGroup] at scanned
  split at scanned
  · contradiction
  · rename_i complete
    exact ⟨table, known, missing?_eq_none.mp complete, by rw [← Except.ok.inj scanned]⟩

theorem insert_select_eq_ok {conditions : List Condition} {input : Expr}
    (h : insert catalog (.select conditions input stats) memo = .ok goal) :
    ∃ below, insert catalog input memo = .ok below ∧ conditions.map Condition.column ⊆ below.root.columns ∧
      goal = ⟨⟨[.select conditions below.id], stats, below.root.aliases, below.root.columns⟩, below.memo⟩ := by
  obtain ⟨_, -, h⟩ := bind_eq_ok.mp h
  obtain ⟨below, inserted, h⟩ := bind_eq_ok.mp h
  obtain ⟨_, checked, h⟩ := bind_eq_ok.mp h
  exact ⟨below, inserted, checkColumns_eq_ok checked, (pure_eq_ok.mp h).symm⟩

theorem insert_join_eq_ok {keys : List JoinKey} {left right : Expr}
    (h : insert catalog (.join keys left right stats) memo = .ok goal) :
    ∃ outer inner, insert catalog left memo = .ok outer ∧ insert catalog right outer.memo = .ok inner ∧
      (keys.map JoinKey.left ⊆ outer.root.columns ∧ keys.map JoinKey.right ⊆ inner.root.columns) ∧
      goal = ⟨⟨[.join keys outer.id inner.id], stats, outer.root.aliases ++ inner.root.aliases,
        outer.root.columns ++ inner.root.columns⟩, inner.memo⟩ := by
  obtain ⟨_, -, h⟩ := bind_eq_ok.mp h
  obtain ⟨outer, first, h⟩ := bind_eq_ok.mp h
  obtain ⟨inner, second, h⟩ := bind_eq_ok.mp h
  obtain ⟨_, lefts, h⟩ := bind_eq_ok.mp h
  obtain ⟨_, rights, h⟩ := bind_eq_ok.mp h
  exact ⟨outer, inner, first, second, ⟨checkColumns_eq_ok lefts, checkColumns_eq_ok rights⟩, (pure_eq_ok.mp h).symm⟩

theorem insert_aggregate_eq_ok {grouping : List ColumnId} {calls : List AggregateCall} {input : Expr}
    (h : insert catalog (.aggregate grouping calls input stats) memo = .ok goal) :
    ∃ below, insert catalog input memo = .ok below ∧
      (grouping ⊆ below.root.columns ∧ calls.filterMap AggregateCall.column ⊆ below.root.columns) ∧
      goal = ⟨⟨[.aggregate grouping calls below.id], stats, below.root.aliases, grouping⟩, below.memo⟩ := by
  obtain ⟨_, -, h⟩ := bind_eq_ok.mp h
  obtain ⟨below, inserted, h⟩ := bind_eq_ok.mp h
  obtain ⟨_, grouped, h⟩ := bind_eq_ok.mp h
  obtain ⟨_, called, h⟩ := bind_eq_ok.mp h
  exact ⟨below, inserted, ⟨checkColumns_eq_ok grouped, checkColumns_eq_ok called⟩, (pure_eq_ok.mp h).symm⟩

/-- Groups are only added. -/
theorem suffix_of_insert {expr : Expr} (h : insert catalog expr memo = .ok goal) : memo <:+ goal.memo := by
  induction expr generalizing memo goal with
  | get name columns stats =>
      obtain ⟨table, -, -, rfl⟩ := insert_get_eq_ok h
      exact List.suffix_cons _ _
  | select conditions input stats ih =>
      obtain ⟨below, inserted, -, rfl⟩ := insert_select_eq_ok h
      exact (ih inserted).trans (List.suffix_cons _ _)
  | join keys left right stats ihl ihr =>
      obtain ⟨outer, inner, first, second, -, rfl⟩ := insert_join_eq_ok h
      exact ((ihl first).trans (ihr second)).trans (List.suffix_cons _ _)
  | aggregate grouping calls input stats ih =>
      obtain ⟨below, inserted, -, rfl⟩ := insert_aggregate_eq_ok h
      exact (ih inserted).trans (List.suffix_cons _ _)

theorem Goal.id_lt_length (goal : Goal) : goal.id < goal.memo.length := Nat.lt_succ_self _

/-- What is done to every group is done to the one that is looked up. -/
theorem Memo.group?_map (f : Group → Group) (memo : Memo) (id : GroupId) :
    Memo.group? (memo.map f) id = (memo.group? id).map f := by
  induction memo with
  | nil => rfl
  | cons group earlier ih =>
      simp only [List.map_cons, group?, List.length_map, ih]
      split
      · rfl
      · rfl

/-- The memo of a query is that of its expression over the catalog of its tables. -/
theorem Goal.ofQuery_eq_ok {query : Query} (h : Goal.ofQuery query = .ok goal) :
    ∃ catalog, Catalog.ofTables query.tables = .ok catalog ∧ insert catalog query.expr [] = .ok goal :=
  bind_eq_ok.mp h

end Warehouse.Search
