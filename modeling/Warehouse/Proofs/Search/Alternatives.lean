import Mathlib.Data.List.Basic
import Warehouse.Search.Rules

/-! # The alternatives that rules give

`Offered` are the ways to compute an expression, whatever rule gave them: what their operator is, what they
demand of their inputs, and how their rows lie. -/

namespace Warehouse.Search

open Plan Query

/-- An index is searched by some of its key columns, each of which is compared in a way that the index can
answer. -/
structure Searches (conditions : List Condition) (index : IndexDescriptor) (used : List ColumnId) : Prop where
  nonempty : used ≠ []
  keys : ∀ column ∈ used, column ∈ index.keyColumns
  compared : ∀ column ∈ used, ∃ condition ∈ conditions,
    condition.column = column ∧ condition.comparison.isIndexable

/-- A selection from a table is answered by one of the table's indexes. -/
inductive Answers (selection : TableSelection) : Access → Prop
  | index {index : IndexDescriptor} {condition : IndexCondition} (own : index ∈ selection.table.indexes)
      (type : index.type = .btree ∨ index.type = .hash)
      (searches : Searches selection.conditions index condition.usedColumns) :
      Answers selection (.index index condition)
  | indexOnly {index : IndexDescriptor} {condition : IndexCondition} (own : index ∈ selection.table.indexes)
      (type : index.type = .btree)
      (covers : ∀ column ∈ selection.columns ++ selection.conditions.map Condition.column,
        column ∈ index.keyColumns ∨ column ∈ index.includedColumns)
      (searches : Searches selection.conditions index condition.usedColumns) :
      Answers selection (.indexOnly index condition)
  | bitmap {probe : BitmapProbe} {used : List ColumnId} (own : probe.index ∈ selection.table.indexes)
      (type : probe.index.type ≠ .hash) (searches : Searches selection.conditions probe.index used) :
      Answers selection (.bitmap ⟨some probe, used, []⟩)

/-- A table is read from its beginning to its end. -/
def plainAccess (table : Table) : Access := if table.storage = .foreign then .foreign else .sequential

/-- The operators that join: with a hash table, which needs keys, or without one. -/
inductive Joins (keys : List JoinKey) : Operator → Prop
  | hash (keyed : keys ≠ []) : Joins keys (.hashJoin .inner (keyColumns keys))
  | loop : Joins keys (.loopJoin .inner (keyColumns keys))

/-- The ways to compute the rows of an expression. -/
inductive Offered (memo : Memo) (id : GroupId) : GroupExpr → Alternative → Prop
  | scan {rule : Rule} {table : Table} {columns : List ColumnId} :
      Offered memo id (.get table columns) (scanAlternative rule id table (plainAccess table))
  | indexed {rule : Rule} {conditions : List Condition} {input : GroupId} {selection : TableSelection}
      {access : Access} (selects : TableSelection.ofExpr? memo (.select conditions input) = some selection)
      (answers : Answers selection access) :
      Offered memo id (.select conditions input) (scanAlternative rule id selection.table access)
  | filter {rule : Rule} {conditions : List Condition} {input : GroupId} {demand : Demand} :
      Offered memo id (.select conditions input)
        ⟨rule, .filter (conditions.map Condition.column), [⟨input, demand⟩], .ofInput 0⟩
  | copied {rule : Rule} {keys : List JoinKey} {outer inner : GroupId} {op : Operator} (joins : Joins keys op) :
      Offered memo id (.join keys outer inner) ⟨rule, op, broadcastInputs outer inner, .ofInput 0⟩
  | together {rule : Rule} {keys : List JoinKey} {outer inner : GroupId} (keyed : keys ≠ []) :
      Offered memo id (.join keys outer inner) ⟨rule, .hashJoin .inner (keyColumns keys),
        [.distributed outer (.hashed (keys.map JoinKey.left)), .distributed inner (.hashed (keys.map JoinKey.right))],
        .fixed (.hashed (keys.map JoinKey.left))⟩
  | scalar {rule : Rule} {calls : List AggregateCall} {input : GroupId} :
      Offered memo id (.aggregate [] calls input)
        ⟨rule, scalarAgg calls, [.distributed input .singleton], .fixed .singleton⟩
  | grouped {rule : Rule} {grouping sort : List ColumnId} {calls : List AggregateCall} {input : GroupId}
      {kind : Grouping} (groups : grouping ≠ []) :
      Offered memo id (.aggregate grouping calls input) ⟨rule, .aggregate kind false grouping .global false,
        [⟨input, .exact ⟨.hashed grouping, sort⟩⟩], .fixed (.hashed grouping)⟩

variable {selection : TableSelection} {index : IndexDescriptor} {access : Access} {memo : Memo} {id : GroupId}
  {expr : GroupExpr} {alternative : Alternative} {rule : Rule} {rules : List Rule} {group : Group}

/-! ## Searching an index -/

theorem searches_of_indexCondition {condition : IndexCondition}
    (h : selection.indexCondition index = some condition) :
    Searches selection.conditions index condition.usedColumns := by
  rw [TableSelection.indexCondition] at h
  split at h
  · contradiction
  · rename_i nonempty
    obtain rfl := Option.some.inj h
    refine ⟨by simpa [List.isEmpty_iff] using nonempty, fun column member => ?_, fun column member => ?_⟩
    · exact (List.mem_filter.mp member).1
    · obtain ⟨condition, member, compared⟩ := List.any_eq_true.mp (List.mem_filter.mp member).2
      obtain ⟨same, indexable⟩ := Bool.and_eq_true_iff.mp compared
      exact ⟨condition, member, eq_of_beq same, indexable⟩

theorem answers_of_indexAccess (own : index ∈ selection.table.indexes)
    (h : indexAccess selection index = some access) : Answers selection access := by
  rw [indexAccess] at h
  split at h
  · rename_i type
    obtain ⟨condition, found, rfl⟩ := Option.map_eq_some_iff.mp h
    exact .index own type (searches_of_indexCondition found)
  · contradiction

theorem answers_of_indexOnlyAccess (own : index ∈ selection.table.indexes)
    (h : indexOnlyAccess selection index = some access) : Answers selection access := by
  rw [indexOnlyAccess] at h
  split at h
  · rename_i allowed
    obtain ⟨condition, found, rfl⟩ := Option.map_eq_some_iff.mp h
    refine .indexOnly own allowed.1 (fun column member => ?_) (searches_of_indexCondition found)
    have covered := List.all_eq_true.mp allowed.2 column member
    simpa using covered
  · contradiction

theorem answers_of_bitmapAccess (own : index ∈ selection.table.indexes)
    (h : bitmapAccess selection index = some access) : Answers selection access := by
  rw [bitmapAccess] at h
  split at h
  · rename_i type
    obtain ⟨condition, found, rfl⟩ := Option.map_eq_some_iff.mp h
    obtain ⟨searched, found', same⟩ := Option.bind_eq_some_iff.mp found
    obtain rfl := Option.some.inj same
    exact .bitmap own type (searches_of_indexCondition found')
  · contradiction

/-! ## Every alternative is offered -/

/-- An index is used for a selection from its table. -/
theorem exists_of_mem_indexAlternatives {access : TableSelection → IndexDescriptor → Option Access}
    (member : alternative ∈ indexAlternatives rule id memo expr access) :
    ∃ selection, TableSelection.ofExpr? memo expr = some selection ∧ ∃ index ∈ selection.table.indexes,
      ∃ found, access selection index = some found ∧ alternative = scanAlternative rule id selection.table found := by
  rw [indexAlternatives] at member
  split at member
  · contradiction
  · rename_i selection selects
    obtain ⟨index, own, given⟩ := List.mem_filterMap.mp member
    obtain ⟨found, found_eq, rfl⟩ := Option.map_eq_some_iff.mp given
    exact ⟨selection, selects, index, own, found, found_eq, rfl⟩

theorem offered_of_indexAlternatives {access : TableSelection → IndexDescriptor → Option Access}
    (answers : ∀ selection index found, index ∈ selection.table.indexes → access selection index = some found →
      Answers selection found)
    (member : alternative ∈ indexAlternatives rule id memo expr access) : Offered memo id expr alternative := by
  obtain ⟨selection, selects, index, own, found, found_eq, rfl⟩ := exists_of_mem_indexAlternatives member
  cases expr with
  | select conditions input => exact .indexed selects (answers selection index found own found_eq)
  | get table columns => contradiction
  | join keys outer inner => contradiction
  | aggregate grouping calls input => contradiction

theorem offered_of_joinAlternatives {keys : List JoinKey} {outer inner : GroupId}
    (member : alternative ∈ hashJoinAlternatives keys outer inner ∨
      alternative ∈ loopJoinAlternatives keys outer inner) :
    Offered memo id (.join keys outer inner) alternative := by
  obtain member | member := member
  · rw [hashJoinAlternatives] at member
    split at member
    · contradiction
    · rename_i keyed
      have keyed : keys ≠ [] := by simpa using keyed
      obtain rfl | rfl := List.mem_pair.mp member
      · exact .together keyed
      · exact .copied (.hash keyed)
  · obtain rfl := List.mem_singleton.mp member
    exact .copied .loop

theorem offered_of_aggregateAlternatives {grouping : List ColumnId} {calls : List AggregateCall} {input : GroupId}
    (member : alternative ∈ hashAggAlternatives grouping calls input ∨
      alternative ∈ streamAggAlternatives grouping input) :
    Offered memo id (.aggregate grouping calls input) alternative := by
  cases grouping with
  | nil =>
      obtain member | member := member
      · obtain rfl := List.mem_singleton.mp member
        exact .scalar
      · contradiction
  | cons column rest =>
      obtain member | member := member
      · obtain rfl := List.mem_singleton.mp member
        exact .grouped (List.cons_ne_nil _ _)
      · obtain rfl := List.mem_singleton.mp member
        exact .grouped (List.cons_ne_nil _ _)

/-- What a rule gives is offered. -/
theorem offered_of_mem (member : alternative ∈ rule.alternatives memo id expr) :
    Offered memo id expr alternative := by
  cases rule with
  | indexScan => exact offered_of_indexAlternatives (fun _ _ _ => answers_of_indexAccess) member
  | indexOnlyScan => exact offered_of_indexAlternatives (fun _ _ _ => answers_of_indexOnlyAccess) member
  | bitmapScan => exact offered_of_indexAlternatives (fun _ _ _ => answers_of_bitmapAccess) member
  | exchange => cases expr <;> contradiction
  | tableScan =>
      cases expr with
      | get table columns =>
          obtain rfl := List.mem_singleton.mp member
          exact .scan
      | _ => contradiction
  | filter =>
      cases expr with
      | select conditions input =>
          obtain ⟨request, asked, rfl⟩ := List.mem_map.mp member
          obtain rfl | rfl := List.mem_pair.mp asked
          · exact .filter
          · exact .filter
      | _ => contradiction
  | hashJoin =>
      cases expr with
      | join keys outer inner => exact offered_of_joinAlternatives (.inl member)
      | _ => contradiction
  | loopJoin =>
      cases expr with
      | join keys outer inner => exact offered_of_joinAlternatives (.inr member)
      | _ => contradiction
  | hashAgg =>
      cases expr with
      | aggregate grouping calls input => exact offered_of_aggregateAlternatives (.inl member)
      | _ => contradiction
  | streamAgg =>
      cases expr with
      | aggregate grouping calls input => exact offered_of_aggregateAlternatives (.inr member)
      | _ => contradiction

/-- The alternatives of a group are offered for its expressions. -/
theorem exists_offered_of_mem (member : alternative ∈ group.alternatives rules memo id) :
    ∃ expr ∈ group.exprs, Offered memo id expr alternative := by
  obtain ⟨expr, own, member⟩ := List.mem_flatMap.mp member
  obtain ⟨rule, -, member⟩ := List.mem_flatMap.mp member
  exact ⟨expr, own, offered_of_mem member⟩

/-! ## Equivalent expressions -/

theorem map_swap_swap (keys : List JoinKey) : (keys.map JoinKey.swap).map JoinKey.swap = keys := by
  rw [List.map_map]
  exact List.map_id keys

/-- Only joins have equivalents, and one rule alone finds them. -/
theorem eq_of_mem_equivalents {rule : Rule} {found : GroupExpr} (h : found ∈ rule.equivalents expr) :
    rule = .exchange ∧ ∃ keys outer inner, expr = .join keys outer inner ∧
      found = .join (keys.map JoinKey.swap) inner outer := by
  cases rule with
  | exchange =>
      cases expr with
      | join keys outer inner => exact ⟨rfl, keys, outer, inner, rfl, List.mem_singleton.mp h⟩
      | _ => contradiction
  | _ => contradiction

/-- What a rule finds for what a rule has found is what this was found for. -/
theorem eq_of_mem_equivalents_twice {rule rule' : Rule} {found back : GroupExpr}
    (first : found ∈ rule.equivalents expr) (second : back ∈ rule'.equivalents found) : back = expr := by
  obtain ⟨-, keys, outer, inner, rfl, rfl⟩ := eq_of_mem_equivalents first
  obtain ⟨-, keys', _, _, same, rfl⟩ := eq_of_mem_equivalents second
  obtain ⟨rfl, rfl, rfl⟩ := GroupExpr.join.inj same
  rw [map_swap_swap]

namespace Group

/-- More rules give more alternatives. -/
theorem alternatives_mono {more : List Rule} (fewer : rules ⊆ more) :
    group.alternatives rules memo id ⊆ group.alternatives more memo id := by
  intro alternative member
  obtain ⟨expr, own, member⟩ := List.mem_flatMap.mp member
  obtain ⟨rule, known, member⟩ := List.mem_flatMap.mp member
  exact List.mem_flatMap.mpr ⟨expr, own, List.mem_flatMap.mpr ⟨rule, fewer known, member⟩⟩

/-! ## Exploring a group -/

theorem add_stats (group : Group) (expr : GroupExpr) : (group.add expr).stats = group.stats := by
  rw [add]
  split
  · rfl
  · rfl

theorem mem_add {added : GroupExpr} : expr ∈ (group.add added).exprs ↔ expr ∈ group.exprs ∨ expr = added := by
  rw [add]
  split
  · rename_i known
    refine ⟨.inl, ?_⟩
    rintro (member | rfl)
    · exact member
    · exact known
  · rw [List.mem_append, List.mem_singleton]

theorem foldl_add (exprs : List GroupExpr) (group : Group) :
    (exprs.foldl add group).stats = group.stats ∧
      ∀ expr, expr ∈ (exprs.foldl add group).exprs ↔ expr ∈ group.exprs ∨ expr ∈ exprs := by
  induction exprs generalizing group with
  | nil => exact ⟨rfl, fun expr => by simp⟩
  | cons first rest ih =>
      obtain ⟨stats, members⟩ := ih (group.add first)
      refine ⟨stats.trans (add_stats group first), fun expr => ?_⟩
      rw [List.foldl_cons, members, mem_add, List.mem_cons, or_assoc]

theorem explore_stats (rules : List Rule) (group : Group) : (group.explore rules).stats = group.stats :=
  (foldl_add _ group).1

/-- Exploring adds the expressions that the rules find. -/
theorem mem_explore : expr ∈ (group.explore rules).exprs ↔ expr ∈ group.exprs ∨
    ∃ known ∈ group.exprs, ∃ rule ∈ rules, expr ∈ rule.equivalents known := by
  rw [explore, (foldl_add _ group).2]
  simp only [List.mem_flatMap]

end Group

end Warehouse.Search
