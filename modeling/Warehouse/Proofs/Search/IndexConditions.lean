import Warehouse.Proofs.Search.Implementations

/-! # What the search of an index accounts for

An index is searched by those columns of its key that are compared in a way that the index can answer. The
conditions on other columns are counted, since they are to be checked on the rows found. A condition on a column
by which the index is searched is not counted, be it one that the index cannot answer: `TableSelection.overlooked`
are the conditions that are neither answered nor counted. -/

namespace Warehouse.Search

open Plan Query

namespace TableSelection

/-- The conditions that the search of an index by some columns answers. -/
def answered (selection : TableSelection) (used : List ColumnId) : List Condition :=
  selection.conditions.filter fun condition => used.contains condition.column && condition.comparison.isIndexable

/-- The conditions that the search of an index by some columns does not answer. -/
def unanswered (selection : TableSelection) (used : List ColumnId) : List Condition :=
  selection.conditions.filter fun condition => !(used.contains condition.column && condition.comparison.isIndexable)

/-- The conditions that the search of an index by some columns does not answer although they are on these
columns. -/
def overlooked (selection : TableSelection) (used : List ColumnId) : List Condition :=
  selection.conditions.filter fun condition => used.contains condition.column && !condition.comparison.isIndexable

end TableSelection

/-- What the condition of the search of an index stands for. -/
structure Accounts (selection : TableSelection) (index : IndexDescriptor) (condition : IndexCondition) : Prop where
  used : ∀ column, column ∈ condition.usedColumns ↔ column ∈ index.keyColumns ∧
    ∃ compared ∈ selection.conditions, compared.column = column ∧ compared.comparison.isIndexable
  counted : condition.residualPredicates + (selection.overlooked condition.usedColumns).length =
    (selection.unanswered condition.usedColumns).length

variable {selection : TableSelection} {index : IndexDescriptor} {condition : IndexCondition} {memo : Memo}
  {id : GroupId} {expr : GroupExpr} {alternative : Alternative}

namespace TableSelection

theorem probes_iff {column : ColumnId} : selection.probes column = true ↔
    ∃ compared ∈ selection.conditions, compared.column = column ∧ compared.comparison.isIndexable := by
  rw [probes, List.any_eq_true]
  apply exists_congr
  intro compared
  rw [Bool.and_eq_true, beq_iff_eq]

/-- Every condition is answered or not. -/
theorem length_conditions (selection : TableSelection) (used : List ColumnId) :
    (selection.answered used).length + (selection.unanswered used).length = selection.conditions.length :=
  (List.length_eq_length_filter_add _).symm

/-- What is not answered is on another column or overlooked. -/
theorem length_unanswered (selection : TableSelection) (used : List ColumnId) :
    (selection.unanswered used).length =
      (selection.conditions.filter fun condition => !used.contains condition.column).length +
        (selection.overlooked used).length := by
  have elsewhere : (selection.unanswered used).filter (fun condition => !used.contains condition.column) =
      selection.conditions.filter fun condition => !used.contains condition.column := by
    rw [unanswered, List.filter_filter]
    apply List.filter_congr
    intro condition _
    cases used.contains condition.column <;> rfl
  have here : (selection.unanswered used).filter (fun condition => !!used.contains condition.column) =
      selection.overlooked used := by
    rw [unanswered, List.filter_filter, overlooked]
    apply List.filter_congr
    intro condition _
    cases used.contains condition.column <;> rfl
  calc (selection.unanswered used).length
      = ((selection.unanswered used).filter fun condition => !used.contains condition.column).length +
        ((selection.unanswered used).filter fun condition => !!used.contains condition.column).length :=
          List.length_eq_length_filter_add _
    _ = _ := by rw [elsewhere, here]

/-- Nothing is overlooked if the index can answer all conditions on the columns by which it is searched. -/
theorem overlooked_eq_nil {used : List ColumnId} : selection.overlooked used = [] ↔
    ∀ compared ∈ selection.conditions, compared.column ∈ used → compared.comparison.isIndexable := by
  rw [overlooked, List.filter_eq_nil_iff]
  apply forall₂_congr
  intro compared _
  simp

end TableSelection

theorem accounts_of_indexCondition (h : selection.indexCondition index = some condition) :
    Accounts selection index condition := by
  rw [TableSelection.indexCondition] at h
  split at h
  · contradiction
  · obtain rfl := Option.some.inj h
    constructor
    · intro column
      rw [List.mem_filter, TableSelection.probes_iff]
    · rw [TableSelection.length_unanswered]

namespace Accounts

/-- Every condition is answered by the search, counted, or overlooked. -/
theorem length_conditions (accounts : Accounts selection index condition) :
    (selection.answered condition.usedColumns).length + condition.residualPredicates +
      (selection.overlooked condition.usedColumns).length = selection.conditions.length := by
  rw [Nat.add_assoc, accounts.counted]
  exact selection.length_conditions condition.usedColumns

/-- All that the search does not answer is counted, unless it is on a column by which the index is searched. -/
theorem counts_all_iff (accounts : Accounts selection index condition) :
    condition.residualPredicates = (selection.unanswered condition.usedColumns).length ↔
      ∀ compared ∈ selection.conditions, compared.column ∈ condition.usedColumns → compared.comparison.isIndexable := by
  rw [← accounts.counted, ← TableSelection.overlooked_eq_nil, ← List.length_eq_zero_iff]
  omega

end Accounts

/-- Every way to search an index for a selection says by which columns that is done, and counts the conditions that
are on other columns. -/
theorem indexScan_accounts (member : alternative ∈ Rule.indexScan.alternatives memo id expr) :
    ∃ selection, TableSelection.ofExpr? memo expr = some selection ∧ ∃ index ∈ selection.table.indexes,
      ∃ condition, alternative = scanAlternative .indexScan id selection.table (.index index condition) ∧
        Accounts selection index condition := by
  obtain ⟨selection, selects, index, own, found, found_eq, rfl⟩ := exists_of_mem_indexAlternatives member
  rw [indexAccess] at found_eq
  split at found_eq
  · obtain ⟨condition, condition_eq, rfl⟩ := Option.map_eq_some_iff.mp found_eq
    exact ⟨selection, selects, index, own, condition, rfl, accounts_of_indexCondition condition_eq⟩
  · contradiction

/-- So does every way to search an index alone, which has all columns that are read or compared. -/
theorem indexOnlyScan_accounts (member : alternative ∈ Rule.indexOnlyScan.alternatives memo id expr) :
    ∃ selection, TableSelection.ofExpr? memo expr = some selection ∧ ∃ index ∈ selection.table.indexes,
      ∃ condition, alternative = scanAlternative .indexOnlyScan id selection.table (.indexOnly index condition) ∧
        Accounts selection index condition ∧
        ∀ column, column ∈ selection.columns ∨ (∃ compared ∈ selection.conditions, compared.column = column) →
          column ∈ index.keyColumns ∨ column ∈ index.includedColumns := by
  obtain ⟨selection, selects, index, own, found, found_eq, rfl⟩ := exists_of_mem_indexAlternatives member
  have answers := answers_of_indexOnlyAccess own found_eq
  rw [indexOnlyAccess] at found_eq
  split at found_eq
  · obtain ⟨condition, condition_eq, rfl⟩ := Option.map_eq_some_iff.mp found_eq
    refine ⟨selection, selects, index, own, condition, rfl, accounts_of_indexCondition condition_eq, ?_⟩
    intro column needed
    cases answers with
    | indexOnly own type covers searches =>
        apply covers
        rw [List.mem_append, List.mem_map]
        exact needed
  · contradiction

/-- Two conditions are on the column by which the index is searched. The index cannot answer the second, and
nothing is counted. -/
theorem exists_overlooked : ∃ (selection : TableSelection) (index : IndexDescriptor) (condition : IndexCondition),
    selection.indexCondition index = some condition ∧ condition.residualPredicates = 0 ∧
      selection.unanswered condition.usedColumns = [⟨2, .ne⟩] := by
  refine ⟨⟨[⟨2, .eq⟩, ⟨2, .ne⟩], orders, [2]⟩, ⟨"orders_2", .btree, [2], [], 0.0⟩, ⟨[2], 0⟩, ?_, rfl, ?_⟩
  · rfl
  · rfl

end Warehouse.Search
