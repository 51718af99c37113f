import Warehouse.Proofs.Search.Deliveries
import Warehouse.Proofs.Search.Explorations
import Warehouse.Proofs.Search.Groups

/-! # The closure of a memo

Once the memo of a query has been explored, the group of a join holds the join and its mirror, and every other
group its one expression. The rules find nothing more: the mirror of a mirror is the join. The columns that an
expression uses come from the groups that it reads, and this is so for mirrors as well. -/

namespace Warehouse.Search

open Plan Query

/-- An expression and, for a join, its mirror, which is the same join with its sides exchanged. -/
def GroupExpr.withMirror : GroupExpr → List GroupExpr
  | join keys outer inner => [.join keys outer inner, .join (keys.map JoinKey.swap) inner outer]
  | expr => [expr]

/-- Groups have the columns that `scope` says. An expression over them gives some columns, and all columns that it
uses are columns of the group that it takes them from. -/
inductive GroupExpr.Gives (scope : GroupId → Option (List ColumnId)) : GroupExpr → List ColumnId → Prop
  | get {table : Table} {columns : List ColumnId} (known : columns ⊆ table.columns) :
      Gives scope (.get table columns) columns
  | select {conditions : List Condition} {input : GroupId} {columns : List ColumnId}
      (below : scope input = some columns)
      (compared : conditions.map Condition.column ⊆ columns) : Gives scope (.select conditions input) columns
  | join {keys : List JoinKey} {outer inner : GroupId} {left right : List ColumnId} (first : scope outer = some left)
      (second : scope inner = some right) (lefts : keys.map JoinKey.left ⊆ left)
      (rights : keys.map JoinKey.right ⊆ right) : Gives scope (.join keys outer inner) (left ++ right)
  | aggregate {grouping : List ColumnId} {calls : List AggregateCall} {input : GroupId} {columns : List ColumnId}
      (below : scope input = some columns) (grouped : grouping ⊆ columns)
      (called : calls.filterMap AggregateCall.column ⊆ columns) : Gives scope (.aggregate grouping calls input) grouping

namespace Memo

/-- The columns of a group. -/
def columns? (memo : Memo) (id : GroupId) : Option (List ColumnId) := (memo.group? id).map Group.columns

/-- Every expression of a group gives the columns of the group, in some order, and uses columns of the groups that
it reads. -/
def Scoped (memo : Memo) : Prop :=
  ∀ id group, memo.group? id = some group →
    ∀ expr ∈ group.exprs, ∃ columns, expr.Gives memo.columns? columns ∧ columns.Perm group.columns

/-- A memo holds an expression and all that is equivalent to it by the rules. -/
structure Closes (memo : Memo) (catalog : Catalog) (node : Expr) : Prop where
  /-- There is one group for every node. -/
  groups : memo.length = node.size
  /-- It holds the expression that the node stands for, and the mirror of a join. -/
  laid : node.Laid catalog GroupExpr.withMirror memo 0
  exprs : memo.exprCount = node.size + node.joins
  /-- Whatever a rule finds for an expression, adding it changes nothing. -/
  settled : ∀ id group, memo.group? id = some group →
    ∀ expr ∈ group.exprs, ∀ rule ∈ Rule.all, ∀ found ∈ rule.equivalents expr, group.add found = group
  scopes : memo.Scoped

end Memo

variable {catalog : Catalog} {memo larger earlier : Memo} {goal : Goal} {group : Group} {expr : GroupExpr} {node : Expr}
  {id : GroupId} {columns : List ColumnId} {rules : List Rule} {base : Nat}

/-! ## What the groups hold -/

namespace Group

/-- A group with one expression is explored by adding the mirror, unless both sides of a join are one group. -/
theorem exprs_explore_all (only : group.exprs = [expr])
    (apart : ∀ keys outer inner, expr = .join keys outer inner → outer ≠ inner) :
    (group.explore Rule.all).exprs = expr.withMirror := by
  cases expr with
  | join keys outer inner =>
      have fresh : GroupExpr.join (keys.map JoinKey.swap) inner outer ∉ group.exprs := by
        intro known
        rw [only, List.mem_singleton] at known
        exact apart keys outer inner rfl (GroupExpr.join.inj known).2.2
      have added : group.explore Rule.all = group.add (.join (keys.map JoinKey.swap) inner outer) := by
        rw [explore, only]
        rfl
      rw [added, add, if_neg fresh, only]
      rfl
  | get table columns =>
      exact (congrArg exprs (explore_eq_self only (by rintro (_ | _) <;> rfl))).trans only
  | select conditions input =>
      exact (congrArg exprs (explore_eq_self only (by rintro (_ | _) <;> rfl))).trans only
  | aggregate grouping calls input =>
      exact (congrArg exprs (explore_eq_self only (by rintro (_ | _) <;> rfl))).trans only

/-- The rules find nothing more for the expressions of a group that was explored. -/
theorem add_explore {rule : Rule} {found : GroupExpr} (known : rule ∈ rules) (own : expr ∈ (group.explore rules).exprs)
    (found_by : found ∈ rule.equivalents expr) : (group.explore rules).add found = group.explore rules := by
  have held : found ∈ (group.explore rules).exprs := by
    obtain original | ⟨original, own, other, -, expr_found⟩ := mem_explore.mp own
    · exact mem_explore.mpr (.inr ⟨expr, original, rule, known, found_by⟩)
    · -- a mirror has the original for its mirror
      rw [eq_of_mem_equivalents_twice expr_found found_by]
      exact mem_explore.mpr (.inl own)
  rw [add, if_pos held]

theorem columns_explore (rules : List Rule) (group : Group) : (group.explore rules).columns = group.columns := by
  rw [explore_eq]

end Group

theorem Memo.Has.explore {stats : NodeStats} (has : memo.Has id [expr] stats)
    (apart : ∀ keys outer inner, expr = .join keys outer inner → outer ≠ inner) :
    Memo.Has (memo.map (Group.explore Rule.all)) id expr.withMirror stats := by
  obtain ⟨group, known, only, rfl⟩ := has
  refine ⟨group.explore Rule.all, ?_, Group.exprs_explore_all only apart, Group.explore_stats _ _⟩
  rw [Memo.group?_map, known, Option.map_some]

/-- Exploring adds the mirrors to the groups of an expression. -/
theorem laid_explore (laid : node.Laid catalog (fun expr => [expr]) memo base) :
    node.Laid catalog GroupExpr.withMirror (memo.map (Group.explore Rule.all)) base := by
  induction node generalizing base with
  | get name columns stats =>
      obtain ⟨table, found, has⟩ := laid
      exact ⟨table, found, has.explore nofun⟩
  | select conditions input stats ih => exact ⟨ih laid.1, laid.2.explore nofun⟩
  | join keys left right stats ihl ihr =>
      refine ⟨ihl laid.1, ihr laid.2.1, laid.2.2.explore ?_⟩
      rintro keys' outer inner same
      obtain ⟨-, rfl, rfl⟩ := GroupExpr.join.inj same
      exact left.rootFrom_ne right base
  | aggregate grouping calls input stats ih => exact ⟨ih laid.1, laid.2.explore nofun⟩

/-! ## How many expressions there are -/

theorem Memo.exprCount_cons (group : Group) (earlier : Memo) :
    Memo.exprCount (group :: earlier) = Memo.exprCount earlier + group.exprs.length := by
  have from_start : ∀ (memo : Memo) (count : Nat), memo.foldl (fun count group => count + group.exprs.length) count =
      count + memo.exprCount := by
    intro memo
    induction memo with
    | nil => exact fun _ => rfl
    | cons group earlier ih =>
        intro count
        rw [exprCount, List.foldl_cons, List.foldl_cons, ih, ih, Nat.zero_add, Nat.add_assoc]
  rw [exprCount, List.foldl_cons, from_start, Nat.zero_add, Nat.add_comm]

/-- The group of an expression counts for the expression and its mirror. -/
theorem Memo.exprCount_explore (apart : ∀ keys outer inner, expr = .join keys outer inner → outer ≠ inner) :
    Memo.exprCount ((⟨[expr], stats, aliases, columns⟩ :: earlier).map (Group.explore Rule.all)) =
      Memo.exprCount (earlier.map (Group.explore Rule.all)) + expr.withMirror.length := by
  rw [List.map_cons, Memo.exprCount_cons, Group.exprs_explore_all rfl apart]

/-- The memo of an expression has one expression for every node and one more for every join. -/
theorem exprCount_of_insert (h : insert catalog node memo = .ok goal) :
    Memo.exprCount (goal.memo.map (Group.explore Rule.all)) =
      Memo.exprCount (memo.map (Group.explore Rule.all)) + (node.size + node.joins) := by
  induction node generalizing memo goal with
  | get name columns stats =>
      obtain ⟨table, -, -, rfl⟩ := insert_get_eq_ok h
      exact Memo.exprCount_explore (by rintro _ _ _ ⟨⟩)
  | select conditions input stats ih =>
      obtain ⟨below, inserted, -, rfl⟩ := insert_select_eq_ok h
      rw [Goal.memo, Memo.exprCount_explore, ih inserted]
      · simp only [GroupExpr.withMirror, List.length_singleton, Expr.size, Expr.joins]
        omega
      · rintro _ _ _ ⟨⟩
  | join keys left right stats ihl ihr =>
      obtain ⟨outer, inner, first, second, -, rfl⟩ := insert_join_eq_ok h
      have apart : outer.id ≠ inner.id := by
        rw [id_of_insert first, id_of_insert second, length_of_insert first]
        exact left.rootFrom_ne right memo.length
      rw [Goal.memo, Memo.exprCount_explore, ihr second, ihl first]
      · simp only [GroupExpr.withMirror, List.length_cons, List.length_nil, Expr.size, Expr.joins]
        omega
      · rintro _ _ _ ⟨⟩
        exact apart
  | aggregate grouping calls input stats ih =>
      obtain ⟨below, inserted, -, rfl⟩ := insert_aggregate_eq_ok h
      rw [Goal.memo, Memo.exprCount_explore, ih inserted]
      · simp only [GroupExpr.withMirror, List.length_singleton, Expr.size, Expr.joins]
        omega
      · rintro _ _ _ ⟨⟩

/-! ## Where the columns come from -/

namespace GroupExpr.Gives

variable {scope wider : GroupId → Option (List ColumnId)}

theorem mono (gives : expr.Gives scope columns)
    (grows : ∀ id columns, scope id = some columns → wider id = some columns) :
    expr.Gives wider columns := by
  cases gives with
  | get known => exact .get known
  | select below compared => exact .select (grows _ _ below) compared
  | join first second lefts rights => exact .join (grows _ _ first) (grows _ _ second) lefts rights
  | aggregate below grouped called => exact .aggregate (grows _ _ below) grouped called

/-- Exchanging the sides of a join leaves each key column with its side. -/
theorem equivalent {rule : Rule} {found : GroupExpr} (gives : expr.Gives scope columns)
    (found_by : found ∈ rule.equivalents expr) : ∃ others, found.Gives scope others ∧ others.Perm columns := by
  obtain ⟨-, keys, outer, inner, rfl, rfl⟩ := eq_of_mem_equivalents found_by
  cases gives with
  | @join _ _ _ left right first second lefts rights =>
      refine ⟨right ++ left, .join second first ?_ ?_, List.perm_append_comm⟩
      · rw [List.map_map]
        exact rights
      · rw [List.map_map]
        exact lefts

end GroupExpr.Gives

namespace Memo

theorem columns?_id (goal : Goal) : goal.memo.columns? goal.id = some goal.root.columns := by
  rw [columns?, Goal.group?_memo_id, Option.map_some]

theorem columns?_suffix (suffix : memo <:+ larger) (known : memo.columns? id = some columns) :
    larger.columns? id = some columns := by
  obtain ⟨group, at_group, rfl⟩ := Option.map_eq_some_iff.mp known
  rw [columns?, group?_suffix suffix (lt_length_of_group? at_group), at_group, Option.map_some]

/-- Exploring does not change the columns of groups. -/
theorem columns?_explore (rules : List Rule) (memo : Memo) :
    columns? (memo.map (Group.explore rules)) = memo.columns? := by
  funext id
  have same : Group.columns ∘ Group.explore rules = Group.columns := by
    funext group
    exact group.columns_explore rules
  rw [columns?, group?_map, Option.map_map, same, columns?]

theorem scoped_nil : Scoped [] := nofun

/-- A group may be added whose one expression uses columns of earlier groups. -/
theorem Scoped.push (scopes : earlier.Scoped) (only : group.exprs = [expr])
    (gives : expr.Gives earlier.columns? group.columns) : Scoped (group :: earlier) := by
  have grows : ∀ id columns, earlier.columns? id = some columns → columns? (group :: earlier) id = some columns :=
    fun _ _ => columns?_suffix (List.suffix_cons group earlier)
  intro id found known expr' own
  rw [group?] at known
  split at known
  · obtain rfl := Option.some.inj known
    rw [only, List.mem_singleton] at own
    rw [own]
    exact ⟨_, gives.mono grows, .refl _⟩
  · obtain ⟨columns, gives, perm⟩ := scopes id found known expr' own
    exact ⟨columns, gives.mono grows, perm⟩

/-- What the rules find is scoped as what they find it for. -/
theorem Scoped.explore (scopes : memo.Scoped) : Scoped (memo.map (Group.explore rules)) := by
  intro id explored known expr own
  rw [group?_map] at known
  obtain ⟨group, at_group, rfl⟩ := Option.map_eq_some_iff.mp known
  rw [columns?_explore, Group.columns_explore]
  obtain original | ⟨original, own, rule, -, found_by⟩ := Group.mem_explore.mp own
  · exact scopes id group at_group expr original
  · obtain ⟨columns, gives, perm⟩ := scopes id group at_group original own
    obtain ⟨others, gives, perm'⟩ := gives.equivalent found_by
    exact ⟨others, gives, perm'.trans perm⟩

end Memo

/-- The memo of an expression that was accepted is scoped. -/
theorem scoped_of_insert (scopes : memo.Scoped) (h : insert catalog node memo = .ok goal) : goal.memo.Scoped := by
  induction node generalizing memo goal with
  | get name columns stats =>
      obtain ⟨table, -, known, rfl⟩ := insert_get_eq_ok h
      exact scopes.push rfl (.get known)
  | select conditions input stats ih =>
      obtain ⟨below, inserted, compared, rfl⟩ := insert_select_eq_ok h
      exact (ih scopes inserted).push rfl (.select (Memo.columns?_id below) compared)
  | join keys left right stats ihl ihr =>
      obtain ⟨outer, inner, first, second, ⟨lefts, rights⟩, rfl⟩ := insert_join_eq_ok h
      have outer_known := Memo.columns?_suffix (suffix_of_insert second) (Memo.columns?_id outer)
      exact (ihr (ihl scopes first) second).push rfl (.join outer_known (Memo.columns?_id inner) lefts rights)
  | aggregate grouping calls input stats ih =>
      obtain ⟨below, inserted, ⟨grouped, called⟩, rfl⟩ := insert_aggregate_eq_ok h
      exact (ih scopes inserted).push rfl (.aggregate (Memo.columns?_id below) grouped called)

/-! ## The memo of a query -/

/-- Exploring every group closes the memo of a query. -/
theorem Goal.closes {query : Query} (inserted : insert catalog query.expr [] = .ok goal) :
    Memo.Closes (goal.memo.map (Group.explore Rule.all)) catalog query.expr := by
  constructor
  · rw [List.length_map, length_of_insert inserted]
    exact Nat.zero_add _
  · exact laid_explore (laid_of_insert inserted)
  · rw [exprCount_of_insert inserted]
    exact Nat.zero_add _
  · intro id explored known expr own rule applied found found_by
    rw [Memo.group?_map] at known
    obtain ⟨group, -, rfl⟩ := Option.map_eq_some_iff.mp known
    exact Group.add_explore applied own found_by
  · exact (scoped_of_insert Memo.scoped_nil inserted).explore

/-- A plan comes with the numbers of the groups and expressions among which it was searched. -/
theorem Optimizer.counts_of_choose {optimizer : Optimizer} {query : Query} {plan : ChosenPlan}
    (accepted : Goal.ofQuery query = .ok goal) (h : optimizer.choose goal = .ok plan) :
    plan.groups = (optimizer.explored goal).length ∧ plan.groupExprs = (optimizer.explored goal).exprCount := by
  rw [choose_eq accepted] at h
  obtain ⟨⟨winner, later⟩, -, h⟩ := bind_eq_ok.mp h
  cases winner with
  | none => exact absurd h throw_ne_ok
  | some winner =>
      obtain ⟨_, -, h⟩ := bind_eq_ok.mp h
      obtain rfl := pure_eq_ok.mp h
      exact ⟨rfl, rfl⟩

/-- Exploring the memo of a query that was accepted comes to an end, however many rounds it may take beyond some
number. Then the memo is closed, and a plan that is chosen comes with the numbers of its groups and expressions. -/
theorem Goal.explore_closes {query : Query} (accepted : Goal.ofQuery query = .ok goal) :
    ∃ catalog memo, Catalog.ofTables query.tables = .ok catalog ∧ goal.explore Rule.all = .ok memo ∧
      (∃ enough, ∀ rounds, enough ≤ rounds →
        ∃ begun, Search.explore Rule.all rounds goal.id ⟨goal.memo, []⟩ = .ok ⟨memo, begun⟩) ∧
      memo.Closes catalog query.expr ∧
      ∀ optimizer : Optimizer, optimizer.rules = Rule.all → ∀ plan, optimizer.optimize query = .ok plan →
        plan.groups = query.expr.size ∧ plan.groupExprs = query.expr.size + query.expr.joins := by
  obtain ⟨catalog, tables, inserted⟩ := ofQuery_eq_ok accepted
  have closes := closes inserted
  refine ⟨catalog, goal.memo.map (Group.explore Rule.all), tables, explore_eq accepted,
    ⟨2 * goal.memo.length + 2, fun rounds => explore_root Rule.all accepted⟩, closes, ?_⟩
  intro optimizer rules_eq plan chosen
  obtain ⟨goal', same, chosen⟩ := bind_eq_ok.mp chosen
  obtain rfl := Except.ok.inj (accepted.symm.trans (mapError_eq_ok.mp same))
  obtain ⟨groups, exprs⟩ := Optimizer.counts_of_choose accepted chosen
  rw [Optimizer.explored, rules_eq] at groups exprs
  exact ⟨groups.trans closes.groups, exprs.trans closes.exprs⟩

/-- Two tables, their join and the aggregate are four groups, and the join has an expression for either order of its
tables. -/
theorem Goal.explore_closes_countCrossed : ∃ goal catalog memo, Goal.ofQuery countCrossed = .ok goal ∧
    Catalog.ofTables countCrossed.tables = .ok catalog ∧ goal.explore Rule.all = .ok memo ∧
      memo.Closes catalog countCrossed.expr ∧ memo.length = 4 ∧ memo.exprCount = 5 := by
  obtain ⟨goal, accepted⟩ : ∃ goal, Goal.ofQuery countCrossed = .ok goal := exists_eq_ok (by decide +kernel)
  obtain ⟨catalog, memo, tables, explored, -, closes, -⟩ := explore_closes accepted
  exact ⟨goal, catalog, memo, accepted, tables, explored, closes, closes.groups, closes.exprs⟩

end Warehouse.Search
