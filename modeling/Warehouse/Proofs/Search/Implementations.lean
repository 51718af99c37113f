import Warehouse.Proofs.Search.Alternatives
import Warehouse.Proofs.Search.Memos
import Warehouse.Proofs.Search.Remembering
import Warehouse.Proofs.Search.Spaces

/-! # What plans compute

A plan for a query has, apart from the nodes that move or sort rows, one node for every node of the query,
which does what that node asks for. A selection from a table may be one node with its table. -/

namespace Warehouse

open Plan Cost

namespace Plan

/-- Whether the operator gives the rows of its input, in another place or order. -/
def Operator.arranges : Operator → Bool
  | .motion _ => true
  | .sort _ => true
  | _ => false

namespace Tree

mutual

/-- The plan without the nodes that give the rows of their input. -/
def strip : Tree → Tree
  | node op stats cost children =>
      match op.arranges, stripAll children with
      | true, [below] => below
      | _, below => node op stats cost below

/-- Several plans without the nodes that give the rows of their input. -/
def stripAll : List Tree → List Tree
  | [] => []
  | tree :: rest => strip tree :: stripAll rest

end

theorem stripAll_eq (trees : List Tree) : stripAll trees = trees.map strip := by
  induction trees with
  | nil => rfl
  | cons tree rest ih => rw [stripAll, ih, List.map_cons]

variable {op : Operator} {stats : NodeStats} {cost : Option Amount}

theorem strip_of_arranges (arranges : op.arranges = true) (below : Tree) :
    (node op stats cost [below]).strip = below.strip := by
  rw [strip, arranges, stripAll, stripAll]

theorem strip_of_not_arranges (computes : op.arranges = false) (children : List Tree) :
    (node op stats cost children).strip = node op stats cost (children.map strip) := by
  rw [strip, computes, stripAll_eq]

end Tree

end Plan

namespace Search

open Query

/-- A plan computes the rows of an expression, node by node. -/
inductive Implements (catalog : Catalog) : Expr → Tree → Prop
  | scan {name : String} {columns : Option (List ColumnId)} {stats : NodeStats} {table : Table}
      {scanId : Option Nat} {cost : Option Amount} (known : catalog.table? name = some table)
      (dynamic : scanId.isSome = table.partitioned) :
      Implements catalog (.get name columns stats) (.node (.scan table scanId (plainAccess table)) stats cost [])
  | filter {conditions : List Condition} {input : Expr} {stats : NodeStats} {cost : Option Amount} {below : Tree}
      (rows : Implements catalog input below) :
      Implements catalog (.select conditions input stats)
        (.node (.filter (conditions.map Condition.column)) stats cost [below])
  | indexed {conditions : List Condition} {name : String} {columns : Option (List ColumnId)}
      {stats stats' : NodeStats} {table : Table} {scanId : Option Nat} {access : Access} {cost : Option Amount}
      (known : catalog.table? name = some table) (dynamic : scanId.isSome = table.partitioned)
      (answers : Answers ⟨conditions, table, columns.getD table.columns⟩ access) :
      Implements catalog (.select conditions (.get name columns stats') stats)
        (.node (.scan table scanId access) stats cost [])
  | join {keys : List JoinKey} {left right : Expr} {stats : NodeStats} {op : Operator} {cost : Option Amount}
      {outer inner : Tree} (joins : Joins keys op) (outerRows : Implements catalog left outer)
      (innerRows : Implements catalog right inner) :
      Implements catalog (.join keys left right stats) (.node op stats cost [outer, inner])
  | exchanged {keys : List JoinKey} {left right : Expr} {stats : NodeStats} {op : Operator} {cost : Option Amount}
      {outer inner : Tree} (joins : Joins (keys.map JoinKey.swap) op) (outerRows : Implements catalog right outer)
      (innerRows : Implements catalog left inner) :
      Implements catalog (.join keys left right stats) (.node op stats cost [outer, inner])
  | scalar {calls : List AggregateCall} {input : Expr} {stats : NodeStats} {cost : Option Amount} {below : Tree}
      (rows : Implements catalog input below) :
      Implements catalog (.aggregate [] calls input stats) (.node (scalarAgg calls) stats cost [below])
  | grouped {grouping : List ColumnId} {calls : List AggregateCall} {input : Expr} {stats : NodeStats}
      {kind : Grouping} {cost : Option Amount} {below : Tree} (groups : grouping ≠ [])
      (rows : Implements catalog input below) :
      Implements catalog (.aggregate grouping calls input stats)
        (.node (.aggregate kind false grouping .global false) stats cost [below])

variable {optimizer : Optimizer} {catalog : Catalog} {memo earlier : Memo} {goal : Goal} {group : Group}
  {space : Space} {required : Requirement} {proposal : Proposal} {id : GroupId}

/-- Alternatives compute something. -/
theorem Offered.arranges {expr : GroupExpr} {alternative : Alternative}
    (offered : Offered memo id expr alternative) : alternative.op.arranges = false := by
  cases offered with
  | copied joins => cases joins <;> rfl
  | _ => rfl

namespace Optimizer

/-- What is put on top of an alternative does not compute anything. -/
theorem PlansForLast.strip (planned : optimizer.PlansForLast earlier group space required proposal) :
    ∃ expr ∈ group.exprs, ∃ alternative, Offered earlier earlier.length expr alternative ∧
      ∃ distribution inputs cost,
        List.Forall₂ (fun request input => space request.group (request.demand.under distribution) input)
          alternative.inputs inputs ∧
        proposal.tree.strip =
          .node alternative.op group.stats (some cost) (inputs.map fun input => input.tree.strip) := by
  induction planned with
  | @unsorted distribution alternative proposal member planned =>
      obtain ⟨expr, own, offered⟩ := exists_offered_of_mem member
      obtain @⟨inputs, bare, proposal, planned, assembled, enforced⟩ := planned
      obtain ⟨cost, -, assembled⟩ := bind_eq_ok.mp assembled
      obtain ⟨delivered, -, assembled⟩ := bind_eq_ok.mp assembled
      have bare_eq := pure_eq_ok.mp assembled
      have stripped : bare.tree.strip =
          .node alternative.op group.stats (some cost) (inputs.map fun input => input.tree.strip) := by
        rw [← bare_eq, Proposal.tree, Tree.strip_of_not_arranges offered.arranges, List.map_map]
        rfl
      refine ⟨expr, own, alternative, offered, distribution, inputs, cost, planned, ?_⟩
      rw [enforce] at enforced
      split at enforced
      · rwa [← pure_eq_ok.mp enforced]
      · obtain ⟨cost', -, enforced⟩ := bind_eq_ok.mp enforced
        rw [← pure_eq_ok.mp enforced, ← stripped]
        exact Tree.strip_of_arranges rfl _
  | @sorted distribution columns proposal top sorts below sorted ih =>
      obtain ⟨expr, own, alternative, offered, distribution, inputs, cost, planned, stripped⟩ := ih
      obtain ⟨cost', -, sorted⟩ := bind_eq_ok.mp sorted
      refine ⟨expr, own, alternative, offered, distribution, inputs, cost, planned, ?_⟩
      rw [← stripped, ← pure_eq_ok.mp sorted]
      exact Tree.strip_of_arranges rfl _

theorem plans_explored : optimizer.Plans (optimizer.explored goal) goal.id required proposal ↔
    optimizer.PlansForLast (goal.earlier.map (Group.explore optimizer.rules)) (goal.root.explore optimizer.rules)
      (optimizer.Plans (goal.earlier.map (Group.explore optimizer.rules))) required proposal := by
  rw [explored, Goal.memo, List.map_cons, Goal.id, ← List.length_map (Group.explore optimizer.rules)]
  exact plans_last

end Optimizer

/-- Only joins have other expressions for their rows. -/
theorem eq_of_mem_explore {expr known : GroupExpr} {rules : List Rule} (only : group.exprs = [known])
    (member : expr ∈ (group.explore rules).exprs) : expr = known ∨ ∃ keys outer inner,
      known = .join keys outer inner ∧ expr = .join (keys.map JoinKey.swap) inner outer := by
  obtain own | ⟨other, own, rule, -, found⟩ := Group.mem_explore.mp member
  · exact .inl (List.mem_singleton.mp (only ▸ own))
  · obtain rfl := List.mem_singleton.mp (only ▸ own)
    obtain ⟨-, keys, outer, inner, rfl, rfl⟩ := eq_of_mem_equivalents found
    exact .inr ⟨keys, outer, inner, rfl, rfl⟩

theorem get_mem_of_scanned? {exprs : List GroupExpr} {table : Table} {columns : List ColumnId}
    (h : TableSelection.scanned? exprs = some (table, columns)) : .get table columns ∈ exprs := by
  induction exprs with
  | nil => contradiction
  | cons expr rest ih =>
      cases expr with
      | get table' columns' =>
          obtain ⟨rfl, rfl⟩ := Prod.mk.inj (Option.some.inj h)
          exact List.mem_cons_self
      | _ => exact List.mem_cons_of_mem _ (ih h)

/-- An index is looked at for a selection from a table only. -/
theorem exists_get_of_ofExpr? {conditions : List Condition} {input : Expr} {rules : List Rule}
    {selection : TableSelection} (inserted : insert catalog input memo = .ok goal)
    (selects : TableSelection.ofExpr? (goal.memo.map (Group.explore rules)) (.select conditions goal.id) =
      some selection) :
    ∃ name columns stats, input = .get name columns stats ∧ catalog.table? name = some selection.table ∧
      selection = ⟨conditions, selection.table, columns.getD selection.table.columns⟩ := by
  obtain ⟨found, found_eq, selects⟩ := Option.bind_eq_some_iff.mp selects
  rw [Memo.group?_map, Goal.group?_memo_id, Option.map_some] at found_eq
  obtain rfl := Option.some.inj found_eq
  obtain ⟨⟨table, columns⟩, scanned, selects⟩ := Option.bind_eq_some_iff.mp selects
  obtain rfl := Option.some.inj selects
  have member := get_mem_of_scanned? scanned
  cases input with
  | get name columns' stats =>
      obtain ⟨table', known, -, rfl⟩ := insert_get_eq_ok inserted
      obtain same | ⟨keys, outer, inner, impossible, -⟩ := eq_of_mem_explore rfl member
      · obtain ⟨rfl, rfl⟩ := GroupExpr.get.inj same
        exact ⟨name, columns', stats, rfl, known, rfl⟩
      · contradiction
  | select conditions' input stats =>
      obtain ⟨below, -, -, rfl⟩ := insert_select_eq_ok inserted
      obtain same | ⟨_, _, _, -, same⟩ := eq_of_mem_explore rfl member <;> contradiction
  | join keys left right stats =>
      obtain ⟨outer, inner, -, -, -, rfl⟩ := insert_join_eq_ok inserted
      obtain same | ⟨_, _, _, -, same⟩ := eq_of_mem_explore rfl member <;> contradiction
  | aggregate grouping calls input stats =>
      obtain ⟨below, -, -, rfl⟩ := insert_aggregate_eq_ok inserted
      obtain same | ⟨_, _, _, -, same⟩ := eq_of_mem_explore rfl member <;> contradiction

theorem isSome_scanId (table : Table) (id : GroupId) :
    (if table.partitioned then some id else none).isSome = table.partitioned := by
  cases table.partitioned <;> rfl

/-- A join is computed over plans for its two sides. -/
theorem Offered.join_inputs {keys : List JoinKey} {outer inner : GroupId} {alternative : Alternative}
    {distribution : Distribution} {inputs : List Proposal}
    (offered : Offered memo id (.join keys outer inner) alternative)
    (planned : List.Forall₂ (fun request input => space request.group (request.demand.under distribution) input)
      alternative.inputs inputs) :
    Joins keys alternative.op ∧ ∃ required required' first second, inputs = [first, second] ∧
      space outer required first ∧ space inner required' second := by
  cases offered with
  | copied joins =>
      obtain _ | ⟨first, _ | ⟨second, _ | _⟩⟩ := planned
      exact ⟨joins, _, _, _, _, rfl, first, second⟩
  | together keyed =>
      obtain _ | ⟨first, _ | ⟨second, _ | _⟩⟩ := planned
      exact ⟨.hash keyed, _, _, _, _, rfl, first, second⟩

/-- At the root of a plan stands an alternative for the expression of the last group, or for its mirror
image, and nothing else that computes. -/
theorem exists_offered_of_plans {known : GroupExpr} (only : goal.root.exprs = [known])
    (planned : optimizer.Plans (optimizer.explored goal) goal.id required proposal) :
    ∃ alternative distribution inputs cost,
      (Offered (goal.earlier.map (Group.explore optimizer.rules)) goal.id known alternative ∨
        ∃ keys outer inner, known = .join keys outer inner ∧
          Offered (goal.earlier.map (Group.explore optimizer.rules)) goal.id
            (.join (keys.map JoinKey.swap) inner outer) alternative) ∧
      List.Forall₂ (fun request input => optimizer.Plans (goal.earlier.map (Group.explore optimizer.rules))
        request.group (request.demand.under distribution) input) alternative.inputs inputs ∧
      proposal.tree.strip =
        .node alternative.op goal.root.stats (some cost) (inputs.map fun input => input.tree.strip) := by
  obtain ⟨expr, own, alternative, offered, distribution, inputs, cost, planned, stripped⟩ :=
    (Optimizer.plans_explored.mp planned).strip
  rw [List.length_map] at offered
  rw [Group.explore_stats] at stripped
  refine ⟨alternative, distribution, inputs, cost, ?_, planned, stripped⟩
  obtain rfl | ⟨keys, outer, inner, rfl, rfl⟩ := eq_of_mem_explore only own
  · exact .inl offered
  · exact .inr ⟨keys, outer, inner, rfl, offered⟩

/-- Every plan for the last group computes the expression that was inserted. -/
theorem implements_of_plans {expr : Expr} (inserted : insert catalog expr memo = .ok goal)
    (planned : optimizer.Plans (optimizer.explored goal) goal.id required proposal) :
    Implements catalog expr proposal.tree.strip := by
  induction expr generalizing memo goal required proposal with
  | get name columns stats =>
      obtain ⟨table, found, -, rfl⟩ := insert_get_eq_ok inserted
      obtain ⟨alternative, _, inputs, cost, offered, planned, stripped⟩ := exists_offered_of_plans rfl planned
      rw [stripped]
      obtain offered | ⟨_, _, _, impossible, -⟩ := offered
      · cases offered
        obtain rfl := List.forall₂_nil_left_iff.mp planned
        exact .scan found (isSome_scanId table _)
      · contradiction
  | select conditions input stats ih =>
      obtain ⟨below, built, -, rfl⟩ := insert_select_eq_ok inserted
      obtain ⟨alternative, _, inputs, cost, offered, planned, stripped⟩ := exists_offered_of_plans rfl planned
      rw [stripped]
      obtain offered | ⟨_, _, _, impossible, -⟩ := offered
      · cases offered with
        | indexed selects answers =>
            obtain ⟨name, columns, stats', rfl, found, selection_eq⟩ := exists_get_of_ofExpr? built selects
            obtain rfl := List.forall₂_nil_left_iff.mp planned
            exact .indexed found (isSome_scanId _ _) (selection_eq ▸ answers)
        | filter =>
            obtain _ | ⟨planned, _ | _⟩ := planned
            exact .filter (ih built planned)
      · contradiction
  | join keys left right stats ihl ihr =>
      obtain ⟨outer, inner, first, second, -, rfl⟩ := insert_join_eq_ok inserted
      obtain ⟨alternative, _, inputs, cost, offered, planned, stripped⟩ := exists_offered_of_plans rfl planned
      rw [stripped]
      -- the groups of the left side lie below those of the right side
      have left_rows : ∀ {required proposal}, optimizer.Plans (inner.memo.map (Group.explore optimizer.rules))
          outer.id required proposal → Implements catalog left proposal.tree.strip := fun planned =>
        ihl first ((Optimizer.plans_suffix ((suffix_of_insert second).map _)
          (by simpa using outer.id_lt_length)).mp planned)
      have right_rows : ∀ {required proposal}, optimizer.Plans (inner.memo.map (Group.explore optimizer.rules))
          inner.id required proposal → Implements catalog right proposal.tree.strip := ihr second
      obtain offered | ⟨_, _, _, same, offered⟩ := offered
      · obtain ⟨joins, _, _, _, _, rfl, planned, planned'⟩ := offered.join_inputs planned
        exact .join joins (left_rows planned) (right_rows planned')
      · obtain ⟨rfl, rfl, rfl⟩ := GroupExpr.join.inj same
        obtain ⟨joins, _, _, _, _, rfl, planned, planned'⟩ := offered.join_inputs planned
        exact .exchanged joins (right_rows planned) (left_rows planned')
  | aggregate grouping calls input stats ih =>
      obtain ⟨below, built, -, rfl⟩ := insert_aggregate_eq_ok inserted
      obtain ⟨alternative, _, inputs, cost, offered, planned, stripped⟩ := exists_offered_of_plans rfl planned
      rw [stripped]
      obtain offered | ⟨_, _, _, impossible, -⟩ := offered
      · cases offered with
        | scalar =>
            obtain _ | ⟨planned, _ | _⟩ := planned
            exact .scalar (ih built planned)
        | grouped groups =>
            obtain _ | ⟨planned, _ | _⟩ := planned
            exact .grouped groups (ih built planned)
      · contradiction

/-- The plan that is chosen for a query computes what the query asks for. -/
theorem Optimizer.optimize_implements {query : Query} {plan : ChosenPlan} (h : optimizer.optimize query = .ok plan) :
    ∃ catalog tree, Catalog.ofTables query.tables = .ok catalog ∧ plan.tree = .ok tree ∧
      Implements catalog query.expr tree.strip := by
  obtain ⟨goal, proposal, goal_eq, best, is⟩ := optimize_eq_ok h
  obtain ⟨catalog, tables, inserted⟩ := Goal.ofQuery_eq_ok goal_eq
  exact ⟨catalog, proposal.tree, tables, is.tree, implements_of_plans inserted (plans_of_best best)⟩

/-- Orders, which lie by one column and have an index on the other. -/
def orders : Table :=
  ⟨"orders", .heap, .hashed [1], false, [1, 2], ⟨1000.0, 16.0, 10, 10, []⟩, [⟨"orders_2", .btree, [2], [], 0.0⟩]⟩

/-- How many orders there are with some value in the column that has an index. -/
def countOrders : Query :=
  ⟨[orders], .aggregate [] [⟨"count", none⟩]
    (.select [⟨2, .eq⟩] (.get "orders" none (.of 1000.0 16.0)) (.of 1.0 16.0)) (.of 1.0 8.0)⟩

/-- The plan reads the orders through their index, gathers them in one place and counts them there. The scan of the
index stands for the selection and for the table below it. -/
theorem Optimizer.optimize_implements_countOrders :
    ∃ plan, fourSegments.optimize countOrders = .ok plan ∧
      ∃ catalog tree, Catalog.ofTables countOrders.tables = .ok catalog ∧ plan.tree = .ok tree ∧
        Implements catalog countOrders.expr tree.strip := by
  obtain ⟨plan, chosen⟩ : ∃ plan, fourSegments.optimize countOrders = .ok plan :=
    exists_eq_ok (by decide +kernel)
  exact ⟨plan, chosen, optimize_implements chosen⟩

end Search

end Warehouse
