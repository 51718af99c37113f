import Warehouse.Proofs.Search.Implementations

/-! # The groups of a query

Every group of the memo of a query stands for one node of the query and reads earlier groups only, before the
memo is explored and afterwards: `Memo.Layered`. What an alternative for such a group reads is a table, one
earlier group, or two of them: `Alternative.Reads`. -/

namespace Warehouse.Search

open Plan Query

variable {catalog : Catalog} {memo earlier : Memo} {goal : Goal} {group below : Group} {id : GroupId}
  {rules : List Rule}

/-! ## Groups over earlier ones -/

/-- A group stands for one node of a query, whose inputs are earlier groups. A join may be there with its
sides exchanged as well. -/
inductive Group.Over (earlier : Memo) : Group → Prop
  | get {table : Table} {columns : List ColumnId} {stats : NodeStats} :
      Over earlier ⟨[.get table columns], stats, [table.name], columns⟩
  | select {conditions : List Condition} {input : GroupId} {below : Group} {stats : NodeStats}
      {columns : List ColumnId} (known : earlier.group? input = some below) :
      Over earlier ⟨[.select conditions input], stats, below.aliases, columns⟩
  | join {keys : List JoinKey} {outer inner : GroupId} {left right : Group} {exprs : List GroupExpr}
      {stats : NodeStats} {columns : List ColumnId} (filled : exprs ≠ [])
      (sides : ∀ expr ∈ exprs, expr = .join keys outer inner ∨ expr = .join (keys.map JoinKey.swap) inner outer)
      (first : earlier.group? outer = some left) (second : earlier.group? inner = some right) :
      Over earlier ⟨exprs, stats, left.aliases ++ right.aliases, columns⟩
  | aggregate {grouping : List ColumnId} {calls : List AggregateCall} {input : GroupId} {below : Group}
      {stats : NodeStats} {columns : List ColumnId} (known : earlier.group? input = some below) :
      Over earlier ⟨[.aggregate grouping calls input], stats, below.aliases, columns⟩

/-- Every group stands for one node of a query over the groups before it. -/
def Memo.Layered : Memo → Prop
  | [] => True
  | group :: earlier => group.Over earlier ∧ Layered earlier

theorem Memo.layered_nil : Memo.Layered [] := trivial

theorem Memo.Layered.of_suffix {larger : Memo} (layered : larger.Layered) (suffix : memo <:+ larger) :
    memo.Layered := by
  obtain ⟨later, rfl⟩ := suffix
  induction later with
  | nil => exact layered
  | cons group later ih => exact ih layered.2

/-- A group that is looked up stands over the groups before it. -/
theorem Memo.Layered.over_of_group? (layered : memo.Layered) (known : memo.group? id = some group) :
    ∃ earlier, earlier <:+ memo ∧ group.Over earlier := by
  induction memo with
  | nil => contradiction
  | cons last earlier ih =>
      rw [group?] at known
      split at known
      · obtain rfl := Option.some.inj known
        exact ⟨earlier, List.suffix_cons _ _, layered.1⟩
      · obtain ⟨before, suffix, stands⟩ := ih layered.2 known
        exact ⟨before, suffix.trans (List.suffix_cons _ _), stands⟩

/-- The memo of an expression is layered. -/
theorem layered_of_insert {expr : Expr} (layered : memo.Layered) (h : insert catalog expr memo = .ok goal) :
    goal.memo.Layered := by
  induction expr generalizing memo goal with
  | get name columns stats =>
      obtain ⟨table, -, -, rfl⟩ := insert_get_eq_ok h
      exact ⟨.get, layered⟩
  | select conditions input stats ih =>
      obtain ⟨below, inserted, -, rfl⟩ := insert_select_eq_ok h
      exact ⟨.select (Goal.group?_memo_id below), ih layered inserted⟩
  | join keys left right stats ihl ihr =>
      obtain ⟨outer, inner, first, second, -, rfl⟩ := insert_join_eq_ok h
      have outer_known : inner.memo.group? outer.id = some outer.root := by
        rw [Memo.group?_suffix (suffix_of_insert second) outer.id_lt_length]
        exact Goal.group?_memo_id outer
      have sides : ∀ expr ∈ [GroupExpr.join keys outer.id inner.id], expr = .join keys outer.id inner.id ∨
          expr = .join (keys.map JoinKey.swap) inner.id outer.id := by
        intro expr member
        exact .inl (List.mem_singleton.mp member)
      exact ⟨.join (List.cons_ne_nil _ _) sides outer_known (Goal.group?_memo_id inner),
        ihr (ihl layered first) second⟩
  | aggregate grouping calls input stats ih =>
      obtain ⟨below, inserted, -, rfl⟩ := insert_aggregate_eq_ok h
      exact ⟨.aggregate (Goal.group?_memo_id below), ih layered inserted⟩

/-! ## Exploring the groups -/

namespace Group

theorem foldl_add_eq (exprs : List GroupExpr) (group : Group) :
    exprs.foldl add group = { group with exprs := (exprs.foldl add group).exprs } := by
  induction exprs generalizing group with
  | nil => rfl
  | cons expr rest ih =>
      rw [List.foldl_cons, ih (group.add expr), add]
      split
      · rfl
      · rfl

/-- Exploring changes the expressions only. -/
theorem explore_eq (rules : List Rule) (group : Group) :
    group.explore rules = { group with exprs := (group.explore rules).exprs } :=
  foldl_add_eq _ group

/-- Other expressions are found for joins only. -/
theorem explore_eq_self {expr : GroupExpr} (only : group.exprs = [expr])
    (alone : ∀ rule : Rule, rule.equivalents expr = []) : group.explore rules = group := by
  have none_found : (group.exprs.flatMap fun expr => rules.flatMap fun rule => rule.equivalents expr) = [] := by
    simp [only, alone]
  rw [explore, none_found, List.foldl_nil]

/-- The rules exchange the sides of a join, and exchange them back. -/
theorem mirrored_of_mem_explore {keys : List JoinKey} {outer inner : GroupId}
    (sides : ∀ expr ∈ group.exprs, expr = .join keys outer inner ∨ expr = .join (keys.map JoinKey.swap) inner outer) :
    ∀ expr ∈ (group.explore rules).exprs,
      expr = .join keys outer inner ∨ expr = .join (keys.map JoinKey.swap) inner outer := by
  intro expr member
  obtain own | ⟨known, own, rule, -, found⟩ := mem_explore.mp member
  · exact sides expr own
  · obtain ⟨-, keys', outer', inner', rfl, rfl⟩ := eq_of_mem_equivalents found
    obtain same | same := sides _ own
    · obtain ⟨rfl, rfl, rfl⟩ := GroupExpr.join.inj same
      exact .inr rfl
    · obtain ⟨rfl, rfl, rfl⟩ := GroupExpr.join.inj same
      rw [map_swap_swap]
      exact .inl rfl

/-- Exploring a group and the groups before it leaves it over these. -/
theorem Over.explore (stands : group.Over earlier) :
    (group.explore rules).Over (earlier.map (Group.explore rules)) := by
  have explored : ∀ {id : GroupId} {below : Group}, earlier.group? id = some below →
      Memo.group? (earlier.map (Group.explore rules)) id = some (below.explore rules) := by
    intro id below known
    rw [Memo.group?_map, known, Option.map_some]
  have aliases : ∀ below : Group, below.aliases = (below.explore rules).aliases := by
    intro below
    rw [explore_eq]
  cases stands with
  | get =>
      rw [explore_eq_self rfl (by rintro (_ | _) <;> rfl)]
      exact .get
  | @select _ _ below _ _ known =>
      rw [explore_eq_self rfl (by rintro (_ | _) <;> rfl), aliases below]
      exact .select (explored known)
  | @aggregate _ _ _ below _ _ known =>
      rw [explore_eq_self rfl (by rintro (_ | _) <;> rfl), aliases below]
      exact .aggregate (explored known)
  | @join keys outer inner left right exprs stats columns filled sides first second =>
      rw [explore_eq, aliases left, aliases right]
      obtain ⟨known, own⟩ := List.exists_mem_of_ne_nil _ filled
      exact .join (List.ne_nil_of_mem (mem_explore.mpr (.inl own))) (mirrored_of_mem_explore sides)
        (explored first) (explored second)

end Group

theorem Memo.Layered.explore (layered : memo.Layered) : Layered (memo.map (Group.explore rules)) := by
  induction memo with
  | nil => trivial
  | cons group earlier ih => exact ⟨layered.1.explore, ih layered.2⟩

/-- The memo in which plans for a query are searched is layered. -/
theorem layered_of_ofQuery {query : Query} (h : Goal.ofQuery query = .ok goal) :
    Memo.Layered (goal.memo.map (Group.explore rules)) := by
  obtain ⟨catalog, -, inserted⟩ := Goal.ofQuery_eq_ok h
  exact (layered_of_insert Memo.layered_nil inserted).explore

/-! ## What alternatives read -/

/-- What an alternative for a group reads: a table, another group, or two of them, whose tables are those of the
group. -/
inductive Alternative.Reads (earlier : Memo) (group : Group) (alternative : Alternative) : Prop
  | table {table : Table} {scanId : Option Nat} {access : Access} (op : alternative.op = .scan table scanId access)
      (inputs : alternative.inputs = []) (aliases : group.aliases = [table.name])
  | one {request : Request} {below : Group} (op : alternative.op.table? = none)
      (inputs : alternative.inputs = [request]) (known : earlier.group? request.group = some below)
      (aliases : group.aliases = below.aliases)
  | two {first second : Request} {left right : Group} (op : alternative.op.table? = none)
      (inputs : alternative.inputs = [first, second]) (known : earlier.group? first.group = some left)
      (known' : earlier.group? second.group = some right) (aliases : (left.aliases ++ right.aliases).Perm group.aliases)

/-- A group whose rows can be had from an index reads one table. -/
theorem Memo.Layered.selection_aliases {conditions : List Condition} {input : GroupId} {selection : TableSelection}
    (layered : memo.Layered) (known : memo.group? input = some below)
    (selects : TableSelection.ofExpr? memo (.select conditions input) = some selection) :
    below.exprs = [.get selection.table selection.columns] ∧ below.aliases = [selection.table.name] := by
  obtain ⟨found, found_eq, selects⟩ := Option.bind_eq_some_iff.mp selects
  obtain rfl := Option.some.inj (known.symm.trans found_eq)
  obtain ⟨⟨table, columns⟩, scanned, selects⟩ := Option.bind_eq_some_iff.mp selects
  obtain rfl := Option.some.inj selects
  have member := get_mem_of_scanned? scanned
  obtain ⟨before, -, stands⟩ := layered.over_of_group? known
  cases stands with
  | get =>
      obtain ⟨rfl, rfl⟩ := GroupExpr.get.inj (List.mem_singleton.mp member)
      exact ⟨rfl, rfl⟩
  | select => simp at member
  | aggregate => simp at member
  | join filled sides => obtain same | same := sides _ member <;> contradiction

theorem Group.Over.reads {expr : GroupExpr} {alternative : Alternative} (stands : group.Over earlier)
    (layered : earlier.Layered) (own : expr ∈ group.exprs) (offered : Offered earlier id expr alternative) :
    alternative.Reads earlier group := by
  cases stands with
  | get =>
      obtain rfl := List.mem_singleton.mp own
      cases offered
      exact .table rfl rfl rfl
  | select known =>
      obtain rfl := List.mem_singleton.mp own
      cases offered with
      | indexed selects answers => exact .table rfl rfl (layered.selection_aliases known selects).2
      | filter => exact .one rfl rfl known rfl
  | aggregate known =>
      obtain rfl := List.mem_singleton.mp own
      cases offered with
      | scalar => exact .one rfl rfl known rfl
      | grouped groups => exact .one rfl rfl known rfl
  | join filled sides first second =>
      obtain rfl | rfl := sides expr own
      · cases offered with
        | copied joins => exact .two (by cases joins <;> rfl) rfl first second (.refl _)
        | together keyed => exact .two rfl rfl first second (.refl _)
      · cases offered with
        | copied joins => exact .two (by cases joins <;> rfl) rfl second first List.perm_append_comm
        | together keyed => exact .two rfl rfl second first List.perm_append_comm

/-- What an alternative for the last group of a layered memo reads. -/
theorem Memo.Layered.reads {alternative : Alternative} (layered : Memo.Layered (group :: earlier))
    (member : alternative ∈ group.alternatives rules earlier earlier.length) : alternative.Reads earlier group := by
  obtain ⟨expr, own, offered⟩ := exists_offered_of_mem member
  exact layered.1.reads layered.2 own offered

end Warehouse.Search
