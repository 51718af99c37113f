import Warehouse.Proofs.Search.Alternatives
import Warehouse.Proofs.Search.Memos
import Warehouse.Search.Exploration

/-! # Exploring the memo of a query

The groups of an expression follow each other, those of its inputs first: `Expr.Laid` says which group stands
for which node, and what it holds. Exploring the last of them explores all of them and comes to an end:
`explore_laid`. What the groups hold then does not depend on the order in which they were explored, so that
exploring a memo is exploring its groups one by one. -/

namespace Warehouse

open Plan Query

namespace Search

/-- A group of a memo has these expressions and estimates. -/
def Memo.Has (memo : Memo) (id : GroupId) (exprs : List GroupExpr) (stats : NodeStats) : Prop :=
  ∃ group, memo.group? id = some group ∧ group.exprs = exprs ∧ group.stats = stats

end Search

namespace Query.Expr

open Search

/-- The number of the group that stands for an expression whose groups begin at `base`. -/
def rootFrom (base : Nat) : Expr → Nat
  | get .. => base
  | select _ input _ => base + input.size
  | join _ left right _ => base + left.size + right.size
  | aggregate _ _ input _ => base + input.size

/-- The groups from `base` on stand for the nodes of an expression, one for each, inputs first. What a group
holds is told from the expression that its node stands for. -/
def Laid (catalog : Catalog) (held : GroupExpr → List GroupExpr) (memo : Memo) : Expr → (base : Nat) → Prop
  | get name columns stats, base => ∃ table, catalog.table? name = some table ∧
      memo.Has base (held (.get table (columns.getD table.columns))) stats
  | select conditions input stats, base => input.Laid catalog held memo base ∧
      memo.Has (base + input.size) (held (.select conditions (input.rootFrom base))) stats
  | join keys left right stats, base =>
      left.Laid catalog held memo base ∧ right.Laid catalog held memo (base + left.size) ∧
        memo.Has (base + left.size + right.size)
          (held (.join keys (left.rootFrom base) (right.rootFrom (base + left.size)))) stats
  | aggregate grouping calls input stats, base => input.Laid catalog held memo base ∧
      memo.Has (base + input.size) (held (.aggregate grouping calls (input.rootFrom base))) stats

variable {catalog : Catalog} {held : GroupExpr → List GroupExpr} {memo larger : Memo} {base : Nat}

theorem rootFrom_succ (expr : Expr) (base : Nat) : expr.rootFrom base + 1 = base + expr.size := by
  cases expr <;> simp only [rootFrom, size] <;> omega

theorem rootFrom_bounds (expr : Expr) (base : Nat) :
    base ≤ expr.rootFrom base ∧ expr.rootFrom base < base + expr.size := by
  have last := expr.rootFrom_succ base
  constructor
  · cases expr <;> simp only [rootFrom] <;> omega
  · omega

/-- Expressions whose groups follow each other have different roots. -/
theorem rootFrom_ne (first second : Expr) (base : Nat) : first.rootFrom base ≠ second.rootFrom (base + first.size) := by
  have before := (first.rootFrom_bounds base).2
  have after := (second.rootFrom_bounds (base + first.size)).1
  exact Nat.ne_of_lt (Nat.lt_of_lt_of_le before after)

/-- Groups that come later do not matter. -/
theorem Laid.suffix {expr : Expr} (laid : expr.Laid catalog held memo base) (suffix : memo <:+ larger) :
    expr.Laid catalog held larger base := by
  have has : ∀ {id : GroupId} {exprs : List GroupExpr} {stats : NodeStats}, memo.Has id exprs stats →
      larger.Has id exprs stats := by
    rintro id exprs stats ⟨group, known, same⟩
    exact ⟨group, (Memo.group?_suffix suffix (Memo.lt_length_of_group? known)).trans known, same⟩
  induction expr generalizing base with
  | get name columns stats =>
      obtain ⟨table, found, here⟩ := laid
      exact ⟨table, found, has here⟩
  | select conditions input stats ih => exact ⟨ih laid.1, has laid.2⟩
  | join keys left right stats ihl ihr => exact ⟨ihl laid.1, ihr laid.2.1, has laid.2.2⟩
  | aggregate grouping calls input stats ih => exact ⟨ih laid.1, has laid.2⟩

end Query.Expr

namespace Search

variable {catalog : Catalog} {memo : Memo} {goal : Goal} {stats : NodeStats} {id : GroupId} {group : Group}
  {expr : GroupExpr} {exprs : List GroupExpr} {node : Expr} {rules : List Rule} {base rounds : Nat}
  {chosen : GroupId → Bool} {f : Group → Group} {state : Exploration} {begun : List GroupId}

/-! ## The memo of a query -/

theorem Memo.has_root (goal : Goal) : goal.memo.Has goal.id goal.root.exprs goal.root.stats :=
  ⟨goal.root, Goal.group?_memo_id goal, rfl, rfl⟩

/-- Inserting an expression adds a group for every node. -/
theorem length_of_insert (h : insert catalog node memo = .ok goal) : goal.memo.length = memo.length + node.size := by
  induction node generalizing memo goal with
  | get name columns stats =>
      obtain ⟨table, -, -, rfl⟩ := insert_get_eq_ok h
      rfl
  | select conditions input stats ih =>
      obtain ⟨below, inserted, -, rfl⟩ := insert_select_eq_ok h
      exact congrArg Nat.succ (ih inserted)
  | join keys left right stats ihl ihr =>
      obtain ⟨outer, inner, first, second, -, rfl⟩ := insert_join_eq_ok h
      have both := ihr second
      rw [ihl first, Nat.add_assoc] at both
      exact congrArg Nat.succ both
  | aggregate grouping calls input stats ih =>
      obtain ⟨below, inserted, -, rfl⟩ := insert_aggregate_eq_ok h
      exact congrArg Nat.succ (ih inserted)

/-- The root of what was inserted has the last number. -/
theorem id_of_insert (h : insert catalog node memo = .ok goal) : goal.id = node.rootFrom memo.length := by
  have last : goal.id + 1 = goal.memo.length := rfl
  rw [length_of_insert h, ← node.rootFrom_succ] at last
  exact Nat.succ.inj last

/-- The groups of an expression that was inserted stand for its nodes. -/
theorem laid_of_insert (h : insert catalog node memo = .ok goal) :
    node.Laid catalog (fun expr => [expr]) goal.memo memo.length := by
  induction node generalizing memo goal with
  | get name columns stats =>
      obtain ⟨table, found, -, rfl⟩ := insert_get_eq_ok h
      exact ⟨table, found, Memo.has_root _⟩
  | select conditions input stats ih =>
      obtain ⟨below, inserted, -, rfl⟩ := insert_select_eq_ok h
      refine ⟨(ih inserted).suffix (List.suffix_cons _ _), ?_⟩
      rw [← id_of_insert inserted, ← length_of_insert inserted]
      exact Memo.has_root _
  | join keys left right stats ihl ihr =>
      obtain ⟨outer, inner, first, second, -, rfl⟩ := insert_join_eq_ok h
      have left_laid := (ihl first).suffix (suffix_of_insert second)
      have right_laid := ihr second
      rw [length_of_insert first] at right_laid
      refine ⟨left_laid.suffix (List.suffix_cons _ _), right_laid.suffix (List.suffix_cons _ _), ?_⟩
      rw [← id_of_insert first, ← length_of_insert first, ← id_of_insert second, ← length_of_insert second]
      exact Memo.has_root _
  | aggregate grouping calls input stats ih =>
      obtain ⟨below, inserted, -, rfl⟩ := insert_aggregate_eq_ok h
      refine ⟨(ih inserted).suffix (List.suffix_cons _ _), ?_⟩
      rw [← id_of_insert inserted, ← length_of_insert inserted]
      exact Memo.has_root _

/-! ## What a group holds -/

namespace Group

theorem foldl_add_known (known : ∀ expr ∈ exprs, expr ∈ group.exprs) : exprs.foldl add group = group := by
  induction exprs with
  | nil => rfl
  | cons expr rest ih =>
      obtain ⟨first, others⟩ := List.forall_mem_cons.mp known
      rw [List.foldl_cons, add, if_pos first]
      exact ih others

/-- Exploring a group with one expression finds at most one more. -/
theorem exprs_explore (rules : List Rule) (only : group.exprs = [expr]) : (group.explore rules).exprs = [expr] ∨
    ∃ rule ∈ rules, ∃ found ∈ rule.equivalents expr, (group.explore rules).exprs = [expr, found] := by
  have explored : group.explore rules = (rules.flatMap fun rule => rule.equivalents expr).foldl add group := by
    rw [explore, only, List.flatMap_singleton]
  rw [explored]
  cases found : rules.flatMap fun rule => rule.equivalents expr with
  | nil => exact .inl only
  | cons first rest =>
      -- all that is found is the same
      have member : ∀ other ∈ first :: rest, ∃ rule ∈ rules, other ∈ rule.equivalents expr := by
        intro other member
        exact List.mem_flatMap.mp (found ▸ member)
      have same : ∀ other ∈ first :: rest, other = first := by
        intro other other_member
        obtain ⟨_, -, other_found⟩ := member other other_member
        obtain ⟨_, -, first_found⟩ := member first List.mem_cons_self
        obtain ⟨-, _, _, _, rfl, rfl⟩ := eq_of_mem_equivalents other_found
        obtain ⟨-, _, _, _, expr_eq, rfl⟩ := eq_of_mem_equivalents first_found
        obtain ⟨rfl, rfl, rfl⟩ := GroupExpr.join.inj expr_eq
        rfl
      have held : first ∈ (group.add first).exprs := mem_add.mpr (.inr rfl)
      have rest_known : ∀ other ∈ rest, other ∈ (group.add first).exprs := fun other member =>
        same other (List.mem_cons_of_mem _ member) ▸ held
      rw [List.foldl_cons, foldl_add_known rest_known, add]
      split
      · exact .inl only
      · obtain ⟨rule, known, first_found⟩ := member first List.mem_cons_self
        exact .inr ⟨rule, known, first, first_found, by rw [only]; rfl⟩

end Group

/-! ## Exploring groups one by one -/

namespace Memo

/-- Change the groups whose numbers are among some. -/
def mapAmong (f : Group → Group) (ids : List GroupId) : Memo → Memo
  | [] => []
  | group :: earlier => (if earlier.length ∈ ids then f group else group) :: mapAmong f ids earlier

variable {ids others : List GroupId} {g : Group → Group}

theorem length_mapAmong (memo : Memo) : (memo.mapAmong f ids).length = memo.length := by
  induction memo with
  | nil => rfl
  | cons group earlier ih => rw [mapAmong, List.length_cons, List.length_cons, ih]

theorem group?_mapAmong (known : memo.group? id = some group) :
    (memo.mapAmong f ids).group? id = some (if id ∈ ids then f group else group) := by
  induction memo with
  | nil => contradiction
  | cons last earlier ih =>
      rw [mapAmong, group?, length_mapAmong]
      rw [group?] at known
      split
      · rename_i is_last
        rw [if_pos is_last] at known
        rw [is_last, Option.some.inj known]
      · rename_i before
        rw [if_neg before] at known
        exact ih known

theorem mapAmong_congr (same : ∀ id < memo.length, id ∈ ids ↔ id ∈ others) :
    memo.mapAmong f ids = memo.mapAmong f others := by
  induction memo with
  | nil => rfl
  | cons group earlier ih =>
      have before : ∀ id < earlier.length, id ∈ ids ↔ id ∈ others := fun id less =>
        same id (Nat.lt_succ_of_lt less)
      simp only [mapAmong, same earlier.length (Nat.lt_succ_self _), ih before]

theorem mapAmong_nil (memo : Memo) : memo.mapAmong f [] = memo := by
  induction memo with
  | nil => rfl
  | cons group earlier ih => rw [mapAmong, ih, if_neg List.not_mem_nil]

theorem mapAmong_all (all : ∀ id < memo.length, id ∈ ids) : memo.mapAmong f ids = memo.map f := by
  induction memo with
  | nil => rfl
  | cons group earlier ih =>
      rw [mapAmong, if_pos (all _ (Nat.lt_succ_self _)), ih fun id less => all id (Nat.lt_succ_of_lt less),
        List.map_cons]

/-- One more group is changed. -/
theorem change_mapAmong (known : memo.group? id = some group) (left : id ∉ ids) (same : g group = f group) :
    (memo.mapAmong f ids).change g id = memo.mapAmong f (id :: ids) := by
  induction memo with
  | nil => contradiction
  | cons last earlier ih =>
      rw [mapAmong, change, length_mapAmong, mapAmong]
      rw [group?] at known
      split
      · rename_i is_last
        rw [if_pos is_last] at known
        obtain rfl := Option.some.inj known
        have others : mapAmong f ids earlier = mapAmong f (id :: ids) earlier := mapAmong_congr fun other less => by
          rw [List.mem_cons, or_iff_right (is_last ▸ Nat.ne_of_lt less)]
        rw [← is_last, if_neg left, if_pos List.mem_cons_self, same, others]
      · rename_i before
        rw [if_neg before] at known
        rw [ih known]
        congr 1
        simp only [List.mem_cons, Ne.symm before, false_or]

theorem change_eq_self (known : memo.group? id = some group) (same : f group = group) : memo.change f id = memo := by
  induction memo with
  | nil => contradiction
  | cons last earlier ih =>
      rw [group?] at known
      rw [change]
      split
      · rename_i is_last
        rw [if_pos is_last] at known
        rw [Option.some.inj known, same]
      · rename_i before
        rw [if_neg before] at known
        rw [ih known]

end Memo

/-! ## One group -/

theorem explore_begun (known : id ∈ state.begun) (left : 0 < rounds) : explore rules rounds id state = .ok state := by
  obtain ⟨rounds, rfl⟩ := Nat.exists_eq_add_one_of_ne_zero (Nat.ne_of_gt left)
  rw [explore, if_pos known]
  rfl

theorem foldlM_explore_begun {inputs : List GroupId} (known : ∀ input ∈ inputs, input ∈ state.begun)
    (left : 0 < rounds) :
    inputs.foldlM (fun state input => explore rules rounds input state) state = .ok state := by
  induction inputs with
  | nil => rfl
  | cons input rest ih =>
      obtain ⟨first, others⟩ := List.forall_mem_cons.mp known
      rw [List.foldlM_cons, explore_begun first left]
      exact ih others

theorem exploreFrom_end {position : Nat} (ended : state.expr? id position = none) (left : 0 < rounds) :
    exploreFrom rules rounds id position state = .ok state := by
  obtain ⟨rounds, rfl⟩ := Nat.exists_eq_add_one_of_ne_zero (Nat.ne_of_gt left)
  rw [exploreFrom, ended]
  rfl

namespace Exploration

theorem expr?_of_group? {position : Nat} (known : state.memo.group? id = some group) :
    state.expr? id position = group.exprs[position]? := by
  rw [expr?, known]
  rfl

/-- Nothing changes when all that the rules find is known. -/
theorem apply_eq_self (at_group : state.memo.group? id = some group)
    (known : ∀ rule ∈ rules, ∀ found ∈ rule.equivalents expr, found ∈ group.exprs) :
    state.apply rules id expr = state := by
  have all : ∀ found ∈ rules.flatMap fun rule => rule.equivalents expr, found ∈ group.exprs := by
    intro found member
    obtain ⟨rule, own, member⟩ := List.mem_flatMap.mp member
    exact known rule own found member
  rw [apply, Memo.change_eq_self at_group (Group.foldl_add_known all)]

end Exploration

/-- The expression that the rules found for the first one of a group adds nothing. -/
theorem exploreFrom_second (at_group : state.memo.group? id = some (group.explore rules))
    (only : group.exprs = [expr]) (known : ∀ input ∈ expr.inputs, input ∈ state.begun) (left : 2 ≤ rounds) :
    exploreFrom rules rounds id 1 state = .ok state := by
  obtain ⟨rounds, rfl⟩ := Nat.exists_eq_add_of_le' left
  obtain held | ⟨rule, -, found, found_by, held⟩ := Group.exprs_explore rules only
  · refine exploreFrom_end ?_ (Nat.succ_pos _)
    rw [Exploration.expr?_of_group? at_group, held]
    rfl
  · have second : state.expr? id 1 = some found := by
      rw [Exploration.expr?_of_group? at_group, held]
      rfl
    have known' : ∀ input ∈ found.inputs, input ∈ state.begun := by
      obtain ⟨-, keys, outer, inner, rfl, rfl⟩ := eq_of_mem_equivalents found_by
      intro input member
      exact known input ((List.Perm.swap inner outer []).mem_iff.mpr member)
    have unchanged : state.apply rules id found = state := by
      refine Exploration.apply_eq_self at_group fun rule' _ back found_back => ?_
      rw [eq_of_mem_equivalents_twice found_by found_back, held]
      exact List.mem_cons_self
    rw [exploreFrom, second]
    refine bind_eq_ok.mpr ⟨state, foldlM_explore_begun known' (Nat.succ_pos rounds), ?_⟩
    rw [unchanged]
    refine exploreFrom_end ?_ (Nat.succ_pos _)
    rw [Exploration.expr?_of_group? at_group, held]
    rfl

/-! ## All groups of an expression -/

/-- Beside the groups that had been explored and begun before, those from `first` on up to `last` have been. -/
def Explores (rules : List Rule) (memo : Memo) (done begun : List GroupId) (first last : Nat)
    (outcome : Except Failure Exploration) : Prop :=
  ∃ done' begun', outcome = .ok ⟨memo.mapAmong (Group.explore rules) done', begun'⟩ ∧
    ∀ id, (id ∈ done' ↔ id ∈ done ∨ first ≤ id ∧ id < last) ∧ (id ∈ begun' ↔ id ∈ begun ∨ first ≤ id ∧ id < last)

variable {done : List GroupId} {first middle last : Nat} {outcome : Except Failure Exploration}

theorem Explores.nothing (same : outcome = .ok ⟨memo.mapAmong (Group.explore rules) done, begun⟩) :
    Explores rules memo done begun first first outcome :=
  ⟨done, begun, same, fun _ => by grind⟩

theorem Explores.bind {next : Exploration → Except Failure Exploration} (le : first ≤ middle) (le' : middle ≤ last)
    (explores : Explores rules memo done begun first middle outcome)
    (then_explores : ∀ done' begun', (∀ id, (id ∈ done' ↔ id ∈ done ∨ first ≤ id ∧ id < middle) ∧
      (id ∈ begun' ↔ id ∈ begun ∨ first ≤ id ∧ id < middle)) → Explores rules memo done' begun' middle last
        (next ⟨memo.mapAmong (Group.explore rules) done', begun'⟩)) :
    Explores rules memo done begun first last (outcome >>= next) := by
  obtain ⟨done', begun', rfl, among⟩ := explores
  obtain ⟨done'', begun'', outcome', among'⟩ := then_explores done' begun' among
  refine ⟨done'', begun'', outcome', fun id => ?_⟩
  rw [(among' id).1, (among' id).2, (among id).1, (among id).2]
  grind

/-- A group is explored with its inputs, which are the groups before it from `first` on. -/
theorem Explores.root (at_group : memo.group? id = some group) (only : group.exprs = [expr]) (le : first ≤ id)
    (fresh : ∀ other, first ≤ other → other < id + 1 → other ∉ done ∧ other ∉ begun)
    (below : ∀ input ∈ expr.inputs, first ≤ input ∧ input < id)
    (inputs : Explores rules memo done (id :: begun) first id
      (expr.inputs.foldlM (fun state input => explore rules rounds input state)
        ⟨memo.mapAmong (Group.explore rules) done, id :: begun⟩))
    (left : 2 ≤ rounds) :
    Explores rules memo done begun first (id + 1)
      (explore rules (rounds + 2) id ⟨memo.mapAmong (Group.explore rules) done, begun⟩) := by
  obtain ⟨undone, unbegun⟩ := fresh id le (Nat.lt_succ_self _)
  obtain ⟨done', begun', inputs, among⟩ := inputs
  have undone' : id ∉ done' := by
    rw [(among id).1]
    grind
  have known : ∀ input ∈ expr.inputs, input ∈ begun' := fun input member =>
    (among input).2.mpr (.inr (below input member))
  have held : (Exploration.begin ⟨memo.mapAmong (Group.explore rules) done, begun⟩ id).expr? id 0 = some expr := by
    rw [Exploration.expr?_of_group? (Memo.group?_mapAmong at_group), if_neg undone, only]
    rfl
  have applied : Exploration.apply rules id expr ⟨memo.mapAmong (Group.explore rules) done', begun'⟩ =
      ⟨memo.mapAmong (Group.explore rules) (id :: done'), begun'⟩ := by
    have same : (rules.flatMap fun rule => rule.equivalents expr).foldl Group.add group = group.explore rules := by
      rw [Group.explore, only, List.flatMap_singleton]
    rw [Exploration.apply, Memo.change_mapAmong at_group undone' same]
  have at_group' : (memo.mapAmong (Group.explore rules) (id :: done')).group? id = some (group.explore rules) := by
    rw [Memo.group?_mapAmong at_group, if_pos List.mem_cons_self]
  refine ⟨id :: done', begun', ?_, fun other => ?_⟩
  · rw [explore, if_neg unbegun, exploreFrom, held]
    refine bind_eq_ok.mpr ⟨_, inputs, ?_⟩
    rw [applied]
    exact exploreFrom_second at_group' only known left
  · rw [List.mem_cons, (among other).1, (among other).2, List.mem_cons]
    grind

/-- The groups of an expression with one input are explored with its root if those of the input are. -/
theorem Explores.over {input : Expr} (has : memo.Has (base + input.size) [expr] stats)
    (reads : expr.inputs = [input.rootFrom base]) (enough : 2 * (input.size + 1) + 2 ≤ rounds)
    (fresh : ∀ id, base ≤ id → id < base + input.size + 1 → id ∉ done ∧ id ∉ begun)
    (explored : ∀ rounds begun, 2 * input.size + 2 ≤ rounds →
      (∀ id, base ≤ id → id < base + input.size → id ∉ done ∧ id ∉ begun) →
        Explores rules memo done begun base (base + input.size)
          (explore rules rounds (input.rootFrom base) ⟨memo.mapAmong (Group.explore rules) done, begun⟩)) :
    Explores rules memo done begun base (base + input.size + 1)
      (explore rules rounds (base + input.size) ⟨memo.mapAmong (Group.explore rules) done, begun⟩) := by
  obtain ⟨group, at_group, only, -⟩ := has
  obtain ⟨rounds, rfl⟩ := Nat.exists_eq_add_of_le' (Nat.le_of_add_left_le enough)
  refine .root at_group only (Nat.le_add_right _ _) fresh ?_ ?_ (by omega)
  · intro other member
    rw [reads] at member
    rw [List.mem_singleton.mp member]
    exact input.rootFrom_bounds base
  · rw [reads, List.foldlM_cons]
    apply Explores.bind (Nat.le_add_right _ _) (Nat.le_refl _)
    · apply explored _ _ (by omega)
      intro id le lt
      obtain ⟨undone, unbegun⟩ := fresh id le (Nat.lt_succ_of_lt lt)
      exact ⟨undone, List.not_mem_cons_of_ne_of_not_mem (Nat.ne_of_lt lt) unbegun⟩
    · intro _ _ _
      exact .nothing rfl

/-- The groups of an expression are explored with its root, if none of them has been begun. -/
theorem explore_laid (laid : node.Laid catalog (fun expr => [expr]) memo base) (enough : 2 * node.size + 2 ≤ rounds)
    (fresh : ∀ id, base ≤ id → id < base + node.size → id ∉ done ∧ id ∉ begun) :
    Explores rules memo done begun base (base + node.size)
      (explore rules rounds (node.rootFrom base) ⟨memo.mapAmong (Group.explore rules) done, begun⟩) := by
  induction node generalizing base rounds done begun with
  | get name columns stats =>
      obtain ⟨table, -, group, at_group, only, -⟩ := laid
      obtain ⟨rounds, rfl⟩ := Nat.exists_eq_add_of_le' (Nat.le_of_add_left_le enough)
      exact .root at_group only (Nat.le_refl _) fresh nofun (.nothing rfl) (Nat.le_of_add_le_add_right enough)
  | select conditions input stats ih => exact .over laid.2 rfl enough fresh fun _ _ => ih laid.1
  | join keys left right stats ihl ihr =>
      obtain ⟨laid, laid', group, at_group, only, -⟩ := laid
      have below := left.rootFrom_bounds base
      have below' := right.rootFrom_bounds (base + left.size)
      rw [Expr.size] at enough
      rw [Expr.size, ← Nat.add_assoc, ← Nat.add_assoc] at fresh ⊢
      obtain ⟨rounds, rfl⟩ := Nat.exists_eq_add_of_le' (Nat.le_of_add_left_le enough)
      refine .root at_group only (by omega) (fun id le lt => fresh id le (by omega)) ?_ ?_ (by omega)
      · intro input member
        obtain rfl | rfl := List.mem_pair.mp member
        · exact ⟨below.1, Nat.lt_of_lt_of_le below.2 (Nat.le_add_right _ _)⟩
        · exact ⟨Nat.le_of_add_right_le below'.1, below'.2⟩
      · -- the left side first, then the right one
        refine Explores.bind (Nat.le_add_right _ _) (Nat.le_add_right _ _)
          (ihl laid (by omega) fun id le lt => ?_) fun done' begun' among => ?_
        · obtain ⟨undone, unbegun⟩ := fresh id le (by omega)
          exact ⟨undone, List.not_mem_cons_of_ne_of_not_mem (by omega) unbegun⟩
        · refine Explores.bind (Nat.le_add_right _ _) (Nat.le_refl _)
            (ihr laid' (by omega) fun id le lt => ?_) fun _ _ _ => .nothing rfl
          obtain ⟨undone, unbegun⟩ := fresh id (by omega) (by omega)
          rw [(among id).1, (among id).2, List.mem_cons]
          grind
  | aggregate grouping calls input stats ih => exact .over laid.2 rfl enough fresh fun _ _ => ih laid.1

/-- However many rounds there are beyond some number, exploring the memo of a query ends, and has explored every
group. -/
theorem Goal.explore_root (rules : List Rule) {query : Query} (accepted : Goal.ofQuery query = .ok goal)
    (enough : 2 * goal.memo.length + 2 ≤ rounds) :
    ∃ begun, Search.explore rules rounds goal.id ⟨goal.memo, []⟩ =
      .ok ⟨goal.memo.map (Group.explore rules), begun⟩ := by
  obtain ⟨catalog, -, inserted⟩ := ofQuery_eq_ok accepted
  have length : goal.memo.length = query.expr.size := (length_of_insert inserted).trans (Nat.zero_add _)
  have root : goal.id = query.expr.rootFrom 0 := id_of_insert inserted
  rw [length] at enough
  have explores : Explores rules goal.memo [] [] 0 (0 + query.expr.size)
      (Search.explore rules rounds (query.expr.rootFrom 0) ⟨goal.memo.mapAmong (Group.explore rules) [], []⟩) :=
    explore_laid (laid_of_insert inserted) enough fun _ _ _ => ⟨List.not_mem_nil, List.not_mem_nil⟩
  obtain ⟨done, begun, explored, among⟩ := explores
  rw [Memo.mapAmong_nil, ← root, Memo.mapAmong_all] at explored
  · exact ⟨begun, explored⟩
  · intro id less
    rw [length, ← Nat.zero_add query.expr.size] at less
    exact (among id).1.mpr (.inr ⟨Nat.zero_le id, less⟩)

/-- Exploring the memo of a query is exploring its groups one by one. -/
theorem Goal.explore_eq {query : Query} (accepted : Goal.ofQuery query = .ok goal) :
    goal.explore rules = .ok (goal.memo.map (Group.explore rules)) := by
  have enough : 2 * goal.memo.length + 2 ≤ 4 * goal.memo.length := by
    have : 0 < goal.memo.length := Nat.succ_pos _
    omega
  obtain ⟨begun, explored⟩ := explore_root rules accepted enough
  rw [explore, explored]
  rfl

end Search

end Warehouse
