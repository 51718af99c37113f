import Warehouse.Proofs.Cost.Nodes
import Warehouse.Proofs.Plan.Subtrees

/-! # Costs that are computed again

The nodes of a plan that is added to an arena get their numbers in the order in which `Model.treeCost` comes to
them. When their costs are cleared and computed again, the nodes before some number therefore have their costs
back and the others do not: `Arena.costedTo`. -/

namespace Warehouse

open Plan Cost

namespace Plan.Arena

variable {arena grown : Arena} {id count : Nat} {node : Node} {cost : Amount} {op : Operator} {stats : NodeStats}

/-- An arena without the costs of its nodes. -/
def cleared (arena : Arena) : Arena := ⟨arena.nodes.map fun node => { node with cost := none }⟩

/-- An arena with the costs of the nodes before a number only. -/
def costedTo (arena : Arena) (count : Nat) : Arena :=
  ⟨arena.nodes.mapIdx fun id node => if id < count then node else { node with cost := none }⟩

theorem getElem?_costedTo (arena : Arena) (count id : Nat) : (arena.costedTo count).nodes[id]? =
    (arena.nodes[id]?).map fun node => if id < count then node else { node with cost := none } :=
  Array.getElem?_mapIdx

theorem ext_nodes {other : Arena} (same : ∀ id : Nat, arena.nodes[id]? = other.nodes[id]?) : arena = other := by
  cases arena
  cases other
  exact congrArg Arena.mk (Array.ext_getElem? same)

theorem costedTo_zero (arena : Arena) : arena.costedTo 0 = arena.cleared := by
  apply ext_nodes
  intro id
  rw [getElem?_costedTo, cleared, Array.getElem?_map]
  simp only [Nat.not_lt_zero, if_false]

theorem costedTo_size (arena : Arena) : arena.costedTo arena.size = arena := by
  apply ext_nodes
  intro id
  rw [getElem?_costedTo]
  cases found : arena.nodes[id]? with
  | none => rfl
  | some node =>
      obtain ⟨bound, -⟩ := Array.getElem?_eq_some_iff.mp found
      rw [Option.map_some, if_pos]
      exact bound

/-- Clearing costs that come later leaves a smaller arena in the larger one. -/
theorem Extends.costedTo (grows : arena.Extends grown) : arena.Extends (grown.costedTo arena.size) := by
  intro id node found
  obtain ⟨bound, -⟩ := Array.getElem?_eq_some_iff.mp found
  rw [getElem?_costedTo, grows id node found, Option.map_some, if_pos]
  exact bound

theorem Ordered.costedTo (ordered : arena.Ordered) (count : Nat) : (arena.costedTo count).Ordered := by
  intro id node found
  rw [getElem?_costedTo] at found
  obtain ⟨own, known, rfl⟩ := Option.map_eq_some_iff.mp found
  have children : (if id < count then own else { own with cost := none }).children = own.children := by
    split
    · rfl
    · rfl
  rw [children]
  exact ordered id own known

/-- The cost of a node that comes later is cleared. -/
theorem getElem?_costedTo_of_le (le : count ≤ id) (found : arena.nodes[id]? = some node) :
    (arena.costedTo count).nodes[id]? = some { node with cost := none } := by
  rw [getElem?_costedTo, found, Option.map_some, if_neg (Nat.not_lt.mpr le)]

/-- The next node gets its cost back. -/
theorem setCost_costedTo (found : arena.nodes[id]? = some node) (costed : node.cost = some cost) :
    (arena.costedTo id).setCost id cost = .ok (arena.costedTo (id + 1)) := by
  obtain ⟨bound, same⟩ := Array.getElem?_eq_some_iff.mp (getElem?_costedTo_of_le (Nat.le_refl id) found)
  rw [setCost, dif_pos bound, same, Except.ok.injEq]
  apply ext_nodes
  intro other
  rw [Array.getElem?_set, getElem?_costedTo]
  split
  · rename_i here
    rw [← here, getElem?_costedTo, found, Option.map_some, if_pos (Nat.lt_succ_self id), ← costed]
  · rename_i elsewhere
    have before : other < id ↔ other < id + 1 := by omega
    rw [getElem?_costedTo]
    simp only [before]

end Plan.Arena

/-- The cost of the root of a plan is what its operator costs over the plans below. -/
def Plan.Tree.Priced (model : Model) : Tree → Prop
  | node op stats cost children => ∃ amount, cost = some amount ∧ model.costOver op stats children = .ok amount

/-- All costs of a plan are right. -/
abbrev Plan.Tree.AllPriced (model : Model) (tree : Tree) : Prop := ∀ below ∈ tree.subtrees, below.Priced model

namespace Plan.Tree

variable {model : Model} {tree : Tree}

theorem Priced.exists_cost (priced : tree.Priced model) : ∃ cost, tree.cost = some cost := by
  cases tree with
  | node op stats cost children =>
      obtain ⟨amount, known, -⟩ := priced
      exact ⟨amount, known⟩

/-- Plans with costs show what the costs of plans above them depend on. -/
theorem exists_shows {trees : List Tree} (costed : ∀ tree ∈ trees, ∃ cost, tree.cost = some cost) :
    ∃ children, List.Forall₂ CostedChild.Shows children trees := by
  induction trees with
  | nil => exact ⟨[], .nil⟩
  | cons tree rest ih =>
      obtain ⟨⟨cost, known⟩, later⟩ := List.forall_mem_cons.mp costed
      obtain ⟨children, shown⟩ := ih later
      exact ⟨⟨tree.op, tree.stats, cost⟩ :: children, .cons ⟨rfl, rfl, known⟩ shown⟩

end Plan.Tree

namespace Plan.Arena

mutual

/-- The nodes of a plan that is added have the costs of its subtrees. -/
theorem cost_of_mem_addTree (arena : Arena) : (tree : Tree) → ∀ node ∈ (arena.addTree tree).2.nodes,
    node ∈ arena.nodes ∨ ∃ below ∈ tree.subtrees, node.cost = below.cost
  | .node op stats cost children => by
      intro node member
      rw [addTree_node] at member
      obtain old | rfl := Array.mem_push.mp member
      · refine (cost_of_mem_addAll arena children node old).imp_right ?_
        rintro ⟨tree, own, below, under, same⟩
        rw [Tree.subtrees_node]
        exact ⟨below, List.mem_cons_of_mem _ (List.mem_flatMap.mpr ⟨tree, own, under⟩), same⟩
      · exact .inr ⟨_, Tree.mem_subtrees_self _, rfl⟩

/-- So have those of several plans. -/
theorem cost_of_mem_addAll (arena : Arena) : (trees : List Tree) → ∀ node ∈ (arena.addAll trees).2.nodes,
    node ∈ arena.nodes ∨ ∃ tree ∈ trees, ∃ below ∈ tree.subtrees, node.cost = below.cost
  | [] => fun _ member => .inl member
  | tree :: rest => by
      intro node member
      rw [addAll_cons] at member
      obtain old | ⟨other, own, found⟩ := cost_of_mem_addAll (arena.addTree tree).2 rest node member
      · exact (cost_of_mem_addTree arena tree node old).imp_right fun found => ⟨tree, List.mem_cons_self, found⟩
      · exact .inr ⟨other, List.mem_cons_of_mem _ own, found⟩

end

end Plan.Arena

namespace Cost.Model

variable {model : Model} {grown : Arena}

/-- The cost of a node comes back when the nodes below it have theirs. -/
theorem noteCost_costedTo {id : Nat} {op : Operator} {ids : List Nat} {stats : NodeStats} {cost : Option Amount}
    {trees : List Tree} (ordered : grown.Ordered) (found : grown.nodes[id]? = some ⟨op, ids, stats, cost⟩)
    (held : (grown.costedTo id).Holds ids trees) (priced : (Plan.Tree.node op stats cost trees).AllPriced model) :
    ∃ amount, cost = some amount ∧ model.noteCost (grown.costedTo id) id = (.ok amount, grown.costedTo (id + 1)) := by
  obtain ⟨⟨amount, known, costs⟩, below⟩ := Tree.forall_subtrees_node.mp priced
  obtain ⟨children, shown⟩ := Tree.exists_shows fun tree member =>
    (below tree member tree (Tree.mem_subtrees_self tree)).exists_cost
  have node_cost : model.nodeCost (grown.costedTo id) id = .ok amount := by
    rw [nodeCost_eq_costOver (ordered.costedTo id) (Arena.getElem?_costedTo_of_le (Nat.le_refl id) found) held shown]
    exact costs
  refine ⟨amount, known, ?_⟩
  rw [noteCost, node_cost]
  simp only [Arena.setCost_costedTo found known]

mutual

/-- Where the nodes before those of a plan have their costs, the nodes of the plan get theirs back. -/
theorem treeCostWithin_addTree (arena : Arena) (ordered : arena.Ordered) (ordered' : grown.Ordered) {levels : Nat} :
    (tree : Tree) → tree.AllPriced model → (arena.addTree tree).2.Extends grown → (arena.addTree tree).1 < levels →
    ∃ cost, tree.cost = some cost ∧
      model.treeCostWithin levels (grown.costedTo arena.size) (arena.addTree tree).1 =
        (.ok cost, grown.costedTo (arena.addTree tree).2.size)
  | .node op stats cost children => by
      intro priced grows less
      rw [Arena.addTree_node] at grows less ⊢
      obtain ⟨-, larger, held⟩ := Arena.addAll_spec arena ordered children
      have grows' := (Arena.Extends.push _ _).trans grows
      obtain ⟨levels, rfl⟩ := Nat.exists_eq_succ_of_ne_zero (Nat.ne_of_gt (Nat.zero_lt_of_lt less))
      have costed := forNodes_addAll arena ordered ordered' children (Tree.forall_subtrees_node.mp priced).2 grows'
        fun id member => Nat.lt_of_lt_of_le (held.lt_size id member) (Nat.le_of_lt_succ less)
      have found := grows _ _ (Arena.getElem?_push_size _ _)
      obtain ⟨amount, known, noted⟩ := noteCost_costedTo ordered' found (grows'.costedTo.holds held) priced
      have cleared := Arena.getElem?_costedTo_of_le larger.size_le found
      refine ⟨amount, known, ?_⟩
      rw [treeCostWithin, Arena.cost?, Arena.node, cleared, Arena.size_push]
      simp only [Option.bind_some, costed, noted]

/-- So do the nodes of several plans. -/
theorem forNodes_addAll (arena : Arena) (ordered : arena.Ordered) (ordered' : grown.Ordered) {levels : Nat} :
    (trees : List Tree) → (∀ tree ∈ trees, tree.AllPriced model) → (arena.addAll trees).2.Extends grown →
    (∀ id ∈ (arena.addAll trees).1, id < levels) →
    forNodes (model.treeCostWithin levels) (grown.costedTo arena.size) (arena.addAll trees).1 =
      (.ok (), grown.costedTo (arena.addAll trees).2.size)
  | [] => fun _ _ _ => rfl
  | tree :: rest => by
      intro priced grows less
      rw [Arena.addAll_cons] at grows less ⊢
      obtain ⟨first, later⟩ := List.forall_mem_cons.mp priced
      obtain ⟨bound, bounds⟩ := List.forall_mem_cons.mp less
      obtain ⟨between, -, -⟩ := Arena.addTree_spec arena ordered tree
      obtain ⟨-, larger, -⟩ := Arena.addAll_spec (arena.addTree tree).2 between rest
      obtain ⟨cost, -, costed⟩ := treeCostWithin_addTree arena ordered ordered' tree first (larger.trans grows) bound
      rw [forNodes, costed]
      exact forNodes_addAll _ between ordered' rest later grows bounds

end

/-- The costs of a plan come back when they are cleared and computed again. -/
theorem treeCost_addTree {tree : Tree} {cost : Amount} (priced : tree.AllPriced model) (known : tree.cost = some cost) :
    model.treeCost (Arena.empty.addTree tree).2.cleared (Arena.empty.addTree tree).1 =
      (.ok cost, (Arena.empty.addTree tree).2) := by
  obtain ⟨ordered, -, -⟩ := Arena.addTree_spec .empty Arena.ordered_empty tree
  obtain ⟨cost', known', costed⟩ := treeCostWithin_addTree .empty Arena.ordered_empty ordered tree priced
    (Arena.Extends.refl _) (Nat.lt_succ_self _)
  obtain rfl := Option.some.inj (known.symm.trans known')
  rw [Arena.costedTo_size] at costed
  rw [treeCost, ← Arena.costedTo_zero]
  exact costed

/-- All nodes of a plan have their costs. -/
theorem exists_cost_of_mem_addTree {tree : Tree} (priced : tree.AllPriced model) :
    ∀ node ∈ (Arena.empty.addTree tree).2.nodes, ∃ cost, node.cost = some cost := by
  intro node member
  obtain none | ⟨below, under, same⟩ := Arena.cost_of_mem_addTree .empty tree node member
  · exact absurd none (Array.not_mem_empty node)
  · obtain ⟨cost, known⟩ := (priced below under).exists_cost
    exact ⟨cost, same.trans known⟩

end Cost.Model

end Warehouse
