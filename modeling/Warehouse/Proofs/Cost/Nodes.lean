import Warehouse.Cost.Model
import Warehouse.Proofs.Plan.Arenas

/-! # The cost of a node over plans

The cost model reads the children of a node from the arena that the node lies in, and for a
partition selector also a grandchild. What it finds there is told by the plans below the node, so
that the cost of a node is a function of its operator, its statistics and those plans. -/

namespace Warehouse.Cost

open Plan

/-- A child as the plan below it tells. -/
def CostedChild.Shows (child : CostedChild) (tree : Tree) : Prop :=
  child.op = tree.op ∧ child.stats = tree.stats ∧ tree.cost = some child.cost

namespace Costing

variable {arena : Arena} {id : Nat} {ids : List Nat} {trees : List Tree} {children : List CostedChild}

/-- The costed children of a node are told by the plans below them. -/
theorem childrenOf_eq_ok (held : arena.Holds ids trees) (shown : List.Forall₂ CostedChild.Shows children trees) :
    childrenOf arena id ids = .ok children := by
  induction held generalizing children with
  | nil =>
      obtain rfl := List.forall₂_nil_right_iff.mp shown
      rfl
  | cons below _ ih =>
      obtain ⟨node, found, op, stats, cost⟩ := Arena.exists_node_of_tree? below
      obtain _ | ⟨⟨op', stats', known⟩, later⟩ := shown
      simp only [childrenOf, Arena.node, found, cost, known, ih later, op, stats, ← op', ← stats', bind, Except.bind]
      rfl

end Costing

namespace Model

variable {arena arena' : Arena} {id id' : Nat} {model : Model}

/-- What the cost model sees of a node two levels below another one. -/
def glimpse (arena : Arena) (id position : Nat) : Option (Operator × Option Amount) :=
  (arena.grandchild? id position 0).map fun node => (node.op, node.cost)

/-- The cost of an operator depends on the arena only by what is seen two levels below. -/
theorem operatorCost_congr (same : ∀ position, glimpse arena id position = glimpse arena' id' position)
    (op : Operator) (costing : Costing) :
    model.operatorCost arena id op costing = model.operatorCost arena' id' op costing := by
  have unveiled : unveil arena id = unveil arena' id' := by
    funext position scanId child filtered
    have seen := same position
    simp only [glimpse] at seen
    simp only [unveil]
    cases first : arena.grandchild? id position 0 with
    | none =>
        rw [first, Option.map_none, eq_comm, Option.map_eq_none_iff] at seen
        rw [seen]
    | some node =>
        rw [first, Option.map_some, eq_comm, Option.map_eq_some_iff] at seen
        obtain ⟨node', second, eq⟩ := seen
        obtain ⟨op_eq, cost_eq⟩ := Prod.mk.inj eq
        rw [second]
        simp only [op_eq, cost_eq]
  have child : model.childCost arena id = model.childCost arena' id' := by
    funext position underFilter filtered child
    simp only [childCost, unveiled]
  simp only [operatorCost, childrenCost, child]

/-- What is seen two levels below a node is told by the plans below it. -/
theorem glimpse_eq {node : Node} {trees : List Tree} (ordered : arena.Ordered)
    (found : arena.nodes[id]? = some node) (held : arena.Holds node.children trees) (position : Nat) :
    glimpse arena id position =
      (trees[position]?.bind fun tree => tree.children[0]?).map fun tree => (tree.op, tree.cost) := by
  simp only [glimpse, Arena.grandchild?, found, bind, Option.bind]
  obtain ⟨none, none'⟩ | ⟨child, tree, some, some', below⟩ := held.getElem? position
  · simp only [none, none']
    rfl
  · obtain ⟨node', trees', found', held', rfl⟩ := ordered.tree?_eq_some_iff.mp below
    simp only [some, some', found', Tree.children]
    obtain ⟨none, none'⟩ | ⟨_, _, some, some', below'⟩ := held'.getElem? 0
    · simp only [none, none']
      rfl
    · obtain ⟨node'', found'', op, -, cost⟩ := Arena.exists_node_of_tree? below'
      simp only [some, some', found'', Option.map_some, op, cost]

/-- What a node costs over the plans for its inputs: the cost in an arena that has nothing else. -/
def costOver (model : Model) (op : Operator) (stats : NodeStats) (inputs : List Tree) : Except Failure Amount :=
  let (ids, arena) := Arena.empty.addAll inputs
  model.nodeCost (arena.push ⟨op, ids, stats, none⟩) arena.size

/-- What a node costs follows from its children as the plans below it tell them. -/
theorem nodeCost_eq {node : Node} {trees : List Tree} {children : List CostedChild}
    (found : arena.nodes[id]? = some node) (held : arena.Holds node.children trees)
    (shown : List.Forall₂ CostedChild.Shows children trees) :
    model.nodeCost arena id = model.operatorCost arena id node.op ⟨node.stats, children⟩ := by
  have read : arena.node id = .ok node := by rw [Arena.node, found]
  have costing : Costing.ofNode arena id = .ok ⟨node.stats, children⟩ := by
    simp only [Costing.ofNode, read, Costing.childrenOf_eq_ok held shown, bind, Except.bind]
    rfl
  rw [nodeCost, read, costing]

/-- A node costs the same in every arena that has the same plans below it. -/
theorem nodeCost_eq_costOver {node : Node} {trees : List Tree} {children : List CostedChild}
    (ordered : arena.Ordered) (found : arena.nodes[id]? = some node) (held : arena.Holds node.children trees)
    (shown : List.Forall₂ CostedChild.Shows children trees) :
    model.nodeCost arena id = model.costOver node.op node.stats trees := by
  obtain ⟨ordered', -, held'⟩ := Arena.addAll_spec .empty Arena.ordered_empty trees
  rw [costOver]
  generalize (Arena.empty.addAll trees) = added at *
  obtain ⟨ids, own⟩ := added
  have found' := Arena.getElem?_push_size own ⟨node.op, ids, node.stats, none⟩
  have held'' := (Arena.Extends.push own ⟨node.op, ids, node.stats, none⟩).holds held'
  have ordered'' := (ordered'.tree?_push ⟨node.op, ids, node.stats, none⟩ held').1
  have same : ∀ position, glimpse arena id position =
      glimpse (own.push ⟨node.op, ids, node.stats, none⟩) own.size position := by
    intro position
    rw [glimpse_eq ordered found held, glimpse_eq ordered'' found' held'']
  rw [nodeCost_eq found held shown, operatorCost_congr same]
  exact (nodeCost_eq found' held'' shown).symm

end Model

end Warehouse.Cost
