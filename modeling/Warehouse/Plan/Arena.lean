import Warehouse.Plan.Tree

/-! # Arenas

While plans are searched, their nodes lie in one arena and refer to their children by
number, so that plans can share nodes. A node is added after its children;
`Arena.Ordered` says so. `tree?` gives the plan below a node.

Nodes are counted without a bound here. Where their numbers are kept in 32 bits, all of this
holds of arenas that have at most `maxNodes` nodes: by `Ordered.fits` every number in them
fits into 32 bits. -/

namespace Warehouse.Plan

open Cost

/-- A node of an arena. -/
structure Node where
  op : Operator
  children : List Nat
  stats : NodeStats
  cost : Option Amount

/-- The nodes by number. -/
structure Arena where
  nodes : Array Node

/-- How many nodes numbers of 32 bits tell apart. -/
def maxNodes : Nat := UInt32.size

/-- The text of a node's number. -/
def nodeText (id : Nat) : String := s!"#{id}"

namespace Arena

/-- The arena without nodes. -/
def empty : Arena := ⟨#[]⟩

/-- Every child has a smaller number than its parent. -/
def Ordered (arena : Arena) : Prop :=
  ∀ (id : Nat) (node : Node), arena.nodes[id]? = some node → ∀ child ∈ node.children, child < id

/-- The number of nodes. -/
def size (arena : Arena) : Nat := arena.nodes.size

/-- Add a node without a cost. Its children have to be in the arena, and as many as the
operator takes. -/
def add (arena : Arena) (op : Operator) (children : List Nat) (stats : NodeStats) :
    Except Error (Nat × Arena) :=
  if !op.arity.accepts children.length then
    .error (.invalidPlan s!"{op.name} cannot take {children.length} children")
  else
    match children.find? fun child => arena.size ≤ child with
    | some child => .error (.invalidPlan s!"unknown child node {nodeText child}")
    | none => .ok (arena.size, ⟨arena.nodes.push ⟨op, children, stats, none⟩⟩)

/-- The node with a number. -/
def node (arena : Arena) (id : Nat) : Except Error Node :=
  match arena.nodes[id]? with
  | some node => .ok node
  | none => .error (.invalidPlan s!"unknown node {nodeText id}")

/-- Note the cost of a node. -/
def setCost (arena : Arena) (id : Nat) (cost : Amount) : Except Error Arena :=
  if h : id < arena.nodes.size then
    .ok ⟨arena.nodes.set id { arena.nodes[id] with cost := some cost } h⟩
  else .error (.invalidPlan s!"unknown node {nodeText id}")

/-- The cost that was noted for a node. -/
def cost? (arena : Arena) (id : Nat) : Option Amount := (arena.nodes[id]?).bind Node.cost

/-- A child of a child of a node, counted from zero. -/
def grandchild? (arena : Arena) (id child grandchild : Nat) : Option Node := do
  let node ← arena.nodes[id]?
  let below ← arena.nodes[(← node.children[child]?)]?
  arena.nodes[(← below.children[grandchild]?)]?

/-- The plan below a node, with at most `levels` levels. -/
def treeWithin (arena : Arena) : (levels : Nat) → Nat → Option Tree
  | 0, _ => none
  | levels + 1, id => do
      let node ← arena.nodes[id]?
      let children ← node.children.mapM fun child => arena.treeWithin levels child
      return .node node.op node.stats node.cost children

/-- The plan below a node. In an ordered arena it has no more levels than the node's
number allows. -/
def tree? (arena : Arena) (id : Nat) : Option Tree := arena.treeWithin (id + 1) id

/-- The plan below a node. -/
def tree (arena : Arena) (id : Nat) : Except Error Tree :=
  match arena.tree? id with
  | some tree => .ok tree
  | none => .error (.invalidPlan s!"unknown node {nodeText id}")

/-- The text that explains the plan below a node. -/
def explain (arena : Arena) (id : Nat) : Except Error String := Tree.explain <$> arena.tree id

mutual

/-- Add a plan, children first. The result is the number of its root. -/
def addTree (arena : Arena) : Tree → Nat × Arena
  | .node op stats cost children =>
      let (ids, arena) := addAll arena children
      (arena.size, ⟨arena.nodes.push ⟨op, ids, stats, cost⟩⟩)

/-- Add several plans one after the other. -/
def addAll (arena : Arena) : List Tree → List Nat × Arena
  | [] => ([], arena)
  | tree :: rest =>
      let (id, arena) := addTree arena tree
      let (ids, arena) := addAll arena rest
      (id :: ids, arena)

end

/-- The plan below a node in an arena of its own, where no node is shared. -/
def extract (arena : Arena) (id : Nat) : Except Error (Nat × Arena) :=
  (fun tree => empty.addTree tree) <$> arena.tree id

theorem ordered_empty : empty.Ordered := by
  intro id node h
  simp [empty] at h

/-- In an arena that is not too large every node and every child has a number of 32 bits. -/
theorem Ordered.fits {arena : Arena} {id : Nat} {node : Node} (ordered : arena.Ordered)
    (small : arena.size ≤ maxNodes) (found : arena.nodes[id]? = some node) :
    (UInt32.ofNat id).toNat = id ∧ ∀ child ∈ node.children, (UInt32.ofNat child).toNat = child := by
  obtain ⟨inside, -⟩ := Array.getElem?_eq_some_iff.mp found
  have bound : id < UInt32.size := Nat.lt_of_lt_of_le inside small
  refine ⟨UInt32.toNat_ofNat_of_lt' bound, ?_⟩
  intro child member
  exact UInt32.toNat_ofNat_of_lt' (Nat.lt_trans (ordered id node found child member) bound)

/-- Adding a node keeps the order. -/
theorem Ordered.add {arena grown : Arena} {op : Operator} {children : List Nat} {stats : NodeStats}
    {id : Nat} (ordered : arena.Ordered) (h : arena.add op children stats = .ok (id, grown)) :
    grown.Ordered := by
  unfold Arena.add at h
  split at h
  · contradiction
  · split at h
    · contradiction
    · rename_i known
      simp only [Except.ok.injEq, Prod.mk.injEq] at h
      obtain ⟨_, rfl⟩ := h
      intro other node found child member
      rw [Array.getElem?_push] at found
      split at found
      · rename_i last
        obtain rfl := Option.some.inj found
        have := List.find?_eq_none.1 known child member
        have below : ¬ arena.nodes.size ≤ child := fun le => this (decide_eq_true le)
        omega
      · exact ordered other node found child member

/-- Noting a cost keeps the order. -/
theorem Ordered.setCost {arena changed : Arena} {id : Nat} {cost : Amount}
    (ordered : arena.Ordered) (h : arena.setCost id cost = .ok changed) : changed.Ordered := by
  unfold Arena.setCost at h
  split at h
  · rename_i bound
    obtain rfl := Except.ok.inj h
    intro other node found child member
    rw [Array.getElem?_set] at found
    split at found
    · rename_i same
      subst same
      obtain rfl := Option.some.inj found
      exact ordered id arena.nodes[id] (by simp [bound]) child member
    · exact ordered other node found child member
  · contradiction

end Arena

end Warehouse.Plan
