import Mathlib.Data.List.Forall2
import Warehouse.Plan.Arena

/-! # Plans in arenas

The plan below a node is the same whatever is added to the arena later on, so that a plan can be
told from the plans below the children of its root. A plan that is taken out of an arena is the
plan below the root of its new arena. -/

namespace Warehouse.Plan.Arena

open Cost

/-- All nodes of an arena are in a larger one, under the same numbers. -/
def Extends (arena grown : Arena) : Prop :=
  ∀ (id : Nat) (node : Node), arena.nodes[id]? = some node → grown.nodes[id]? = some node

/-- The plans below some nodes. -/
abbrev Holds (arena : Arena) (ids : List Nat) (trees : List Tree) : Prop :=
  List.Forall₂ (fun id tree => arena.tree? id = some tree) ids trees

/-- Add a node that has its cost. -/
def push (arena : Arena) (node : Node) : Arena := ⟨arena.nodes.push node⟩

variable {arena grown : Arena} {id levels levels' : Nat} {ids : List Nat} {tree : Tree} {trees : List Tree}
  {node : Node}

namespace Extends

theorem refl (arena : Arena) : arena.Extends arena := fun _ _ h => h

theorem trans {larger : Arena} (first : arena.Extends grown) (second : grown.Extends larger) :
    arena.Extends larger := fun id node h => second id node (first id node h)

theorem push (arena : Arena) (node : Node) : arena.Extends (arena.push node) := by
  intro id other found
  obtain ⟨bound, -⟩ := Array.getElem?_eq_some_iff.mp found
  rw [Arena.push, Array.getElem?_push, if_neg (Nat.ne_of_lt bound)]
  exact found

theorem size_le (grows : arena.Extends grown) : arena.size ≤ grown.size := by
  by_contra smaller
  have bound : grown.size < arena.nodes.size := Nat.lt_of_not_le smaller
  have found := grows grown.size _ (Array.getElem?_eq_getElem bound)
  exact Nat.lt_irrefl _ (Array.getElem?_eq_some_iff.mp found).1

end Extends

theorem size_push (arena : Arena) (node : Node) : (arena.push node).size = arena.size + 1 :=
  Array.size_push node

theorem getElem?_push_size (arena : Arena) (node : Node) : (arena.push node).nodes[arena.size]? = some node := by
  rw [push, size, Array.getElem?_push, if_pos rfl]

theorem Ordered.push (ordered : arena.Ordered) (below : ∀ child ∈ node.children, child < arena.size) :
    (arena.push node).Ordered := by
  intro id other found child member
  rw [Arena.push, Array.getElem?_push] at found
  split at found
  · rename_i last
    obtain rfl := Option.some.inj found
    rw [last]
    exact below child member
  · exact ordered id other found child member

/-! ## The plan below a node -/

theorem mapM_eq_some_iff {α β : Type} {f : α → Option β} {list : List α} {results : List β} :
    list.mapM f = some results ↔ List.Forall₂ (fun a b => f a = some b) list results := by
  induction list generalizing results with
  | nil =>
      rw [List.mapM_nil, List.forall₂_nil_left_iff]
      exact ⟨fun h => (Option.some.inj h).symm, fun h => h ▸ rfl⟩
  | cons a list ih =>
      rw [List.mapM_cons]
      constructor
      · intro h
        obtain ⟨b, first, h⟩ := Option.bind_eq_some_iff.mp h
        obtain ⟨rest, later, h⟩ := Option.bind_eq_some_iff.mp h
        obtain rfl := Option.some.inj h
        exact .cons first (ih.mp later)
      · rintro (_ | ⟨first, later⟩)
        rw [first, ih.mpr later]
        rfl

theorem treeWithin_succ_eq_some_iff : arena.treeWithin (levels + 1) id = some tree ↔
    ∃ node trees, arena.nodes[id]? = some node ∧
      List.Forall₂ (fun child below => arena.treeWithin levels child = some below) node.children trees ∧
      tree = .node node.op node.stats node.cost trees := by
  rw [treeWithin]
  constructor
  · intro h
    obtain ⟨node, found, h⟩ := Option.bind_eq_some_iff.mp h
    obtain ⟨trees, below, h⟩ := Option.bind_eq_some_iff.mp h
    exact ⟨node, trees, found, mapM_eq_some_iff.mp below, (Option.some.inj h).symm⟩
  · rintro ⟨node, trees, found, below, rfl⟩
    simp only [found, mapM_eq_some_iff.mpr below, bind, Option.bind]
    rfl

/-- What is found within some levels is found within more of them, and in a larger arena. -/
theorem Extends.treeWithin (grows : arena.Extends grown) (le : levels ≤ levels')
    (h : arena.treeWithin levels id = some tree) : grown.treeWithin levels' id = some tree := by
  induction levels generalizing levels' id tree with
  | zero => exact absurd h (by simp [Arena.treeWithin])
  | succ levels ih =>
      obtain ⟨more, rfl⟩ := Nat.exists_eq_add_of_le' le
      obtain ⟨node, trees, found, below, rfl⟩ := treeWithin_succ_eq_some_iff.mp h
      have within : levels ≤ levels + more := Nat.le_add_right levels more
      rw [show more + (levels + 1) = levels + more + 1 by omega]
      exact treeWithin_succ_eq_some_iff.mpr
        ⟨node, trees, grows id node found, below.imp fun _ _ h => ih within h, rfl⟩

theorem Extends.tree? (grows : arena.Extends grown) (h : arena.tree? id = some tree) :
    grown.tree? id = some tree :=
  grows.treeWithin (Nat.le_refl _) h

theorem Extends.holds (grows : arena.Extends grown) (h : arena.Holds ids trees) : grown.Holds ids trees :=
  h.imp fun _ _ h => grows.tree? h

/-- The plans below some nodes stand at the places of the nodes. -/
theorem Holds.getElem? (held : arena.Holds ids trees) (position : Nat) :
    (ids[position]? = none ∧ trees[position]? = none) ∨
      ∃ id tree, ids[position]? = some id ∧ trees[position]? = some tree ∧ arena.tree? id = some tree := by
  induction held generalizing position with
  | nil => exact .inl ⟨rfl, rfl⟩
  | cons first rest ih =>
      cases position with
      | zero => exact .inr ⟨_, _, rfl, rfl, first⟩
      | succ position => exact ih position

theorem exists_node_of_tree? (h : arena.tree? id = some tree) :
    ∃ node, arena.nodes[id]? = some node ∧ node.op = tree.op ∧ node.stats = tree.stats ∧ node.cost = tree.cost := by
  obtain ⟨node, trees, found, -, rfl⟩ := treeWithin_succ_eq_some_iff.mp h
  exact ⟨node, found, rfl, rfl, rfl⟩

theorem lt_size_of_tree? (h : arena.tree? id = some tree) : id < arena.size := by
  obtain ⟨node, found, -⟩ := exists_node_of_tree? h
  exact (Array.getElem?_eq_some_iff.mp found).1

theorem Holds.lt_size (held : arena.Holds ids trees) : ∀ id ∈ ids, id < arena.size := by
  intro id member
  obtain ⟨position, bound, rfl⟩ := List.getElem_of_mem member
  have bound' : position < trees.length := held.length_eq ▸ bound
  exact lt_size_of_tree? ((List.forall₂_iff_get.mp held).2 position bound bound')

namespace Ordered

/-- In an ordered arena a node's number bounds the levels below it. -/
theorem tree?_of_treeWithin (ordered : arena.Ordered) (h : arena.treeWithin levels id = some tree) :
    arena.tree? id = some tree := by
  induction levels generalizing id tree with
  | zero => exact absurd h (by simp [treeWithin])
  | succ levels ih =>
      obtain ⟨node, trees, found, below, rfl⟩ := treeWithin_succ_eq_some_iff.mp h
      refine treeWithin_succ_eq_some_iff.mpr ⟨node, trees, found, ?_, rfl⟩
      refine List.forall₂_iff_get.mpr ⟨below.length_eq, fun position bound bound' => ?_⟩
      have less := ordered id node found _ (List.get_mem node.children ⟨position, bound⟩)
      have held := ih ((List.forall₂_iff_get.mp below).2 position bound bound')
      exact (Extends.refl arena).treeWithin less held

/-- The plan below a node has the plans below its children. -/
theorem tree?_eq_some_iff (ordered : arena.Ordered) : arena.tree? id = some tree ↔
    ∃ node trees, arena.nodes[id]? = some node ∧ arena.Holds node.children trees ∧
      tree = .node node.op node.stats node.cost trees := by
  constructor
  · intro h
    obtain ⟨node, trees, found, below, rfl⟩ := treeWithin_succ_eq_some_iff.mp h
    exact ⟨node, trees, found, below.imp fun _ _ h => ordered.tree?_of_treeWithin h, rfl⟩
  · rintro ⟨node, trees, found, below, rfl⟩
    have levels : arena.treeWithin (arena.size + 1) id = some (.node node.op node.stats node.cost trees) := by
      refine treeWithin_succ_eq_some_iff.mpr ⟨node, trees, found, below.imp fun _ _ h => ?_, rfl⟩
      exact (Extends.refl arena).treeWithin (lt_size_of_tree? h) h
    exact ordered.tree?_of_treeWithin levels

/-- There is a plan below every node. -/
theorem exists_tree (ordered : arena.Ordered) (bound : id < arena.size) : ∃ tree, arena.tree? id = some tree := by
  induction id using Nat.strongRecOn with
  | ind id ih =>
      have found : arena.nodes[id]? = some arena.nodes[id] := Array.getElem?_eq_getElem bound
      have below : ∀ ids : List Nat, (∀ child ∈ ids, child < id) → ∃ trees, arena.Holds ids trees := by
        intro ids less
        induction ids with
        | nil => exact ⟨[], .nil⟩
        | cons child rest ih' =>
            obtain ⟨less, later⟩ := List.forall_mem_cons.mp less
            obtain ⟨tree, first⟩ := ih child less (Nat.lt_trans less bound)
            obtain ⟨trees, held⟩ := ih' later
            exact ⟨tree :: trees, .cons first held⟩
      obtain ⟨trees, held⟩ := below arena.nodes[id].children (ordered id _ found)
      exact ⟨_, ordered.tree?_eq_some_iff.mpr ⟨_, trees, found, held, rfl⟩⟩

/-- A new node has the plans below its children. -/
theorem tree?_push (ordered : arena.Ordered) (node : Node) (below : arena.Holds node.children trees) :
    (arena.push node).Ordered ∧
      (arena.push node).tree? arena.size = some (.node node.op node.stats node.cost trees) := by
  refine ⟨ordered.push below.lt_size, (ordered.push below.lt_size).tree?_eq_some_iff.mpr ?_⟩
  exact ⟨node, trees, getElem?_push_size arena node, (Extends.push arena node).holds below, rfl⟩

end Ordered

/-! ## Adding nodes and plans -/

/-- A node over nodes of the arena is added as far as its operator takes that many children. -/
theorem add_eq {op : Operator} {stats : NodeStats} (known : ∀ child ∈ ids, child < arena.size) :
    arena.add op ids stats =
      if !op.arity.accepts ids.length then
        .error (.invalidPlan s!"{op.name} cannot take {ids.length} children")
      else .ok (arena.size, arena.push ⟨op, ids, stats, none⟩) := by
  have all : (ids.find? fun child => arena.size ≤ child) = none :=
    List.find?_eq_none.mpr fun child member => by simpa using known child member
  rw [add, all]
  rfl

/-- The cost of a new node may be noted. -/
theorem setCost_push (arena : Arena) (node : Node) (cost : Amount) :
    (arena.push node).setCost arena.size cost = .ok (arena.push { node with cost := some cost }) := by
  simp [setCost, push, size, Array.set_push]

theorem addTree_node {op : Operator} {stats : NodeStats} {cost : Option Amount} {children : List Tree} :
    arena.addTree (.node op stats cost children) = ((arena.addAll children).2.size,
      (arena.addAll children).2.push ⟨op, (arena.addAll children).1, stats, cost⟩) := by
  rw [addTree]
  rfl

theorem addAll_cons : arena.addAll (tree :: trees) = ((arena.addTree tree).1 :: ((arena.addTree tree).2.addAll trees).1,
    ((arena.addTree tree).2.addAll trees).2) := by
  rw [addAll]

mutual

/-- A plan that is added is the plan below its root. -/
theorem addTree_spec (arena : Arena) (ordered : arena.Ordered) : (tree : Tree) →
    (arena.addTree tree).2.Ordered ∧ arena.Extends (arena.addTree tree).2 ∧
      (arena.addTree tree).2.tree? (arena.addTree tree).1 = some tree
  | .node op stats cost children => by
      obtain ⟨ordered', grows, held⟩ := addAll_spec arena ordered children
      rw [addTree]
      have pushed := ordered'.tree?_push ⟨op, (arena.addAll children).1, stats, cost⟩ held
      exact ⟨pushed.1, grows.trans (Extends.push _ _), pushed.2⟩

/-- Plans that are added are the plans below their roots. -/
theorem addAll_spec (arena : Arena) (ordered : arena.Ordered) : (trees : List Tree) →
    (arena.addAll trees).2.Ordered ∧ arena.Extends (arena.addAll trees).2 ∧
      (arena.addAll trees).2.Holds (arena.addAll trees).1 trees
  | [] => ⟨ordered, Extends.refl arena, .nil⟩
  | tree :: rest => by
      obtain ⟨ordered', grows, held⟩ := addTree_spec arena ordered tree
      obtain ⟨ordered'', grows', held'⟩ := addAll_spec (arena.addTree tree).2 ordered' rest
      rw [addAll]
      exact ⟨ordered'', grows.trans grows', .cons (grows'.tree? held) held'⟩

end

/-- What is taken out of an arena is the plan below the node. -/
theorem extract_eq_ok {root : Nat} {out : Arena} (h : arena.extract id = .ok (root, out)) :
    ∃ tree, arena.tree? id = some tree ∧ out.tree root = .ok tree := by
  rw [extract, Arena.tree] at h
  cases found : arena.tree? id with
  | none =>
      rw [found] at h
      exact absurd h (by simp [Functor.map, Except.map])
  | some tree =>
      rw [found] at h
      have added : empty.addTree tree = (root, out) := Except.ok.inj h
      obtain ⟨-, -, held⟩ := addTree_spec empty ordered_empty tree
      rw [added] at held
      exact ⟨tree, rfl, by rw [Arena.tree, held]⟩

end Warehouse.Plan.Arena
