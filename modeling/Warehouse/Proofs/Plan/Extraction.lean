import Warehouse.Proofs.Plan.Arenas

/-! # Taking plans out of an arena

A node of a plan is named by the path that leads to it from the root: the positions of the children that are
taken on the way. What is taken out of an arena has exactly one node for every path, wherever the plan shares
nodes, and the nodes at the ends of the same path are alike. -/

namespace Warehouse.Plan

open Cost

namespace Tree

/-- The plan at the end of a path. -/
def below? (tree : Tree) : List Nat → Option Tree
  | [] => some tree
  | position :: rest => tree.children[position]?.bind fun child => child.below? rest

mutual

/-- The paths from the root, in the order in which the nodes are added to an arena. -/
def paths : Tree → List (List Nat)
  | node _ _ _ children => pathsAll 0 children ++ [[]]

/-- The paths into several plans, which stand at the given position and at those behind it. -/
def pathsAll (position : Nat) : List Tree → List (List Nat)
  | [] => []
  | tree :: rest => (paths tree).map (position :: ·) ++ pathsAll (position + 1) rest

end

theorem mem_pathsAll {position : Nat} {trees : List Tree} {path : List Nat} : path ∈ pathsAll position trees ↔
    ∃ index rest tree, trees[index]? = some tree ∧ path = (position + index) :: rest ∧ rest ∈ tree.paths := by
  induction trees generalizing position with
  | nil => simp [pathsAll]
  | cons tree trees ih =>
      rw [pathsAll, List.mem_append, List.mem_map, ih]
      constructor
      · rintro (⟨rest, member, rfl⟩ | ⟨index, rest, other, found, rfl, member⟩)
        · exact ⟨0, rest, tree, rfl, rfl, member⟩
        · exact ⟨index + 1, rest, other, found, by rw [Nat.add_right_comm, Nat.add_assoc], member⟩
      · rintro ⟨index, rest, other, found, rfl, member⟩
        cases index with
        | zero =>
            obtain rfl := Option.some.inj found
            exact .inl ⟨rest, member, rfl⟩
        | succ index =>
            exact .inr ⟨index, rest, other, found, by rw [Nat.add_right_comm, Nat.add_assoc], member⟩

/-- The paths are those at whose ends there is a plan. -/
theorem mem_paths_iff {tree : Tree} {path : List Nat} : path ∈ tree.paths ↔ (tree.below? path).isSome = true := by
  induction path generalizing tree with
  | nil =>
      cases tree with
      | node op stats cost children => simp [paths, below?]
  | cons position rest ih =>
      cases tree with
      | node op stats cost children =>
          rw [paths, List.mem_append, mem_pathsAll, below?, Option.isSome_bind]
          simp only [Nat.zero_add, List.cons.injEq, Tree.children]
          constructor
          · rintro (⟨index, path, child, found, ⟨rfl, rfl⟩, member⟩ | root)
            · rw [found, Option.any_some]
              exact ih.mp member
            · exact absurd root (by simp)
          · intro some
            cases found : children[position]? with
            | none =>
                rw [found] at some
                exact absurd some (by simp)
            | some child =>
                rw [found, Option.any_some] at some
                exact .inl ⟨position, rest, child, found, ⟨rfl, rfl⟩, ih.mpr some⟩

end Tree

namespace Arena

variable {arena grown out : Arena} {id root copied levels : Nat} {ids path : List Nat} {tree : Tree} {trees : List Tree}
  {op : Operator} {stats : NodeStats} {cost : Amount}

/-! ## Arenas that were built by calls -/

/-- What adding a node comes to when it succeeds. -/
theorem add_eq_ok : arena.add op ids stats = .ok (id, grown) ↔
    op.arity.accepts ids.length = true ∧ (∀ child ∈ ids, child < arena.size) ∧
      id = arena.size ∧ grown = arena.push ⟨op, ids, stats, none⟩ := by
  constructor
  · intro added
    rw [add] at added
    split at added
    case isTrue => cases added
    case isFalse accepted =>
      split at added
      case h_1 => cases added
      case h_2 none =>
        obtain ⟨rfl, rfl⟩ := Prod.mk.inj (Except.ok.inj added)
        refine ⟨by simpa using accepted, fun child member => ?_, rfl, rfl⟩
        simpa using List.find?_eq_none.mp none child member
  · rintro ⟨accepted, known, rfl, rfl⟩
    rw [add_eq known, accepted]
    rfl

/-- A call that changes an arena. -/
inductive Call where
  | add (op : Operator) (children : List Nat) (stats : NodeStats)
  | setCost (id : Nat) (cost : Amount)

/-- The arena after a call. One that is refused leaves it as it was. -/
def perform (arena : Arena) : Call → Arena
  | .add op children stats =>
      match arena.add op children stats with
      | .ok (_, grown) => grown
      | .error _ => arena
  | .setCost id cost =>
      match arena.setCost id cost with
      | .ok changed => changed
      | .error _ => arena

/-- The arena that some calls build. -/
def build (calls : List Call) : Arena := calls.foldl perform empty

/-- The children of every node come before it, and are as many as its operator takes. -/
structure WellFormed (arena : Arena) : Prop where
  ordered : arena.Ordered
  accepted : ∀ (id : Nat) (node : Node),
    arena.nodes[id]? = some node → node.op.arity.accepts node.children.length = true

theorem wellFormed_empty : empty.WellFormed :=
  ⟨ordered_empty, fun id node found => absurd found (by simp [empty])⟩

namespace WellFormed

/-- Every call keeps the arena well formed. -/
theorem perform (formed : arena.WellFormed) (call : Call) : (arena.perform call).WellFormed := by
  cases call with
  | add op children stats =>
      rw [Arena.perform]
      split
      case h_1 id grown added =>
        refine ⟨formed.ordered.add added, fun other node found => ?_⟩
        obtain ⟨accepted, -, -, rfl⟩ := add_eq_ok.mp added
        rw [push, Array.getElem?_push] at found
        split at found
        · obtain rfl := Option.some.inj found
          exact accepted
        · exact formed.accepted other node found
      case h_2 => exact formed
  | setCost id cost =>
      rw [Arena.perform]
      split
      case h_1 changed noted =>
        refine ⟨formed.ordered.setCost noted, fun other node found => ?_⟩
        rw [setCost] at noted
        split at noted
        case isTrue bound =>
          obtain rfl := Except.ok.inj noted
          rw [Array.getElem?_set] at found
          split at found
          · obtain rfl := Option.some.inj found
            exact formed.accepted id arena.nodes[id] (Array.getElem?_eq_getElem bound)
          · exact formed.accepted other node found
        case isFalse => cases noted
      case h_2 => exact formed

/-- Whatever the calls are, they build a well-formed arena. -/
theorem build (calls : List Call) : (build calls).WellFormed := by
  have run : ∀ (calls : List Call) {arena : Arena}, arena.WellFormed →
      (calls.foldl Arena.perform arena).WellFormed := by
    intro calls
    induction calls with
    | nil => exact fun formed => formed
    | cons call rest ih => exact fun formed => ih (formed.perform call)
  exact run calls wellFormed_empty

end WellFormed

/-! ## Copying node by node -/

/-- Copy some nodes one after the other. -/
def copyEach (copy : Nat → Arena → Except Error (Nat × Arena)) : List Nat → Arena → Except Error (List Nat × Arena)
  | [], out => .ok ([], out)
  | id :: rest, out => do
      let (first, out) ← copy id out
      let (others, out) ← copyEach copy rest out
      return (first :: others, out)

/-- Copy a node with all that is below it to the end of `out`, children first. Every copy passes the checks that
new nodes pass. -/
def copyInto (arena : Arena) : (levels : Nat) → Nat → Arena → Except Error (Nat × Arena)
  | 0, id, _ => .error (.invalidPlan s!"unknown node {nodeText id}")
  | levels + 1, id, out => do
      let node ← arena.node id
      let (children, out) ← copyEach (fun child out => copyInto arena levels child out) node.children out
      let (copy, out) ← out.add node.op children node.stats
      match node.cost with
      | none => return (copy, out)
      | some cost => return (copy, ← out.setCost copy cost)

theorem copyEach_eq {copy : Nat → Arena → Except Error (Nat × Arena)} (held : arena.Holds ids trees)
    (each : ∀ child ∈ ids, ∀ tree out, arena.tree? child = some tree → out.Ordered →
      copy child out = .ok (out.addTree tree)) (ordered : out.Ordered) :
    copyEach copy ids out = .ok (out.addAll trees) := by
  induction held generalizing out with
  | nil => rfl
  | @cons id tree ids trees first rest ih =>
      obtain ⟨here, later⟩ := List.forall_mem_cons.mp each
      have copied := here tree out first ordered
      have copies := ih later (addTree_spec out ordered tree).1
      rw [copyEach, copied, addAll_cons]
      simp only [bind, Except.bind, copies]
      rfl

/-- In a well-formed arena copying never fails, and adds the plan below the node. -/
theorem WellFormed.copyInto_eq (formed : arena.WellFormed) (below : arena.tree? id = some tree) (more : id < levels)
    (ordered : out.Ordered) : arena.copyInto levels id out = .ok (out.addTree tree) := by
  induction levels generalizing id tree out with
  | zero => exact absurd more (Nat.not_lt_zero id)
  | succ levels ih =>
      obtain ⟨node, trees, found, held, rfl⟩ := formed.ordered.tree?_eq_some_iff.mp below
      have each : ∀ child ∈ node.children, ∀ tree out, arena.tree? child = some tree → out.Ordered →
          arena.copyInto levels child out = .ok (out.addTree tree) := by
        intro child member tree out below ordered
        have less : child < id := formed.ordered id node found child member
        exact ih below (Nat.lt_of_lt_of_le less (Nat.lt_succ_iff.mp more)) ordered
      obtain ⟨ordered', -, held'⟩ := addAll_spec out ordered trees
      have count : (out.addAll trees).1.length = node.children.length := held'.length_eq.trans held.length_eq.symm
      have added : (out.addAll trees).2.add node.op (out.addAll trees).1 node.stats =
          .ok ((out.addAll trees).2.size,
            (out.addAll trees).2.push ⟨node.op, (out.addAll trees).1, node.stats, none⟩) :=
        add_eq_ok.mpr ⟨count ▸ formed.accepted id node found, held'.lt_size, rfl, rfl⟩
      rw [copyInto, Arena.node, found, addTree_node]
      simp only [bind, Except.bind, copyEach_eq held each ordered, added]
      cases node.cost with
      | none => rfl
      | some cost =>
          simp only [setCost_push]
          rfl

/-! ## Paths -/

/-- The node at the end of a path. -/
def follow (arena : Arena) (id : Nat) : List Nat → Option Nat
  | [] => some id
  | position :: rest => do
      let node ← arena.nodes[id]?
      let child ← node.children[position]?
      arena.follow child rest

theorem follow_cons {position last : Nat} {rest : List Nat} : arena.follow id (position :: rest) = some last ↔
    ∃ node child, arena.nodes[id]? = some node ∧ node.children[position]? = some child ∧
      arena.follow child rest = some last := by
  simp only [follow, bind, Option.bind_eq_some_iff, exists_and_left]

/-- A path leads to the same node in a larger arena. -/
theorem Extends.follow {last : Nat} (grows : arena.Extends grown) (led : arena.follow id path = some last) :
    grown.follow id path = some last := by
  induction path generalizing id with
  | nil => exact led
  | cons position rest ih =>
      obtain ⟨node, child, found, taken, led⟩ := follow_cons.mp led
      exact follow_cons.mpr ⟨node, child, grows id node found, taken, ih led⟩

/-- At the end of a path there is a node if there is a plan at the end of the path in the plan below the root, and
then that is the plan below the node. -/
theorem Ordered.rel_follow (ordered : arena.Ordered) (below : arena.tree? id = some tree) (path : List Nat) :
    Option.Rel (fun last sub => arena.tree? last = some sub) (arena.follow id path) (tree.below? path) := by
  induction path generalizing id tree with
  | nil => exact .some below
  | cons position rest ih =>
      obtain ⟨node, trees, found, held, rfl⟩ := ordered.tree?_eq_some_iff.mp below
      rw [Arena.follow, found, Tree.below?, Tree.children]
      obtain ⟨missing, missing'⟩ | ⟨child, sub, taken, taken', below⟩ := held.getElem? position
      · simp only [bind, Option.bind, missing, missing']
        exact .none
      · simp only [bind, Option.bind, taken, taken']
        exact ih below

mutual

/-- The nodes that are added for a plan are at the ends of its paths, one after the other. -/
theorem follow_addTree (arena : Arena) (ordered : arena.Ordered) : (tree : Tree) →
    (arena.addTree tree).2.size = arena.size + tree.paths.length ∧
      ∀ (index : Nat) (path : List Nat), tree.paths[index]? = some path →
        (arena.addTree tree).2.follow (arena.addTree tree).1 path = some (arena.size + index)
  | .node op stats cost children => by
      obtain ⟨size, reach⟩ := follow_addAll arena ordered 0 children
      have grows := Extends.push (arena.addAll children).2 ⟨op, (arena.addAll children).1, stats, cost⟩
      rw [addTree_node, Tree.paths]
      refine ⟨?_, fun index path at_index => ?_⟩
      · rw [size_push, size, List.length_append, List.length_singleton, Nat.add_assoc]
      · rw [List.getElem?_append] at at_index
        split at at_index
        · obtain ⟨place, rest, root, rfl, taken, led⟩ := reach index path at_index
          rw [Nat.zero_add]
          exact follow_cons.mpr ⟨_, root, getElem?_push_size _ _, taken, grows.follow led⟩
        · rw [List.getElem?_singleton] at at_index
          split at at_index
          · obtain rfl := Option.some.inj at_index
            rw [follow, size]
            congr 1
            omega
          · cases at_index

/-- The nodes that are added for several plans are at the ends of their paths, one after the other. -/
theorem follow_addAll (arena : Arena) (ordered : arena.Ordered) (position : Nat) : (trees : List Tree) →
    (arena.addAll trees).2.size = arena.size + (Tree.pathsAll position trees).length ∧
      ∀ (index : Nat) (path : List Nat), (Tree.pathsAll position trees)[index]? = some path →
        ∃ place rest root, path = (position + place) :: rest ∧ (arena.addAll trees).1[place]? = some root ∧
          (arena.addAll trees).2.follow root rest = some (arena.size + index)
  | [] => ⟨rfl, fun _ _ at_index => absurd at_index (by simp [Tree.pathsAll])⟩
  | tree :: trees => by
      obtain ⟨ordered', -, -⟩ := addTree_spec arena ordered tree
      obtain ⟨size, reach⟩ := follow_addTree arena ordered tree
      obtain ⟨size', reach'⟩ := follow_addAll (arena.addTree tree).2 ordered' (position + 1) trees
      have grows := (addAll_spec (arena.addTree tree).2 ordered' trees).2.1
      rw [addAll_cons, Tree.pathsAll]
      refine ⟨?_, fun index path at_index => ?_⟩
      · rw [size', size, List.length_append, List.length_map, Nat.add_assoc]
      · rw [List.getElem?_append, List.length_map] at at_index
        split at at_index
        · rw [List.getElem?_map, Option.map_eq_some_iff] at at_index
          obtain ⟨rest, at_index, rfl⟩ := at_index
          exact ⟨0, rest, _, rfl, rfl, grows.follow (reach index rest at_index)⟩
        · obtain ⟨place, rest, root, rfl, taken, led⟩ := reach' _ path at_index
          refine ⟨place + 1, rest, root, by rw [Nat.add_right_comm, Nat.add_assoc], taken, ?_⟩
          rw [led, size]
          congr 1
          omega

end

/-! ## What is taken out -/

/-- The nodes have the same operator, the same statistics, the same cost if any, and as many children. -/
def Alike (arena : Arena) (id : Nat) (out : Arena) (copy : Nat) : Prop :=
  ∃ node node', arena.nodes[id]? = some node ∧ out.nodes[copy]? = some node' ∧ node'.op = node.op ∧
    node'.stats = node.stats ∧ node'.cost = node.cost ∧ node'.children.length = node.children.length

/-- An arena holds the plan below a node of another one and nothing else, with one node for every path. -/
structure CopyOf (arena : Arena) (id : Nat) (out : Arena) (root : Nat) : Prop where
  ordered : out.Ordered
  /-- The root is the last node. -/
  last : root + 1 = out.size
  /-- Every node is at the end of one path. -/
  one_path : ∀ copy < out.size, ∃! path, out.follow root path = some copy
  /-- The same paths can be followed, and lead to nodes that are alike. -/
  alike : ∀ path, Option.Rel (fun last copy => arena.Alike last out copy) (arena.follow id path) (out.follow root path)
  explained : out.explain root = arena.explain id

/-- A copy has a node for every path, and so may have more nodes than the arena that it was taken from. Its root has a
number of 32 bits as long as it has not more than such numbers tell apart. -/
theorem CopyOf.root_fits (copy : arena.CopyOf id out root) (small : out.size ≤ maxNodes) :
    (UInt32.ofNat root).toNat = root := by
  have last := copy.last
  have inside : root < out.nodes.size := by
    rw [← size]
    omega
  obtain ⟨fits, -⟩ := copy.ordered.fits small (Array.getElem?_eq_getElem inside)
  exact fits

/-- Nothing is shared in a copy. -/
theorem CopyOf.follow_ne {other : List Nat} (copy : arena.CopyOf id out root)
    (led : (arena.follow id path).isSome = true) (different : path ≠ other) :
    out.follow root path ≠ out.follow root other := by
  intro same
  have alike := copy.alike path
  obtain ⟨last, ends⟩ := Option.isSome_iff_exists.mp led
  rw [ends] at alike
  generalize ends' : out.follow root path = reached at alike
  cases alike with
  | @some _ reached alike =>
      obtain ⟨-, node, -, found, -⟩ := alike
      obtain ⟨bound, -⟩ := Array.getElem?_eq_some_iff.mp found
      exact different ((copy.one_path reached bound).unique ends' (same ▸ ends'))

theorem alike_of_tree? (ordered : arena.Ordered) (ordered' : out.Ordered) (below : arena.tree? id = some tree)
    (below' : out.tree? root = some tree) : arena.Alike id out root := by
  obtain ⟨node, trees, found, held, rfl⟩ := ordered.tree?_eq_some_iff.mp below
  obtain ⟨node', trees', found', held', same⟩ := ordered'.tree?_eq_some_iff.mp below'
  obtain ⟨op, stats, cost, rfl⟩ := Tree.node.inj same
  exact ⟨node, node', found, found', op.symm, stats.symm, cost.symm, held'.length_eq.trans held.length_eq.symm⟩

theorem rel_of_rel_of_rel {α β γ : Type} {first : α → γ → Prop} {second : β → γ → Prop} {both : α → β → Prop}
    {a : Option α} {b : Option β} {c : Option γ} (h : Option.Rel first a c) (h' : Option.Rel second b c)
    (join : ∀ a b c, first a c → second b c → both a b) : Option.Rel both a b := by
  cases h with
  | none =>
      cases h'
      exact .none
  | some here =>
      cases h' with
      | some there => exact .some (join _ _ _ here there)

/-- Every path that can be followed is a path of the plan. -/
theorem Ordered.mem_paths {last : Nat} (ordered : arena.Ordered) (below : arena.tree? id = some tree)
    (led : arena.follow id path = some last) : path ∈ tree.paths := by
  have rel := ordered.rel_follow below path
  rw [led] at rel
  generalize found : tree.below? path = sub at rel
  cases rel with
  | some below => exact Tree.mem_paths_iff.mpr (by rw [found, Option.isSome_some])

/-- A plan that is added to an empty arena is a copy of what it was. -/
theorem copyOf_addTree (ordered : arena.Ordered) (below : arena.tree? id = some tree) :
    arena.CopyOf id (empty.addTree tree).2 (empty.addTree tree).1 := by
  obtain ⟨ordered', -, below'⟩ := addTree_spec empty ordered_empty tree
  obtain ⟨size, reach⟩ := follow_addTree empty ordered_empty tree
  have none : empty.size = 0 := rfl
  rw [none, Nat.zero_add] at size
  simp only [none, Nat.zero_add] at reach
  refine ⟨ordered', ?_, fun copy bound => ?_, fun path => ?_, ?_⟩
  · cases tree with
    | node op stats cost children =>
        rw [addTree_node]
        exact (size_push _ _).symm
  · rw [size] at bound
    refine ⟨tree.paths[copy], reach copy _ (List.getElem?_eq_getElem bound), fun path led => ?_⟩
    obtain ⟨index, inside, rfl⟩ := List.getElem_of_mem (ordered'.mem_paths below' led)
    have same := (reach index _ (List.getElem?_eq_getElem inside)).symm.trans led
    obtain rfl := Option.some.inj same
    rfl
  · exact rel_of_rel_of_rel (ordered.rel_follow below path) (ordered'.rel_follow below' path)
      fun _ _ _ below below' => alike_of_tree? ordered ordered' below below'
  · rw [explain, explain, Arena.tree, Arena.tree, below, below']

/-- Whatever calls have built an arena, children come before their parents, and every node can be explained and
taken out. What is taken out is a copy of the plan below the node, and node by node copying gives the same. Numbers of
32 bits are enough for it if the copy has at most `maxNodes` nodes. -/
theorem exists_extract_build (calls : List Call) {id : Nat} (known : id < (build calls).size) :
    (build calls).Ordered ∧ (∃ text, (build calls).explain id = .ok text) ∧
      ∃ root out, (build calls).extract id = .ok (root, out) ∧ (build calls).CopyOf id out root ∧
        ∀ levels, id < levels → (build calls).copyInto levels id empty = .ok (root, out) := by
  have formed := WellFormed.build calls
  obtain ⟨tree, below⟩ := formed.ordered.exists_tree known
  refine ⟨formed.ordered, ⟨tree.explain, ?_⟩, (empty.addTree tree).1, (empty.addTree tree).2, ?_,
    copyOf_addTree formed.ordered below, fun levels more => formed.copyInto_eq below more ordered_empty⟩
  · rw [explain, Arena.tree, below]
    rfl
  · rw [extract, Arena.tree, below]
    rfl

/-- A join of a node with itself, beside which there is a node that nothing uses. One call was refused. -/
theorem exists_extract_build_shared :
    let stats : NodeStats := .of 10.0 4.0
    let arena := build [.add .constTable [] stats, .add .limit [7] stats, .setCost 0 ⟨5.0⟩, .add .spool [0] stats,
      .add (.hashJoin .inner [1]) [0, 0] stats]
    arena.size = 3 ∧ arena.follow 2 [0] = arena.follow 2 [1] ∧
      ∃ root out, arena.extract 2 = .ok (root, out) ∧ arena.CopyOf 2 out root ∧ out.size = 3 ∧
        out.follow root [0] ≠ out.follow root [1] := by
  intro stats arena
  have size : arena.size = 3 := by decide +kernel
  have shared : arena.follow 2 [0] = some 0 ∧ arena.follow 2 [1] = some 0 := by decide +kernel
  have count : (arena.extract 2).toOption.map (fun result => result.2.size) = some 3 := by decide +kernel
  obtain ⟨-, -, root, out, taken, copy, -⟩ := exists_extract_build _ (show 2 < arena.size by rw [size]; decide)
  refine ⟨size, shared.1.trans shared.2.symm, root, out, taken, copy, ?_, ?_⟩
  · rw [taken] at count
    exact Option.some.inj count
  · exact copy.follow_ne (Option.isSome_of_eq_some shared.1) (by decide)

end Arena

end Warehouse.Plan
