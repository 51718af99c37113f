import Warehouse.Plan.Tree

/-! # The subtrees of a plan

What is said of every operator of a plan is said of the root of every subtree. -/

namespace Warehouse.Plan.Tree

open Cost

mutual

/-- A plan and all the plans below its root, parents first. -/
def subtrees : Tree → List Tree
  | node op stats cost children => node op stats cost children :: subtreesAll children

/-- All subtrees of several plans. -/
def subtreesAll : List Tree → List Tree
  | [] => []
  | tree :: rest => subtrees tree ++ subtreesAll rest

end

variable {op : Operator} {stats : NodeStats} {cost : Option Amount} {children : List Tree}

theorem subtreesAll_eq (trees : List Tree) : subtreesAll trees = trees.flatMap subtrees := by
  induction trees with
  | nil => rfl
  | cons tree rest ih => rw [subtreesAll, ih, List.flatMap_cons]

theorem subtrees_node :
    (node op stats cost children).subtrees = node op stats cost children :: children.flatMap subtrees := by
  rw [subtrees, subtreesAll_eq]

/-- A plan is its own subtree. -/
theorem mem_subtrees_self (tree : Tree) : tree ∈ tree.subtrees := by
  cases tree with
  | node op stats cost children =>
      rw [subtrees_node]
      exact List.mem_cons_self

/-- A subtree of a child is a subtree. -/
theorem mem_subtrees_of_child {child below : Tree} (member : child ∈ children) (sub : below ∈ child.subtrees) :
    below ∈ (node op stats cost children).subtrees := by
  rw [subtrees_node]
  exact List.mem_cons_of_mem _ (List.mem_flatMap.mpr ⟨child, member, sub⟩)

/-- What holds of a plan and of all subtrees of the plans below its root holds of all its subtrees. -/
theorem forall_subtrees_node {holds : Tree → Prop} :
    (∀ below ∈ (node op stats cost children).subtrees, holds below) ↔
      holds (node op stats cost children) ∧ ∀ child ∈ children, ∀ below ∈ child.subtrees, holds below := by
  constructor
  · intro all
    exact ⟨all _ (mem_subtrees_self _), fun child member sub sub_of => all sub (mem_subtrees_of_child member sub_of)⟩
  · rintro ⟨here, below⟩
    rw [subtrees_node, List.forall_mem_cons]
    refine ⟨here, fun sub member => ?_⟩
    obtain ⟨child, member, sub_of⟩ := List.mem_flatMap.mp member
    exact below child member sub sub_of

/-- The names of the tables that a plan reads, once for every time that it does, from left to right. -/
def tables (tree : Tree) : List String :=
  tree.subtrees.filterMap fun below => below.op.table?.map Table.name

theorem tables_node : (node op stats cost children).tables =
    (op.table?.map Table.name).toList ++ children.flatMap tables := by
  rw [tables, subtrees_node, List.filterMap_cons, List.filterMap_flatMap]
  simp only [Tree.op]
  cases op.table? with
  | none => rfl
  | some table => rfl

/-- An operator that reads no table reads the tables of its inputs. -/
theorem tables_of_reads_none (reads : op.table? = none) :
    (node op stats cost children).tables = children.flatMap tables := by
  rw [tables_node, reads]
  rfl

end Warehouse.Plan.Tree
