import Warehouse.Proofs.Cost.Recomputation
import Warehouse.Proofs.Search.Deliveries

/-! # What plans cost

Every node of a plan has the cost that its operator has over the plans below it, although the search reckons it
in an arena that has the nodes of all other plans too. The arena of the plan that is chosen has the nodes of
this plan only, and the same costs come out when they are computed there from the bottom. -/

namespace Warehouse.Search

open Plan Cost

variable {optimizer : Optimizer} {memo earlier : Memo} {group : Group} {space : Space} {id : GroupId}
  {required : Requirement} {proposal bare : Proposal} {distribution : Distribution} {stats : NodeStats}

/-- A node over plans whose costs are right has the right cost. -/
theorem allPriced_of_costOver {op : Operator} {cost : Amount} {inputs : List Tree}
    (below : ∀ input ∈ inputs, input.AllPriced optimizer.model)
    (costed : optimizer.costOver op stats inputs = .ok cost) :
    (Plan.Tree.node op stats (some cost) inputs).AllPriced optimizer.model := by
  rw [Optimizer.costOver] at costed
  split at costed
  · contradiction
  · exact Tree.forall_subtrees_node.mpr ⟨⟨cost, rfl, costed⟩, below⟩

theorem Optimizer.PlansForLast.allPriced
    (spaced : ∀ id required proposal, space id required proposal → proposal.tree.AllPriced optimizer.model)
    (planned : optimizer.PlansForLast earlier group space required proposal) :
    proposal.tree.AllPriced optimizer.model := by
  induction planned with
  | unsorted member planned =>
      obtain @⟨inputs, bare, _, planned, assembled, enforced⟩ := planned
      obtain ⟨cost, delivered, costed, -, rfl⟩ := assemble_eq_ok assembled
      have below := allPriced_of_costOver (List.forall_mem_map.mpr (forall_inputs spaced planned)) costed
      obtain ⟨-, rfl⟩ | ⟨motion, moving, -, moved, rfl⟩ := enforce_eq_ok enforced
      · exact below
      · exact allPriced_of_costOver (List.forall_mem_singleton.mpr below) moved
  | sorted sorts below sorted ih =>
      obtain ⟨cost, costed, rfl⟩ := sorted_eq_ok sorted
      exact allPriced_of_costOver (List.forall_mem_singleton.mpr ih) costed

/-- All costs of a plan are right. -/
theorem allPriced_of_plans (planned : optimizer.Plans memo id required proposal) :
    proposal.tree.AllPriced optimizer.model :=
  Optimizer.plans_induction (fun _ _ _ _ below planned => planned.allPriced below) planned

namespace Optimizer

/-- The plan that is chosen is alone in its arena. -/
theorem exists_addTree_of_optimize {query : Query} {plan : ChosenPlan} (h : optimizer.optimize query = .ok plan) :
    ∃ tree, plan.tree = .ok tree ∧ (plan.root, plan.arena) = Arena.empty.addTree tree := by
  obtain ⟨goal, -, h⟩ := bind_eq_ok.mp h
  obtain ⟨memo, -, h⟩ := bind_eq_ok.mp h
  obtain ⟨⟨found, later⟩, -, h⟩ := bind_eq_ok.mp h
  cases found with
  | none => exact absurd h throw_ne_ok
  | some winner =>
      obtain ⟨⟨root, arena⟩, taken, h⟩ := bind_eq_ok.mp h
      obtain rfl := pure_eq_ok.mp h
      obtain ⟨tree, -, added⟩ := map_eq_ok.mp (mapError_eq_ok.mp taken)
      obtain ⟨-, -, below⟩ := Arena.addTree_spec .empty Arena.ordered_empty tree
      rw [added] at below
      refine ⟨tree, ?_, added.symm⟩
      rw [ChosenPlan.tree, Arena.tree, below]

/-- Every node of the plan that is chosen has its cost, and when all costs are cleared and computed again from the
bottom, the same costs come out: at every node, and for the plan. -/
theorem optimize_recosted {query : Query} {plan : ChosenPlan} (h : optimizer.optimize query = .ok plan) :
    (∀ node ∈ plan.arena.nodes, ∃ cost, node.cost = some cost) ∧
      optimizer.model.treeCost plan.arena.cleared plan.root = (.ok plan.cost, plan.arena) ∧
      plan.arena.cost? plan.root = some plan.cost := by
  obtain ⟨tree, tree_eq, added⟩ := exists_addTree_of_optimize h
  obtain ⟨goal, proposal, -, best, is⟩ := optimize_eq_ok h
  obtain rfl := Except.ok.inj (tree_eq.symm.trans is.tree)
  have priced := allPriced_of_plans (plans_of_best best)
  have root_cost : proposal.tree.cost = some plan.cost := by
    rw [is.cost]
    rfl
  have root_eq : plan.root = (Arena.empty.addTree proposal.tree).1 := congrArg Prod.fst added
  have arena_eq : plan.arena = (Arena.empty.addTree proposal.tree).2 := congrArg Prod.snd added
  rw [root_eq, arena_eq]
  refine ⟨Model.exists_cost_of_mem_addTree priced, Model.treeCost_addTree priced root_cost, ?_⟩
  obtain ⟨-, -, below⟩ := Arena.addTree_spec .empty Arena.ordered_empty proposal.tree
  obtain ⟨node, found, -, -, same⟩ := Arena.exists_node_of_tree? below
  rw [Arena.cost?, found, Option.bind_some, same, root_cost]

/-- Two scans, a join, a motion and an aggregate get the costs again that they had. -/
theorem optimize_recosted_countCrossed : ∃ plan, fourSegments.optimize countCrossed = .ok plan ∧
    plan.arena.size = 5 ∧ (∀ node ∈ plan.arena.nodes, ∃ cost, node.cost = some cost) ∧
      fourSegments.model.treeCost plan.arena.cleared plan.root = (.ok plan.cost, plan.arena) ∧
      plan.arena.cost? plan.root = some plan.cost := by
  have evaluated : (fun plan => plan.arena.size) <$> fourSegments.optimize countCrossed = .ok 5 := by decide +kernel
  obtain ⟨plan, chosen, five⟩ := map_eq_ok.mp evaluated
  exact ⟨plan, chosen, five, optimize_recosted chosen⟩

end Optimizer

end Warehouse.Search
