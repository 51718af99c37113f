import Warehouse.Proofs.Plan.Subtrees
import Warehouse.Proofs.Search.Placements

/-! # What plans deliver

`Tree.delivered` is how the rows of a plan lie as far as its operators tell: what an aggregation gives lies by
the columns that it groups by, and what a hash join gives by the keys of its outer side unless the inner side
is copied. It is what the search takes the rows of its plans to do, so that every operator gets from its
inputs what it demands of them, and nothing is moved that lies well already. -/

namespace Warehouse

open Plan Cost

namespace Plan

/-- The key columns of the outer side of a join, among those of both sides. -/
def outerColumns (columns : List ColumnId) : List ColumnId := columns.take (columns.length / 2)

/-- The key columns of the inner side of a join, among those of both sides. -/
def innerColumns (columns : List ColumnId) : List ColumnId := columns.drop (columns.length / 2)

/-- How the rows that an operator gives lie, over inputs that lie in the given ways. -/
def Operator.delivers : Operator → List Distribution → Distribution
  | .scan table _ _, _ => table.distribution
  | .motion kind, _ => kind.target
  | .aggregate _ _ columns _ _, _ => .hashed columns
  | .scalarAgg _ _, _ => .singleton
  | .hashJoin _ columns, [outer, inner] => if inner = .replicated then outer else .hashed (outerColumns columns)
  | _, inputs => inputs.headD .any

namespace Tree

mutual

/-- How the rows of a plan lie as far as its operators tell. -/
def delivered : Tree → Distribution
  | node op _ _ children => op.delivers (deliveredAll children)

/-- How the rows of several plans lie. -/
def deliveredAll : List Tree → List Distribution
  | [] => []
  | tree :: rest => delivered tree :: deliveredAll rest

end

variable {op : Operator} {stats : NodeStats} {cost : Option Amount} {children : List Tree}

theorem deliveredAll_eq (trees : List Tree) : deliveredAll trees = trees.map delivered := by
  induction trees with
  | nil => rfl
  | cons tree rest ih => rw [deliveredAll, ih, List.map_cons]

theorem delivered_node : (node op stats cost children).delivered = op.delivers (children.map delivered) := by
  rw [delivered, deliveredAll_eq]

end Tree

/-- The inputs of an operator give it what it needs. The inner side of a join is copied, or both sides lie by
the keys; grouping finds its rows by the columns that it groups by, and sorted if it needs them so; and
rows are moved only if they do not lie already where they are to be. -/
def Operator.Served (inputs : List Tree) : Operator → Prop
  | .scan .. => inputs = []
  | .filter _ => ∃ input, inputs = [input]
  | .sort _ => ∃ input, inputs = [input]
  | .loopJoin .. => ∃ outer inner, inputs = [outer, inner] ∧ inner.delivered = .replicated
  | .hashJoin _ columns => ∃ outer inner, inputs = [outer, inner] ∧ (inner.delivered = .replicated ∨
      outer.delivered.satisfies (.hashed (outerColumns columns)) = true ∧
        inner.delivered.satisfies (.hashed (innerColumns columns)) = true)
  | .aggregate kind _ columns _ _ => ∃ input, inputs = [input] ∧
      input.delivered.satisfies (.hashed columns) = true ∧
        (kind = .stream → ∃ stats cost below, input = .node (.sort columns) stats cost [below])
  | .scalarAgg .. => ∃ input, inputs = [input] ∧ input.delivered = .singleton
  | .motion kind => ∃ input, inputs = [input] ∧ input.delivered.satisfies kind.target = false
  | _ => False

/-- The operator at the root of a plan gets what it needs. -/
def Tree.Served : Tree → Prop
  | node op _ _ inputs => op.Served inputs

end Plan

namespace Search

open Query

variable {optimizer : Optimizer} {memo earlier : Memo} {group : Group} {space : Space} {id : GroupId}
  {required : Requirement} {proposal bare : Proposal} {expr : GroupExpr} {alternative : Alternative}
  {distribution : Distribution} {inputs : List Proposal} {rule : Rule} {rules : List Rule}

theorem outerColumns_keyColumns (keys : List JoinKey) : outerColumns (keyColumns keys) = keys.map JoinKey.left := by
  have half : (keyColumns keys).length / 2 = (keys.map JoinKey.left).length := by
    simp only [keyColumns, List.length_append, List.length_map]
    omega
  rw [outerColumns, half, keyColumns, List.take_left]

theorem innerColumns_keyColumns (keys : List JoinKey) : innerColumns (keyColumns keys) = keys.map JoinKey.right := by
  have half : (keyColumns keys).length / 2 = (keys.map JoinKey.left).length := by
    simp only [keyColumns, List.length_append, List.length_map]
    omega
  rw [innerColumns, half, keyColumns, List.drop_left]

/-- An alternative that groups sorted rows demands that they are sorted. -/
def Alternative.Sorts (alternative : Alternative) : Prop :=
  ∀ deduplicates columns stage generatesDuplicates,
    alternative.op = .aggregate .stream deduplicates columns stage generatesDuplicates →
      ∃ input, alternative.inputs = [⟨input, .exact ⟨.hashed columns, columns⟩⟩]

theorem Alternative.sorts_of_mem (member : alternative ∈ rule.alternatives memo id expr) : alternative.Sorts := by
  intro deduplicates columns stage generatesDuplicates op_eq
  cases offered_of_mem member with
  | scan => contradiction
  | indexed => contradiction
  | filter => contradiction
  | scalar => contradiction
  | together => contradiction
  | copied joins => cases joins <;> contradiction
  | @grouped _ grouping _ _ _ _ groups =>
      have filled : grouping.isEmpty = false := by simpa using groups
      cases rule with
      | hashAgg =>
          simp only [Rule.alternatives, hashAggAlternatives, filled, Bool.false_eq_true, if_false] at member
          obtain ⟨-, same, -⟩ := Alternative.mk.inj (List.mem_singleton.mp member)
          exact absurd (Operator.aggregate.inj (same.symm.trans op_eq)).1 (by decide)
      | streamAgg =>
          simp only [Rule.alternatives, streamAggAlternatives, filled, Bool.false_eq_true, if_false] at member
          obtain ⟨-, same, inputs_eq, -⟩ := Alternative.mk.inj (List.mem_singleton.mp member)
          obtain ⟨-, -, rfl, -, -⟩ := Operator.aggregate.inj op_eq
          exact ⟨_, inputs_eq⟩
      | _ => contradiction

/-- The rows of a plan lie where the search takes them to lie, and so do those of all plans below. -/
structure Proposal.Delivers (proposal : Proposal) : Prop where
  served : ∀ below ∈ proposal.tree.subtrees, below.Served
  delivered : proposal.tree.delivered = proposal.distribution

/-- A plan delivers what is required. -/
structure Proposal.DeliversAs (required : Requirement) (proposal : Proposal) : Prop extends proposal.Delivers where
  satisfies : proposal.distribution.satisfies required.distribution = true
  sorted : required.sort ≠ [] → ∃ below, proposal.op = .sort required.sort ∧ proposal.inputs = [below]

theorem Proposal.DeliversAs.delivered_satisfies (delivers : proposal.DeliversAs required) :
    proposal.tree.delivered.satisfies required.distribution = true :=
  delivers.delivered ▸ delivers.satisfies

theorem Proposal.delivers_of_node (here : proposal.tree.Served)
    (below : ∀ child ∈ proposal.inputs, ∀ sub ∈ child.subtrees, sub.Served)
    (delivered : proposal.op.delivers (proposal.inputs.map Tree.delivered) = proposal.distribution) :
    proposal.Delivers := by
  constructor
  · exact Tree.forall_subtrees_node.mpr ⟨here, below⟩
  · rw [tree, Tree.delivered_node, delivered]

/-- A plan with an alternative at its root delivers what the search says when the plans for its inputs deliver
what the alternative demands. -/
theorem Offered.delivers (offered : Offered memo id expr alternative) (sorts : alternative.Sorts)
    (deliver : List.Forall₂ (fun request input => Proposal.DeliversAs (request.demand.under distribution) input)
      alternative.inputs inputs)
    (assembled : optimizer.assemble group alternative inputs = .ok bare) : bare.Delivers := by
  obtain ⟨cost, given, -, delivered, rfl⟩ := Optimizer.assemble_eq_ok assembled
  cases offered with
  | scan =>
      obtain rfl := List.forall₂_nil_left_iff.mp deliver
      exact Proposal.delivers_of_node rfl (by simp) (Except.ok.inj delivered)
  | indexed selects answers =>
      obtain rfl := List.forall₂_nil_left_iff.mp deliver
      exact Proposal.delivers_of_node rfl (by simp) (Except.ok.inj delivered)
  | filter =>
      obtain _ | ⟨input, _ | _⟩ := deliver
      refine Proposal.delivers_of_node ⟨_, rfl⟩ (by simpa using input.served) ?_
      exact input.delivered.trans (Except.ok.inj delivered)
  | copied joins =>
      obtain _ | @⟨_, first, _, _, outer, _ | @⟨_, second, _, _, inner, _ | _⟩⟩ := deliver
      have copy : second.tree.delivered = .replicated :=
        Distribution.eq_of_satisfies_replicated inner.delivered_satisfies
      have below : ∀ child ∈ [first.tree, second.tree], ∀ sub ∈ child.subtrees, sub.Served := by
        simpa using ⟨outer.served, inner.served⟩
      have given_eq : first.tree.delivered = given := outer.delivered.trans (Except.ok.inj delivered)
      cases joins with
      | hash keyed =>
          refine Proposal.delivers_of_node ⟨_, _, rfl, .inl copy⟩ below ?_
          simp only [List.map_cons, List.map_nil, Operator.delivers, copy, if_true, given_eq]
      | loop => exact Proposal.delivers_of_node ⟨_, _, rfl, copy⟩ below given_eq
  | @together _ keys _ _ keyed =>
      obtain _ | @⟨_, first, _, _, outer, _ | @⟨_, second, _, _, inner, _ | _⟩⟩ := deliver
      have left := outer.delivered_satisfies
      have right := inner.delivered_satisfies
      refine Proposal.delivers_of_node ⟨_, _, rfl, .inr ?_⟩ (by simpa using ⟨outer.served, inner.served⟩) ?_
      · rw [outerColumns_keyColumns, innerColumns_keyColumns]
        exact ⟨left, right⟩
      · -- rows that lie by the keys are not copied
        have apart : second.tree.delivered ≠ .replicated := by
          intro copy
          rw [copy] at right
          contradiction
        simp only [List.map_cons, List.map_nil, Operator.delivers, if_neg apart, outerColumns_keyColumns]
        exact Except.ok.inj delivered
  | scalar =>
      obtain _ | ⟨input, _ | _⟩ := deliver
      have one := Distribution.eq_of_satisfies_singleton input.delivered_satisfies
      exact Proposal.delivers_of_node ⟨_, rfl, one⟩ (by simpa using input.served) (Except.ok.inj delivered)
  | @grouped _ grouping _ _ _ kind groups =>
      obtain _ | @⟨_, first, _, _, input, _ | _⟩ := deliver
      refine Proposal.delivers_of_node ⟨_, rfl, input.delivered_satisfies, ?_⟩ (by simpa using input.served)
        (Except.ok.inj delivered)
      rintro rfl
      obtain ⟨_, inputs_eq⟩ := sorts _ _ _ _ rfl
      obtain ⟨-, demand_eq⟩ := Request.mk.inj (List.cons.inj inputs_eq).1
      obtain ⟨-, rfl⟩ := Requirement.mk.inj (Demand.exact.inj demand_eq)
      obtain ⟨below, op_eq, below_eq⟩ := input.sorted groups
      refine ⟨first.stats, some first.cost, below, ?_⟩
      rw [Proposal.tree, op_eq, below_eq]
      rfl

/-- A motion makes a plan deliver what is required. -/
theorem Proposal.Delivers.enforce {stats : NodeStats} (delivers : bare.Delivers)
    (enforced : optimizer.enforce stats distribution bare = .ok proposal) :
    proposal.DeliversAs (.distributed distribution) := by
  obtain ⟨unmoved, rfl⟩ | ⟨motion, cost, moved, -, rfl⟩ := Optimizer.enforce_eq_ok enforced
  · exact ⟨delivers, satisfies_of_motionBetween unmoved, fun sorts => absurd rfl sorts⟩
  · have target : motion.target = distribution := target_of_motionBetween moved
    have needed : bare.distribution.satisfies distribution = false := by
      rw [Optimizer.motionBetween] at moved
      split at moved
      · contradiction
      · rename_i unsatisfied
        exact Bool.eq_false_iff.mpr unsatisfied
    refine ⟨Proposal.delivers_of_node ⟨_, rfl, ?_⟩ (by simpa using delivers.served) target,
      Distribution.satisfies_self _, fun sorts => absurd rfl sorts⟩
    rw [target, delivers.delivered]
    exact needed

/-- A sort leaves the rows of a plan where they lie. -/
theorem Proposal.DeliversAs.sort {stats : NodeStats} {columns : List ColumnId} {top : Proposal}
    (delivers : proposal.DeliversAs (.distributed distribution))
    (sorted : optimizer.sorted stats columns proposal = .ok top) : top.DeliversAs ⟨distribution, columns⟩ := by
  obtain ⟨cost, -, rfl⟩ := Optimizer.sorted_eq_ok sorted
  exact ⟨Proposal.delivers_of_node ⟨_, rfl⟩ (by simpa using delivers.served) delivers.delivered,
    delivers.satisfies, fun _ => ⟨_, rfl, rfl⟩⟩

theorem Optimizer.PlansForLast.delivers
    (spaced : ∀ id required proposal, space id required proposal → proposal.DeliversAs required)
    (planned : optimizer.PlansForLast earlier group space required proposal) : proposal.DeliversAs required := by
  induction planned with
  | unsorted member planned =>
      obtain ⟨planned, assembled, enforced⟩ := planned
      obtain ⟨expr, -, member⟩ := List.mem_flatMap.mp member
      obtain ⟨rule, -, member⟩ := List.mem_flatMap.mp member
      have deliver := planned.imp fun _ _ planned => spaced _ _ _ planned
      exact ((offered_of_mem member).delivers (Alternative.sorts_of_mem member) deliver assembled).enforce enforced
  | sorted sorts below sorted ih => exact ih.sort sorted

/-- Every plan delivers what is required of it, and all its operators get what they need. -/
theorem deliversAs_of_plans (planned : optimizer.Plans memo id required proposal) : proposal.DeliversAs required :=
  Optimizer.plans_induction (fun _ _ _ _ below planned => planned.delivers below) planned

/-- The plan that is chosen for a query delivers all rows in one place. All its operators get from their
inputs what they need, and no rows are moved that lie already where they are to be. -/
theorem Optimizer.optimize_serves {query : Query} {plan : ChosenPlan} (h : optimizer.optimize query = .ok plan) :
    ∃ tree, plan.tree = .ok tree ∧ tree.delivered = .singleton ∧ ∀ below ∈ tree.subtrees, below.Served := by
  obtain ⟨goal, proposal, -, best, is⟩ := optimize_eq_ok h
  have delivers := deliversAs_of_plans (plans_of_best best)
  refine ⟨proposal.tree, is.tree, ?_, delivers.served⟩
  exact Distribution.eq_of_satisfies_singleton delivers.delivered_satisfies

/-- How many pairs of rows there are. -/
def countCrossed : Query :=
  ⟨crossed.tables, .aggregate [] [⟨"count", none⟩] crossed.expr (.of 1.0 8.0)⟩

/-- The two tables are scanned and joined where they lie, a motion gathers the pairs in one place, and there the
aggregate counts them. -/
theorem Optimizer.optimize_serves_countCrossed : ∃ plan, fourSegments.optimize countCrossed = .ok plan ∧
    ∃ tree, plan.tree = .ok tree ∧ tree.delivered = .singleton ∧ ∀ below ∈ tree.subtrees, below.Served := by
  obtain ⟨plan, chosen⟩ : ∃ plan, fourSegments.optimize countCrossed = .ok plan :=
    exists_eq_ok (by decide +kernel)
  exact ⟨plan, chosen, optimize_serves chosen⟩

end Search

end Warehouse
