import Warehouse.Cost.Model
import Warehouse.Proofs.Outcomes
import Warehouse.Proofs.Plan.Arenas

/-! # The one way in which costing fails

What an operator costs over as many children as it takes, all of which have their costs, is an amount, unless
the amount would be negative or not a number. -/

namespace Warehouse.Cost

open Plan

/-- Nothing fails but an assertion about an amount. -/
abbrev Asserted {α : Type} : Except Fault α → Prop := Ends .failedAssertion fun _ => True

variable {model : Model} {costing : Costing} {arena : Arena} {id : Nat}

theorem asserted_ofFloat (value : Float) : Asserted (Amount.ofFloat value) := by
  rw [Amount.ofFloat]
  split
  · exact .ok trivial
  · exact .error

/-- A skew factor of one hundred at most is not the smallest signed word, and has a multiplier. -/
theorem skewFactorMultiplier_eq_ok {factor : UInt32} (small : factor.toNat ≤ 100) :
    ∃ multiplier, skewFactorMultiplier factor = .ok multiplier := by
  have signed : factor.toInt32.toInt ≠ Int32.minValue.toInt := by
    have whole : factor.toInt32.toInt = factor.toNat := by
      apply BitVec.toInt_eq_toNat_of_lt
      change 2 * factor.toNat < 4294967296
      omega
    have least : Int32.minValue.toInt = -2147483648 := rfl
    omega
  rw [skewFactorMultiplier]
  simp only [if_neg signed]
  exact ⟨_, rfl⟩

namespace SkewPolicy

variable {policy : SkewPolicy}

theorem raise_eq_ok (small : policy.skewFactor.toNat ≤ 100) (ratio : Float) (input : RedistributedInput) :
    ∃ raised, policy.raise ratio input = .ok raised := by
  obtain ⟨multiplier, known⟩ := skewFactorMultiplier_eq_ok small
  rw [raise]
  simp only [known]
  split
  · exact ⟨_, rfl⟩
  · exact ⟨_, rfl⟩

/-- Whatever inputs there are, they have a skew ratio. -/
theorem ratio_eq_ok (small : policy.skewFactor.toNat ≤ 100) (inputs : List RedistributedInput) :
    ∃ ratio, policy.ratio inputs = .ok ratio := by
  have folded : ∀ ratio, ∃ raised, inputs.foldlM policy.raise ratio = .ok raised := by
    induction inputs with
    | nil => exact fun ratio => ⟨ratio, rfl⟩
    | cons input rest ih =>
        intro ratio
        obtain ⟨raised, first⟩ := raise_eq_ok small ratio input
        obtain ⟨last, later⟩ := ih raised
        exact ⟨last, bind_eq_ok.mpr ⟨raised, first, later⟩⟩
  obtain ⟨raised, folded⟩ := folded 1.0
  exact ⟨_, map_eq_ok.mpr ⟨raised, folded, rfl⟩⟩

end SkewPolicy

namespace Costing

theorem child_eq_ok {position : Nat} (bound : position < costing.children.length) :
    ∃ child, costing.child position = .ok child := by
  rw [child, List.getElem?_eq_getElem bound]
  exact ⟨_, rfl⟩

/-- Children that all have their costs are found with these. -/
theorem exists_childrenOf {ids : List Nat}
    (costed : ∀ child ∈ ids, ∃ node cost, arena.nodes[child]? = some node ∧ node.cost = some cost) :
    ∃ children, childrenOf arena id ids = .ok children ∧ children.length = ids.length := by
  induction ids with
  | nil => exact ⟨[], rfl, rfl⟩
  | cons child rest ih =>
      obtain ⟨⟨node, cost, found, known⟩, costed⟩ := List.forall_mem_cons.mp costed
      obtain ⟨children, later, length⟩ := ih costed
      refine ⟨⟨node.op, node.stats, cost⟩ :: children, ?_, congrArg Nat.succ length⟩
      simp only [childrenOf, Arena.node, found, known, later, bind, Except.bind]
      rfl

end Costing

namespace Model

/-- An operator with children has a cost of its own over as many children as it takes. -/
theorem localCost_eq_ok {op : Operator} (accepts : op.arity.accepts costing.children.length = true) :
    ∃ own, model.localCost costing op = .ok own := by
  have one (exactly : op.arity = .exactly 1) : ∃ child, costing.child 0 = .ok child := by
    rw [exactly, Arity.accepts, beq_iff_eq] at accepts
    exact Costing.child_eq_ok (by omega)
  have two (exactly : op.arity = .exactly 2) : ∃ outer inner, costing.child 0 = .ok outer ∧
      costing.child 1 = .ok inner := by
    rw [exactly, Arity.accepts, beq_iff_eq] at accepts
    obtain ⟨outer, first⟩ := Costing.child_eq_ok (show 0 < costing.children.length by omega)
    obtain ⟨inner, second⟩ := Costing.child_eq_ok (show 1 < costing.children.length by omega)
    exact ⟨outer, inner, first, second⟩
  cases op with
  | filter | sequenceProject | modify | scalarAgg | motion =>
      obtain ⟨child, known⟩ := one rfl
      simp only [localCost, known]
      exact ⟨_, rfl⟩
  | cteProducer =>
      obtain ⟨child, known⟩ := one rfl
      simp only [localCost, known, bind, Except.bind]
      split
      · exact ⟨_, rfl⟩
      · exact ⟨_, rfl⟩
      · exact ⟨_, rfl⟩
  | aggregate kind =>
      obtain ⟨child, known⟩ := one rfl
      simp only [localCost, known]
      cases kind with
      | hash => exact ⟨_, rfl⟩
      | stream => exact ⟨_, rfl⟩
  | hashJoin | mergeJoin | indexJoin | loopJoin =>
      obtain ⟨outer, inner, first, second⟩ := two rfl
      simp only [localCost, first, second]
      exact ⟨_, rfl⟩
  | _ => exact ⟨_, rfl⟩

theorem asserted_hashJoinCost (small : model.skewFactor.toNat ≤ 100) (own : Float) (below : Amount) :
    Asserted (model.hashJoinCost costing own below) := by
  rw [hashJoinCost]
  split
  · exact asserted_ofFloat _
  · have skew : ∃ ratio, model.skewRatio costing.children = .ok ratio := by
      rw [skewRatio]
      split
      · exact SkewPolicy.ratio_eq_ok small _
      · exact ⟨1.0, rfl⟩
    obtain ⟨ratio, known⟩ := skew
    rw [known]
    exact (asserted_ofFloat (own * ratio)).bind fun _ _ => .ok trivial

theorem asserted_combine {below : Except Fault Amount} (small : model.skewFactor.toNat ≤ 100)
    (costed : Asserted below) (own : Float) (op : Operator) : Asserted (model.combine costing own below op) := by
  have scaled (factor : Float) : Asserted (do
      let total ← Amount.ofFloat (own + (← below).value)
      total.scale factor) :=
    costed.bind fun _ _ => (asserted_ofFloat _).bind fun _ _ => asserted_ofFloat _
  cases op with
  | hashJoin => exact costed.bind fun _ _ => asserted_hashJoinCost small own _
  | indexJoin => exact scaled _
  | loopJoin => exact scaled _
  | _ => exact (asserted_ofFloat own).bind fun _ _ => costed.bind fun _ _ => .ok trivial

theorem ends_ofFault {α : Type} {x : Except Fault α} (h : Asserted x) :
    Ends (.fault .failedAssertion) (fun _ => True) (Failure.ofFault x) := by
  cases h with
  | ok => exact .ok trivial
  | error => exact .error

/-- What an operator costs over as many children as it takes is an amount, or no assertion about it holds. -/
theorem ends_operatorCost {op : Operator} (small : model.skewFactor.toNat ≤ 100)
    (accepts : op.arity.accepts costing.children.length = true) :
    Ends (.fault .failedAssertion) (fun _ => True) (model.operatorCost arena id op costing) := by
  obtain ⟨own, known⟩ : ∃ own, model.localCost costing op = .ok own := localCost_eq_ok accepts
  have computed : Ends (.fault .failedAssertion) (fun _ => True)
      (Failure.ofFault (model.combine costing own (model.childrenCost arena id op costing) op)) :=
    ends_ofFault (asserted_combine small (asserted_ofFloat _) own op)
  unfold operatorCost
  split
  · exact ends_ofFault (asserted_ofFloat _)
  · cases op with
    | parallelUnion => exact .ok trivial
    | _ => simpa only [known] using computed

/-- So is what a node costs whose children have their costs. -/
theorem ends_nodeCost {node : Node} (small : model.skewFactor.toNat ≤ 100)
    (found : arena.nodes[id]? = some node) (accepts : node.op.arity.accepts node.children.length = true)
    (costed : ∀ child ∈ node.children, ∃ below cost, arena.nodes[child]? = some below ∧ below.cost = some cost) :
    Ends (.fault .failedAssertion) (fun _ => True) (model.nodeCost arena id) := by
  obtain ⟨children, children_eq, length⟩ : ∃ children, Costing.childrenOf arena id node.children = .ok children ∧
      children.length = node.children.length := Costing.exists_childrenOf costed
  have read : arena.node id = .ok node := by rw [Arena.node, found]
  have costing : Costing.ofNode arena id = .ok ⟨node.stats, children⟩ := by
    simp only [Costing.ofNode, read, children_eq, bind, Except.bind]
    rfl
  rw [nodeCost, read, costing]
  exact ends_operatorCost small (length ▸ accepts)

end Model

end Warehouse.Cost
