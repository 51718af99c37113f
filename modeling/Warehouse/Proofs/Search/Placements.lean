import Mathlib.Data.List.Perm.Subperm
import Warehouse.Proofs.Search.Alternatives
import Warehouse.Proofs.Search.Remembering
import Warehouse.Proofs.Search.Spaces

/-! # Where the rows of plans lie

Scans and motions determine where rows lie, and all other operators leave the rows where their first input
has them. `Tree.Collects` says that every operator of a plan finds the rows that it needs together: the rows
of a group in one place, and for every row of a join's outer side the inner side's rows with its keys, as far
as requirements for columns tell, which do not look at the order of the columns. -/

namespace Warehouse

open Plan Cost

namespace Plan

/-- Where a motion sends rows. -/
def Motion.target : Motion → Distribution
  | .gather => .singleton
  | .broadcast _ => .replicated
  | .redistribute columns _ => .hashed columns
  | .random => .random
  | .routed => .random

/-- Where the rows of a plan lie. -/
def Tree.placement : Tree → Distribution
  | .node (.scan table _ _) _ _ _ => table.distribution
  | .node (.motion kind) _ _ _ => kind.target
  | .node _ _ _ (first :: _) => placement first
  | .node _ _ _ [] => .any

namespace Distribution

variable {given required : Distribution} {wanted : List ColumnId}

theorem satisfies_self (given : Distribution) : given.satisfies given = true := by
  cases given with
  | hashed columns => simp [satisfies]
  | _ => rfl

theorem satisfies_hashed_iff : given.satisfies (.hashed wanted) = true ↔
    ∃ present, given = .hashed present ∧ present.length = wanted.length ∧ wanted ⊆ present := by
  cases given with
  | hashed present =>
      rw [satisfies, Bool.and_eq_true, beq_iff_eq, List.all_eq_true]
      constructor
      · rintro ⟨length, subset⟩
        exact ⟨present, rfl, length.symm, fun column member => by simpa using subset column member⟩
      · rintro ⟨_, ⟨rfl⟩, length, subset⟩
        exact ⟨length.symm, fun column member => by simpa using subset member⟩
  | _ => simp [satisfies]

theorem satisfies_trans {between : Distribution} (first : given.satisfies between = true)
    (second : between.satisfies required = true) : given.satisfies required = true := by
  cases required with
  | hashed wanted =>
      obtain ⟨middle, rfl, length, subset⟩ := satisfies_hashed_iff.mp second
      obtain ⟨present, rfl, length', subset'⟩ := satisfies_hashed_iff.mp first
      exact satisfies_hashed_iff.mpr ⟨present, rfl, length'.trans length, fun _ member => subset' (subset member)⟩
  | any => rfl
  | _ => cases between <;> first | contradiction | exact first

theorem eq_of_satisfies_replicated (h : given.satisfies .replicated = true) : given = .replicated := by
  cases given <;> first | rfl | contradiction

theorem eq_of_satisfies_singleton (h : given.satisfies .singleton = true) : given = .singleton := by
  cases given <;> first | rfl | contradiction

/-- Rows that are to lie by different columns lie by these, in some order. -/
theorem exists_perm_of_satisfies (different : wanted.Nodup) (h : given.satisfies (.hashed wanted) = true) :
    ∃ present, given = .hashed present ∧ wanted.Perm present := by
  obtain ⟨present, rfl, length, subset⟩ := satisfies_hashed_iff.mp h
  exact ⟨present, rfl, (List.subperm_of_subset different subset).perm_of_length_le (Nat.le_of_eq length)⟩

/-- The order may be another one on the two sides of a join. -/
example : (hashed [1, 2]).satisfies (hashed [1, 2]) = true ∧ (hashed [4, 3]).satisfies (hashed [3, 4]) = true := by
  decide

end Distribution

end Plan

namespace Search

open Query

/-- The inputs of an operator lie so that it finds the rows that belong together. -/
inductive Collects : Operator → List Distribution → Prop
  | scan {table : Table} {scanId : Option Nat} {access : Access} : Collects (.scan table scanId access) []
  | filter {columns : List ColumnId} {input : Distribution} : Collects (.filter columns) [input]
  | sort {columns : List ColumnId} {input : Distribution} : Collects (.sort columns) [input]
  | motion {kind : Motion} {input : Distribution} : Collects (.motion kind) [input]
  | copied {keys : List JoinKey} {op : Operator} {outer : Distribution} (joins : Joins keys op) :
      Collects op [outer, .replicated]
  | together {keys : List JoinKey} {outer inner : Distribution} (keyed : keys ≠ [])
      (left : outer.satisfies (.hashed (keys.map JoinKey.left)) = true)
      (right : inner.satisfies (.hashed (keys.map JoinKey.right)) = true) :
      Collects (.hashJoin .inner (keyColumns keys)) [outer, inner]
  | scalar {columns functions : Nat} : Collects (.scalarAgg columns functions) [.singleton]
  | grouped {grouping : List ColumnId} {kind : Grouping} {input : Distribution}
      (groups : input.satisfies (.hashed grouping) = true) :
      Collects (.aggregate kind false grouping .global false) [input]

/-- All operators of a plan find the rows that belong together. -/
inductive Collected : Tree → Prop
  | node {op : Operator} {stats : NodeStats} {cost : Option Amount} {children : List Tree}
      (here : Collects op (children.map Tree.placement)) (below : ∀ child ∈ children, Collected child) :
      Collected (.node op stats cost children)

/-- The rows of a plan lie where the search takes them to lie. -/
structure Proposal.Lies (proposal : Proposal) : Prop where
  collected : Collected proposal.tree
  placed : proposal.tree.placement.satisfies proposal.distribution = true

/-- The rows of a plan lie where they are required to lie. -/
def Proposal.LiesAs (required : Requirement) (proposal : Proposal) : Prop :=
  proposal.Lies ∧ proposal.distribution.satisfies required.distribution = true

theorem Proposal.LiesAs.placement {required : Requirement} {proposal : Proposal}
    (lies : proposal.LiesAs required) : proposal.tree.placement.satisfies required.distribution = true :=
  Distribution.satisfies_trans lies.1.placed lies.2

variable {optimizer : Optimizer} {memo earlier : Memo} {group : Group} {space : Space} {id : GroupId}
  {required : Requirement} {proposal bare : Proposal} {expr : GroupExpr} {alternative : Alternative}
  {distribution : Distribution} {inputs : List Proposal}

/-- A plan with an alternative at its root lies as the search says when the plans for its inputs lie as
the alternative demands. -/
theorem Offered.lies (offered : Offered memo id expr alternative)
    (lie : List.Forall₂ (fun request input => Proposal.LiesAs (request.demand.under distribution) input)
      alternative.inputs inputs)
    (assembled : optimizer.assemble group alternative inputs = .ok bare) : bare.Lies := by
  obtain ⟨cost, -, assembled⟩ := bind_eq_ok.mp assembled
  obtain ⟨given, delivered, assembled⟩ := bind_eq_ok.mp assembled
  have delivered := mapError_eq_ok.mp delivered
  obtain rfl := pure_eq_ok.mp assembled
  cases offered with
  | scan =>
      obtain rfl := List.forall₂_nil_left_iff.mp lie
      obtain rfl := Except.ok.inj delivered
      exact ⟨.node .scan (by simp), Distribution.satisfies_self _⟩
  | indexed selects answers =>
      obtain rfl := List.forall₂_nil_left_iff.mp lie
      obtain rfl := Except.ok.inj delivered
      exact ⟨.node .scan (by simp), Distribution.satisfies_self _⟩
  | filter =>
      obtain _ | ⟨input, _ | _⟩ := lie
      obtain rfl := Except.ok.inj delivered
      exact ⟨.node .filter (by simpa using input.1.collected), input.1.placed⟩
  | copied joins =>
      obtain _ | ⟨outer, _ | ⟨inner, _ | _⟩⟩ := lie
      obtain rfl := Except.ok.inj delivered
      have copy := Distribution.eq_of_satisfies_replicated inner.placement
      refine ⟨.node ?_ (by simpa using ⟨outer.1.collected, inner.1.collected⟩), ?_⟩
      · rw [List.map_cons, List.map_cons, List.map_cons, List.map_cons, copy]
        exact .copied joins
      · cases joins with
        | hash keyed => exact outer.1.placed
        | loop => exact outer.1.placed
  | together keyed =>
      obtain _ | ⟨outer, _ | ⟨inner, _ | _⟩⟩ := lie
      obtain rfl := Except.ok.inj delivered
      refine ⟨.node (.together keyed outer.placement inner.placement) ?_, outer.placement⟩
      simpa using ⟨outer.1.collected, inner.1.collected⟩
  | scalar =>
      obtain _ | ⟨input, _ | _⟩ := lie
      obtain rfl := Except.ok.inj delivered
      have one := Distribution.eq_of_satisfies_singleton input.placement
      refine ⟨.node ?_ (by simpa using input.1.collected), input.placement⟩
      rw [List.map_cons, List.map_cons, one]
      exact .scalar
  | grouped groups =>
      obtain _ | ⟨input, _ | _⟩ := lie
      obtain rfl := Except.ok.inj delivered
      exact ⟨.node (.grouped input.placement) (by simpa using input.1.collected), input.placement⟩

theorem satisfies_of_motionBetween {given required : Distribution}
    (h : Optimizer.motionBetween given required = none) : given.satisfies required = true := by
  rw [Optimizer.motionBetween] at h
  split at h
  · assumption
  · cases required with
    | any => rfl
    | _ => contradiction

theorem target_of_motionBetween {given required : Distribution} {motion : Motion}
    (h : Optimizer.motionBetween given required = some motion) : motion.target = required := by
  rw [Optimizer.motionBetween] at h
  split at h
  · contradiction
  · cases required with
    | any => contradiction
    | _ => rw [← Option.some.inj h, Motion.target]

/-- A motion makes the rows of a plan lie as is required. -/
theorem Proposal.Lies.enforce {stats : NodeStats} (lies : bare.Lies)
    (enforced : optimizer.enforce stats distribution bare = .ok proposal) :
    proposal.LiesAs (.distributed distribution) := by
  rw [Optimizer.enforce] at enforced
  split at enforced
  · rename_i unmoved
    obtain rfl := pure_eq_ok.mp enforced
    exact ⟨lies, satisfies_of_motionBetween unmoved⟩
  · rename_i motion moved
    obtain ⟨cost, -, enforced⟩ := bind_eq_ok.mp enforced
    obtain rfl := pure_eq_ok.mp enforced
    have target : motion.target = distribution := target_of_motionBetween moved
    refine ⟨⟨.node .motion (by simpa using lies.collected), ?_⟩, Distribution.satisfies_self _⟩
    rw [← target]
    exact Distribution.satisfies_self _

/-- A sort leaves the rows of a plan where they lie. -/
theorem Proposal.LiesAs.sorted {stats : NodeStats} {columns : List ColumnId} {top : Proposal}
    (lies : proposal.LiesAs (.distributed distribution))
    (sorted : optimizer.sorted stats columns proposal = .ok top) : top.LiesAs ⟨distribution, columns⟩ := by
  obtain ⟨cost, -, sorted⟩ := bind_eq_ok.mp sorted
  obtain rfl := pure_eq_ok.mp sorted
  exact ⟨⟨.node .sort (by simpa using lies.1.collected), lies.1.placed⟩, lies.2⟩

theorem Optimizer.PlansForLast.lies
    (spaced : ∀ id required proposal, space id required proposal → proposal.LiesAs required)
    (planned : optimizer.PlansForLast earlier group space required proposal) : proposal.LiesAs required := by
  induction planned with
  | unsorted member planned =>
      obtain ⟨planned, assembled, enforced⟩ := planned
      obtain ⟨expr, -, offered⟩ := exists_offered_of_mem member
      have lie := planned.imp fun _ _ planned => spaced _ _ _ planned
      exact (offered.lies lie assembled).enforce enforced
  | sorted sorts below sorted ih => exact ih.sorted sorted

/-- The rows of every plan lie as is required of it, and all its operators find the rows that belong
together. -/
theorem liesAs_of_plans (planned : optimizer.Plans memo id required proposal) : proposal.LiesAs required := by
  induction memo generalizing id required proposal with
  | nil => exact planned.elim
  | cons group earlier ih =>
      by_cases last : id = earlier.length
      · subst last
        exact (Optimizer.plans_last.mp planned).lies fun _ _ _ => ih
      · exact ih ((Optimizer.plans_earlier last).mp planned)

/-- The plan that is chosen for a query gives all rows in one place, and all its operators find the rows
that belong together. -/
theorem Optimizer.optimize_collected {query : Query} {plan : ChosenPlan} (h : optimizer.optimize query = .ok plan) :
    ∃ tree, plan.tree = .ok tree ∧ Collected tree ∧ tree.placement = .singleton := by
  obtain ⟨goal, proposal, -, best, is⟩ := optimize_eq_ok h
  have lies := liesAs_of_plans (plans_of_best best)
  exact ⟨proposal.tree, is.tree, lies.1.collected, Distribution.eq_of_satisfies_singleton lies.placement⟩

/-- A million rows that lie by their columns. -/
def million (name : String) (columns : List ColumnId) : Table :=
  ⟨name, .heap, .hashed columns, false, columns, ⟨1000000.0, 16.0, 0, 0, []⟩, []⟩

/-- A join by two keys of tables that lie by their keys, but by another one first. -/
def crossed : Query :=
  ⟨[million "a" [1, 2], million "b" [4, 3]],
    .join [⟨1, 3⟩, ⟨2, 4⟩] (.get "a" none (.of 1000000.0 16.0)) (.get "b" none (.of 1000000.0 16.0))
      (.of 1000000.0 32.0)⟩

/-- Where the inputs of a hash join lie that stands below the root of a plan. -/
def sidesBelow : Tree → Option (List Distribution)
  | .node _ _ _ [.node (.hashJoin ..) _ _ sides] => some (sides.map Tree.placement)
  | _ => none

/-- Both sides of a hash join may lie by its keys and yet not lie together. -/
example : (do sidesBelow (← (← (fourSegments.optimize crossed).toOption).tree.toOption)) =
    some [.hashed [1, 2], .hashed [4, 3]] := by
  decide +kernel

end Search

end Warehouse
