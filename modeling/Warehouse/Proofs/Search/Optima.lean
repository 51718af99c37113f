import Warehouse.Proofs.Cost.Amounts
import Warehouse.Proofs.Outcomes
import Warehouse.Proofs.Search.Remembering
import Warehouse.Proofs.Search.Spaces

/-! # What the best plan is best among

The best plan for a group is not beaten by any alternative of the group over the best plans for its inputs.
Whether it is the cheapest of all plans is another question: what a node costs depends on the operators of
its inputs too, for which a scan that gives many rows counts for more than its own cost, so that a dearer
plan for an input can make a cheaper plan. -/

namespace Warehouse.Search

open Plan Cost Query

namespace Proposal

variable {first second third : Proposal}

theorem beats_iff : first.beats second = true ↔ first.violations < second.violations ∨
    first.violations = second.violations ∧ first.cost.value < second.cost.value := by
  simp [beats]

theorem beats_irrefl (proposal : Proposal) : ¬ proposal.beats proposal = true := by
  rw [beats_iff]
  rintro (less | ⟨-, less⟩)
  · exact Nat.lt_irrefl _ less
  · exact float_lt_irrefl _ less

theorem beats_trans (h : first.beats second = true) (h' : second.beats third = true) :
    first.beats third = true := by
  rw [beats_iff] at *
  obtain less | ⟨same, less⟩ := h
  · obtain less' | ⟨same', -⟩ := h'
    · exact .inl (less.trans less')
    · exact .inl (same' ▸ less)
  · obtain less' | ⟨same', less'⟩ := h'
    · exact .inl (same ▸ less')
    · exact .inr ⟨same.trans same', float_lt_trans less less'⟩

/-- There is a plan, and the given one does not beat it. -/
def Holds (chosen : Option Proposal) (other : Proposal) : Prop :=
  ∃ proposal, chosen = some proposal ∧ ¬ other.beats proposal = true

/-- What does not beat a plan does not beat a better one. -/
theorem Holds.better {current : Option Proposal} (held : Holds current first) (other : Option Proposal) :
    Holds (Proposal.better current other) first := by
  obtain ⟨proposal, rfl, unbeaten⟩ := held
  cases other with
  | none => exact ⟨proposal, rfl, unbeaten⟩
  | some candidate =>
      rw [Proposal.better]
      split
      · rename_i beats
        exact ⟨candidate, rfl, fun beats' => unbeaten (beats_trans beats' beats)⟩
      · exact ⟨proposal, rfl, unbeaten⟩

/-- A plan that was compared does not beat the better one. -/
theorem holds_better (current : Option Proposal) (candidate : Proposal) :
    Holds (Proposal.better current (some candidate)) candidate := by
  cases current with
  | none => exact ⟨candidate, rfl, beats_irrefl candidate⟩
  | some proposal =>
      rw [Proposal.better]
      split
      · exact ⟨candidate, rfl, beats_irrefl candidate⟩
      · rename_i unbeaten
        exact ⟨proposal, rfl, unbeaten⟩

end Proposal

namespace Optimizer

variable {optimizer : Optimizer} {earlier : Memo} {group : Group} {best : Chooser} {distribution : Distribution}
  {alternatives : List Alternative} {chosen : Option Proposal}

/-- The alternative has been looked at, and gives no plan that beats the chosen one. -/
def Considered (optimizer : Optimizer) (group : Group) (best : Chooser) (distribution : Distribution)
    (chosen : Option Proposal) (alternative : Alternative) : Prop :=
  ∃ candidate, optimizer.bestBy group best distribution alternative = .ok candidate ∧
    ∀ other, candidate = some other → Proposal.Holds chosen other

theorem considered_of_foldlM {current : Option Proposal}
    (h : alternatives.foldlM (fun current alternative =>
      Proposal.better current <$> optimizer.bestBy group best distribution alternative) current = .ok chosen) :
    (∀ other, Proposal.Holds current other → Proposal.Holds chosen other) ∧
      ∀ alternative ∈ alternatives, optimizer.Considered group best distribution chosen alternative := by
  induction alternatives generalizing current with
  | nil =>
      obtain rfl := pure_eq_ok.mp h
      exact ⟨fun _ held => held, by simp⟩
  | cons alternative rest ih =>
      rw [List.foldlM_cons] at h
      obtain ⟨next, step, h⟩ := bind_eq_ok.mp h
      obtain ⟨candidate, candidate_eq, rfl⟩ := map_eq_ok.mp step
      obtain ⟨kept, considered⟩ := ih h
      refine ⟨fun other held => kept other (held.better candidate), List.forall_mem_cons.mpr ⟨?_, considered⟩⟩
      refine ⟨candidate, candidate_eq, ?_⟩
      rintro other rfl
      exact kept other (Proposal.holds_better current other)

/-- All alternatives that the hints allow are considered for the best plan for a group. -/
theorem considered_of_bestOfGroup (h : optimizer.bestOfGroup earlier group best distribution = .ok chosen)
    {alternative : Alternative} (member : alternative ∈ group.alternatives optimizer.rules earlier earlier.length)
    (allowed : optimizer.allows group.aliases alternative = true) :
    optimizer.Considered group best distribution chosen alternative := by
  rw [bestOfGroup, List.partition_eq_filter_filter] at h
  obtain ⟨found, among, h⟩ := bind_eq_ok.mp h
  have considered := (considered_of_foldlM among).2 alternative (List.mem_filter.mpr ⟨member, allowed⟩)
  cases found with
  | some proposal => exact pure_eq_ok.mp h ▸ considered
  | none =>
      obtain ⟨candidate, candidate_eq, held⟩ := considered
      refine ⟨candidate, candidate_eq, fun other same => ?_⟩
      obtain ⟨_, impossible, -⟩ := held other same
      contradiction

/-- The best plan for a group is not beaten by an alternative that the hints allow over the best plans for
its inputs. -/
theorem considered_of_best
    (h : optimizer.best (group :: earlier) earlier.length (.distributed distribution) = .ok chosen)
    {alternative : Alternative} (member : alternative ∈ group.alternatives optimizer.rules earlier earlier.length)
    (allowed : optimizer.allows group.aliases alternative = true) :
    optimizer.Considered group (optimizer.best earlier) distribution chosen alternative := by
  rw [best_last] at h
  split at h
  · exact absurd h throw_ne_ok
  · obtain ⟨unsorted, found, h⟩ := bind_eq_ok.mp h
    obtain rfl := pure_eq_ok.mp h
    exact considered_of_bestOfGroup found member allowed

/-- The plan that is chosen for a query is not beaten by an alternative for the whole query that the hints
allow over the best plans for its inputs. -/
theorem optimize_considered {query : Query} {plan : ChosenPlan} (h : optimizer.optimize query = .ok plan) :
    ∃ goal proposal, Goal.ofQuery query = .ok goal ∧ plan.Is proposal ∧
      let root := goal.root.explore optimizer.rules
      let earlier := goal.earlier.map (Group.explore optimizer.rules)
      ∀ alternative ∈ root.alternatives optimizer.rules earlier goal.id,
        optimizer.allows root.aliases alternative = true →
          optimizer.Considered root (optimizer.best earlier) .singleton (some proposal) alternative := by
  obtain ⟨goal, proposal, goal_eq, best, is⟩ := optimize_eq_ok h
  refine ⟨goal, proposal, goal_eq, is, fun alternative member allowed => ?_⟩
  rw [explored, Goal.memo, List.map_cons] at best
  rw [Goal.id, ← List.length_map (Group.explore optimizer.rules)] at best member
  exact considered_of_best best member allowed

end Optimizer

/-! ## A cheaper plan -/

/-- Sales, all in one place, with an index. -/
def sales : Table :=
  ⟨"sales", .heap, .singleton, false, [1, 2], ⟨1000000.0, 120.0, 0, 0, []⟩, [⟨"sales_2", .btree, [2], [], 0.0⟩]⟩

/-- How many sales there are with a small value in the column that has an index, as nine of ten have. -/
def countMost : Query :=
  ⟨[sales], .aggregate [] [⟨"count", none⟩]
    (.select [⟨2, .lt⟩] (.get "sales" none (.of 1000000.0 100.0)) (.of 900000.0 100.0)) (.of 1.0 8.0)⟩

/-- The optimizer without index scans. -/
def withoutIndexScans : Optimizer := { fourSegments with rules := Rule.all.erase .indexScan }

/-- The best plan need not be the cheapest one. The index scan of the sales costs less than the filter over
a plain scan, but the aggregation over it more: it is given the rows by a scan. -/
theorem exists_cheaper_plan : ∃ goal chosen cheaper, Goal.ofQuery countMost = .ok goal ∧
    fourSegments.best (fourSegments.explored goal) goal.id Optimizer.atOnePlace = .ok (some chosen) ∧
    fourSegments.Plans (fourSegments.explored goal) goal.id Optimizer.atOnePlace cheaper ∧
    cheaper.cost.value < chosen.cost.value := by
  have evaluated : (do
      let goal ← (Goal.ofQuery countMost).toOption
      let chosen ← ← (fourSegments.best (fourSegments.explored goal) goal.id Optimizer.atOnePlace).toOption
      let cheaper ← ← (withoutIndexScans.best (fourSegments.explored goal) goal.id Optimizer.atOnePlace).toOption
      return decide (cheaper.cost.value < chosen.cost.value)) = some true := by decide +kernel
  obtain ⟨goal, goal_eq, evaluated⟩ := Option.bind_eq_some_iff.mp evaluated
  obtain ⟨found, chosen_eq, evaluated⟩ := Option.bind_eq_some_iff.mp evaluated
  obtain ⟨chosen, found_eq, evaluated⟩ := Option.bind_eq_some_iff.mp evaluated
  obtain ⟨found', cheaper_eq, evaluated⟩ := Option.bind_eq_some_iff.mp evaluated
  obtain ⟨cheaper, found_eq', evaluated⟩ := Option.bind_eq_some_iff.mp evaluated
  rw [found_eq] at chosen_eq
  rw [found_eq'] at cheaper_eq
  refine ⟨goal, chosen, cheaper, toOption_eq_some.mp goal_eq, toOption_eq_some.mp chosen_eq, ?_, ?_⟩
  · exact Optimizer.plans_mono List.erase_subset (Optimizer.plans_of_best (toOption_eq_some.mp cheaper_eq))
  · exact of_decide_eq_true (Option.some.inj evaluated)

end Warehouse.Search
