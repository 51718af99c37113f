import Warehouse.Proofs.Outcomes
import Warehouse.Proofs.Search.Alternatives
import Warehouse.Proofs.Search.Proposals

/-! # The plans that there are

`Optimizer.Plans` are all plans for a group under a requirement: any of the group's alternatives over any
plans for its inputs, with the motion or the sort on top that the requirement asks for. The best plan is
one of them. -/

namespace Warehouse.Search

open Plan Cost

/-- Says which plans there are for a group under a requirement. -/
abbrev Space := GroupId → Requirement → Proposal → Prop

namespace Optimizer

/-- The plans with an alternative at their root, under a required distribution. -/
inductive PlansBy (optimizer : Optimizer) (group : Group) (space : Space) (required : Distribution)
    (alternative : Alternative) : Proposal → Prop
  | over {inputs : List Proposal} {bare proposal : Proposal}
      (planned : List.Forall₂ (fun request input => space request.group (request.demand.under required) input)
        alternative.inputs inputs)
      (assembled : optimizer.assemble group alternative inputs = .ok bare)
      (enforced : optimizer.enforce group.stats required bare = .ok proposal) :
      PlansBy optimizer group space required alternative proposal

/-- The plans for the last group of a memo. -/
inductive PlansForLast (optimizer : Optimizer) (earlier : Memo) (group : Group) (space : Space) :
    Requirement → Proposal → Prop
  | unsorted {distribution : Distribution} {alternative : Alternative} {proposal : Proposal}
      (member : alternative ∈ group.alternatives optimizer.rules earlier earlier.length)
      (planned : optimizer.PlansBy group space distribution alternative proposal) :
      PlansForLast optimizer earlier group space (.distributed distribution) proposal
  | sorted {distribution : Distribution} {columns : List ColumnId} {proposal top : Proposal}
      (sorts : columns ≠ [])
      (below : PlansForLast optimizer earlier group space (.distributed distribution) proposal)
      (sorted : optimizer.sorted group.stats columns proposal = .ok top) :
      PlansForLast optimizer earlier group space ⟨distribution, columns⟩ top

/-- The plans for a group of a memo under a requirement. -/
def Plans (optimizer : Optimizer) : Memo → Space
  | [] => fun _ _ _ => False
  | group :: earlier => fun id required proposal =>
      if id = earlier.length then
        optimizer.PlansForLast earlier group (optimizer.Plans earlier) required proposal
      else optimizer.Plans earlier id required proposal

variable {optimizer : Optimizer} {earlier memo : Memo} {group : Group} {best : Chooser} {space : Space}
  {id : GroupId} {required : Requirement} {distribution : Distribution} {alternative : Alternative}
  {proposal : Proposal}

/-! ## How plans are put together -/

theorem assemble_eq_ok {inputs : List Proposal} (h : optimizer.assemble group alternative inputs = .ok proposal) :
    ∃ cost delivered, optimizer.costOver alternative.op group.stats (inputs.map Proposal.tree) = .ok cost ∧
      deliveredOver alternative inputs = .ok delivered ∧
      proposal = ⟨alternative.op, group.stats, inputs.map Proposal.tree, cost, delivered,
        inputs.foldl (fun count proposal => count + proposal.violations) (optimizer.penalty group alternative)⟩ := by
  obtain ⟨cost, costed, h⟩ := bind_eq_ok.mp h
  obtain ⟨delivered, given, h⟩ := bind_eq_ok.mp h
  exact ⟨cost, delivered, costed, mapError_eq_ok.mp given, (pure_eq_ok.mp h).symm⟩

theorem enforce_eq_ok {stats : NodeStats} {bare : Proposal}
    (h : optimizer.enforce stats distribution bare = .ok proposal) :
    (motionBetween bare.distribution distribution = none ∧ proposal = bare) ∨
      ∃ motion cost, motionBetween bare.distribution distribution = some motion ∧
        optimizer.costOver (.motion motion) stats [bare.tree] = .ok cost ∧
        proposal = ⟨.motion motion, stats, [bare.tree], cost, distribution, bare.violations⟩ := by
  rw [enforce] at h
  split at h
  · rename_i unmoved
    exact .inl ⟨unmoved, (pure_eq_ok.mp h).symm⟩
  · rename_i motion needed
    obtain ⟨cost, costed, h⟩ := bind_eq_ok.mp h
    exact .inr ⟨motion, cost, needed, costed, (pure_eq_ok.mp h).symm⟩

theorem sorted_eq_ok {stats : NodeStats} {columns : List ColumnId} {bare : Proposal}
    (h : optimizer.sorted stats columns bare = .ok proposal) :
    ∃ cost, optimizer.costOver (.sort columns) stats [bare.tree] = .ok cost ∧
      proposal = ⟨.sort columns, stats, [bare.tree], cost, bare.distribution, bare.violations⟩ := by
  obtain ⟨cost, costed, h⟩ := bind_eq_ok.mp h
  exact ⟨cost, costed, (pure_eq_ok.mp h).symm⟩

theorem plans_last : optimizer.Plans (group :: earlier) earlier.length required proposal ↔
    optimizer.PlansForLast earlier group (optimizer.Plans earlier) required proposal := by
  simp only [Plans, if_true]

theorem plans_earlier (h : id ≠ earlier.length) :
    optimizer.Plans (group :: earlier) id required proposal ↔ optimizer.Plans earlier id required proposal := by
  simp only [Plans, if_neg h]

/-- What holds of the plans for a group as soon as it holds of the plans for the groups before it holds of all
plans. -/
theorem plans_induction {holds : Requirement → Proposal → Prop}
    (last : ∀ (group : Group) (earlier : Memo) (required : Requirement) (proposal : Proposal),
      (∀ id required proposal, optimizer.Plans earlier id required proposal → holds required proposal) →
        optimizer.PlansForLast earlier group (optimizer.Plans earlier) required proposal → holds required proposal)
    (planned : optimizer.Plans memo id required proposal) : holds required proposal := by
  induction memo generalizing id required proposal with
  | nil => exact planned.elim
  | cons group earlier ih =>
      by_cases is_last : id = earlier.length
      · subst is_last
        exact last group earlier required proposal (fun _ _ _ => ih) (plans_last.mp planned)
      · exact ih ((plans_earlier is_last).mp planned)

/-- What holds of all plans holds of the inputs that are such plans. -/
theorem forall_inputs {holds : Proposal → Prop} {requests : List Request} {inputs : List Proposal}
    (spaced : ∀ id required proposal, space id required proposal → holds proposal)
    (planned : List.Forall₂ (fun request input => space request.group (request.demand.under distribution) input)
      requests inputs) : ∀ input ∈ inputs, holds input := by
  induction planned with
  | nil => exact List.forall_mem_nil _
  | cons first _ ih => exact List.forall_mem_cons.mpr ⟨spaced _ _ _ first, ih⟩

/-- Groups that come later do not matter. -/
theorem plans_suffix {larger : Memo} (suffix : memo <:+ larger) (less : id < memo.length) :
    optimizer.Plans larger id required proposal ↔ optimizer.Plans memo id required proposal := by
  obtain ⟨later, rfl⟩ := suffix
  induction later with
  | nil => rfl
  | cons group later ih =>
      have before : id ≠ (later ++ memo).length := by
        rw [List.length_append]
        exact Nat.ne_of_lt (Nat.lt_add_left _ less)
      rw [List.cons_append, plans_earlier before, ih]

theorem PlansForLast.mono {rules : List Rule} {more : Space} (fewer : rules ⊆ optimizer.rules)
    (spaces : ∀ id required proposal, space id required proposal → more id required proposal)
    (planned : PlansForLast { optimizer with rules } earlier group space required proposal) :
    optimizer.PlansForLast earlier group more required proposal := by
  induction planned with
  | unsorted member planned =>
      obtain ⟨planned, assembled, enforced⟩ := planned
      have planned := planned.imp fun _ _ planned => spaces _ _ _ planned
      exact .unsorted (Group.alternatives_mono fewer member) (.over planned assembled enforced)
  | sorted sorts below sorted ih => exact .sorted sorts ih sorted

/-- More rules give more plans. -/
theorem plans_mono {rules : List Rule} (fewer : rules ⊆ optimizer.rules)
    (planned : Plans { optimizer with rules } memo id required proposal) :
    optimizer.Plans memo id required proposal := by
  induction memo generalizing id required proposal with
  | nil => exact planned
  | cons group earlier ih =>
      by_cases last : id = earlier.length
      · subst last
        exact plans_last.mpr ((plans_last.mp planned).mono fewer fun _ _ _ => ih)
      · exact (plans_earlier last).mpr (ih ((plans_earlier last).mp planned))

/-! ## The best plan is a plan -/

theorem planned_of_inputProposals
    (planned : ∀ id required proposal, best id required = .ok (some proposal) → space id required proposal)
    {requests : List Request} {inputs : List Proposal}
    (h : inputProposals best distribution requests = .ok (some inputs)) :
    List.Forall₂ (fun request input => space request.group (request.demand.under distribution) input)
      requests inputs := by
  induction requests generalizing inputs with
  | nil =>
      obtain rfl := Option.some.inj (pure_eq_ok.mp h)
      exact .nil
  | cons request rest ih =>
      obtain ⟨found, first, h⟩ := bind_eq_ok.mp h
      cases found with
      | none => exact absurd (pure_eq_ok.mp h) (by simp)
      | some proposal =>
          obtain ⟨others, later, h⟩ := bind_eq_ok.mp h
          obtain ⟨inputs', rfl, rfl⟩ := Option.map_eq_some_iff.mp (pure_eq_ok.mp h)
          exact .cons (planned _ _ _ first) (ih later)

theorem plansBy_of_bestBy
    (planned : ∀ id required proposal, best id required = .ok (some proposal) → space id required proposal)
    (h : optimizer.bestBy group best distribution alternative = .ok (some proposal)) :
    optimizer.PlansBy group space distribution alternative proposal := by
  obtain ⟨found, inputs_eq, h⟩ := bind_eq_ok.mp h
  cases found with
  | none => exact absurd (pure_eq_ok.mp h) (by simp)
  | some inputs =>
      dsimp only at h
      obtain ⟨proposal', built, same⟩ := map_eq_ok.mp h
      obtain rfl := Option.some.inj same
      obtain ⟨bare, assembled, enforced⟩ := bind_eq_ok.mp built
      exact .over (planned_of_inputProposals planned inputs_eq) assembled enforced

/-- The better one of two plans is one of them. -/
theorem better_eq_some {current other : Option Proposal} (h : Proposal.better current other = some proposal) :
    current = some proposal ∨ other = some proposal := by
  cases current with
  | none => exact .inr h
  | some best =>
      cases other with
      | none => exact .inl h
      | some candidate =>
          rw [Proposal.better] at h
          split at h
          · exact .inr h
          · exact .inl h

/-- The best plan with one of some alternatives at its root has one of them there. -/
theorem exists_bestBy_of_bestAmong {alternatives : List Alternative} {current : Option Proposal}
    (h : alternatives.foldlM (fun current alternative =>
      Proposal.better current <$> optimizer.bestBy group best distribution alternative) current =
        .ok (some proposal)) :
    current = some proposal ∨ ∃ alternative ∈ alternatives,
      optimizer.bestBy group best distribution alternative = .ok (some proposal) := by
  induction alternatives generalizing current with
  | nil => exact .inl (pure_eq_ok.mp h)
  | cons alternative rest ih =>
      rw [List.foldlM_cons] at h
      obtain ⟨next, step, h⟩ := bind_eq_ok.mp h
      obtain ⟨found, found_eq, rfl⟩ := map_eq_ok.mp step
      obtain chosen | ⟨other, member, chosen⟩ := ih h
      · obtain same | same := better_eq_some chosen
        · exact .inl same
        · exact .inr ⟨alternative, List.mem_cons_self, same ▸ found_eq⟩
      · exact .inr ⟨other, List.mem_cons_of_mem _ member, chosen⟩

theorem exists_bestBy_of_bestOfGroup
    (h : optimizer.bestOfGroup earlier group best distribution = .ok (some proposal)) :
    ∃ alternative ∈ group.alternatives optimizer.rules earlier earlier.length,
      optimizer.bestBy group best distribution alternative = .ok (some proposal) := by
  rw [bestOfGroup, List.partition_eq_filter_filter] at h
  obtain ⟨found, among, h⟩ := bind_eq_ok.mp h
  have chosen : ∃ keep, optimizer.bestAmong group best distribution
      ((group.alternatives optimizer.rules earlier earlier.length).filter keep) = .ok (some proposal) := by
    cases found with
    | some other => exact ⟨_, pure_eq_ok.mp h ▸ among⟩
    | none => exact ⟨_, h⟩
  obtain ⟨keep, among⟩ := chosen
  obtain impossible | ⟨alternative, member, by_alternative⟩ := exists_bestBy_of_bestAmong among
  · exact absurd impossible (by simp)
  · exact ⟨alternative, List.mem_of_mem_filter member, by_alternative⟩

theorem plansForLast_of_bestOfLast
    (planned : ∀ id required proposal, best id required = .ok (some proposal) → space id required proposal)
    (h : optimizer.bestOfLast earlier group best required = .ok (some proposal)) :
    optimizer.PlansForLast earlier group space required proposal := by
  obtain ⟨distribution, columns⟩ := required
  obtain ⟨found, unsorted, finished⟩ := bind_eq_ok.mp h
  have below : ∀ proposal, found = some proposal →
      optimizer.PlansForLast earlier group space (.distributed distribution) proposal := by
    rintro proposal rfl
    obtain ⟨alternative, member, by_alternative⟩ := exists_bestBy_of_bestOfGroup unsorted
    exact .unsorted member (plansBy_of_bestBy planned by_alternative)
  split at finished
  · rename_i no_sort
    obtain rfl : columns = [] := List.isEmpty_iff.mp no_sort
    exact below proposal (pure_eq_ok.mp finished)
  · rename_i sorts
    cases found with
    | none => exact absurd (pure_eq_ok.mp finished) (by simp)
    | some bare =>
        obtain ⟨top, sorted, same⟩ := map_eq_ok.mp finished
        obtain rfl := Option.some.inj same
        exact .sorted (by simpa using sorts) (below bare rfl) sorted

/-- The best plan is one of the plans. -/
theorem plans_of_best (h : optimizer.best memo id required = .ok (some proposal)) :
    optimizer.Plans memo id required proposal := by
  induction memo generalizing id required proposal with
  | nil => exact absurd (pure_eq_ok.mp h) (by simp)
  | cons group earlier ih =>
      by_cases last : id = earlier.length
      · subst last
        rw [best_last] at h
        split at h
        · exact absurd h throw_ne_ok
        · exact plans_last.mpr (plansForLast_of_bestOfLast (fun _ _ _ h => ih h) h)
      · rw [best_earlier last] at h
        exact (plans_earlier last).mpr (ih h)

end Optimizer

end Warehouse.Search
