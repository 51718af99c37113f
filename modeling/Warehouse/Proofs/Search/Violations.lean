import Warehouse.Proofs.Search.Optima
import Warehouse.Proofs.Search.Refusals

/-! # The fewest hints that can be ignored

The plan that is chosen ignores as few hints as any draft does. An alternative that the hints refuse is left
out for one that they allow, whatever it costs; and that costs no other hint, since both read the same groups,
or the one that is left out reads a table that can be read in another way. -/

namespace Warehouse.Search

open Plan Cost Query

/-- There is a plan, and it ignores at most so many hints. -/
def Proposal.Within (count : Nat) (chosen : Option Proposal) : Prop :=
  ∃ proposal, chosen = some proposal ∧ proposal.violations ≤ count

/-- Whatever is demanded, the best plan for a group ignores no more hints than any draft for the group. -/
def Chooser.Bounded (hints : Hint.Hints) (drafts : DraftSpace) (best : Chooser) : Prop :=
  ∀ (id : GroupId) (required required' : Requirement) (tree : Tree) (chosen : Option Proposal),
    best id required = .ok chosen → drafts id required' tree → Proposal.Within (tree.refusals hints) chosen

variable {optimizer : Optimizer} {rules : List Rule} {memo earlier : Memo} {group : Group} {id : GroupId}
  {required : Requirement} {distribution : Distribution} {alternative other : Alternative} {tree : Tree}
  {trees : List Tree} {drafts : DraftSpace} {best : Chooser} {chosen : Option Proposal} {hints : Hint.Hints}

/-! ## One alternative -/

theorem inputs_of_bounded {requests : List Request} {found : Option (List Proposal)}
    (bounded : Chooser.Bounded hints drafts best) (drafted : Drafted drafts requests trees)
    (h : Optimizer.inputProposals best distribution requests = .ok found) :
    ∃ inputs, found = some inputs ∧ (inputs.map Proposal.violations).sum ≤ (trees.map (Tree.refusals hints)).sum := by
  induction drafted generalizing found with
  | nil => exact ⟨[], (pure_eq_ok.mp h).symm, Nat.le_refl _⟩
  | cons first _ ih =>
      obtain ⟨required, first⟩ := first
      obtain ⟨chosen, chosen_eq, h⟩ := bind_eq_ok.mp h
      obtain ⟨proposal, rfl, le⟩ := bounded _ _ _ _ _ chosen_eq first
      obtain ⟨others, others_eq, h⟩ := bind_eq_ok.mp h
      obtain ⟨inputs, rfl, le'⟩ := ih others_eq
      refine ⟨proposal :: inputs, (pure_eq_ok.mp h).symm, ?_⟩
      rw [List.map_cons, List.map_cons, List.sum_cons, List.sum_cons]
      exact Nat.add_le_add le le'

/-- The best plan with an alternative at its root ignores no more hints than a draft with that alternative. -/
theorem within_of_bestBy (bounded : Chooser.Bounded hints drafts best)
    (drafted : Drafted drafts alternative.inputs trees)
    (h : optimizer.bestBy group best distribution alternative = .ok chosen) :
    Proposal.Within (optimizer.penalty group alternative + (trees.map (Tree.refusals hints)).sum) chosen := by
  obtain ⟨found, inputs_eq, h⟩ := bind_eq_ok.mp h
  obtain ⟨inputs, rfl, le⟩ := inputs_of_bounded bounded drafted inputs_eq
  obtain ⟨proposal, built, rfl⟩ := map_eq_ok.mp h
  obtain ⟨bare, assembled, enforced⟩ := bind_eq_ok.mp built
  obtain ⟨cost, delivered, -, -, rfl⟩ := Optimizer.assemble_eq_ok assembled
  refine ⟨proposal, rfl, ?_⟩
  rw [(violations_of_enforce enforced).1, foldl_violations]
  exact Nat.add_le_add_left le _

/-- What an alternative that was considered could have given is not better. -/
theorem within_of_considered (bounded : Chooser.Bounded hints drafts best)
    (drafted : Drafted drafts alternative.inputs trees)
    (considered : optimizer.Considered group best distribution chosen alternative) :
    Proposal.Within (optimizer.penalty group alternative + (trees.map (Tree.refusals hints)).sum) chosen := by
  obtain ⟨found, found_eq, held⟩ := considered
  obtain ⟨candidate, rfl, le⟩ := within_of_bestBy bounded drafted found_eq
  obtain ⟨proposal, rfl, unbeaten⟩ := held candidate rfl
  refine ⟨proposal, rfl, Nat.le_trans ?_ le⟩
  by_contra more
  exact unbeaten (Proposal.beats_iff.mpr (.inl (Nat.lt_of_not_le more)))

/-! ## Leaving out what the hints refuse -/

/-- When the hints refuse all alternatives, all of them are considered. -/
theorem considered_of_refused (refused : ∀ alternative ∈ group.alternatives optimizer.rules earlier earlier.length,
      optimizer.allows group.aliases alternative = false)
    (member : alternative ∈ group.alternatives optimizer.rules earlier earlier.length)
    (h : optimizer.bestOfGroup earlier group best distribution = .ok chosen) :
    optimizer.Considered group best distribution chosen alternative := by
  have none_allowed : (group.alternatives optimizer.rules earlier earlier.length).filter
      (optimizer.allows group.aliases) = [] := by
    simpa [List.filter_eq_nil_iff] using refused
  rw [Optimizer.bestOfGroup, List.partition_eq_filter_filter, none_allowed] at h
  obtain ⟨found, found_eq, h⟩ := bind_eq_ok.mp h
  obtain rfl := pure_eq_ok.mp found_eq
  refine (Optimizer.considered_of_foldlM h).2 alternative (List.mem_filter.mpr ⟨member, ?_⟩)
  simp [refused alternative member]

/-- Alternatives that read the same groups can do so by the same plans. -/
theorem Drafted.perm {requests requests' : List Request} (drafted : Drafted drafts requests trees)
    (perm : (requests'.map Request.group).Perm (requests.map Request.group)) :
    ∃ trees', Drafted drafts requests' trees' ∧ trees'.Perm trees := by
  have byGroup : List.Forall₂ (fun id tree => ∃ required, drafts id required tree)
      (requests.map Request.group) trees := List.forall₂_map_left_iff.mpr drafted
  obtain ⟨trees', drafted', perm'⟩ := List.perm_comp_forall₂ perm byGroup
  exact ⟨trees', List.forall₂_map_left_iff.mp drafted', perm'⟩

/-- A table can be read from its beginning to its end. -/
theorem exists_scan_draft {table : Table} {columns : List ColumnId} (scans : .tableScan ∈ rules)
    (known : memo.group? id = some group) (own : .get table columns ∈ group.exprs) :
    ∃ scan stats, Drafts rules memo id (.distributed .any) (.node scan stats none []) := by
  induction memo with
  | nil => contradiction
  | cons last earlier ih =>
      rw [Memo.group?] at known
      split at known
      · rename_i is_last
        subst is_last
        obtain rfl := Option.some.inj known
        have member : scanAlternative .tableScan earlier.length table (plainAccess table) ∈
            last.alternatives rules earlier earlier.length :=
          List.mem_flatMap.mpr ⟨_, own, List.mem_flatMap.mpr ⟨_, scans, List.mem_singleton_self _⟩⟩
        exact ⟨_, _, drafts_last.mpr (.unsorted member .nil (.stays rfl))⟩
      · rename_i before
        obtain ⟨scan, stats, drafted⟩ := ih known
        exact ⟨scan, stats, (drafts_earlier before).mpr drafted⟩

/-- What an index is looked at for can be read from the table, against one hint at most. -/
theorem exists_scan_of_selection {conditions : List Condition} {input : GroupId} {below : Group}
    {selection : TableSelection} (scans : .tableScan ∈ rules) (layered : memo.Layered)
    (known : memo.group? input = some below)
    (selects : TableSelection.ofExpr? memo (.select conditions input) = some selection) :
    ∃ tree, Drafts rules memo input (.distributed .any) tree ∧ tree.refusals hints ≤ 1 := by
  obtain ⟨exprs, -⟩ := layered.selection_aliases known selects
  have scanned : .get selection.table selection.columns ∈ below.exprs := exprs ▸ List.mem_singleton_self _
  obtain ⟨scan, stats, drafted⟩ := exists_scan_draft scans known scanned
  refine ⟨_, drafted, ?_⟩
  rw [Tree.refusals_node]
  split
  · simp
  · simp

/-- Hints do not constrain an operator that they see nothing of. -/
theorem allows_of_unseen {aliases : List String}
    (unseen : Hint.Candidate.ofOperator aliases alternative.op = none) :
    optimizer.allows aliases alternative = true := by
  simp [Optimizer.allows, unseen]

theorem Offered.groups_join {keys : List JoinKey} {outer inner : GroupId}
    (offered : Offered memo id (.join keys outer inner) alternative) :
    alternative.inputs.map Request.group = [outer, inner] := by
  cases offered with
  | copied => rfl
  | together => rfl

/-- All alternatives of a join read the same two groups. -/
theorem groups_perm_of_sides {keys : List JoinKey} {outer inner : GroupId} {expr : GroupExpr}
    (sides : expr = .join keys outer inner ∨ expr = .join (keys.map JoinKey.swap) inner outer)
    (offered : Offered memo id expr alternative) :
    (alternative.inputs.map Request.group).Perm [outer, inner] := by
  obtain rfl | rfl := sides
  · rw [offered.groups_join]
  · rw [offered.groups_join]
    exact List.Perm.swap _ _ _

/-- For a draft with an alternative that the hints refuse there is one with an alternative that they allow, if
the group has one, that ignores no more hints. -/
theorem Memo.Layered.exists_allowed (layered : Memo.Layered (group :: earlier))
    (scans : .tableScan ∈ optimizer.rules) (filters : .filter ∈ optimizer.rules)
    (member : alternative ∈ group.alternatives optimizer.rules earlier earlier.length)
    (drafted : Drafted (Drafts optimizer.rules earlier) alternative.inputs trees)
    (member' : other ∈ group.alternatives optimizer.rules earlier earlier.length)
    (allowed : optimizer.allows group.aliases other = true) :
    ∃ other ∈ group.alternatives optimizer.rules earlier earlier.length,
      optimizer.allows group.aliases other = true ∧
      ∃ trees', Drafted (Drafts optimizer.rules earlier) other.inputs trees' ∧
        (trees'.map (Tree.refusals hints)).sum ≤
          optimizer.penalty group alternative + (trees.map (Tree.refusals hints)).sum := by
  by_cases refused : optimizer.allows group.aliases alternative = true
  · exact ⟨alternative, member, refused, trees, drafted, Nat.le_add_left _ _⟩
  have penalty : optimizer.penalty group alternative = 1 := by
    rw [Optimizer.penalty, if_neg refused]
  -- an alternative that reads the same groups ignores the same hints below
  have same_groups (perm : (other.inputs.map Request.group).Perm (alternative.inputs.map Request.group)) :
      ∃ trees', Drafted (Drafts optimizer.rules earlier) other.inputs trees' ∧
        (trees'.map (Tree.refusals hints)).sum ≤ 1 + (trees.map (Tree.refusals hints)).sum := by
    obtain ⟨trees', drafted', perm'⟩ := drafted.perm perm
    refine ⟨trees', drafted', Nat.le_add_left_of_le ?_⟩
    exact (List.Perm.sum_eq (perm'.map _)).le
  rw [penalty]
  obtain ⟨expr, own, offered⟩ := exists_offered_of_mem member
  obtain ⟨expr', own', offered'⟩ := exists_offered_of_mem member'
  obtain ⟨stands, layered⟩ := layered
  cases stands with
  | get =>
      obtain rfl := List.mem_singleton.mp own
      obtain rfl := List.mem_singleton.mp own'
      refine ⟨other, member', allowed, same_groups ?_⟩
      cases offered
      cases offered'
      exact .refl _
  | join filled sides =>
      refine ⟨other, member', allowed, same_groups ?_⟩
      exact (groups_perm_of_sides (sides _ own') offered').trans
        (groups_perm_of_sides (sides _ own) offered).symm
  | aggregate known =>
      obtain rfl := List.mem_singleton.mp own
      refine absurd (allows_of_unseen ?_) refused
      cases offered with
      | scalar => rfl
      | grouped => rfl
  | @select conditions input below stats columns known =>
      obtain rfl := List.mem_singleton.mp own
      cases offered with
      | filter => exact absurd (allows_of_unseen rfl) refused
      | indexed selects answers =>
          -- instead of searching an index, filter the rows of the table
          let filtered : Alternative :=
            ⟨.filter, .filter (conditions.map Condition.column), [.anywhere input], .ofInput 0⟩
          obtain ⟨scan, drafted', one⟩ := exists_scan_of_selection scans layered known selects
          refine ⟨filtered, ?_, allows_of_unseen rfl, [scan], .cons ⟨_, drafted'⟩ .nil, ?_⟩
          · exact List.mem_flatMap.mpr ⟨_, List.mem_singleton_self _,
              List.mem_flatMap.mpr ⟨_, filters, List.mem_cons_self⟩⟩
          · rw [List.map_singleton, List.sum_singleton]
            exact Nat.le_add_right_of_le one

theorem within_of_bestOfGroup (layered : Memo.Layered (group :: earlier))
    (scans : .tableScan ∈ optimizer.rules) (filters : .filter ∈ optimizer.rules)
    (bounded : Chooser.Bounded hints (Drafts optimizer.rules earlier) best)
    (member : alternative ∈ group.alternatives optimizer.rules earlier earlier.length)
    (drafted : Drafted (Drafts optimizer.rules earlier) alternative.inputs trees)
    (h : optimizer.bestOfGroup earlier group best distribution = .ok chosen) :
    Proposal.Within (optimizer.penalty group alternative + (trees.map (Tree.refusals hints)).sum) chosen := by
  by_cases refused : ∀ alternative ∈ group.alternatives optimizer.rules earlier earlier.length,
      optimizer.allows group.aliases alternative = false
  · exact within_of_considered bounded drafted (considered_of_refused refused member h)
  · push Not at refused
    obtain ⟨other, member', allowed⟩ := refused
    obtain ⟨other, member', allowed, trees', drafted', le⟩ := layered.exists_allowed scans filters member drafted
      member' (Bool.eq_true_of_not_eq_false allowed)
    obtain ⟨proposal, chosen_eq, fewer⟩ :=
      within_of_considered bounded drafted' (Optimizer.considered_of_bestOfGroup h member' allowed)
    refine ⟨proposal, chosen_eq, ?_⟩
    rw [Optimizer.penalty, if_pos allowed, Nat.zero_add] at fewer
    exact fewer.trans le

/-- The best plan for a group ignores no more hints than any draft for the group. -/
theorem bounded_best (standard : optimizer.predicate = Hint.allows) (scans : .tableScan ∈ optimizer.rules)
    (filters : .filter ∈ optimizer.rules) (layered : memo.Layered) :
    Chooser.Bounded optimizer.hints (Drafts optimizer.rules memo) (optimizer.best memo) := by
  induction memo with
  | nil => exact fun _ _ _ _ _ _ drafted => drafted.elim
  | cons group earlier ih =>
      intro id required required' tree chosen best_eq drafted
      by_cases last : id = earlier.length
      · subst last
        obtain ⟨alternative, member, cost, inputs, drafted, -, refusals⟩ :=
          (drafts_last.mp drafted).exists_alternative
        rw [refusals, (layered.reads member).refusals_eq standard (drafted.named layered.2)]
        rw [Optimizer.best_last] at best_eq
        split at best_eq
        · exact absurd best_eq throw_ne_ok
        · obtain ⟨unsorted, unsorted_eq, sorted⟩ := bind_eq_ok.mp best_eq
          have within := within_of_bestOfGroup layered scans filters (ih layered.2) member drafted unsorted_eq
          split at sorted
          · exact pure_eq_ok.mp sorted ▸ within
          · obtain ⟨proposal, rfl, le⟩ := within
            obtain ⟨top, built, rfl⟩ := map_eq_ok.mp sorted
            exact ⟨top, rfl, (violations_of_sorted built).1 ▸ le⟩
      · rw [Optimizer.best_earlier last] at best_eq
        exact ih layered.2 _ _ _ _ _ best_eq ((drafts_earlier last).mp drafted)

/-- A plan of some plans ignores as few hints as any of them. -/
structure Fewest (hints : Hint.Hints) (among : Tree → Prop) (tree : Tree) : Prop where
  member : among tree
  fewest : ∀ other, among other → tree.refusals hints ≤ other.refusals hints

/-- The plan that is chosen for a query counts the hints that it ignores, and ignores as few as any plan for the
query: none if there is one that ignores none, and none if there are no hints. -/
theorem Optimizer.optimize_ignores_fewest {query : Query} {plan : ChosenPlan}
    (standard : optimizer.predicate = Hint.allows) (rules_eq : optimizer.rules = Rule.all)
    (h : optimizer.optimize query = .ok plan) :
    ∃ goal tree, Goal.ofQuery query = .ok goal ∧ plan.tree = .ok tree ∧
      plan.violations = tree.refusals optimizer.hints ∧
      Fewest optimizer.hints (Drafts Rule.all (optimizer.explored goal) goal.id atOnePlace) tree ∧
      (∀ other, Drafts Rule.all (optimizer.explored goal) goal.id atOnePlace other →
        other.refusals optimizer.hints = 0 → plan.violations = 0) ∧
      (optimizer.hints.isEmpty = true → plan.violations = 0) := by
  obtain ⟨goal, proposal, goal_eq, best, is⟩ := optimize_eq_ok h
  have layered : Memo.Layered (optimizer.explored goal) := layered_of_ofQuery goal_eq
  have planned := plans_of_best best
  have counts := counts_of_plans standard layered planned
  have bounded := bounded_best standard (by rw [rules_eq]; decide) (by rw [rules_eq]; decide) layered
  have fewest : Fewest optimizer.hints (Drafts Rule.all (optimizer.explored goal) goal.id atOnePlace)
      proposal.tree := by
    rw [← rules_eq]
    constructor
    · exact drafts_of_plans planned
    · intro other drafted
      obtain ⟨_, same, le⟩ := bounded _ _ _ _ _ best drafted
      obtain rfl := Option.some.inj same
      exact counts ▸ le
  have violations : plan.violations = proposal.tree.refusals optimizer.hints := is.violations.trans counts
  refine ⟨goal, proposal.tree, goal_eq, is.tree, violations, fewest, ?_, ?_⟩
  · intro other drafted none_ignored
    apply Nat.eq_zero_of_le_zero
    calc plan.violations = proposal.tree.refusals optimizer.hints := violations
      _ ≤ other.refusals optimizer.hints := fewest.fewest other drafted
      _ = 0 := none_ignored
  · intro empty
    rw [violations, Tree.refusals_of_isEmpty empty]

/-- The optimizer is told to join `a` and `b` by merging, which it never does. -/
def askedToMerge : Optimizer := { fourSegments with hints := ⟨[], [⟨["b", "a"], ⟨false, .merge⟩⟩]⟩ }

/-- The join is a hash join, against the only hint. Every plan ignores it, so that one violation is the fewest. -/
theorem Optimizer.optimize_ignores_fewest_countCrossed : ∃ plan, askedToMerge.optimize countCrossed = .ok plan ∧
    plan.violations = 1 ∧ ∃ goal tree, Goal.ofQuery countCrossed = .ok goal ∧ plan.tree = .ok tree ∧
      Fewest askedToMerge.hints (Drafts Rule.all (askedToMerge.explored goal) goal.id atOnePlace) tree := by
  have evaluated : ChosenPlan.violations <$> askedToMerge.optimize countCrossed = .ok 1 := by decide +kernel
  obtain ⟨plan, chosen, one⟩ := map_eq_ok.mp evaluated
  obtain ⟨goal, tree, goal_eq, tree_eq, -, fewest, -⟩ := optimize_ignores_fewest rfl rfl chosen
  exact ⟨plan, chosen, one, goal, tree, goal_eq, tree_eq, fewest⟩

end Warehouse.Search
