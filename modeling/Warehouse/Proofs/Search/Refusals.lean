import Mathlib
import Warehouse.Proofs.Search.Drafts
import Warehouse.Proofs.Search.Groups

/-! # Operators that the hints refuse

`Tree.refusals` counts the operators of a plan that the hints do not allow, where a join is judged by all tables
that are read below it. The search judges an alternative by the tables of its group, and counts the same. -/

namespace Warehouse

open Plan Cost

namespace Hint

variable {aliases others : List String} {hints : Hints}

/-- The order and the repetitions of the tables do not matter to a hint for their join. -/
theorem JoinHint.covers_congr (hint : JoinHint) (same : ∀ name, name ∈ aliases ↔ name ∈ others) :
    hint.covers aliases = hint.covers others := by
  have known : ∀ name, aliases.contains name = others.contains name := by
    intro name
    rw [Bool.eq_iff_iff, List.contains_iff_mem, List.contains_iff_mem]
    exact same name
  have named : (aliases.all fun name => hint.aliases.contains name) =
      others.all fun name => hint.aliases.contains name := by
    rw [Bool.eq_iff_iff, List.all_eq_true, List.all_eq_true]
    exact forall_congr' fun name => imp_congr (same name) Iff.rfl
  rw [covers, covers, named]
  simp only [known]

theorem allows_join_congr (same : ∀ name, name ∈ aliases ↔ name ∈ others) (method : JoinMethod) :
    allows (.join aliases method) hints = allows (.join others method) hints := by
  have found : hints.forJoin aliases = hints.forJoin others := by
    rw [Hints.forJoin, Hints.forJoin]
    congr 1
    ext hint
    rw [hint.covers_congr same]
  rw [allows, allows, found]

/-- Only joins are judged by the tables that are read below. -/
theorem allows_ofOperator_congr (same : ∀ name, name ∈ aliases ↔ name ∈ others) (op : Operator) :
    ((Candidate.ofOperator aliases op).all fun candidate => allows candidate hints) =
      (Candidate.ofOperator others op).all fun candidate => allows candidate hints := by
  cases op with
  | hashJoin => exact allows_join_congr same _
  | mergeJoin => exact allows_join_congr same _
  | indexJoin => exact allows_join_congr same _
  | loopJoin => exact allows_join_congr same _
  | _ => rfl

/-- Where there are no hints, everything is allowed. -/
theorem allows_of_isEmpty (empty : hints.isEmpty = true) (candidate : Candidate) :
    allows candidate hints = true := by
  obtain ⟨no_scans, no_joins⟩ := Bool.and_eq_true_iff.mp empty
  cases candidate with
  | scan relation method index => simp [allows, Hints.forScan, List.isEmpty_iff.mp no_scans]
  | join aliases method => simp [allows, Hints.forJoin, List.isEmpty_iff.mp no_joins]

end Hint

namespace Plan.Tree

variable {hints : Hint.Hints} {op : Operator} {stats : NodeStats} {cost : Option Amount} {children : List Tree}

/-- Whether the hints allow the operator at the root of a plan. A join is judged by all tables that are read
below it. -/
def heeds (hints : Hint.Hints) (tree : Tree) : Bool :=
  (Hint.Candidate.ofOperator tree.tables tree.op).all fun candidate => Hint.allows candidate hints

/-- The number of operators of a plan that the hints do not allow. -/
def refusals (hints : Hint.Hints) (tree : Tree) : Nat := tree.subtrees.countP fun below => !below.heeds hints

theorem refusals_node : (node op stats cost children).refusals hints =
    (if (node op stats cost children).heeds hints then 0 else 1) + (children.map (refusals hints)).sum := by
  have below : (children.flatMap subtrees).countP (fun below => !below.heeds hints) =
      (children.map (refusals hints)).sum := List.countP_flatMap
  rw [refusals, subtrees_node, List.countP_cons, below, Nat.add_comm]
  cases (node op stats cost children).heeds hints with
  | true => rfl
  | false => rfl

/-- What moves or sorts rows reads what its input reads. -/
theorem tables_of_arranges (arranges : op.arranges = true) (below : Tree) :
    (node op stats cost [below]).tables = below.tables := by
  have reads : op.table? = none := by
    cases op <;> first | rfl | contradiction
  rw [tables_of_reads_none reads, List.flatMap_singleton]

/-- Hints do not constrain what moves or sorts rows. -/
theorem refusals_of_arranges (arranges : op.arranges = true) (below : Tree) :
    (node op stats cost [below]).refusals hints = below.refusals hints := by
  have heeds : (node op stats cost [below]).heeds hints = true := by
    cases op <;> first | rfl | contradiction
  rw [refusals_node, heeds]
  simp

theorem refusals_of_isEmpty (empty : hints.isEmpty = true) (tree : Tree) : tree.refusals hints = 0 := by
  have heeds : ∀ below : Tree, below.heeds hints = true := by
    intro below
    simp [heeds, Hint.allows_of_isEmpty empty]
  simp [refusals, heeds]

end Plan.Tree

namespace Search

open Query

variable {optimizer : Optimizer} {rules : List Rule} {memo earlier : Memo} {group below : Group} {id : GroupId}
  {required : Requirement} {distribution : Distribution} {alternative : Alternative} {tree : Tree}
  {trees : List Tree} {stats : NodeStats} {cost : Option Amount} {proposal : Proposal}
  {chosen : Option Proposal}

/-! ## The tables that are read -/

/-- Plans read the tables of the groups that they are for. -/
abbrev Named (memo : Memo) : List Request → List Tree → Prop :=
  List.Forall₂ fun request tree =>
    ∀ below, memo.group? request.group = some below → tree.tables.Perm below.aliases

/-- Plans are drafts for the groups that are asked for, whatever is demanded of them. -/
abbrev Drafted (drafts : DraftSpace) : List Request → List Tree → Prop :=
  List.Forall₂ fun request tree => ∃ required, drafts request.group required tree

/-- An alternative over plans that read the tables of their groups reads the tables of its own group. -/
theorem Alternative.Reads.tables_perm (reads : alternative.Reads earlier group)
    (named : Named earlier alternative.inputs trees) (stats : NodeStats) (cost : Option Amount) :
    (Plan.Tree.node alternative.op stats cost trees).tables.Perm group.aliases := by
  cases reads with
  | table op inputs aliases =>
      rw [inputs] at named
      obtain rfl := List.forall₂_nil_left_iff.mp named
      rw [Tree.tables_node, op, aliases]
      exact .refl _
  | one op inputs known aliases =>
      rw [inputs] at named
      obtain _ | ⟨named, _ | _⟩ := named
      rw [Tree.tables_of_reads_none op, aliases]
      simpa using named _ known
  | two op inputs known known' aliases =>
      rw [inputs] at named
      obtain _ | ⟨named, _ | ⟨named', _ | _⟩⟩ := named
      rw [Tree.tables_of_reads_none op]
      refine List.Perm.trans ?_ aliases
      simpa using (named _ known).append (named' _ known')

theorem Moved.tables_eq {moved : Tree} (h : Moved stats distribution tree moved) : moved.tables = tree.tables := by
  cases h with
  | stays well => rfl
  | moves needed => exact Tree.tables_of_arranges rfl tree

theorem Moved.refusals_eq {moved : Tree} (h : Moved stats distribution tree moved) (hints : Hint.Hints) :
    moved.refusals hints = tree.refusals hints := by
  cases h with
  | stays well => rfl
  | moves needed => exact Tree.refusals_of_arranges rfl tree

/-- Below what a requirement puts on top of a draft stands an alternative. -/
theorem DraftsForLast.exists_alternative {drafts : DraftSpace}
    (drafted : DraftsForLast rules earlier group drafts required tree) :
    ∃ alternative ∈ group.alternatives rules earlier earlier.length, ∃ cost inputs,
      Drafted drafts alternative.inputs inputs ∧
      tree.tables = (Plan.Tree.node alternative.op group.stats cost inputs).tables ∧
      ∀ hints, tree.refusals hints = (Plan.Tree.node alternative.op group.stats cost inputs).refusals hints := by
  induction drafted with
  | unsorted member drafted moved =>
      have drafted : Drafted drafts _ _ := drafted.imp fun _ _ drafted => ⟨_, drafted⟩
      exact ⟨_, member, _, _, drafted, moved.tables_eq, moved.refusals_eq⟩
  | sorted sorts below ih =>
      obtain ⟨alternative, member, cost, inputs, drafted, tables, refusals⟩ := ih
      refine ⟨alternative, member, cost, inputs, drafted, ?_, fun hints => ?_⟩
      · rw [← tables]
        exact Tree.tables_of_arranges rfl _
      · rw [← refusals]
        exact Tree.refusals_of_arranges rfl _

/-- Every draft for a group reads the tables of the group. -/
theorem tables_perm_of_drafts (layered : memo.Layered) (known : memo.group? id = some group)
    (drafted : Drafts rules memo id required tree) : tree.tables.Perm group.aliases := by
  induction memo generalizing id group required tree with
  | nil => contradiction
  | cons last earlier ih =>
      rw [Memo.group?] at known
      split at known
      · rename_i is_last
        subst is_last
        obtain rfl := Option.some.inj known
        obtain ⟨alternative, member, cost, inputs, drafted, tables, -⟩ :=
          (drafts_last.mp drafted).exists_alternative
        rw [tables]
        refine (layered.reads member).tables_perm (drafted.imp ?_) _ cost
        rintro request tree ⟨required, drafted⟩ below known
        exact ih layered.2 known drafted
      · rename_i before
        exact ih layered.2 known ((drafts_earlier before).mp drafted)

theorem Drafted.named {requests : List Request} (layered : memo.Layered)
    (drafted : Drafted (Drafts rules memo) requests trees) : Named memo requests trees := by
  apply drafted.imp
  rintro request tree ⟨required, drafted⟩ below known
  exact tables_perm_of_drafts layered known drafted

/-! ## What the search counts -/

/-- An alternative is allowed when the hints allow what they see of it. -/
theorem Optimizer.allows_eq (standard : optimizer.predicate = Hint.allows) (aliases : List String) :
    optimizer.allows aliases alternative =
      (Hint.Candidate.ofOperator aliases alternative.op).all fun candidate =>
        Hint.allows candidate optimizer.hints := by
  rw [Optimizer.allows, standard]
  cases empty : optimizer.hints.isEmpty with
  | true => simp [Hint.allows_of_isEmpty empty]
  | false => cases Hint.Candidate.ofOperator aliases alternative.op <;> rfl

/-- What an alternative at the root of a plan adds to the count is what the search adds. -/
theorem Alternative.Reads.refusals_eq (standard : optimizer.predicate = Hint.allows)
    (reads : alternative.Reads earlier group)
    (named : Named earlier alternative.inputs trees) :
    (Plan.Tree.node alternative.op stats cost trees).refusals optimizer.hints =
      optimizer.penalty group alternative + (trees.map (Plan.Tree.refusals optimizer.hints)).sum := by
  have same := reads.tables_perm named stats cost
  have heeds : (Plan.Tree.node alternative.op stats cost trees).heeds optimizer.hints =
      optimizer.allows group.aliases alternative := by
    rw [Optimizer.allows_eq standard]
    exact Hint.allows_ofOperator_congr (fun _ => same.mem_iff) alternative.op
  rw [Tree.refusals_node, heeds, Optimizer.penalty]

theorem foldl_violations (inputs : List Proposal) (count : Nat) :
    inputs.foldl (fun count proposal => count + proposal.violations) count =
      count + (inputs.map Proposal.violations).sum := by
  induction inputs generalizing count with
  | nil => rfl
  | cons proposal rest ih =>
      rw [List.foldl_cons, ih, List.map_cons, List.sum_cons, Nat.add_assoc]

theorem violations_of_enforce {bare : Proposal}
    (enforced : optimizer.enforce stats distribution bare = .ok proposal) :
    proposal.violations = bare.violations ∧
      proposal.tree.refusals optimizer.hints = bare.tree.refusals optimizer.hints := by
  obtain ⟨-, rfl⟩ | ⟨motion, cost, -, -, rfl⟩ := Optimizer.enforce_eq_ok enforced
  · exact ⟨rfl, rfl⟩
  · exact ⟨rfl, Tree.refusals_of_arranges rfl _⟩

theorem violations_of_sorted {columns : List ColumnId} {top : Proposal}
    (sorted : optimizer.sorted stats columns proposal = .ok top) :
    top.violations = proposal.violations ∧
      top.tree.refusals optimizer.hints = proposal.tree.refusals optimizer.hints := by
  obtain ⟨cost, -, rfl⟩ := Optimizer.sorted_eq_ok sorted
  exact ⟨rfl, Tree.refusals_of_arranges rfl _⟩

/-- A plan counts the operators that the hints refuse. -/
def Proposal.Counts (hints : Hint.Hints) (proposal : Proposal) : Prop :=
  proposal.violations = proposal.tree.refusals hints

theorem Optimizer.PlansForLast.counts {space : Space} (standard : optimizer.predicate = Hint.allows)
    (layered : Memo.Layered (group :: earlier))
    (spaced : ∀ id required proposal, space id required proposal →
      Drafts optimizer.rules earlier id required proposal.tree ∧ proposal.Counts optimizer.hints)
    (planned : optimizer.PlansForLast earlier group space required proposal) :
    proposal.Counts optimizer.hints := by
  induction planned with
  | unsorted member planned =>
      obtain @⟨inputs, bare, _, planned, assembled, enforced⟩ := planned
      have drafted : Drafted (Drafts optimizer.rules earlier) _ (inputs.map Proposal.tree) :=
        List.forall₂_map_right_iff.mpr (planned.imp fun _ _ planned => ⟨_, (spaced _ _ _ planned).1⟩)
      have count := Optimizer.forall_inputs (fun id required proposal h => (spaced id required proposal h).2) planned
      have below : inputs.map Proposal.violations =
          (inputs.map Proposal.tree).map (Tree.refusals optimizer.hints) := by
        rw [List.map_map]
        exact List.map_congr_left count
      have counts : bare.Counts optimizer.hints := by
        obtain ⟨cost, delivered, -, -, rfl⟩ := assemble_eq_ok assembled
        rw [Proposal.Counts, foldl_violations, Proposal.tree,
          (layered.reads member).refusals_eq standard (drafted.named layered.2), below]
      obtain ⟨violations, refusals⟩ := violations_of_enforce enforced
      rw [Proposal.Counts, violations, refusals]
      exact counts
  | sorted sorts below sorted ih =>
      obtain ⟨violations, refusals⟩ := violations_of_sorted sorted
      rw [Proposal.Counts, violations, refusals]
      exact ih

/-- Every plan counts the operators that the hints refuse. -/
theorem counts_of_plans (standard : optimizer.predicate = Hint.allows) (layered : memo.Layered)
    (planned : optimizer.Plans memo id required proposal) : proposal.Counts optimizer.hints := by
  induction memo generalizing id required proposal with
  | nil => exact planned.elim
  | cons group earlier ih =>
      by_cases last : id = earlier.length
      · subst last
        refine (Optimizer.plans_last.mp planned).counts standard layered fun _ _ _ planned => ?_
        exact ⟨drafts_of_plans planned, ih layered.2 planned⟩
      · exact ih layered.2 ((Optimizer.plans_earlier last).mp planned)

end Search

end Warehouse
