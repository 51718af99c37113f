import Warehouse.Proofs.Search.Deliveries
import Warehouse.Proofs.Search.Implementations

/-! # Motions over copies

When a motion reads rows that lie on every segment, these are the rows of a table that lies so: `CopiesTable`.
What a motion has copied no other one reads, since it was copied where copies were demanded. A table of which
every segment has all rows is read on all of them, though, and a motion above takes each row from every one. -/

namespace Warehouse.Search

open Plan Query

/-- The rows of a plan lie on every segment because those of a table do, and stay there under operators that leave
rows where they lie. -/
inductive CopiesTable : Tree → Prop
  | scan {table : Table} {scanId : Option Nat} {access : Access} {stats : NodeStats} {cost : Option Cost.Amount}
      (replicated : table.distribution = .replicated) : CopiesTable (.node (.scan table scanId access) stats cost [])
  | filter {columns : List ColumnId} {stats : NodeStats} {cost : Option Cost.Amount} {input : Tree}
      (below : CopiesTable input) : CopiesTable (.node (.filter columns) stats cost [input])
  | sort {columns : List ColumnId} {stats : NodeStats} {cost : Option Cost.Amount} {input : Tree}
      (below : CopiesTable input) : CopiesTable (.node (.sort columns) stats cost [input])
  | join {keys : List JoinKey} {op : Operator} {stats : NodeStats} {cost : Option Cost.Amount} {outer inner : Tree}
      (joins : Joins keys op) (below : CopiesTable outer) : CopiesTable (.node op stats cost [outer, inner])

/-- A motion at the root of a plan reads copies only where they are the rows of a table. -/
def SparesCopies : Tree → Prop
  | .node (.motion _) _ _ inputs => ∀ input ∈ inputs, input.delivered = .replicated → CopiesTable input
  | _ => True

/-- A plan whose motions read copies only where they are the rows of a table, and which gives copies only in this
way or where they are required. -/
structure Proposal.Spares (required : Distribution) (proposal : Proposal) : Prop where
  spared : ∀ below ∈ proposal.tree.subtrees, SparesCopies below
  copies : proposal.distribution = .replicated → required = .replicated ∨ CopiesTable proposal.tree

/-- An alternative that filters demands of its input what is demanded of itself, or nothing. -/
def Alternative.Forwards (alternative : Alternative) : Prop :=
  ∀ columns, alternative.op = .filter columns →
    ∃ input, alternative.inputs = [.anywhere input] ∨ alternative.inputs = [⟨input, .inherit⟩]

variable {optimizer : Optimizer} {memo earlier : Memo} {group : Group} {space : Space} {id : GroupId}
  {required : Requirement} {proposal bare : Proposal} {expr : GroupExpr} {alternative : Alternative}
  {distribution : Distribution} {inputs : List Proposal} {rule : Rule}

theorem Alternative.forwards_of_mem (member : alternative ∈ rule.alternatives memo id expr) : alternative.Forwards := by
  intro columns op_eq
  -- an index scan is no filter, whatever rule it comes from
  have not_indexed : ∀ (rule : Rule) (access : TableSelection → IndexDescriptor → Option Access),
      alternative ∉ indexAlternatives rule id memo expr access := by
    intro rule access member
    obtain ⟨selection, -, index, -, found, -, rfl⟩ := exists_of_mem_indexAlternatives member
    contradiction
  cases offered_of_mem member with
  | scan => contradiction
  | indexed => contradiction
  | scalar => contradiction
  | grouped => contradiction
  | together => contradiction
  | copied joins => cases joins <;> contradiction
  | filter =>
      cases rule with
      | filter =>
          obtain ⟨request, asked, same⟩ := List.mem_map.mp member
          obtain ⟨-, -, inputs_eq, -⟩ := Alternative.mk.inj same
          obtain rfl | rfl := List.mem_pair.mp asked
          · exact ⟨_, .inl inputs_eq.symm⟩
          · exact ⟨_, .inr inputs_eq.symm⟩
      | indexScan => exact absurd member (not_indexed _ _)
      | indexOnlyScan => exact absurd member (not_indexed _ _)
      | bitmapScan => exact absurd member (not_indexed _ _)
      | _ => contradiction

/-- A plan that has no motion at its root spares copies if the plans below do and its own rows are copies for a
reason. -/
theorem Proposal.spares_of_node (unmoved : ∀ kind, proposal.op ≠ .motion kind)
    (below : ∀ child ∈ proposal.inputs, ∀ sub ∈ child.subtrees, SparesCopies sub)
    (copies : proposal.distribution = .replicated → distribution = .replicated ∨ CopiesTable proposal.tree) :
    proposal.Spares distribution := by
  refine ⟨Tree.forall_subtrees_node.mpr ⟨?_, below⟩, copies⟩
  cases op_eq : proposal.op with
  | motion kind => exact absurd op_eq (unmoved kind)
  | _ => trivial

/-- A plan with an alternative at its root spares copies when the plans for its inputs do. -/
theorem Offered.spares (offered : Offered memo id expr alternative) (forwards : alternative.Forwards)
    (spare : List.Forall₂ (fun request input => Proposal.Spares (request.demand.under distribution).distribution input)
      alternative.inputs inputs)
    (below : ∀ input ∈ inputs, ∀ sub ∈ input.tree.subtrees, SparesCopies sub)
    (assembled : optimizer.assemble group alternative inputs = .ok bare) : bare.Spares distribution := by
  obtain ⟨cost, given, -, delivered, rfl⟩ := Optimizer.assemble_eq_ok assembled
  apply Proposal.spares_of_node
  · intro kind same
    have computes : (Operator.motion kind).arranges = false := same ▸ offered.arranges
    contradiction
  · rw [List.forall_mem_map]
    exact below
  · rintro rfl
    cases offered with
    | scan =>
        obtain rfl := List.forall₂_nil_left_iff.mp spare
        exact .inr (.scan (Except.ok.inj delivered))
    | indexed selects answers =>
        obtain rfl := List.forall₂_nil_left_iff.mp spare
        exact .inr (.scan (Except.ok.inj delivered))
    | together keyed => exact absurd (Except.ok.inj delivered) (by simp)
    | scalar => exact absurd (Except.ok.inj delivered) (by simp)
    | grouped groups => exact absurd (Except.ok.inj delivered) (by simp)
    | copied joins =>
        obtain _ | ⟨outer, _ | ⟨inner, _ | _⟩⟩ := spare
        obtain impossible | below := outer.copies (Except.ok.inj delivered)
        · contradiction
        · exact .inr (.join joins below)
    | filter =>
        obtain ⟨group, asked⟩ := forwards _ rfl
        obtain _ | ⟨input, _ | _⟩ := spare
        obtain same | same := asked
        · obtain ⟨-, rfl⟩ := Request.mk.inj (List.cons.inj same).1
          obtain impossible | below := input.copies (Except.ok.inj delivered)
          · contradiction
          · exact .inr (.filter below)
        · obtain ⟨-, rfl⟩ := Request.mk.inj (List.cons.inj same).1
          exact (input.copies (Except.ok.inj delivered)).imp_right .filter

/-- A motion is put on copies only if others than they are required. -/
theorem Proposal.Spares.enforce {stats : NodeStats} (spares : bare.Spares distribution) (delivers : bare.Delivers)
    (enforced : optimizer.enforce stats distribution bare = .ok proposal) : proposal.Spares distribution := by
  obtain ⟨-, rfl⟩ | ⟨motion, cost, moved, -, rfl⟩ := Optimizer.enforce_eq_ok enforced
  · exact spares
  · refine ⟨Tree.forall_subtrees_node.mpr ⟨?_, by simpa using spares.spared⟩, .inl⟩
    intro input member copied
    rw [List.mem_singleton.mp member] at copied ⊢
    have bare_copied : bare.distribution = .replicated := delivers.delivered.symm.trans copied
    obtain required | below := spares.copies bare_copied
    · -- copies are what was required
      rw [Optimizer.motionBetween, bare_copied, required] at moved
      contradiction
    · exact below

theorem Proposal.Spares.sort {stats : NodeStats} {columns : List ColumnId} {top : Proposal}
    (spares : proposal.Spares distribution) (sorted : optimizer.sorted stats columns proposal = .ok top) :
    top.Spares distribution := by
  obtain ⟨cost, -, rfl⟩ := Optimizer.sorted_eq_ok sorted
  apply spares_of_node
  · intro kind same
    contradiction
  · simpa using spares.spared
  · intro copied
    exact (spares.copies copied).imp_right .sort

theorem Optimizer.PlansForLast.spares
    (spaced : ∀ id required proposal, space id required proposal → proposal.Spares required.distribution)
    (delivered : ∀ id required proposal, space id required proposal → proposal.DeliversAs required)
    (planned : optimizer.PlansForLast earlier group space required proposal) :
    proposal.Spares required.distribution := by
  induction planned with
  | unsorted member planned =>
      obtain @⟨inputs, bare, _, planned, assembled, enforced⟩ := planned
      obtain ⟨expr, -, member⟩ := List.mem_flatMap.mp member
      obtain ⟨rule, -, member⟩ := List.mem_flatMap.mp member
      have offered := offered_of_mem member
      have spare := planned.imp fun _ _ planned => spaced _ _ _ planned
      have below : ∀ input ∈ inputs, ∀ sub ∈ input.tree.subtrees, SparesCopies sub :=
        forall_inputs (fun id required proposal planned => (spaced id required proposal planned).spared) planned
      have deliver := planned.imp fun _ _ planned => delivered _ _ _ planned
      have delivers := offered.delivers (Alternative.sorts_of_mem member) deliver assembled
      exact (offered.spares (Alternative.forwards_of_mem member) spare below assembled).enforce delivers enforced
  | sorted sorts below sorted ih => exact ih.sort sorted

/-- The motions of every plan read copies only where they are the rows of a table. -/
theorem spares_of_plans (planned : optimizer.Plans memo id required proposal) :
    proposal.Spares required.distribution :=
  Optimizer.plans_induction (fun _ _ _ _ below planned => planned.spares below fun _ _ _ => deliversAs_of_plans) planned

/-- Rows that lie on every segment because those of a table do are read from such a table. -/
theorem CopiesTable.exists_scan {tree : Tree} (copies : CopiesTable tree) :
    ∃ below ∈ tree.subtrees, ∃ table, below.op.table? = some table ∧ table.distribution = .replicated := by
  induction copies with
  | scan replicated => exact ⟨_, Tree.mem_subtrees_self _, _, rfl, replicated⟩
  | filter _ ih =>
      obtain ⟨below, member, found⟩ := ih
      exact ⟨below, Tree.mem_subtrees_of_child List.mem_cons_self member, found⟩
  | sort _ ih =>
      obtain ⟨below, member, found⟩ := ih
      exact ⟨below, Tree.mem_subtrees_of_child List.mem_cons_self member, found⟩
  | join _ _ ih =>
      obtain ⟨below, member, found⟩ := ih
      exact ⟨below, Tree.mem_subtrees_of_child List.mem_cons_self member, found⟩

/-- The motions of the plan that is chosen for a query read copies only where they are the rows of a table that
lies on every segment, and which is scanned below. Where there is no such table no motion reads copies. -/
theorem Optimizer.optimize_spares_copies {query : Query} {plan : ChosenPlan} (h : optimizer.optimize query = .ok plan) :
    ∃ tree, plan.tree = .ok tree ∧
      ∀ kind stats cost inputs, .node (.motion kind) stats cost inputs ∈ tree.subtrees →
        ∀ input ∈ inputs, input.delivered = .replicated → CopiesTable input ∧
          ∃ below ∈ input.subtrees, ∃ table, below.op.table? = some table ∧ table.distribution = .replicated := by
  obtain ⟨goal, proposal, -, best, is⟩ := optimize_eq_ok h
  have spares := spares_of_plans (plans_of_best best)
  refine ⟨proposal.tree, is.tree, ?_⟩
  intro kind stats cost inputs member input own copied
  have copies : CopiesTable input := spares.spared _ member input own copied
  exact ⟨copies, copies.exists_scan⟩

/-- The nations, of which every segment has all. -/
def nations : Table := ⟨"nations", .heap, .replicated, false, [1], ⟨25.0, 16.0, 0, 0, []⟩, []⟩

/-- Where the rows lie that a motion at the root of a plan reads. -/
def movedFrom : Tree → Option Distribution
  | .node (.motion _) _ _ [input] => some input.delivered
  | _ => none

/-- All nations. -/
def listNations : Query := ⟨[nations], .get "nations" none (.of 25.0 16.0)⟩

/-- They are gathered from every segment. -/
example : (do movedFrom (← (← (fourSegments.optimize listNations).toOption).tree.toOption)) = some .replicated := by
  decide +kernel

end Warehouse.Search
