import Warehouse.Proofs.Search.Deliveries

/-! # The plans that there are, whatever they cost

`Drafts` are all plans for a group under a requirement, regardless of what they cost and of whether they can be
costed at all: any of the group's alternatives over any drafts for its inputs, with the motion or the sort on
top that the requirement asks for. Every plan with costs is one of them. -/

namespace Warehouse.Search

open Plan Cost

/-- Says which drafts there are for a group under a requirement. -/
abbrev DraftSpace := GroupId → Requirement → Tree → Prop

/-- A plan, with a motion on top if its rows do not lie as is required. -/
inductive Moved (stats : NodeStats) (required : Distribution) (tree : Tree) : Tree → Prop
  | stays (well : Optimizer.motionBetween tree.delivered required = none) : Moved stats required tree tree
  | moves {motion : Motion} {cost : Option Amount}
      (needed : Optimizer.motionBetween tree.delivered required = some motion) :
      Moved stats required tree (.node (.motion motion) stats cost [tree])

/-- The drafts for the last group of a memo. -/
inductive DraftsForLast (rules : List Rule) (earlier : Memo) (group : Group) (space : DraftSpace) :
    Requirement → Tree → Prop
  | unsorted {distribution : Distribution} {alternative : Alternative} {cost : Option Amount} {inputs : List Tree}
      {tree : Tree} (member : alternative ∈ group.alternatives rules earlier earlier.length)
      (drafted : List.Forall₂ (fun request input => space request.group (request.demand.under distribution) input)
        alternative.inputs inputs)
      (moved : Moved group.stats distribution (.node alternative.op group.stats cost inputs) tree) :
      DraftsForLast rules earlier group space (.distributed distribution) tree
  | sorted {distribution : Distribution} {columns : List ColumnId} {cost : Option Amount} {tree : Tree}
      (sorts : columns ≠ []) (below : DraftsForLast rules earlier group space (.distributed distribution) tree) :
      DraftsForLast rules earlier group space ⟨distribution, columns⟩ (.node (.sort columns) group.stats cost [tree])

/-- The drafts for a group of a memo under a requirement. -/
def Drafts (rules : List Rule) : Memo → DraftSpace
  | [] => fun _ _ _ => False
  | group :: earlier => fun id required tree =>
      if id = earlier.length then DraftsForLast rules earlier group (Drafts rules earlier) required tree
      else Drafts rules earlier id required tree

variable {optimizer : Optimizer} {rules : List Rule} {earlier memo : Memo} {group : Group} {space : Space}
  {drafts : DraftSpace} {id : GroupId} {required : Requirement} {tree : Tree} {proposal : Proposal}

theorem drafts_last : Drafts rules (group :: earlier) earlier.length required tree ↔
    DraftsForLast rules earlier group (Drafts rules earlier) required tree := by
  simp only [Drafts, if_true]

theorem drafts_earlier (h : id ≠ earlier.length) :
    Drafts rules (group :: earlier) id required tree ↔ Drafts rules earlier id required tree := by
  simp only [Drafts, if_neg h]

theorem moved_of_enforce {stats : NodeStats} {distribution : Distribution} {bare : Proposal}
    (delivered : bare.tree.delivered = bare.distribution)
    (enforced : optimizer.enforce stats distribution bare = .ok proposal) :
    Moved stats distribution bare.tree proposal.tree := by
  obtain ⟨unmoved, rfl⟩ | ⟨motion, cost, needed, -, rfl⟩ := Optimizer.enforce_eq_ok enforced
  · exact .stays (delivered ▸ unmoved)
  · exact .moves (delivered ▸ needed)

theorem Optimizer.PlansForLast.drafted
    (spaced : ∀ id required proposal, space id required proposal →
      proposal.DeliversAs required ∧ drafts id required proposal.tree)
    (planned : optimizer.PlansForLast earlier group space required proposal) :
    DraftsForLast optimizer.rules earlier group drafts required proposal.tree := by
  induction planned with
  | @unsorted distribution alternative proposal member planned =>
      obtain @⟨inputs, bare, _, planned, assembled, enforced⟩ := planned
      obtain ⟨expr, -, offered⟩ := List.mem_flatMap.mp member
      obtain ⟨rule, -, offered⟩ := List.mem_flatMap.mp offered
      have deliver := planned.imp fun _ _ planned => (spaced _ _ _ planned).1
      have delivers := (offered_of_mem offered).delivers (Alternative.sorts_of_mem offered) deliver assembled
      have drafted : List.Forall₂ (fun request input => drafts request.group (request.demand.under distribution) input)
          alternative.inputs (inputs.map Proposal.tree) :=
        List.forall₂_map_right_iff.mpr (planned.imp fun _ _ planned => (spaced _ _ _ planned).2)
      obtain ⟨cost, given, -, -, rfl⟩ := assemble_eq_ok assembled
      exact .unsorted member drafted (moved_of_enforce delivers.delivered enforced)
  | sorted sorts below sorted ih =>
      obtain ⟨cost, -, rfl⟩ := sorted_eq_ok sorted
      exact .sorted sorts ih

/-- Every plan is a draft. -/
theorem drafts_of_plans (planned : optimizer.Plans memo id required proposal) :
    Drafts optimizer.rules memo id required proposal.tree := by
  induction memo generalizing id required proposal with
  | nil => exact planned.elim
  | cons group earlier ih =>
      by_cases last : id = earlier.length
      · subst last
        refine drafts_last.mpr ((Optimizer.plans_last.mp planned).drafted fun _ _ _ planned => ?_)
        exact ⟨deliversAs_of_plans planned, ih planned⟩
      · exact (drafts_earlier last).mpr (ih ((Optimizer.plans_earlier last).mp planned))

end Warehouse.Search
