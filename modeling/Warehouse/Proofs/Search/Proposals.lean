import Warehouse.Proofs.Cost.Nodes
import Warehouse.Search.Optimizer

/-! # Choosing without remembering

`Optimizer.best` finds the best plan for a group under a requirement anew every time that it is asked,
and makes it as a tree of its own. It says what the search finds, which asks once for every group and
requirement and lets plans share their nodes. -/

namespace Warehouse.Search

open Plan Cost

/-- A plan for a group. -/
structure Proposal where
  op : Operator
  stats : NodeStats
  /-- The plans for the inputs. -/
  inputs : List Tree
  cost : Amount
  distribution : Distribution
  /-- The number of groups in it whose hints were ignored. -/
  violations : Nat

namespace Proposal

/-- The plan. -/
def tree (proposal : Proposal) : Tree := .node proposal.op proposal.stats (some proposal.cost) proposal.inputs

/-- What the cost of a plan above it depends on. -/
def costed (proposal : Proposal) : CostedChild := ⟨proposal.op, proposal.stats, proposal.cost⟩

theorem costed_shows (proposals : List Proposal) :
    List.Forall₂ CostedChild.Shows (proposals.map costed) (proposals.map tree) := by
  induction proposals with
  | nil => exact .nil
  | cons proposal rest ih => exact .cons ⟨rfl, rfl, rfl⟩ ih

/-- Whether a plan is better than another one. -/
def beats (proposal other : Proposal) : Bool :=
  proposal.violations < other.violations ||
    (proposal.violations == other.violations && proposal.cost.value < other.cost.value)

/-- The better one of two plans; the first when none is. -/
def better : Option Proposal → Option Proposal → Option Proposal
  | none, other => other
  | best, none => best
  | some best, some other => some (if other.beats best then other else best)

end Proposal

/-- Says which plan is the best one for a group under a requirement. -/
abbrev Chooser := GroupId → Requirement → Except Failure (Option Proposal)

namespace Optimizer

/-- What an operator costs over plans for its inputs, of which there have to be as many as it takes. -/
def costOver (optimizer : Optimizer) (op : Operator) (stats : NodeStats) (inputs : List Tree) :
    Except Failure Amount :=
  if !op.arity.accepts inputs.length then
    .error (.error (.invalidPlan s!"{op.name} cannot take {inputs.length} children"))
  else optimizer.model.costOver op stats inputs

/-- The best plans for some inputs, unless one of them has none. -/
def inputProposals (best : Chooser) (distribution : Distribution) :
    List Request → Except Failure (Option (List Proposal))
  | [] => return some []
  | request :: rest => do
      match ← best request.group (request.demand.under distribution) with
      | none => return none
      | some proposal => return (proposal :: ·) <$> (← inputProposals best distribution rest)

/-- How the rows of an alternative lie over the given plans for its inputs. -/
def deliveredOver (alternative : Alternative) (inputs : List Proposal) : Except Error Distribution :=
  match alternative.delivery with
  | .fixed distribution => .ok distribution
  | .ofInput position =>
      match inputs[position]? with
      | some proposal => .ok proposal.distribution
      | none => .error (.invalidPlan s!"{alternative.rule.name} has no child {position}")

/-- How many hints an alternative ignores. -/
def penalty (optimizer : Optimizer) (group : Group) (alternative : Alternative) : Nat :=
  if optimizer.allows group.aliases alternative then 0 else 1

/-- The plan with an alternative at its root over the given plans for its inputs. -/
def assemble (optimizer : Optimizer) (group : Group) (alternative : Alternative) (inputs : List Proposal) :
    Except Failure Proposal := do
  let trees := inputs.map Proposal.tree
  let cost ← optimizer.costOver alternative.op group.stats trees
  let distribution ← Except.mapError Failure.error (deliveredOver alternative inputs)
  return ⟨alternative.op, group.stats, trees, cost, distribution,
    inputs.foldl (fun count proposal => count + proposal.violations) (optimizer.penalty group alternative)⟩

/-- Put a motion on top of a plan if its rows do not lie as is required. -/
def enforce (optimizer : Optimizer) (stats : NodeStats) (required : Distribution) (proposal : Proposal) :
    Except Failure Proposal :=
  match motionBetween proposal.distribution required with
  | none => return proposal
  | some motion => do
      let cost ← optimizer.costOver (.motion motion) stats [proposal.tree]
      return ⟨.motion motion, stats, [proposal.tree], cost, required, proposal.violations⟩

/-- Sort the rows of a plan. -/
def sorted (optimizer : Optimizer) (stats : NodeStats) (columns : List ColumnId) (proposal : Proposal) :
    Except Failure Proposal := do
  let cost ← optimizer.costOver (.sort columns) stats [proposal.tree]
  return ⟨.sort columns, stats, [proposal.tree], cost, proposal.distribution, proposal.violations⟩

/-- The best plan with an alternative at its root, under a required distribution. -/
def bestBy (optimizer : Optimizer) (group : Group) (best : Chooser) (required : Distribution)
    (alternative : Alternative) : Except Failure (Option Proposal) := do
  match ← inputProposals best required alternative.inputs with
  | none => return none
  | some inputs =>
      some <$> (optimizer.assemble group alternative inputs >>= optimizer.enforce group.stats required)

/-- The best plan with one of some alternatives at its root; the first of equal ones. -/
def bestAmong (optimizer : Optimizer) (group : Group) (best : Chooser) (required : Distribution) :
    List Alternative → Except Failure (Option Proposal) :=
  List.foldlM (fun current alternative =>
    Proposal.better current <$> optimizer.bestBy group best required alternative) none

/-- The best plan for a group under a required distribution. Alternatives that the hints refuse are
looked at when there is no other plan. -/
def bestOfGroup (optimizer : Optimizer) (earlier : Memo) (group : Group) (best : Chooser)
    (required : Distribution) : Except Failure (Option Proposal) := do
  let (allowed, refused) := (group.alternatives optimizer.rules earlier earlier.length).partition
    (optimizer.allows group.aliases)
  match ← optimizer.bestAmong group best required allowed with
  | some proposal => return some proposal
  | none => optimizer.bestAmong group best required refused

/-- The best plan for the last group of a memo under a requirement. -/
def bestOfLast (optimizer : Optimizer) (earlier : Memo) (group : Group) (best : Chooser)
    (required : Requirement) : Except Failure (Option Proposal) := do
  let unsorted ← optimizer.bestOfGroup earlier group best required.distribution
  if required.sort.isEmpty then return unsorted
  else unsorted.mapM (optimizer.sorted group.stats required.sort)

/-- The best plan for a group of a memo under a requirement. -/
def best (optimizer : Optimizer) : Memo → Chooser
  | [] => fun _ _ => return none
  | group :: earlier => fun id required =>
      if id = earlier.length then
        if optimizer.cancelled then throw (.error .cancelled)
        else optimizer.bestOfLast earlier group (optimizer.best earlier) required
      else optimizer.best earlier id required

variable {optimizer : Optimizer} {earlier : Memo} {group : Group} {id : GroupId} {required : Requirement}

theorem best_last : optimizer.best (group :: earlier) earlier.length required =
    if optimizer.cancelled then throw (.error .cancelled)
    else optimizer.bestOfLast earlier group (optimizer.best earlier) required := by
  simp only [best, if_true]

theorem best_earlier (h : id ≠ earlier.length) :
    optimizer.best (group :: earlier) id required = optimizer.best earlier id required := by
  simp only [best, if_neg h]

end Optimizer

end Warehouse.Search
