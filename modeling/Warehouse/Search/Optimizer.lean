import Warehouse.Config
import Warehouse.Search.Exploration

/-! # Choosing a plan

The cheapest plan for a group under a requirement is found once and remembered. It is made
of the cheapest plans for the inputs of one of the group's alternatives, with a motion on
top when the rows do not lie as they have to, and with a sort when they have to be sorted.
Alternatives that the hints do not allow are only looked at when no other gives a plan; the
groups where that happens are counted, and plans with fewer of them come first. -/

namespace Warehouse.Search

open Plan Cost

/-- What plans are chosen by. -/
structure Optimizer where
  model : Model
  hints : Hint.Hints
  /-- Says which alternatives the hints allow. -/
  predicate : Hint.Predicate
  rules : List Rule
  /-- A search that was cancelled does not begin anything. -/
  cancelled : Bool

/-- The cheapest plan for a group under a requirement. -/
structure Winner where
  /-- The number of its root. -/
  node : Nat
  cost : Amount
  distribution : Distribution
  /-- The number of groups in it whose hints were ignored. -/
  violations : Nat

/-- Whether a plan is better than another one. -/
def Winner.beats (winner other : Winner) : Bool :=
  winner.violations < other.violations ||
    (winner.violations == other.violations && winner.cost.value < other.cost.value)

/-- How much work a search has done. -/
structure Counters where
  costed : Nat
  /-- Alternatives that the hints did not allow. -/
  rejected : Nat
  /-- Groups for which hints were ignored. -/
  fallbacks : Nat
  deriving DecidableEq, Repr

/-- What a search has found so far. -/
structure Progress where
  arena : Arena
  winners : List ((GroupId × Requirement) × Option Winner)
  counters : Counters

namespace Progress

/-- The beginning of a search. -/
def start : Progress := ⟨.empty, [], ⟨0, 0, 0⟩⟩

/-- What is remembered for a group under a requirement. -/
def winner? (progress : Progress) (id : GroupId) (required : Requirement) : Option (Option Winner) :=
  progress.winners.lookup (id, required)

/-- Remember the outcome for a group under a requirement. -/
def remember (progress : Progress) (id : GroupId) (required : Requirement) (found : Option Winner) :
    Progress :=
  { progress with winners := ((id, required), found) :: progress.winners }

/-- Count an alternative that was costed. -/
def countCosted (progress : Progress) : Progress :=
  { progress with counters.costed := progress.counters.costed + 1 }

/-- Count alternatives that the hints did not allow. -/
def countRejected (progress : Progress) (number : Nat) : Progress :=
  { progress with counters.rejected := progress.counters.rejected + number }

/-- Count a group for which hints were ignored. -/
def countFallback (progress : Progress) : Progress :=
  { progress with counters.fallbacks := progress.counters.fallbacks + 1 }

end Progress

/-- A part of a search. -/
abbrev SearchM := StateT Progress (Except Failure)

/-- Finds the cheapest plan for a group under a requirement. -/
abbrev Finder := GroupId → Requirement → SearchM (Option Winner)

namespace Optimizer

/-- An optimizer without hints. -/
def ofModel (model : Model) : Optimizer := ⟨model, .none, Hint.allows, Rule.all, false⟩

/-- The optimizer of a configuration, after this was checked. -/
def ofConfig (config : Config) : Except Error Optimizer := do
  config.validate
  return { ofModel (← config.model) with hints := config.hints }

/-- Whether the hints allow an alternative over some tables. -/
def allows (optimizer : Optimizer) (aliases : List String) (alternative : Alternative) : Bool :=
  optimizer.hints.isEmpty ||
    match Hint.Candidate.ofOperator aliases alternative.op with
    | none => true
    | some candidate => optimizer.predicate candidate optimizer.hints

/-- Give what is remembered for a group under a requirement, or find it and remember
it. -/
def memoized (optimizer : Optimizer) (id : GroupId) (required : Requirement)
    (find : SearchM (Option Winner)) : SearchM (Option Winner) := do
  match (← get).winner? id required with
  | some known => return known
  | none =>
      if optimizer.cancelled then throw (.error .cancelled)
      let found ← find
      modify fun progress => progress.remember id required found
      return found

/-- Add a node to the arena and note its cost. -/
def place (optimizer : Optimizer) (op : Operator) (children : List Nat) (stats : NodeStats) :
    SearchM (Nat × Amount) := fun progress =>
  match progress.arena.add op children stats with
  | .error cause => .error (.error cause)
  | .ok (node, arena) =>
      match optimizer.model.noteCost arena node with
      | (.error failure, _) => .error failure
      | (.ok cost, arena) => .ok ((node, cost), { progress with arena })

/-- The cheapest plans for some inputs, unless one of them has none. Inputs after it are
not looked at. -/
def inputWinners (find : Finder) (distribution : Distribution) :
    List Request → SearchM (Option (List Winner))
  | [] => return some []
  | request :: rest => do
      match ← find request.group (request.demand.under distribution) with
      | none => return none
      | some winner => return (winner :: ·) <$> (← inputWinners find distribution rest)

/-- How the rows of an alternative lie over the given plans for its inputs. -/
def delivered (alternative : Alternative) (inputs : List Winner) : Except Error Distribution :=
  match alternative.delivery with
  | .fixed distribution => .ok distribution
  | .ofInput position =>
      match inputs[position]? with
      | some winner => .ok winner.distribution
      | none => .error (.invalidPlan s!"{alternative.rule.name} has no child {position}")

/-- The motion that makes rows lie in some way. -/
def motionTo : Distribution → Option Motion
  | .any => none
  | .singleton => some .gather
  | .replicated => some (.broadcast false)
  | .hashed columns => some (.redistribute columns false)
  | .random => some .random

/-- The motion that is needed to make rows that lie like `given` lie as is required. -/
def motionBetween (given required : Distribution) : Option Motion :=
  if given.satisfies required then none else motionTo required

/-- Put a motion on top of a plan for a group if its rows do not lie as is required. -/
def enforceDistribution (optimizer : Optimizer) (stats : NodeStats) (required : Distribution)
    (winner : Winner) : SearchM Winner :=
  match motionBetween winner.distribution required with
  | none => return winner
  | some motion => do
      let (node, cost) ← optimizer.place (.motion motion) [winner.node] stats
      return ⟨node, cost, required, winner.violations⟩

/-- The cheapest plan with an alternative at its root, under a required distribution. -/
def implementBy (optimizer : Optimizer) (group : Group) (find : Finder) (required : Distribution)
    (penalty : Nat) (alternative : Alternative) : SearchM (Option Winner) := do
  match ← inputWinners find required alternative.inputs with
  | none => return none
  | some inputs =>
      let (node, cost) ← optimizer.place alternative.op (inputs.map Winner.node) group.stats
      modify Progress.countCosted
      let distribution ← liftM (Except.mapError Failure.error (delivered alternative inputs))
      let violations := inputs.foldl (fun count winner => count + winner.violations) penalty
      some <$> optimizer.enforceDistribution group.stats required
        ⟨node, cost, distribution, violations⟩

/-- The better one of two plans; the first when none is. -/
def better : Option Winner → Option Winner → Option Winner
  | none, other => other
  | best, none => best
  | some best, some other => some (if other.beats best then other else best)

/-- The best plan with one of some alternatives at its root; the first of equal ones. -/
def bestOf (optimizer : Optimizer) (group : Group) (find : Finder) (required : Distribution)
    (penalty : Nat) : Option Winner → List Alternative → SearchM (Option Winner)
  | best, [] => return best
  | best, alternative :: rest => do
      let found ← optimizer.implementBy group find required penalty alternative
      optimizer.bestOf group find required penalty (better best found) rest

/-- The best plan for a group under a required distribution. -/
def implement (optimizer : Optimizer) (earlier : Memo) (group : Group) (find : Finder)
    (required : Distribution) : SearchM (Option Winner) := do
  let (allowed, refused) := (group.alternatives optimizer.rules earlier earlier.length).partition
    (optimizer.allows group.aliases)
  modify fun progress => progress.countRejected refused.length
  match ← optimizer.bestOf group find required 0 none allowed with
  | some winner => return some winner
  | none =>
      if refused.isEmpty then return none
      modify Progress.countFallback
      optimizer.bestOf group find required 1 none refused

/-- Sort the rows of the best plan for a group. -/
def sortBy (optimizer : Optimizer) (stats : NodeStats) (columns : List ColumnId) :
    Option Winner → SearchM (Option Winner)
  | none => return none
  | some winner => do
      let (node, cost) ← optimizer.place (.sort columns) [winner.node] stats
      return some ⟨node, cost, winner.distribution, winner.violations⟩

/-- The best plan for the last group of a memo under a requirement. -/
def findLast (optimizer : Optimizer) (earlier : Memo) (group : Group) (find : Finder)
    (required : Requirement) : SearchM (Option Winner) :=
  let unsorted := optimizer.memoized earlier.length (.distributed required.distribution)
    (optimizer.implement earlier group find required.distribution)
  if required.sort.isEmpty then unsorted
  else
    optimizer.memoized earlier.length required do
      optimizer.sortBy group.stats required.sort (← unsorted)

/-- The best plan for a group of a memo under a requirement. -/
def find (optimizer : Optimizer) : Memo → Finder
  | [] => fun _ _ => return none
  | group :: earlier => fun id required =>
      if id = earlier.length then
        optimizer.findLast earlier group (optimizer.find earlier) required
      else optimizer.find earlier id required

end Optimizer

/-- The plan that was chosen for a query. -/
structure ChosenPlan where
  arena : Arena
  root : Nat
  cost : Amount
  /-- The number of groups whose hints were ignored. -/
  violations : Nat
  groups : Nat
  groupExprs : Nat
  counters : Counters

namespace ChosenPlan

/-- The plan as a tree. -/
def tree (plan : ChosenPlan) : Except Error Tree := plan.arena.tree plan.root

/-- The text that explains the plan. -/
def explain (plan : ChosenPlan) : Except Error String := plan.arena.explain plan.root

end ChosenPlan

namespace Optimizer

/-- What the plan for a query has to deliver: all rows in one place. -/
def atOnePlace : Requirement := .distributed .singleton

/-- Choose the plan for the last group of a memo. -/
def choose (optimizer : Optimizer) (goal : Goal) : Except Failure ChosenPlan := do
  let memo ← goal.explore optimizer.rules
  let (winner, progress) ← (optimizer.find memo goal.id atOnePlace).run .start
  match winner with
  | none => throw (.error (.noPlanFound s!"group {goal.id} under {atOnePlace.text}"))
  | some winner => do
      let (root, arena) ← Except.mapError Failure.error (progress.arena.extract winner.node)
      return ⟨arena, root, winner.cost, winner.violations, memo.length, memo.exprCount,
        progress.counters⟩

/-- Choose a plan for a query that gives all rows in one place. -/
def optimize (optimizer : Optimizer) (query : Query) : Except Failure ChosenPlan := do
  let goal ← Except.mapError Failure.error (Goal.ofQuery query)
  optimizer.choose goal

end Optimizer

end Warehouse.Search
