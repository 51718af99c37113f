import Mathlib.Data.Option.Basic
import Warehouse.Proofs.Outcomes
import Warehouse.Proofs.Search.Explorations
import Warehouse.Proofs.Search.Proposals

/-! # What the search remembers

A search goes on from what it has found so far: it reads winners that were found before and refers to
nodes that are in the arena already. `Progress.Sound` says that all of it is right, and `Follows` that a
part of the search keeps it so and finds what a computation says that has neither memory nor arena. -/

namespace Warehouse.Search

open Plan Cost

/-- A winner stands for a plan that lies in the arena. -/
structure Winner.Stands (arena : Arena) (winner : Winner) (proposal : Proposal) : Prop where
  tree : arena.tree? winner.node = some proposal.tree
  cost : winner.cost = proposal.cost
  distribution : winner.distribution = proposal.distribution
  violations : winner.violations = proposal.violations

/-- An outcome stands for a plan, or for there being none. -/
abbrev Agrees (arena : Arena) : Option Winner → Option Proposal → Prop := Option.Rel (Winner.Stands arena)

/-- What has been found so far is what is to be found. -/
structure Progress.Sound (chosen : Chooser) (progress : Progress) : Prop where
  ordered : progress.arena.Ordered
  remembered : ∀ (id : GroupId) (required : Requirement) (found : Option Winner),
    progress.winner? id required = some found →
      ∃ proposal, chosen id required = .ok proposal ∧ Agrees progress.arena found proposal

/-- An outcome of a search that went on from an arena is the outcome of a computation. -/
inductive Matches {α β : Type} (chosen : Chooser) (arena : Arena) (agree : Arena → α → β → Prop) :
    Except Failure (α × Progress) → Except Failure β → Prop
  | ok {a : α} {b : β} {later : Progress} (grows : arena.Extends later.arena) (sound : later.Sound chosen)
      (agreed : agree later.arena a b) : Matches chosen arena agree (.ok (a, later)) (.ok b)
  | error {failure : Failure} : Matches chosen arena agree (.error failure) (.error failure)

/-- A part of a search gives what a computation gives. -/
abbrev Follows {α β : Type} (chosen : Chooser) (progress : Progress) (agree : Arena → α → β → Prop)
    (action : SearchM α) (plain : Except Failure β) : Prop :=
  Matches chosen progress.arena agree (action progress) plain

variable {α β γ δ : Type} {chosen : Chooser} {progress : Progress} {arena grown : Arena}
  {agree : Arena → α → β → Prop} {optimizer : Optimizer}

theorem Winner.Stands.mono {winner : Winner} {proposal : Proposal} (grows : arena.Extends grown)
    (h : winner.Stands arena proposal) : winner.Stands grown proposal :=
  ⟨grows.tree? h.tree, h.cost, h.distribution, h.violations⟩

theorem Winner.Stands.beats {winner other : Winner} {proposal proposal' : Proposal}
    (stands : winner.Stands arena proposal) (stands' : other.Stands arena proposal') :
    winner.beats other = proposal.beats proposal' := by
  rw [Winner.beats, Proposal.beats, stands.violations, stands'.violations, stands.cost, stands'.cost]

theorem Agrees.mono {found : Option Winner} {proposal : Option Proposal} (grows : arena.Extends grown)
    (h : Agrees arena found proposal) : Agrees grown found proposal := by
  cases h with
  | none => exact .none
  | some stands => exact .some (stands.mono grows)

/-- The better one of two winners stands for the better one of their plans. -/
theorem Agrees.better {found found' : Option Winner} {proposal proposal' : Option Proposal}
    (first : Agrees arena found proposal) (second : Agrees arena found' proposal') :
    Agrees arena (Optimizer.better found found') (Proposal.better proposal proposal') := by
  cases first with
  | none => exact second
  | some stands =>
      cases second with
      | none => exact .some stands
      | some stands' =>
          rw [Optimizer.better, Proposal.better, stands'.beats stands]
          split
          · exact .some stands'
          · exact .some stands

theorem holds_of_stands {winners : List Winner} {proposals : List Proposal}
    (stand : List.Forall₂ (Winner.Stands arena) winners proposals) :
    arena.Holds (winners.map Winner.node) (proposals.map Proposal.tree) := by
  rw [Arena.Holds, List.forall₂_map_left_iff, List.forall₂_map_right_iff]
  exact stand.imp fun _ _ stands => stands.tree

theorem Progress.sound_start (chosen : Chooser) : Progress.start.Sound chosen :=
  ⟨Arena.ordered_empty, fun _ _ _ h => absurd h (by simp [start, winner?])⟩

namespace Progress.Sound

/-- Nodes may be added to the arena. -/
theorem grow (sound : progress.Sound chosen) (grows : progress.arena.Extends grown) (ordered : grown.Ordered) :
    Progress.Sound chosen { progress with arena := grown } := by
  refine ⟨ordered, fun id required found h => ?_⟩
  obtain ⟨proposal, known, agreed⟩ := sound.remembered id required found h
  exact ⟨proposal, known, agreed.mono grows⟩

/-- What is right may be remembered. -/
theorem remember {id : GroupId} {required : Requirement} {found : Option Winner} {proposal : Option Proposal}
    (sound : progress.Sound chosen) (known : chosen id required = .ok proposal)
    (agreed : Agrees progress.arena found proposal) : (progress.remember id required found).Sound chosen := by
  refine ⟨sound.ordered, fun id' required' found' h => ?_⟩
  rw [winner?, Progress.remember, List.lookup_cons] at h
  split at h
  · rename_i same
    obtain ⟨rfl, rfl⟩ := Prod.mk.inj (eq_of_beq same)
    obtain rfl := Option.some.inj h
    exact ⟨proposal, known, agreed⟩
  · exact sound.remembered id' required' found' h

end Progress.Sound

/-! ## Putting parts of a search together -/

namespace Follows

theorem pure {a : α} {b : β} (sound : progress.Sound chosen) (agreed : agree progress.arena a b) :
    Follows chosen progress agree (Pure.pure a) (Pure.pure b) :=
  .ok (Arena.Extends.refl _) sound agreed

/-- What follows is to be judged after every outcome of the first part. -/
theorem bind {agree' : Arena → γ → δ → Prop} {action : SearchM α} {plain : Except Failure β}
    {next : α → SearchM γ} {next' : β → Except Failure δ} (first : Follows chosen progress agree action plain)
    (second : ∀ (a : α) (b : β) (later : Progress), progress.arena.Extends later.arena → later.Sound chosen →
      agree later.arena a b → Follows chosen later agree' (next a) (next' b)) :
    Follows chosen progress agree' (action >>= next) (plain >>= next') := by
  change Matches chosen progress.arena agree' (action progress >>= fun p => next p.1 p.2) (plain >>= next')
  have first : Matches chosen progress.arena agree (action progress) plain := first
  generalize action progress = outcome at first ⊢
  cases first with
  | error => exact .error
  | @ok a b later grows sound agreed =>
      have rest : Matches chosen later.arena agree' (next a later) (next' b) := second a b later grows sound agreed
      change Matches chosen progress.arena agree' (next a later) (next' b)
      generalize next a later = outcome' at rest ⊢
      generalize next' b = plain' at rest ⊢
      cases rest with
      | error => exact .error
      | ok grows' sound' agreed' => exact .ok (grows.trans grows') sound' agreed'

/-- A result may be changed on the way. -/
theorem map {agree' : Arena → γ → δ → Prop} {action : SearchM α} {plain : Except Failure β}
    {f : α → γ} {f' : β → δ} (first : Follows chosen progress agree action plain)
    (agreed : ∀ (later : Arena) (a : α) (b : β), agree later a b → agree' later (f a) (f' b)) :
    Follows chosen progress agree' (f <$> action) (f' <$> plain) := by
  have first : Matches chosen progress.arena agree (action progress) plain := first
  change Matches chosen progress.arena agree' ((fun p => (f p.1, p.2)) <$> action progress) (f' <$> plain)
  generalize action progress = outcome at first ⊢
  cases first with
  | error => exact .error
  | ok grows sound agreed' => exact .ok grows sound (agreed _ _ _ agreed')

/-- What changes neither the arena nor the memory does not show. -/
theorem modifying {f : Progress → Progress} {next : SearchM α} {plain : Except Failure β}
    (sound : progress.Sound chosen) (arena : (f progress).arena = progress.arena)
    (winners : (f progress).winners = progress.winners)
    (h : (f progress).Sound chosen → Follows chosen (f progress) agree next plain) :
    Follows chosen progress agree (modify f >>= fun _ => next) plain := by
  have later := h ⟨arena ▸ sound.ordered, by simpa only [Progress.winner?, winners, arena] using sound.remembered⟩
  rw [Follows, arena] at later
  exact later

/-- What does not look at the search has the outcome that it has. -/
theorem lift {a : Except Failure α} (sound : progress.Sound chosen) :
    Follows chosen progress (fun _ a b => a = b) (liftM a) a := by
  cases a with
  | error failure => exact .error
  | ok a => exact .ok (Arena.Extends.refl _) sound rfl

end Follows

/-! ## The parts of the search -/

/-- A new node has the cost that it has over the plans for its inputs. -/
theorem place_follows {winners : List Winner} {proposals : List Proposal} (sound : progress.Sound chosen)
    (stand : List.Forall₂ (Winner.Stands progress.arena) winners proposals) (op : Operator) (stats : NodeStats) :
    Follows chosen progress
      (fun arena placed cost => placed.2 = cost ∧
        arena.tree? placed.1 = some (.node op stats (some cost) (proposals.map Proposal.tree)))
      (optimizer.place op (winners.map Winner.node) stats)
      (optimizer.costOver op stats (proposals.map Proposal.tree)) := by
  have held := holds_of_stands stand
  have shown := Proposal.costed_shows proposals
  generalize winners.map Winner.node = ids at held ⊢
  generalize proposals.map Proposal.tree = trees at held shown ⊢
  generalize proposals.map Proposal.costed = children at shown
  rw [Follows, Optimizer.place, Optimizer.costOver, Arena.add_eq held.lt_size, held.length_eq]
  cases op.arity.accepts trees.length with
  | false => exact .error
  | true =>
      have found := Arena.getElem?_push_size progress.arena ⟨op, ids, stats, none⟩
      have ordered := (sound.ordered.tree?_push ⟨op, ids, stats, none⟩ held).1
      have held' := (Arena.Extends.push progress.arena ⟨op, ids, stats, none⟩).holds held
      have cost : optimizer.model.nodeCost (progress.arena.push ⟨op, ids, stats, none⟩) progress.arena.size =
          optimizer.model.costOver op stats trees := Model.nodeCost_eq_costOver ordered found held' shown
      simp only [Bool.not_true, Bool.false_eq_true, if_false, Model.noteCost, cost]
      cases optimizer.model.costOver op stats trees with
      | error failure => exact .error
      | ok amount =>
          simp only [Arena.setCost_push]
          have pushed := sound.ordered.tree?_push ⟨op, ids, stats, some amount⟩ held
          have grows := Arena.Extends.push progress.arena ⟨op, ids, stats, some amount⟩
          exact .ok grows (sound.grow grows pushed.1) ⟨rfl, pushed.2⟩

/-- A way to find winners finds the plans that a chooser says. -/
abbrev Finds (chosen : Chooser) (find : Finder) (best : Chooser) : Prop :=
  ∀ (id : GroupId) (required : Requirement) (progress : Progress), progress.Sound chosen →
    Follows chosen progress Agrees (find id required) (best id required)

/-- Winners for inputs stand for plans for them. -/
abbrev InputsAgree (arena : Arena) : Option (List Winner) → Option (List Proposal) → Prop :=
  Option.Rel (List.Forall₂ (Winner.Stands arena))

section Parts

variable {find : Finder} {best : Chooser} {group : Group} {earlier : Memo}

theorem inputWinners_follows (finds : Finds chosen find best) (distribution : Distribution)
    (requests : List Request) (sound : progress.Sound chosen) :
    Follows chosen progress InputsAgree (Optimizer.inputWinners find distribution requests)
      (Optimizer.inputProposals best distribution requests) := by
  induction requests generalizing progress with
  | nil => exact .pure sound (.some .nil)
  | cons request rest ih =>
      refine .bind (finds _ _ _ sound) fun found proposal later _ sound agreed => ?_
      cases agreed with
      | none => exact .pure sound .none
      | some stands =>
          refine .bind (ih sound) fun rest rest' later' grows sound agreed => .pure sound ?_
          cases agreed with
          | none => exact .none
          | some stand => exact .some (.cons (stands.mono grows) stand)

/-- The distribution of an alternative is read off the distributions of its inputs. -/
theorem delivered_eq {winners : List Winner} {proposals : List Proposal}
    (stand : List.Forall₂ (Winner.Stands arena) winners proposals) (alternative : Alternative) :
    Optimizer.delivered alternative winners = Optimizer.deliveredOver alternative proposals := by
  have same : winners.map Winner.distribution = proposals.map Proposal.distribution := by
    rw [← List.forall₂_eq_eq_eq, List.forall₂_map_left_iff, List.forall₂_map_right_iff]
    exact stand.imp fun _ _ stands => stands.distribution
  rw [Optimizer.delivered, Optimizer.deliveredOver]
  cases alternative.delivery with
  | fixed distribution => rfl
  | ofInput position =>
      have same := congrArg (fun list => list[position]?) same
      simp only [List.getElem?_map] at same
      cases first : winners[position]? with
      | none =>
          rw [first, Option.map_none, eq_comm, Option.map_eq_none_iff] at same
          simp only [first, same]
      | some winner =>
          rw [first, Option.map_some, eq_comm, Option.map_eq_some_iff] at same
          obtain ⟨proposal, second, eq⟩ := same
          simp only [first, second, eq]

theorem violations_eq {winners : List Winner} {proposals : List Proposal}
    (stand : List.Forall₂ (Winner.Stands arena) winners proposals) (count : Nat) :
    winners.foldl (fun count winner => count + winner.violations) count =
      proposals.foldl (fun count proposal => count + proposal.violations) count := by
  induction stand generalizing count with
  | nil => rfl
  | cons stands _ ih => rw [List.foldl_cons, List.foldl_cons, stands.violations, ih]

theorem enforceDistribution_follows {winner : Winner} {proposal : Proposal} (sound : progress.Sound chosen)
    (stands : winner.Stands progress.arena proposal) (stats : NodeStats) (required : Distribution) :
    Follows chosen progress Winner.Stands (optimizer.enforceDistribution stats required winner)
      (optimizer.enforce stats required proposal) := by
  rw [Optimizer.enforceDistribution, Optimizer.enforce, stands.distribution]
  cases Optimizer.motionBetween proposal.distribution required with
  | none => exact .pure sound stands
  | some motion =>
      refine .bind (place_follows sound (.cons stands .nil) _ stats) fun placed cost later grows sound agreed => ?_
      exact .pure sound ⟨agreed.2, agreed.1, rfl, (stands.mono grows).violations⟩

theorem sortBy_follows {found : Option Winner} {proposal : Option Proposal} (sound : progress.Sound chosen)
    (agreed : Agrees progress.arena found proposal) (stats : NodeStats) (columns : List ColumnId) :
    Follows chosen progress Agrees (optimizer.sortBy stats columns found)
      (proposal.mapM (optimizer.sorted stats columns)) := by
  cases agreed with
  | none => exact .pure sound .none
  | some stands =>
      simp only [Optimizer.sortBy, Optimizer.sorted, Option.mapM_some, map_bind, map_pure]
      refine .bind (place_follows sound (.cons stands .nil) _ stats) fun placed cost later grows sound agreed => ?_
      exact .pure sound (.some ⟨agreed.2, agreed.1, stands.distribution, stands.violations⟩)

theorem implementBy_follows (finds : Finds chosen find best) (required : Distribution)
    (alternative : Alternative) (sound : progress.Sound chosen) :
    Follows chosen progress Agrees
      (optimizer.implementBy group find required (optimizer.penalty group alternative) alternative)
      (optimizer.bestBy group best required alternative) := by
  have inputs := inputWinners_follows finds required alternative.inputs sound
  refine .bind inputs fun found proposals later _ sound agreed => ?_
  cases agreed with
  | none => exact .pure sound .none
  | some stand =>
      simp only [Optimizer.assemble, bind_assoc, map_bind, pure_bind]
      refine .bind (place_follows sound stand _ _) fun placed cost later grows sound agreed => ?_
      refine .modifying sound rfl rfl fun sound => ?_
      have stand := stand.imp fun _ _ stands => stands.mono grows
      rw [delivered_eq stand, violations_eq stand]
      refine .bind (.lift sound) fun distribution _ last grows sound same => ?_
      obtain rfl := same
      refine .map (enforceDistribution_follows sound ⟨?_, agreed.1, rfl, rfl⟩ _ required)
        fun _ _ _ stands => .some stands
      exact grows.tree? agreed.2

theorem bestOf_follows (finds : Finds chosen find best) (required : Distribution) {penalty : Nat}
    {alternatives : List Alternative}
    (penalized : ∀ alternative ∈ alternatives, optimizer.penalty group alternative = penalty)
    {found : Option Winner} {proposal : Option Proposal} (sound : progress.Sound chosen)
    (agreed : Agrees progress.arena found proposal) :
    Follows chosen progress Agrees (optimizer.bestOf group find required penalty found alternatives)
      (alternatives.foldlM (fun current alternative =>
        Proposal.better current <$> optimizer.bestBy group best required alternative) proposal) := by
  induction alternatives generalizing progress found proposal with
  | nil => exact .pure sound agreed
  | cons alternative rest ih =>
      obtain ⟨first, others⟩ := List.forall_mem_cons.mp penalized
      rw [Optimizer.bestOf, List.foldlM_cons, bind_map_left, ← first]
      refine .bind (implementBy_follows finds required alternative sound)
        fun found' proposal' later grows sound agreed' => ?_
      exact first ▸ ih others sound ((agreed.mono grows).better agreed')

theorem implement_follows (finds : Finds chosen find best) (required : Distribution)
    (sound : progress.Sound chosen) :
    Follows chosen progress Agrees (optimizer.implement earlier group find required)
      (optimizer.bestOfGroup earlier group best required) := by
  simp only [Optimizer.implement, Optimizer.bestOfGroup, List.partition_eq_filter_filter]
  refine .modifying sound rfl rfl fun sound => ?_
  refine .bind (bestOf_follows finds required ?_ sound .none) fun found proposal later _ sound agreed => ?_
  · intro alternative member
    rw [Optimizer.penalty, if_pos (List.mem_filter.mp member).2]
  · cases agreed with
    | some stands => exact .pure sound (.some stands)
    | none =>
        dsimp only
        split
        · rename_i none_refused
          rw [List.isEmpty_iff.mp none_refused]
          exact .pure sound .none
        · refine .modifying sound rfl rfl fun sound => bestOf_follows finds required ?_ sound .none
          intro alternative member
          have refused := (List.mem_filter.mp member).2
          rw [Optimizer.penalty, if_neg (by simpa using refused)]

theorem memoized_known {id : GroupId} {required : Requirement} {action : SearchM (Option Winner)}
    {found : Option Winner} (remembered : progress.winner? id required = some found) :
    optimizer.memoized id required action progress = .ok (found, progress) := by
  simp only [Optimizer.memoized, bind, StateT.bind, get, getThe, MonadStateOf.get, StateT.get, pure,
    Except.pure, Except.bind, remembered]
  rfl

theorem memoized_new {id : GroupId} {required : Requirement} {action : SearchM (Option Winner)}
    (new : progress.winner? id required = none) :
    optimizer.memoized id required action progress =
      if optimizer.cancelled then .error (.error .cancelled)
      else action progress >>= fun found => .ok (found.1, found.2.remember id required found.1) := by
  simp only [Optimizer.memoized, bind, StateT.bind, get, getThe, MonadStateOf.get, StateT.get, pure,
    Except.pure, Except.bind, new]
  cases optimizer.cancelled with
  | true => rfl
  | false => rfl

/-- What is remembered is what would be found. -/
theorem memoized_follows {id : GroupId} {required : Requirement} {action : SearchM (Option Winner)}
    {plain : Except Failure (Option Proposal)} (sound : progress.Sound chosen)
    (known : chosen id required = if optimizer.cancelled then throw (.error .cancelled) else plain)
    (h : Follows chosen progress Agrees action plain) :
    Follows chosen progress Agrees (optimizer.memoized id required action) (chosen id required) := by
  rw [Follows]
  cases remembered : progress.winner? id required with
  | some found =>
      obtain ⟨proposal, chosen_eq, agreed⟩ := sound.remembered id required found remembered
      rw [memoized_known remembered, chosen_eq]
      exact .ok (Arena.Extends.refl _) sound agreed
  | none =>
      rw [memoized_new remembered]
      cases cancelled : optimizer.cancelled with
      | true =>
          rw [known, cancelled]
          exact .error
      | false =>
          rw [cancelled] at known
          have known : chosen id required = plain := known
          have h : Matches chosen progress.arena Agrees (action progress) plain := h
          simp only [Bool.false_eq_true, if_false]
          generalize action progress = outcome at h ⊢
          cases h with
          | error => exact known ▸ .error
          | ok grows sound agreed => exact known ▸ .ok grows (sound.remember known agreed) agreed

theorem findLast_follows {required : Requirement} (finds : Finds chosen find best)
    (known : ∀ required, chosen earlier.length required =
      if optimizer.cancelled then throw (.error .cancelled)
      else optimizer.bestOfLast earlier group best required) (sound : progress.Sound chosen) :
    Follows chosen progress Agrees (optimizer.findLast earlier group find required)
      (chosen earlier.length required) := by
  have unsorted : Follows chosen progress Agrees
      (optimizer.memoized earlier.length (.distributed required.distribution)
        (optimizer.implement earlier group find required.distribution))
      (chosen earlier.length (.distributed required.distribution)) := by
    refine memoized_follows sound ?_ (implement_follows finds required.distribution sound)
    simp [known, Optimizer.bestOfLast, Requirement.distributed]
  rw [Optimizer.findLast]
  split
  · rename_i no_sort
    have same : Requirement.distributed required.distribution = required := by
      rw [Requirement.distributed, ← List.isEmpty_iff.mp no_sort]
    rwa [same] at unsorted ⊢
  · rename_i sorts
    refine memoized_follows sound ?_
      (.bind unsorted fun found proposal later _ sound agreed => sortBy_follows sound agreed _ _)
    rw [known, known]
    cases optimizer.cancelled with
    | true => rfl
    | false => simp [Optimizer.bestOfLast, Requirement.distributed, sorts]

end Parts

/-- The search finds the best plans. -/
theorem find_follows {memo : Memo}
    (known : ∀ id < memo.length, ∀ required, chosen id required = optimizer.best memo id required) :
    Finds chosen (optimizer.find memo) (optimizer.best memo) := by
  induction memo with
  | nil => exact fun _ _ _ sound => .pure sound .none
  | cons group earlier ih =>
      intro id required progress sound
      have last := known earlier.length (Nat.lt_succ_self _)
      have finds : Finds chosen (optimizer.find earlier) (optimizer.best earlier) := by
        refine ih fun id less required => ?_
        rw [known id (Nat.lt_succ_of_lt less), Optimizer.best_earlier (Nat.ne_of_lt less)]
      simp only [Optimizer.find]
      split
      · rename_i is_last
        subst is_last
        rw [← last]
        exact findLast_follows finds (fun required => (last required).trans Optimizer.best_last) sound
      · rename_i before
        rw [Optimizer.best_earlier before]
        exact finds id required progress sound

/-- A plan that was chosen is the plan of a proposal. -/
structure ChosenPlan.Is (plan : ChosenPlan) (proposal : Proposal) : Prop where
  tree : plan.tree = .ok proposal.tree
  cost : plan.cost = proposal.cost
  violations : plan.violations = proposal.violations

namespace Optimizer

/-- The memo in which plans for a query are searched. -/
def explored (optimizer : Optimizer) (goal : Goal) : Memo := goal.memo.map (Group.explore optimizer.rules)

/-- A plan is searched for in the memo of a query after this was explored. -/
theorem choose_eq {query : Query} {goal : Goal} (accepted : Goal.ofQuery query = .ok goal) :
    optimizer.choose goal = do
      let (winner, progress) ← (optimizer.find (optimizer.explored goal) goal.id atOnePlace).run .start
      match winner with
      | none => throw (.error (.noPlanFound s!"group {goal.id} under {atOnePlace.text}"))
      | some winner => do
          let (root, arena) ← Except.mapError Failure.error (progress.arena.extract winner.node)
          return ⟨arena, root, winner.cost, winner.violations, (optimizer.explored goal).length,
            (optimizer.explored goal).exprCount, progress.counters⟩ := by
  rw [choose, Goal.explore_eq accepted]
  rfl

theorem choose_eq_ok {query : Query} {goal : Goal} {plan : ChosenPlan} (accepted : Goal.ofQuery query = .ok goal)
    (h : optimizer.choose goal = .ok plan) :
    ∃ proposal, optimizer.best (optimizer.explored goal) goal.id atOnePlace = .ok (some proposal) ∧
      plan.Is proposal := by
  have finds : Finds _ (optimizer.find (optimizer.explored goal)) _ := find_follows fun _ _ _ => rfl
  have found := finds goal.id atOnePlace .start (Progress.sound_start _)
  rw [choose_eq accepted] at h
  obtain ⟨⟨winner, later⟩, searched, h⟩ := bind_eq_ok.mp h
  have searched : optimizer.find (optimizer.explored goal) goal.id atOnePlace .start = .ok (winner, later) := searched
  simp only [Follows, searched] at found
  generalize optimizer.best (optimizer.explored goal) goal.id atOnePlace = best at found ⊢
  obtain ⟨grows, sound, agreed⟩ := found
  cases agreed with
  | none => exact absurd h throw_ne_ok
  | @some winner proposal stands =>
      obtain ⟨⟨root, arena⟩, taken, h⟩ := bind_eq_ok.mp h
      obtain rfl := pure_eq_ok.mp h
      obtain ⟨tree, below, out⟩ := Arena.extract_eq_ok (mapError_eq_ok.mp taken)
      obtain rfl := Option.some.inj (below.symm.trans stands.tree)
      exact ⟨proposal, rfl, out, stands.cost, stands.violations⟩

/-- The plan for a query is the best one for the last group of its memo, with all rows in one place. -/
theorem optimize_eq_ok {query : Query} {plan : ChosenPlan} (h : optimizer.optimize query = .ok plan) :
    ∃ goal proposal, Goal.ofQuery query = .ok goal ∧
      optimizer.best (optimizer.explored goal) goal.id atOnePlace = .ok (some proposal) ∧ plan.Is proposal := by
  obtain ⟨goal, goal_eq, h⟩ := bind_eq_ok.mp h
  have accepted := mapError_eq_ok.mp goal_eq
  obtain ⟨proposal, best, is⟩ := choose_eq_ok accepted h
  exact ⟨goal, proposal, accepted, best, is⟩

end Optimizer

/-- The optimizer of a cluster of four segments, with default settings. -/
def fourSegments : Optimizer := .ofModel ⟨.default, 4, 0, Model.defaultBroadcastThreshold, false, true, false⟩

end Warehouse.Search
