import Warehouse.Proofs.Cost.Assertions
import Warehouse.Proofs.Search.Groups

/-! # The search finds a plan

Every group of a query has a plan under every requirement: some alternative is allowed or, failing that, refused,
and what it needs of its inputs they give. All that can stop the search is an amount that is not one. -/

namespace Warehouse

open Plan Cost

namespace Plan.Arena

/-- Every node was added after its children, of which it has as many as its operator takes, and has its cost. -/
structure Finished (arena : Arena) : Prop where
  ordered : arena.Ordered
  accepts : ∀ (id : Nat) (node : Node), arena.nodes[id]? = some node →
    node.op.arity.accepts node.children.length = true
  costed : ∀ (id : Nat) (node : Node), arena.nodes[id]? = some node → ∃ cost, node.cost = some cost

variable {arena : Arena}

theorem finished_empty : empty.Finished := by
  constructor
  · exact ordered_empty
  · intro id node found
    simp [empty] at found
  · intro id node found
    simp [empty] at found

/-- A node with its cost is added after its children. -/
theorem Finished.push {op : Operator} {children : List Nat} {stats : NodeStats} {cost : Amount}
    (finished : arena.Finished) (accepts : op.arity.accepts children.length = true)
    (known : ∀ child ∈ children, child < arena.size) : (arena.push ⟨op, children, stats, some cost⟩).Finished := by
  have node_cases : ∀ (id : Nat) (node : Node),
      (arena.push ⟨op, children, stats, some cost⟩).nodes[id]? = some node →
        arena.nodes[id]? = some node ∨ node = ⟨op, children, stats, some cost⟩ := by
    intro id node found
    rw [Arena.push, Array.getElem?_push] at found
    split at found
    · exact .inr (Option.some.inj found).symm
    · exact .inl found
  constructor
  · exact finished.ordered.push known
  · intro id node found
    obtain old | rfl := node_cases id node found
    · exact finished.accepts id node old
    · exact accepts
  · intro id node found
    obtain old | rfl := node_cases id node found
    · exact finished.costed id node old
    · exact ⟨cost, rfl⟩

/-- Every node can be taken out. -/
theorem Finished.exists_extract {id : Nat} (finished : arena.Finished) (bound : id < arena.size) :
    ∃ taken, arena.extract id = .ok taken := by
  obtain ⟨tree, below⟩ := finished.ordered.exists_tree bound
  rw [extract, Arena.tree, below]
  exact ⟨_, rfl⟩

end Plan.Arena

namespace Search

open Query

variable {optimizer : Optimizer} {progress : Progress} {memo earlier : Memo} {group : Group} {id : GroupId}
  {find : Finder} {count : Nat} {required : Requirement} {distribution : Distribution} {alternative : Alternative}
  {alternatives : List Alternative} {α β : Type}

/-! ## What the search keeps -/

/-- There is a winner, and its plan is in an arena of the given size. -/
def Won (size : Nat) (found : Option Winner) : Prop := ∃ winner, found = some winner ∧ winner.node < size

theorem Won.mono {size size' : Nat} {found : Option Winner} (won : Won size found) (le : size ≤ size') :
    Won size' found := by
  obtain ⟨winner, rfl, bound⟩ := won
  exact ⟨winner, rfl, Nat.lt_of_lt_of_le bound le⟩

/-- All nodes that have been placed have their costs, and wherever a plan was looked for one was found. -/
structure Progress.Complete (progress : Progress) : Prop where
  finished : progress.arena.Finished
  won : ∀ (id : GroupId) (required : Requirement) (found : Option Winner),
    progress.winner? id required = some found → Won progress.arena.size found

theorem Progress.complete_start : Progress.start.Complete := by
  constructor
  · exact Arena.finished_empty
  · intro id required found known
    simp [start, winner?] at known

theorem Progress.Complete.grow {grown : Arena} (complete : progress.Complete) (finished : grown.Finished)
    (grows : progress.arena.size ≤ grown.size) : Progress.Complete { progress with arena := grown } := by
  constructor
  · exact finished
  · intro id required found known
    exact (complete.won id required found known).mono grows

theorem Progress.Complete.remember {found : Option Winner} (complete : progress.Complete)
    (won : Won progress.arena.size found) : (progress.remember id required found).Complete := by
  constructor
  · exact complete.finished
  · intro id' required' found' known
    rw [winner?, Progress.remember, List.lookup_cons] at known
    split at known
    · obtain rfl := Option.some.inj known
      exact won
    · exact complete.won id' required' found' known

/-- A part of a search gives something, and keeps what the search keeps, unless an assertion about an amount
fails. -/
abbrev Completes (progress : Progress) (holds : Nat → α → Prop) (action : SearchM α) : Prop :=
  Ends (.fault .failedAssertion)
    (fun result => result.2.Complete ∧ progress.arena.size ≤ result.2.arena.size ∧
      holds result.2.arena.size result.1) (action progress)

namespace Completes

variable {holds : Nat → α → Prop} {holds' : Nat → β → Prop}

theorem pure {a : α} (complete : progress.Complete) (held : holds progress.arena.size a) :
    Completes progress holds (Pure.pure a) :=
  .ok ⟨complete, Nat.le_refl _, held⟩

theorem bind {action : SearchM α} {next : α → SearchM β} (first : Completes progress holds action)
    (second : ∀ a later, later.Complete → progress.arena.size ≤ later.arena.size → holds later.arena.size a →
      Completes later holds' (next a)) : Completes progress holds' (action >>= next) := by
  change Ends _ _ (action progress >>= fun result => next result.1 result.2)
  refine Ends.bind first fun result held => ?_
  obtain ⟨complete, grows, held⟩ := held
  exact (second _ _ complete grows held).mono fun _ after => ⟨after.1, Nat.le_trans grows after.2.1, after.2.2⟩

theorem map {action : SearchM α} {f : α → β} (first : Completes progress holds action)
    (held : ∀ size a, holds size a → holds' size (f a)) : Completes progress holds' (f <$> action) := by
  rw [map_eq_pure_bind]
  exact first.bind fun a later complete _ after => .pure complete (held _ a after)

/-- What changes neither the arena nor the memory does not show. -/
theorem modifying {f : Progress → Progress} {next : SearchM α} (complete : progress.Complete)
    (arena : (f progress).arena = progress.arena) (winners : (f progress).winners = progress.winners)
    (h : (f progress).Complete → Completes (f progress) holds next) :
    Completes progress holds (modify f >>= fun _ => next) := by
  have later : (f progress).Complete :=
    ⟨arena ▸ complete.finished, by simpa only [Progress.winner?, winners, arena] using complete.won⟩
  have after := h later
  rw [Completes, arena] at after
  exact after

end Completes

/-! ## The parts of the search -/

/-- A node over nodes of the arena is placed if it takes that many. -/
theorem place_completes {op : Operator} {children : List Nat} (small : optimizer.model.skewFactor.toNat ≤ 100)
    (complete : progress.Complete) (accepts : op.arity.accepts children.length = true)
    (known : ∀ child ∈ children, child < progress.arena.size) (stats : NodeStats) :
    Completes progress (fun size placed => placed.1 < size) (optimizer.place op children stats) := by
  have found := Arena.getElem?_push_size progress.arena ⟨op, children, stats, none⟩
  have costed : ∀ child ∈ children, ∃ below cost,
      (progress.arena.push ⟨op, children, stats, none⟩).nodes[child]? = some below ∧ below.cost = some cost := by
    intro child member
    have bound : child < progress.arena.nodes.size := known child member
    have old : progress.arena.nodes[child]? = some progress.arena.nodes[child] := Array.getElem?_eq_getElem bound
    obtain ⟨cost, priced⟩ := complete.finished.costed child _ old
    exact ⟨_, cost, Arena.Extends.push _ _ child _ old, priced⟩
  have priced := optimizer.model.ends_nodeCost small found accepts costed
  rw [Completes, Optimizer.place, Arena.add_eq known, accepts]
  simp only [Bool.not_true, Bool.false_eq_true, if_false, Model.noteCost]
  generalize optimizer.model.nodeCost _ _ = cost at priced ⊢
  cases priced with
  | error => exact .error
  | @ok amount =>
      simp only [Arena.setCost_push]
      have grows : progress.arena.size ≤ (progress.arena.push ⟨op, children, stats, some amount⟩).size := by
        rw [Arena.size_push]
        exact Nat.le_succ _
      refine .ok ⟨complete.grow (complete.finished.push accepts known) grows, grows, ?_⟩
      rw [Arena.size_push]
      exact Nat.lt_succ_self _

/-- Every winner is in an arena of the given size. -/
abbrev InArena (size : Nat) (winners : List Winner) : Prop := ∀ winner ∈ winners, winner.node < size

/-- A way to find winners finds one for every group up to a number, under every requirement. -/
abbrev Wins (find : Finder) (count : Nat) : Prop :=
  ∀ (id : GroupId) (required : Requirement) (progress : Progress), id < count → progress.Complete →
    Completes progress Won (find id required)

theorem inputWinners_completes {requests : List Request} (wins : Wins find count)
    (known : ∀ request ∈ requests, request.group < count) (complete : progress.Complete) :
    Completes progress (fun size found => ∃ winners, found = some winners ∧ winners.length = requests.length ∧
      InArena size winners) (Optimizer.inputWinners find distribution requests) := by
  induction requests generalizing progress with
  | nil => exact .pure complete ⟨[], rfl, rfl, List.forall_mem_nil _⟩
  | cons request rest ih =>
      obtain ⟨first, others⟩ := List.forall_mem_cons.mp known
      refine .bind (wins _ _ _ first complete) fun found later complete _ won => ?_
      obtain ⟨winner, rfl, bound⟩ := won
      refine .bind (ih others complete) fun found last complete grows held => ?_
      obtain ⟨winners, rfl, length, bounds⟩ := held
      refine .pure complete ⟨winner :: winners, rfl, congrArg Nat.succ length, ?_⟩
      exact List.forall_mem_cons.mpr ⟨Nat.lt_of_lt_of_le bound grows, bounds⟩

theorem enforceDistribution_completes {winner : Winner} (small : optimizer.model.skewFactor.toNat ≤ 100)
    (complete : progress.Complete) (bound : winner.node < progress.arena.size) (stats : NodeStats) :
    Completes progress (fun size winner => winner.node < size)
      (optimizer.enforceDistribution stats distribution winner) := by
  rw [Optimizer.enforceDistribution]
  split
  · exact .pure complete bound
  · refine .bind (place_completes small complete rfl (by simpa using bound) stats) ?_
    exact fun placed later complete _ bound => .pure complete bound

/-- An alternative has as many inputs as its operator takes, all from the given groups, and if its rows lie like
those of an input there is that input. -/
structure Alternative.Fits (count : Nat) (alternative : Alternative) : Prop where
  accepts : alternative.op.arity.accepts alternative.inputs.length = true
  position : ∀ position, alternative.delivery = .ofInput position → position < alternative.inputs.length
  known : ∀ request ∈ alternative.inputs, request.group < count

theorem Alternative.Fits.delivered_eq_ok {winners : List Winner} (fits : alternative.Fits count)
    (length : winners.length = alternative.inputs.length) :
    ∃ distribution, Optimizer.delivered alternative winners = .ok distribution := by
  rw [Optimizer.delivered]
  split
  · exact ⟨_, rfl⟩
  · rename_i position given
    have bound : position < winners.length := length ▸ fits.position position given
    rw [List.getElem?_eq_getElem bound]
    exact ⟨_, rfl⟩

theorem implementBy_completes (small : optimizer.model.skewFactor.toNat ≤ 100) (wins : Wins find count)
    (fits : alternative.Fits count) (complete : progress.Complete) (penalty : Nat) :
    Completes progress Won (optimizer.implementBy group find distribution penalty alternative) := by
  refine .bind (inputWinners_completes wins fits.known complete) fun found later complete _ held => ?_
  obtain ⟨winners, rfl, length, bounds⟩ := held
  obtain ⟨given, delivered⟩ := fits.delivered_eq_ok length
  have accepts : alternative.op.arity.accepts (winners.map Winner.node).length = true := by
    rw [List.length_map, length]
    exact fits.accepts
  have placed := place_completes small complete accepts (by simpa using bounds) group.stats
  refine .bind placed fun placed later complete _ bound => ?_
  refine .modifying complete rfl rfl fun complete => ?_
  rw [delivered]
  exact .map (enforceDistribution_completes small complete bound _) fun _ winner bound => ⟨winner, rfl, bound⟩

/-- What has been found of a plan is in the arena, if anything has. -/
abbrev Held (size : Nat) (found : Option Winner) : Prop := found = none ∨ Won size found

theorem Won.better {size : Nat} {best found : Option Winner} (held : Held size best) (won : Won size found) :
    Won size (Optimizer.better best found) := by
  obtain ⟨other, rfl, bound⟩ := won
  obtain rfl | ⟨winner, rfl, bound'⟩ := held
  · exact ⟨other, rfl, bound⟩
  · rw [Optimizer.better]
    split
    · exact ⟨other, rfl, bound⟩
    · exact ⟨winner, rfl, bound'⟩

/-- The best plan with one of some alternatives at its root is found if there are any. -/
theorem bestOf_completes {best : Option Winner} (small : optimizer.model.skewFactor.toNat ≤ 100)
    (wins : Wins find count) (fit : ∀ alternative ∈ alternatives, alternative.Fits count)
    (complete : progress.Complete) (held : Held progress.arena.size best) (penalty : Nat) :
    Completes progress (fun size found => Held size found ∧ (best ≠ none ∨ alternatives ≠ [] → Won size found))
      (optimizer.bestOf group find distribution penalty best alternatives) := by
  induction alternatives generalizing progress best with
  | nil => exact .pure complete ⟨held, fun any => held.resolve_left (any.resolve_right (by simp))⟩
  | cons alternative rest ih =>
      obtain ⟨first, others⟩ := List.forall_mem_cons.mp fit
      refine .bind (implementBy_completes small wins first complete penalty) fun found later complete grows won => ?_
      have won := won.better (held.imp_right fun won => won.mono grows)
      have any : Optimizer.better best found ≠ none := by
        obtain ⟨winner, found_one, -⟩ := won
        rw [found_one]
        exact Option.some_ne_none winner
      refine (ih others complete (.inr won)).mono fun result after => ?_
      obtain ⟨complete, grows, held, found⟩ := after
      exact ⟨complete, grows, held, fun _ => found (.inl any)⟩

theorem implement_completes (small : optimizer.model.skewFactor.toNat ≤ 100) (wins : Wins find count)
    (fit : ∀ alternative ∈ group.alternatives optimizer.rules earlier earlier.length, alternative.Fits count)
    (nonempty : group.alternatives optimizer.rules earlier earlier.length ≠ []) (complete : progress.Complete) :
    Completes progress Won (optimizer.implement earlier group find distribution) := by
  simp only [Optimizer.implement, List.partition_eq_filter_filter]
  refine .modifying complete rfl rfl fun complete => ?_
  have fit' (keep : Alternative → Bool) : ∀ alternative ∈
      (group.alternatives optimizer.rules earlier earlier.length).filter keep, alternative.Fits count :=
    fun alternative member => fit alternative (List.mem_of_mem_filter member)
  refine .bind (bestOf_completes small wins (fit' _) complete (.inl rfl) 0) fun found later complete _ after => ?_
  obtain ⟨held, allowed⟩ := after
  cases found with
  | some winner => exact .pure complete (held.resolve_left (Option.some_ne_none _))
  | none =>
      -- nothing was allowed, so that all alternatives were refused
      have no_winner : ¬ Won later.arena.size none := by
        rintro ⟨winner, impossible, -⟩
        contradiction
      have none_allowed : (group.alternatives optimizer.rules earlier earlier.length).filter
          (optimizer.allows group.aliases) = [] := by
        by_contra any
        exact no_winner (allowed (.inr any))
      have refused : (group.alternatives optimizer.rules earlier earlier.length).filter
          (not ∘ optimizer.allows group.aliases) ≠ [] := by
        obtain ⟨alternative, member⟩ := List.exists_mem_of_ne_nil _ nonempty
        have refused := List.filter_eq_nil_iff.mp none_allowed alternative member
        exact List.ne_nil_of_mem (List.mem_filter.mpr ⟨member, by simpa using refused⟩)
      dsimp only
      rw [if_neg (by simpa using refused)]
      refine .modifying complete rfl rfl fun complete => ?_
      refine (bestOf_completes small wins (fit' _) complete (.inl rfl) 1).mono fun result after => ?_
      exact ⟨after.1, after.2.1, after.2.2.2 (.inr refused)⟩

theorem memoized_completes {action : SearchM (Option Winner)} (uncancelled : optimizer.cancelled = false)
    (complete : progress.Complete) (action_completes : Completes progress Won action) :
    Completes progress Won (optimizer.memoized id required action) := by
  rw [Completes]
  cases remembered : progress.winner? id required with
  | some found =>
      rw [memoized_known remembered]
      exact .ok ⟨complete, Nat.le_refl _, complete.won id required found remembered⟩
  | none =>
      rw [memoized_new remembered, uncancelled]
      refine Ends.bind action_completes fun result after => .ok ?_
      obtain ⟨complete, grows, won⟩ := after
      exact ⟨complete.remember won, grows, won⟩

theorem findLast_completes (small : optimizer.model.skewFactor.toNat ≤ 100)
    (uncancelled : optimizer.cancelled = false) (wins : Wins find count)
    (fit : ∀ alternative ∈ group.alternatives optimizer.rules earlier earlier.length, alternative.Fits count)
    (nonempty : group.alternatives optimizer.rules earlier earlier.length ≠ []) (complete : progress.Complete) :
    Completes progress Won (optimizer.findLast earlier group find required) := by
  have unsorted : Completes progress Won (optimizer.memoized earlier.length (.distributed required.distribution)
      (optimizer.implement earlier group find required.distribution)) :=
    memoized_completes uncancelled complete (implement_completes small wins fit nonempty complete)
  rw [Optimizer.findLast]
  split
  · exact unsorted
  · refine memoized_completes uncancelled complete (unsorted.bind fun found later complete _ won => ?_)
    obtain ⟨winner, rfl, bound⟩ := won
    refine .bind (place_completes small complete rfl (by simpa using bound) _) ?_
    exact fun placed last complete _ bound => .pure complete ⟨_, rfl, bound⟩

/-! ## Every group has alternatives that fit -/

/-- An alternative has as many inputs as its operator takes. -/
theorem Offered.accepts {expr : GroupExpr} (offered : Offered memo id expr alternative) :
    alternative.op.arity.accepts alternative.inputs.length = true := by
  cases offered with
  | copied joins => cases joins <;> rfl
  | _ => rfl

/-- An alternative that delivers what an input does has that input. -/
theorem Offered.position_lt {expr : GroupExpr} {position : Nat} (offered : Offered memo id expr alternative)
    (given : alternative.delivery = .ofInput position) : position < alternative.inputs.length := by
  cases offered with
  | filter =>
      obtain rfl := Delivery.ofInput.inj given
      exact Nat.one_pos
  | copied =>
      obtain rfl := Delivery.ofInput.inj given
      exact Nat.two_pos
  | _ => contradiction

/-- An alternative reads earlier groups. -/
theorem Alternative.Reads.group_lt (reads : alternative.Reads earlier group) :
    ∀ request ∈ alternative.inputs, request.group < earlier.length := by
  cases reads with
  | table op inputs => simp [inputs]
  | one op inputs known => simpa [inputs] using Memo.lt_length_of_group? known
  | two op inputs known known' =>
      simpa [inputs] using ⟨Memo.lt_length_of_group? known, Memo.lt_length_of_group? known'⟩

theorem Memo.Layered.fits {rules : List Rule} (layered : Memo.Layered (group :: earlier))
    (member : alternative ∈ group.alternatives rules earlier earlier.length) : alternative.Fits earlier.length := by
  obtain ⟨expr, -, offered⟩ := exists_offered_of_mem member
  exact ⟨offered.accepts, fun _ => offered.position_lt, (layered.reads member).group_lt⟩

/-- There is an alternative for every group. -/
theorem Group.Over.alternatives_ne_nil (stands : group.Over earlier) :
    group.alternatives Rule.all earlier earlier.length ≠ [] := by
  have given (expr : GroupExpr) (own : expr ∈ group.exprs) (rule : Rule) (known : rule ∈ Rule.all)
      (any : rule.alternatives earlier earlier.length expr ≠ []) :
      group.alternatives Rule.all earlier earlier.length ≠ [] := by
    obtain ⟨alternative, member⟩ := List.exists_mem_of_ne_nil _ any
    exact List.ne_nil_of_mem (List.mem_flatMap.mpr ⟨expr, own, List.mem_flatMap.mpr ⟨rule, known, member⟩⟩)
  cases stands with
  | get => exact given _ (List.mem_singleton_self _) .tableScan (by decide) (List.cons_ne_nil _ _)
  | select => exact given _ (List.mem_singleton_self _) .filter (by decide) (List.cons_ne_nil _ _)
  | join filled sides =>
      obtain ⟨expr, own⟩ := List.exists_mem_of_ne_nil _ filled
      refine given expr own .loopJoin (by decide) ?_
      obtain rfl | rfl := sides expr own
      · exact List.cons_ne_nil _ _
      · exact List.cons_ne_nil _ _
  | aggregate =>
      refine given _ (List.mem_singleton_self _) .hashAgg (by decide) ?_
      rw [Rule.alternatives, hashAggAlternatives]
      split
      · exact List.cons_ne_nil _ _
      · exact List.cons_ne_nil _ _

/-- The search finds a plan for every group under every requirement. -/
theorem find_completes (small : optimizer.model.skewFactor.toNat ≤ 100)
    (uncancelled : optimizer.cancelled = false) (rules_eq : optimizer.rules = Rule.all) (layered : memo.Layered) :
    Wins (optimizer.find memo) memo.length := by
  induction memo with
  | nil => exact fun _ _ _ less => absurd less (Nat.not_lt_zero _)
  | cons group earlier ih =>
      intro id required progress less complete
      simp only [Optimizer.find]
      split
      · refine findLast_completes small uncancelled (ih layered.2) (fun _ => layered.fits) ?_ complete
        rw [rules_eq]
        exact layered.1.alternatives_ne_nil
      · rename_i before
        exact ih layered.2 id required progress (Nat.lt_of_le_of_ne (Nat.le_of_lt_succ less) before) complete

/-! ## A plan for every query -/

/-- The optimizer of a valid configuration has a small skew factor, applies all rules and is not cancelled. -/
theorem Optimizer.ofConfig_eq_ok {config : Config} {configured : Optimizer}
    (valid : ofConfig config = .ok configured) :
    configured.model.skewFactor.toNat ≤ 100 ∧ configured.cancelled = false ∧ configured.rules = Rule.all := by
  obtain ⟨_, checked, valid⟩ := bind_eq_ok.mp valid
  obtain ⟨model, built, valid⟩ := bind_eq_ok.mp valid
  obtain rfl := pure_eq_ok.mp valid
  obtain ⟨_, -, checked⟩ := bind_eq_ok.mp checked
  obtain ⟨_, bounded, -⟩ := bind_eq_ok.mp checked
  obtain ⟨params, -, built⟩ := bind_eq_ok.mp built
  obtain ⟨bare, -, built⟩ := bind_eq_ok.mp built
  obtain rfl := pure_eq_ok.mp built
  rw [Config.checkSkewFactor] at bounded
  split at bounded
  · contradiction
  · rename_i small
    refine ⟨?_, rfl, rfl⟩
    change (UInt32.ofNat config.skewFactor).toNat ≤ 100
    rw [UInt32.toNat_ofNat']
    have : Config.maxSkewFactor = 100 := rfl
    omega

/-- Whatever a search for a query has found, it goes on: all alternatives that it looks at can be placed, every
group has a winner under every requirement, and every node can be taken out. -/
structure Optimizer.NeverStuck (optimizer : Optimizer) (memo : Memo) : Prop where
  fits : ∀ (group : Group) (earlier : Memo), group :: earlier <:+ memo →
    ∀ alternative ∈ group.alternatives optimizer.rules earlier earlier.length, alternative.Fits earlier.length
  start : Progress.start.Complete
  wins : Wins (optimizer.find memo) memo.length
  extracts : ∀ (progress : Progress) (id : Nat), progress.Complete → id < progress.arena.size →
    ∃ taken, progress.arena.extract id = .ok taken

/-- With a valid configuration, and whatever the hints, a plan is found for every query that is accepted; an
amount of cost that is not one is all that can prevent it. -/
theorem Optimizer.optimize_completes {config : Config} {configured : Optimizer} {query : Query} {goal : Goal}
    (valid : ofConfig config = .ok configured) (hints : Hint.Hints) (accepted : Goal.ofQuery query = .ok goal) :
    let optimizer : Optimizer := { configured with hints }
    optimizer.NeverStuck (optimizer.explored goal) ∧
      ((∃ plan, optimizer.optimize query = .ok plan) ∨
        optimizer.optimize query = .error (.fault .failedAssertion)) := by
  intro optimizer
  obtain ⟨small, uncancelled, rules_eq⟩ := ofConfig_eq_ok valid
  have layered : Memo.Layered (optimizer.explored goal) := layered_of_ofQuery accepted
  have wins : Wins (optimizer.find (optimizer.explored goal)) (optimizer.explored goal).length :=
    find_completes small uncancelled rules_eq layered
  constructor
  · constructor
    · intro group earlier suffix alternative member
      exact (layered.of_suffix suffix).fits member
    · exact Progress.complete_start
    · exact wins
    · intro progress id complete bound
      exact complete.finished.exists_extract bound
  · have last : goal.id < (optimizer.explored goal).length := by
      rw [explored, List.length_map]
      exact Nat.lt_succ_self _
    have chosen : Ends (.fault .failedAssertion) (fun _ => True) (optimizer.choose goal) := by
      rw [choose_eq accepted]
      refine Ends.bind (wins goal.id atOnePlace .start last Progress.complete_start) fun result after => ?_
      obtain ⟨found, later⟩ := result
      obtain ⟨complete, -, winner, rfl, bound⟩ := after
      obtain ⟨⟨root, arena⟩, taken⟩ := complete.finished.exists_extract bound
      dsimp only
      rw [taken]
      exact .ok trivial
    rw [optimize, accepted]
    obtain ⟨plan, plan_eq, -⟩ | failed := chosen.eq_ok_or
    · exact .inl ⟨plan, plan_eq⟩
    · exact .inr failed

/-- The orders are not to be read in any way. -/
def refuseAll : Hint.Hints :=
  ⟨[⟨"orders", [], [⟨true, .sequential⟩, ⟨true, .index⟩, ⟨true, .indexOnly⟩, ⟨true, .bitmap⟩]⟩], []⟩

/-- No plan heeds the hints, since the orders have to be read in some way. The search comes to an end nevertheless, for
the configuration that is used by default. -/
theorem Optimizer.optimize_completes_countOrders : ∃ configured goal,
    ofConfig Config.default = .ok configured ∧ Goal.ofQuery countOrders = .ok goal ∧
      let optimizer : Optimizer := { configured with hints := refuseAll }
      optimizer.NeverStuck (optimizer.explored goal) ∧
        ((∃ plan, optimizer.optimize countOrders = .ok plan) ∨
          optimizer.optimize countOrders = .error (.fault .failedAssertion)) := by
  obtain ⟨configured, valid⟩ : ∃ configured, ofConfig Config.default = .ok configured :=
    exists_eq_ok (by decide +kernel)
  obtain ⟨goal, accepted⟩ : ∃ goal, Goal.ofQuery countOrders = .ok goal := exists_eq_ok (by decide +kernel)
  exact ⟨configured, goal, valid, accepted, optimize_completes valid refuseAll accepted⟩

end Search

end Warehouse
