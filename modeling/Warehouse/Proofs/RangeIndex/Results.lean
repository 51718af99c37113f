import Warehouse.Proofs.RangeIndex.Runs

/-! # Results of single runs

A contract speaks of indexes that are in order. What an operation does on pages that hold anything is told by its
run. `Results` says what the run of an operation comes to, also when it fails. The rules below follow the tree of
requests, for operations that run alone. -/

namespace Warehouse.RangeIndex

/-- An operation that nobody interrupts comes to a value and a world for which `post` holds, or to a failure and a
world for which `fails` holds. -/
def Results {α : Type} (fails : Failure → World → Prop) (post : α → World → Prop) (procedure : Procedure α)
    (world : World) : Prop :=
  match procedure.run world with
  | (.ok value, later) => post value later
  | (.error failure, later) => fails failure later

/-- The pages of the relation. -/
def World.image (world : World) : Image := pagesOf world.relation

/-- Nobody else acts on the relation, and nobody wants the operation to stop. -/
structure World.Undisturbed (world : World) : Prop where
  alone : world.relation.interference = .none
  running : world.accessor.cancelled = false

/-- An operation that holds no locks can take any. -/
theorem World.unlocked_of_free {world : World} (free : world.held = []) (block : BlockNumber) : block ∉ world.held := by
  rw [free]
  exact List.not_mem_nil

section Rules

variable {α β : Type} {fails fails' : Failure → World → Prop} {post post' : α → World → Prop} {world : World}
  {block : BlockNumber} {page : Page}

theorem results_bind {procedure : Procedure α} {rest : α → Procedure β} {post : β → World → Prop} :
    Results fails post (procedure >>= rest) world ↔
      Results fails (fun value later => Results fails post (rest value) later) procedure world := by
  change Results fails post (procedure.bind rest) world ↔ _
  rw [Results, Results, Procedure.run_bind]
  cases procedure.run world with
  | mk outcome later => cases outcome <;> exact Iff.rfl

theorem Results.bind {procedure : Procedure α} {rest : α → Procedure β} {post : β → World → Prop}
    (h : Results fails (fun value later => Results fails post (rest value) later) procedure world) :
    Results fails post (procedure >>= rest) world :=
  results_bind.mpr h

theorem Results.mono {procedure : Procedure α} (h : Results fails post procedure world)
    (imp : ∀ value later, post value later → post' value later)
    (imp_fails : ∀ failure later, fails failure later → fails' failure later) :
    Results fails' post' procedure world := by
  rw [Results] at h ⊢
  cases eq : procedure.run world with
  | mk outcome later =>
      rw [eq] at h
      cases outcome with
      | ok value => exact imp _ _ h
      | error failure => exact imp_fails _ _ h

/-- An operation that cannot fail returns a value. -/
theorem Results.returns {procedure : Procedure α} (h : Results (fun _ _ => False) post procedure world) :
    ∃ value later, procedure.run world = (.ok value, later) ∧ post value later := by
  rw [Results] at h
  cases eq : procedure.run world with
  | mk outcome later =>
      rw [eq] at h
      cases outcome with
      | ok value => exact ⟨value, later, rfl, h⟩
      | error failure => exact h.elim

/-- An operation whose result is known, followed by another one. -/
theorem Results.andThen {procedure : Procedure α} {rest : α → Procedure β} {post' : β → World → Prop}
    (h : Results fails post procedure world)
    (next : ∀ value later, post value later → Results fails post' (rest value) later) :
    Results fails post' (procedure >>= rest) world :=
  Results.bind (h.mono next fun _ _ => id)

/-- An operation that cannot fail, followed by one that can. -/
theorem Results.followed {procedure : Procedure α} {rest : α → Procedure β} {post' : β → World → Prop}
    (h : Results (fun _ _ => False) post procedure world)
    (next : ∀ value later, post value later → Results fails post' (rest value) later) :
    Results fails post' (procedure >>= rest) world :=
  (h.mono (fun _ _ => id) fun _ _ => False.elim).andThen next

/-- An operation that cannot succeed, whatever would follow. -/
theorem Results.stuck {procedure : Procedure α} {rest : α → Procedure β} {post' : β → World → Prop}
    (h : Results fails (fun _ _ => False) procedure world) : Results fails post' (procedure >>= rest) world :=
  h.andThen fun _ _ => False.elim

@[simp]
theorem results_pure {value : α} : Results fails post (pure value) world ↔ post value world := Iff.rfl

@[simp]
theorem results_report_bind {cause : Error} {rest : β → Procedure α} :
    Results fails post (Procedure.report cause >>= rest) world ↔ fails (.error cause) world := Iff.rfl

@[simp]
theorem results_lift_ok {value : β} {rest : β → Procedure α} :
    Results fails post ((liftM (Except.ok value : Except Fault β) : Procedure β) >>= rest) world ↔
      Results fails post (rest value) world := Iff.rfl

@[simp]
theorem results_map_lift_ok {γ : Type} {f : β → γ} {value : β} {rest : γ → Procedure α} :
    Results fails post ((f <$> (liftM (Except.ok value : Except Fault β) : Procedure β)) >>= rest) world ↔
      Results fails post (rest (f value)) world := Iff.rfl

@[simp]
theorem results_lift_fault {fault : Fault} {rest : β → Procedure α} :
    Results fails post ((liftM (Except.error fault : Except Fault β) : Procedure β) >>= rest) world ↔
      fails (.fault fault) world := Iff.rfl

@[simp]
theorem results_lift_value {value : β} {rest : β → Procedure α} :
    Results fails post ((liftM (Except.ok value : Except Error β) : Procedure β) >>= rest) world ↔
      Results fails post (rest value) world := Iff.rfl

@[simp]
theorem results_lift_error {cause : Error} {rest : β → Procedure α} :
    Results fails post ((liftM (Except.error cause : Except Error β) : Procedure β) >>= rest) world ↔
      fails (.error cause) world := Iff.rfl

@[simp]
theorem results_accessor {rest : Accessor → Procedure α} :
    Results fails post (Procedure.accessor >>= rest) world ↔ Results fails post (rest world.accessor) world := Iff.rfl

@[simp]
theorem results_remember {accessor : Accessor} {rest : Unit → Procedure α} :
    Results fails post (Procedure.remember accessor >>= rest) world ↔
      Results fails post (rest ()) { world with accessor } := Iff.rfl

@[simp]
theorem results_remember_last {accessor : Accessor} {post : Unit → World → Prop} :
    Results fails post (Procedure.remember accessor) world ↔ post () { world with accessor } := Iff.rfl

@[simp]
theorem results_releaseAll {rest : Unit → Procedure α} :
    Results fails post (Procedure.releaseAll >>= rest) world ↔
      Results fails post (rest ()) { world with held := [] } := Iff.rfl

/-- A request is answered, or the operation fails. -/
theorem results_request {request : Request} {rest : request.Answer → Procedure α} :
    Results fails post (Procedure.request request >>= rest) world ↔
      match world.perform request with
      | (.ok answer, later) => Results fails post (rest answer) later
      | (.error failure, later) => fails failure later := by
  change Results fails post (.ask request rest) world ↔ _
  rw [Results, Procedure.run]
  cases world.perform request with
  | mk outcome later =>
      cases outcome with
      | ok answer => exact Iff.rfl
      | error failure => exact Iff.rfl

theorem results_poll {rest : Unit → Procedure α} (running : world.accessor.cancelled = false) :
    Results fails post (Procedure.poll >>= rest) world ↔ Results fails post (rest ()) world := by
  refine results_request.trans ?_
  rw [World.perform, running]
  exact Iff.rfl

theorem results_pin {rest : Unit → Procedure α} (alone : world.relation.interference = .none)
    (at_block : world.image.page? block = some page) :
    Results fails post (Procedure.pin block >>= rest) world ↔ Results fails post (rest ()) world := by
  refine results_request.trans ?_
  rw [World.image] at at_block
  simp only [World.perform, read_alone alone block, at_block]

theorem results_pin_missing {rest : Unit → Procedure α} (alone : world.relation.interference = .none)
    (missing : world.image.page? block = none) :
    Results fails post (Procedure.pin block >>= rest) world ↔ fails (.error (.invalidBlock block)) world := by
  refine results_request.trans ?_
  rw [World.image] at missing
  simp only [World.perform, read_alone alone block, missing]

/-- A page that is not locked can be. -/
theorem World.locking_eq (free : block ∉ world.held) (at_block : world.image.page? block = some page) :
    world.locking block = .ok page := by
  rw [World.image, page?_pagesOf] at at_block
  rw [World.locking, if_neg (fun held => free (List.contains_iff_mem.mp held)), at_block]

theorem World.perform_acquire (free : block ∉ world.held) (at_block : world.image.page? block = some page) :
    world.perform (.acquire block) = (.ok page, { world with held := block :: world.held }) := by
  simp only [World.perform, World.locking_eq free at_block]

theorem World.locking_missing (free : block ∉ world.held) (missing : world.image.page? block = none) :
    world.locking block = .error (.error (.invalidBlock block)) := by
  rw [World.image, page?_pagesOf] at missing
  rw [World.locking, if_neg (fun held => free (List.contains_iff_mem.mp held)), missing]

theorem results_view {rest : Page → Procedure α} (free : block ∉ world.held)
    (at_block : world.image.page? block = some page) :
    Results fails post (Procedure.view block >>= rest) world ↔ Results fails post (rest page) world := by
  refine results_request.trans ?_
  simp only [World.perform, World.locking_eq free at_block]

theorem results_view_missing {rest : Page → Procedure α} (free : block ∉ world.held)
    (missing : world.image.page? block = none) :
    Results fails post (Procedure.view block >>= rest) world ↔ fails (.error (.invalidBlock block)) world := by
  refine results_request.trans ?_
  simp only [World.perform, World.locking_missing free missing]

theorem results_acquire {rest : Page → Procedure α} (free : block ∉ world.held)
    (at_block : world.image.page? block = some page) :
    Results fails post (Procedure.acquire block >>= rest) world ↔
      Results fails post (rest page) { world with held := block :: world.held } := by
  refine results_request.trans ?_
  rw [World.perform_acquire free at_block]

@[simp]
theorem results_countBlocks {rest : BlockNumber → Procedure α} :
    Results fails post (Procedure.countBlocks >>= rest) world ↔
      Results fails post (rest world.relation.blockCount) world := Iff.rfl

@[simp]
theorem results_release {rest : Unit → Procedure α} :
    Results fails post (Procedure.release block >>= rest) world ↔
      Results fails post (rest ()) { world with held := world.held.erase block } := Iff.rfl

@[simp]
theorem results_write {rest : Unit → Procedure α} :
    Results fails post (Procedure.write block page >>= rest) world ↔
      Results fails post (rest ()) { world with relation := world.relation.setPage block page } := Iff.rfl

theorem results_allocate {rest : BlockNumber → Procedure α} (alone : world.relation.interference = .none)
    (room : world.relation.buffers.size < 2 ^ 32) :
    Results fails post (Procedure.allocate >>= rest) world ↔
      Results fails post (rest world.relation.blockCount) { world with relation := world.relation.grow } := by
  refine results_request.trans ?_
  simp only [World.perform, allocate_alone alone room]
  exact Iff.rfl

/-- The accessor keeps a range map page in memory. -/
def World.keeping (world : World) (block : BlockNumber) : World :=
  { world with accessor := { world.accessor with current := some block } }

theorem results_pinCurrent {rest : Unit → Procedure α} (alone : world.relation.interference = .none)
    (at_block : world.image.page? block = some page) :
    Results fails post (RangeMap.pinCurrent block >>= rest) world ↔
      Results fails post (rest ()) (world.keeping block) := by
  rw [results_bind]
  simp only [RangeMap.pinCurrent, results_accessor]
  split
  · exact results_pin alone at_block
  · rename_i kept
    have same : world.keeping block = world := by rw [World.keeping, ← Decidable.not_not.mp kept]
    rw [same]
    exact Iff.rfl

/-- Reading an entry of a range map page. -/
theorem results_readEntry {rest : ItemPointer → Procedure α} {index : Nat} (alone : world.relation.interference = .none)
    (free : block ∉ world.held) (at_block : world.image.page? block = some page) (map : isMap page = true)
    (bound : index < entriesPerPage) :
    Results fails post (RangeMap.readEntry block index >>= rest) world ↔
      Results fails post (rest (entryAt page index)) (world.keeping block) := by
  have free' : block ∉ (world.keeping block).held := free
  have at_block' : (world.keeping block).image.page? block = some page := at_block
  rw [results_bind, RangeMap.readEntry, results_pinCurrent alone at_block, results_view free' at_block', if_pos map,
    entry_eq page bound]
  exact Iff.rfl

end Rules

end Warehouse.RangeIndex
