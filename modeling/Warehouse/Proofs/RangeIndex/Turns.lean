import Warehouse.Proofs.RangeIndex.Runs

/-! # Turns

An operation that shares the relation with others runs in turns. A turn performs requests up
to the next point where the operation holds no lock, and ends there, because it is there that
others may run. Where an operation asks whether it should stop, it may be told so. A turn of an
operation with a contract leaves the rest of the operation with the same contract, whatever
others do before its next turn. -/

namespace Warehouse.RangeIndex

/-- Where a turn of an operation ends: before its next request, or with its outcome. -/
inductive Stop (α : Type) where
  | paused (rest : Procedure α)
  | ended (outcome : Except Failure α)

/-- Where an operation stops that gives control away. It has ended when nothing is left to do. -/
def Procedure.stop {α : Type} : Procedure α → Stop α
  | .done value => .ended (.ok value)
  | .fail failure => .ended (.error failure)
  | .ask request next => .paused (.ask request next)

section Turns

variable {α : Type}

/-- A turn of an operation. -/
inductive Turn : Procedure α → World → Stop α → World → Prop
  | done {value : α} {world : World} : Turn (.done value) world (.ended (.ok value)) world
  | fail {failure : Failure} {world : World} : Turn (.fail failure) world (.ended (.error failure)) world
  /-- The user wants the operation to stop. -/
  | cancel {next : Unit → Procedure α} {world : World} :
      Turn (.ask .poll next) world (.ended (.error (.error .cancelled))) world
  | refuse {request : Request} {next : request.Answer → Procedure α} {failure : Failure} {world after : World}
      (performed : world.perform request = (.error failure, after)) :
      Turn (.ask request next) world (.ended (.error failure)) after
  | pause {request : Request} {next : request.Answer → Procedure α} {answer : request.Answer}
      {world after : World} (performed : world.perform request = (.ok answer, after)) (free : after.held = []) :
      Turn (.ask request next) world (next answer).stop after
  /-- Under a lock the turn goes on. -/
  | proceed {request : Request} {next : request.Answer → Procedure α} {answer : request.Answer}
      {world middle after : World} {stop : Stop α} (performed : world.perform request = (.ok answer, middle))
      (locked : middle.held ≠ []) (rest : Turn (next answer) middle stop after) :
      Turn (.ask request next) world stop after

/-- Turns of an operation, one after the other, to its end. -/
inductive Turns : Procedure α → World → Except Failure α → World → Prop
  | last {procedure : Procedure α} {world after : World} {outcome : Except Failure α}
      (turn : Turn procedure world (.ended outcome) after) : Turns procedure world outcome after
  | more {procedure rest : Procedure α} {world middle after : World} {outcome : Except Failure α}
      (turn : Turn procedure world (.paused rest) middle) (free : middle.held = [])
      (turns : Turns rest middle outcome after) : Turns procedure world outcome after

variable {procedure : Procedure α} {world after : World} {stop : Stop α}

theorem Turn.size_le (turn : Turn procedure world stop after) :
    world.relation.buffers.size ≤ after.relation.buffers.size := by
  induction turn with
  | done => exact Nat.le_refl _
  | fail => exact Nat.le_refl _
  | cancel => exact Nat.le_refl _
  | @refuse request next failure world after performed =>
      have size := size_perform world request
      rwa [performed] at size
  | @pause request next answer world after performed free =>
      have size := size_perform world request
      rwa [performed] at size
  | @proceed request next answer world middle after stop performed locked rest ih =>
      have size := size_perform world request
      rw [performed] at size
      exact Nat.le_trans size ih

/-- An operation that nobody interrupts takes turns until it ends as it does in one run. -/
theorem turns_run (procedure : Procedure α) (world : World) :
    Turns procedure world (procedure.run world).1 (procedure.run world).2 := by
  induction procedure generalizing world with
  | done value => exact .last .done
  | fail failure => exact .last .fail
  | ask request next ih =>
      rw [Procedure.run]
      cases performed : world.perform request with
      | mk outcome middle =>
          cases outcome with
          | error failure => exact .last (.refuse performed)
          | ok answer =>
              change Turns _ _ ((next answer).run middle).1 ((next answer).run middle).2
              have rest := ih answer middle
              by_cases free : middle.held = []
              · have turn : Turn (.ask request next) world _ middle := .pause performed free
                cases eq : next answer with
                | done value =>
                    rw [eq] at turn
                    exact .last turn
                | fail failure =>
                    rw [eq] at turn
                    exact .last turn
                | ask request' next' =>
                    rw [eq] at turn rest
                    exact .more turn free rest
              · cases rest with
                | last turn => exact .last (.proceed performed free turn)
                | more turn free' turns => exact .more (.proceed performed free turn) free' turns

variable {mode : Mode} {post : α → Moment → Prop} {moment : Moment}

/-- What is known where a turn ends. The rest of an operation keeps its contract when others
run in between. -/
def Stop.Keeps (mode : Mode) (post : α → Moment → Prop) : Stop α → Moment → Prop
  | .paused rest, moment => ∀ scene, mode.Interferes moment.scene scene →
      Ensures mode post rest ⟨scene, scene, moment.accessor, []⟩
  | .ended (.ok value), moment => post value moment
  | .ended (.error _), moment => moment.MayFail mode

/-- What an operation did since it had no lock is something that operations do, once it has
none again. -/
theorem Ensures.evolves (ensures : Ensures mode post procedure moment) (free : moment.held = [])
    (steady : ∀ value later, post value later → Steady mode later) : Evolves mode moment.base moment.scene := by
  cases procedure with
  | done value => exact (steady value moment ensures).evolves
  | fail failure => exact ensures.2.evolves
  | ask request next =>
      rw [Ensures, if_pos free] at ensures
      exact ensures.1

theorem Ensures.stops (ensures : Ensures mode post procedure moment) (free : moment.held = []) :
    procedure.stop.Keeps mode post moment := by
  cases procedure with
  | done value => exact ensures
  | fail failure => exact ensures
  | ask request next =>
      rw [Ensures, if_pos free] at ensures
      intro scene interferes
      rw [Ensures, if_pos rfl]
      refine ⟨.refl, fun scene' interferes' => ?_⟩
      have serves := ensures.2 scene' (interferes.trans interferes')
      rwa [free] at serves

/-- The next request of an operation when nobody else acts before it. -/
theorem Ensures.serves {request : Request} {next : request.Answer → Procedure α}
    (ensures : Ensures mode post (.ask request next) moment) (start : moment.held = [] → moment.base = moment.scene) :
    moment.Serves mode request fun answer later => Ensures mode post (next answer) later := by
  rw [Ensures] at ensures
  split at ensures
  · rename_i free
    obtain ⟨base, scene, accessor, held⟩ := moment
    obtain rfl : base = scene := start free
    exact ensures.2 base (.refl _ _)
  · exact ensures

/-- A turn of an operation does what operations do, and keeps the contract of the rest. -/
theorem Turn.keeps (turn : Turn procedure world stop after) (ensures : Ensures mode post procedure moment)
    (models : Models world moment) (start : moment.held = [] → moment.base = moment.scene) (others : mode ≠ .solo)
    (steady : ∀ value later, post value later → Steady mode later)
    (room : after.relation.buffers.size < 2 ^ 32) :
    ∃ later, Models after later ∧ Evolves mode moment.base later.scene ∧ stop.Keeps mode post later := by
  induction turn generalizing moment with
  | done => exact ⟨moment, models, (steady _ _ ensures).evolves, ensures⟩
  | fail => exact ⟨moment, models, ensures.2.evolves, ensures⟩
  | cancel =>
      have serves := ensures.serves start
      exact ⟨moment, models, (serves.1 others).evolves, others, serves.1 others⟩
  | refuse performed =>
      have served := models.serves (ensures.serves start) (by rwa [performed])
      rw [World.Serves, performed] at served
      obtain ⟨later, models', same, fails⟩ := served
      exact ⟨later, models', same ▸ fails.2.evolves, fails⟩
  | @pause request next answer world after performed free =>
      have served := models.serves (ensures.serves start) (by rwa [performed])
      rw [World.Serves, performed] at served
      obtain ⟨later, models', same, ensures'⟩ := served
      have free' := models'.held.symm.trans free
      exact ⟨later, models', same ▸ ensures'.evolves free' steady, ensures'.stops free'⟩
  | @proceed request next answer world middle after stop performed locked rest ih =>
      have served := models.serves (ensures.serves start) (by
        rw [performed]
        exact Nat.lt_of_le_of_lt rest.size_le room)
      rw [World.Serves, performed] at served
      obtain ⟨later, models', same, ensures'⟩ := served
      have locked' : later.held ≠ [] := by rwa [← models'.held]
      rw [← same]
      exact ih ensures' models' (fun free => absurd free locked') room

end Turns

end Warehouse.RangeIndex
