import Warehouse.Proofs.RangeIndex.Layouts
import Warehouse.Proofs.RangeIndex.Results

/-! # Walks over pages that hold anything

Walking along a chain follows links that were read from pages, and nothing is known of the pages here. Numbers that
do not ascend are reported, so that a walk goes on for no longer than numbers do: a chain that leads back to a page
that was passed before is damaged and found to be. A page that links to itself is the exception. The walk takes it
for the page that it begins at, which it reads again, and does not compare the numbers. When the number is too
small the walk never leaves the page. -/

namespace Warehouse.RangeIndex

/-! ## One round -/

/-- The accessor takes up its position at another page. -/
def World.standing (world : World) (block : BlockNumber) : World :=
  { world with
    accessor := { world.accessor with
      position := { world.accessor.position with page := block, logical := numberOf world.image block } } }

/-- A walk goes on as long as the number is too small and there is a page to go to. -/
structure World.GoesOn (world : World) (target : UInt32) (next : BlockNumber) : Prop where
  undisturbed : world.Undisturbed
  unlocked : next ∉ world.held
  below : world.accessor.position.logical < target
  valid : next ≠ invalidBlock

section Rounds

variable {fails : Failure → World → Prop} {post : Unit → World → Prop} {world : World} {target : UInt32}
  {block next : BlockNumber} {page : Page} {rounds : Nat}

theorem linkOf_eq {image : Image} (at_block : image.page? block = some page) :
    linkOf image block = nextMapPage page := by
  rw [linkOf, at_block]
  rfl

@[simp]
theorem World.position_standing (world : World) (block : BlockNumber) :
    (world.standing block).accessor.position =
      { world.accessor.position with page := block, logical := numberOf world.image block } := rfl

theorem World.Undisturbed.standing (quiet : world.Undisturbed) (block : BlockNumber) :
    (world.standing block).Undisturbed :=
  ⟨quiet.alone, quiet.running⟩

theorem follow_stop (stop : target ≤ world.accessor.position.logical ∨ next = invalidBlock) :
    Results fails post (Chains.follow target next (rounds + 1)) world ↔ post () world := by
  simp only [Chains.follow, results_accessor]
  rw [if_pos stop]
  exact Iff.rfl

namespace World.GoesOn

theorem continues (goes : world.GoesOn target next) :
    ¬ (target ≤ world.accessor.position.logical ∨ next = invalidBlock) :=
  not_or.mpr ⟨UInt32.not_le.mpr goes.below, goes.valid⟩

theorem follow_missing (goes : world.GoesOn target next) (missing : world.image.page? next = none) :
    Results fails post (Chains.follow target next (rounds + 1)) world ↔ fails (.error (.invalidBlock next)) world := by
  simp only [Chains.follow, results_accessor]
  rw [if_neg goes.continues, results_poll goes.undisturbed.running, results_pin_missing goes.undisturbed.alone missing]

theorem follow_alien (goes : world.GoesOn target next) (at_next : world.image.page? next = some page)
    (alien : ¬ isMap page = true) :
    Results fails post (Chains.follow target next (rounds + 1)) world ↔
      fails (.error (world.accessor.unexpectedPage next page)) world := by
  simp only [Chains.follow, results_accessor]
  rw [if_neg goes.continues, results_poll goes.undisturbed.running, results_pin goes.undisturbed.alone at_next,
    results_view goes.unlocked at_next, if_pos (by simpa using alien), results_report_bind]

/-- Numbers that do not ascend are reported for the page that was reached. -/
theorem follow_unordered (goes : world.GoesOn target next) (at_next : world.image.page? next = some page)
    (map : isMap page = true) (other : next ≠ world.accessor.position.page)
    (unordered : logicalPageOf page ≤ world.accessor.position.logical) :
    Results fails post (Chains.follow target next (rounds + 1)) world ↔ fails (.error (.indexCorrupted
      world.accessor.index next
      s!"revmap chain goes from logical page {world.accessor.position.logical.toNat} to {(logicalPageOf page).toNat}"))
      world := by
  simp only [Chains.follow, results_accessor]
  rw [if_neg goes.continues, results_poll goes.undisturbed.running, results_pin goes.undisturbed.alone at_next,
    results_view goes.unlocked at_next, if_neg (by simp [map]), if_pos ⟨other, unordered⟩, results_report_bind]
  exact Iff.rfl

/-- The walk goes on to a page with a larger number, or reads the page again that it is at. -/
theorem follow_step (goes : world.GoesOn target next) (at_next : world.image.page? next = some page)
    (map : isMap page = true)
    (ordered : next = world.accessor.position.page ∨ world.accessor.position.logical < logicalPageOf page) :
    Results fails post (Chains.follow target next (rounds + 1)) world ↔
      Results fails post (Chains.follow target (nextMapPage page) rounds) (world.standing next) := by
  have refused : ¬ (next ≠ world.accessor.position.page ∧ logicalPageOf page ≤ world.accessor.position.logical) := by
    rintro ⟨other, le⟩
    obtain same | lt := ordered
    · exact other same
    · exact absurd (UInt32.lt_of_lt_of_le lt le) (UInt32.lt_irrefl _)
  simp only [Chains.follow, results_accessor]
  rw [if_neg goes.continues, results_poll goes.undisturbed.running, results_pin goes.undisturbed.alone at_next,
    results_view goes.unlocked at_next, if_neg (by simp [map]), if_neg refused, results_remember, World.standing,
    numberOf_eq at_next]

end World.GoesOn

end Rounds

/-! ## The pages of a walk -/

/-- Going on from the page that it is at, a walk comes from one page to another. It compares the numbers, and goes
on only from pages whose numbers are too small. -/
inductive Walks (image : Image) (target : UInt32) (first : BlockNumber) : BlockNumber → Prop
  | here : Walks image target first first
  | step {block : BlockNumber} {page : Page} (walk : Walks image target first block)
      (below : numberOf image block < target) (valid : linkOf image block ≠ invalidBlock)
      (at_next : image.page? (linkOf image block) = some page) (map : isMap page = true)
      (ascends : numberOf image block < logicalPageOf page) : Walks image target first (linkOf image block)

/-- The range map page links to itself. -/
structure SelfLinked (image : Image) (block : BlockNumber) : Prop where
  valid : block ≠ invalidBlock
  map : ∃ page, image.page? block = some page ∧ isMap page = true
  link : linkOf image block = block

section Pages

variable {fails : Failure → World → Prop} {post : Unit → World → Prop} {world : World} {target : UInt32}
  {first block : BlockNumber} {page : Page} {rounds : Nat}

/-- A walk that stands at a page goes on to the page that it links to. -/
theorem World.goesOn_standing (quiet : world.Undisturbed) (unlocked : linkOf world.image block ∉ world.held)
    (below : numberOf world.image block < target) (valid : linkOf world.image block ≠ invalidBlock) :
    (world.standing block).GoesOn target (linkOf world.image block) :=
  ⟨quiet.standing block, unlocked, below, valid⟩

/-- What a walk comes to is what it comes to from any page on that it comes to. -/
theorem Walks.results (walk : Walks world.image target first block) (quiet : world.Undisturbed)
    (free : world.held = []) :
    ∃ count, count + (numberOf world.image first).toNat ≤ (numberOf world.image block).toNat ∧
      ∀ fails post rounds,
        Results fails post (Chains.follow target (linkOf world.image first) (rounds + count)) (world.standing first) ↔
          Results fails post (Chains.follow target (linkOf world.image block) rounds) (world.standing block) := by
  induction walk with
  | here => exact ⟨0, Nat.le_of_eq (Nat.zero_add _), fun _ _ _ => Iff.rfl⟩
  | @step block page _ below valid at_next map ascends ih =>
      obtain ⟨count, le, same⟩ := ih
      have lt := UInt32.lt_iff_toNat_lt.mp ascends
      rw [← numberOf_eq at_next] at lt
      refine ⟨count + 1, by omega, fun fails post rounds => ?_⟩
      have goes := World.goesOn_standing quiet (World.unlocked_of_free free _) below valid
      rw [← Nat.add_assoc, Nat.add_right_comm, same fails post (rounds + 1),
        goes.follow_step at_next map (.inr ascends),
        ← linkOf_eq at_next]
      exact Iff.rfl

/-- A walk never leaves a page that links to itself. -/
theorem SelfLinked.exhausts (linked : SelfLinked world.image block) (quiet : world.Undisturbed)
    (free : world.held = []) (below : numberOf world.image block < target) :
    Results fails post (Chains.follow target (linkOf world.image block) rounds) (world.standing block) ↔
      fails .exhausted (world.standing block) := by
  rw [linked.link]
  induction rounds with
  | zero => exact Iff.rfl
  | succ rounds ih =>
      obtain ⟨page, at_block, map⟩ := linked.map
      have goes : (world.standing block).GoesOn target block :=
        ⟨quiet.standing block, World.unlocked_of_free free _, below, linked.valid⟩
      rw [goes.follow_step at_block map (.inl rfl), ← linkOf_eq at_block, linked.link]
      exact ih

/-- Nothing has changed but that the accessor is at a page that the walk came to. -/
def Walks.Ends (world : World) (target : UInt32) (first : BlockNumber) (later : World) : Prop :=
  ∃ last, Walks world.image target first last ∧ later = world.standing last

/-- A walk ends, with an error or without, unless it comes to a page that links to itself. It goes on for no more
rounds than there are numbers. -/
theorem Walks.ends (walk : Walks world.image target first block) (quiet : world.Undisturbed) (free : world.held = [])
    (fuel : target.toNat - (numberOf world.image block).toNat < rounds) :
    Results
      (fun failure later => Walks.Ends world target first later ∧ ((∃ cause, failure = .error cause) ∨
        failure = .exhausted ∧ SelfLinked world.image later.accessor.position.page ∧
          later.accessor.position.logical < target))
      (fun _ later => Walks.Ends world target first later)
      (Chains.follow target (linkOf world.image block) rounds) (world.standing block) := by
  induction rounds generalizing block with
  | zero => exact absurd fuel (Nat.not_lt_zero _)
  | succ rounds ih =>
      have here : Walks.Ends world target first (world.standing block) := ⟨block, walk, rfl⟩
      by_cases stop : target ≤ numberOf world.image block ∨ linkOf world.image block = invalidBlock
      · exact (follow_stop stop).mpr here
      obtain ⟨below, valid⟩ := not_or.mp stop
      have below := UInt32.not_le.mp below
      have goes := World.goesOn_standing quiet (World.unlocked_of_free free _) below valid
      cases at_next : world.image.page? (linkOf world.image block) with
      | none => exact (goes.follow_missing at_next).mpr ⟨here, .inl ⟨_, rfl⟩⟩
      | some page =>
          by_cases map : isMap page = true
          · by_cases same : linkOf world.image block = block
            · have linked : SelfLinked world.image block :=
                ⟨same ▸ valid, ⟨page, by rwa [same] at at_next, map⟩, same⟩
              exact (linked.exhausts quiet free below).mpr ⟨here, .inr ⟨rfl, linked, below⟩⟩
            · by_cases ascends : numberOf world.image block < logicalPageOf page
              · rw [goes.follow_step at_next map (.inr ascends), ← linkOf_eq at_next]
                have lt := UInt32.lt_iff_toNat_lt.mp ascends
                rw [← numberOf_eq at_next] at lt
                have lt' := UInt32.lt_iff_toNat_lt.mp below
                exact ih (walk.step below valid at_next map ascends) (by omega)
              · exact (goes.follow_unordered at_next map same (UInt32.not_lt.mp ascends)).mpr ⟨here, .inl ⟨_, rfl⟩⟩
          · exact (goes.follow_alien at_next map).mpr ⟨here, .inl ⟨_, rfl⟩⟩

/-- What goes on for any number of rounds from one page of a walk does so from its first page. -/
theorem Walks.exhausts (walk : Walks world.image target first block) (quiet : world.Undisturbed)
    (free : world.held = [])
    (stuck : ∀ rounds, Results (fun failure _ => failure = .exhausted) (fun _ _ => False)
      (Chains.follow target (linkOf world.image block) rounds) (world.standing block)) :
    ∀ rounds, Results (fun failure _ => failure = .exhausted) (fun _ _ => False)
      (Chains.follow target (linkOf world.image first) rounds) (world.standing first) := by
  induction walk with
  | here => exact stuck
  | step walk below valid at_next map ascends ih =>
      apply ih
      intro rounds
      cases rounds with
      | zero => exact rfl
      | succ rounds =>
          have goes := World.goesOn_standing quiet (World.unlocked_of_free free _) below valid
          rw [goes.follow_step at_next map (.inr ascends), ← linkOf_eq at_next]
          exact stuck rounds

end Pages

/-! ## Walking to a number -/

/-- Nothing has changed but the position of the accessor in its chain. -/
def World.Moves (world later : World) : Prop :=
  ∃ page logical, later =
    { world with accessor := { world.accessor with position := { world.accessor.position with page, logical } } }

/-- The accessor is at a range map page, and has not reached the number that it is to walk to. -/
structure World.SetsOut (world : World) (target : UInt32) : Prop where
  undisturbed : world.Undisturbed
  unlocked : world.accessor.position.page ∉ world.held
  placed : world.accessor.position.logical ≠ 0
  below : world.accessor.position.logical < target
  valid : world.accessor.position.page ≠ invalidBlock
  map : ∃ page, world.image.page? world.accessor.position.page = some page ∧ isMap page = true

section Advancing

variable {world : World} {target : UInt32} {block : BlockNumber} {page : Page} {rounds : Nat}

theorem Walks.Ends.moves {first : BlockNumber} {later : World} (ends : Walks.Ends world target first later) :
    world.Moves later := by
  obtain ⟨last, -, rfl⟩ := ends
  exact ⟨last, _, rfl⟩

/-- The first page is read again before the walk goes on. -/
theorem World.SetsOut.follow_eq {fails : Failure → World → Prop} {post : Unit → World → Prop}
    (out : world.SetsOut target) :
    Results fails post (Chains.follow target world.accessor.position.page (rounds + 1)) world ↔
      Results fails post (Chains.follow target (linkOf world.image world.accessor.position.page) rounds)
        (world.standing world.accessor.position.page) := by
  obtain ⟨page, at_page, map⟩ := out.map
  have goes : world.GoesOn target world.accessor.position.page := ⟨out.undisturbed, out.unlocked, out.below, out.valid⟩
  rw [goes.follow_step at_page map (.inl rfl), linkOf_eq at_page]

/-- Walking to a number ends with an answer or with an error, and changes nothing but the position of the accessor,
unless the walk comes to a page with a smaller number that links to itself. -/
theorem advance_ends (quiet : world.Undisturbed) (free : world.held = []) (fuel : 2 ^ 32 < rounds) :
    Results
      (fun failure later => world.Moves later ∧ ((∃ cause, failure = .error cause) ∨ failure = .exhausted ∧
        Walks world.image target world.accessor.position.page later.accessor.position.page ∧
          SelfLinked world.image later.accessor.position.page ∧ later.accessor.position.logical < target))
      (fun found later => world.Moves later ∧ ∀ block, found = some block →
        later.accessor.position.page = block ∧ later.accessor.position.logical = target)
      (Chains.advance rounds target) world := by
  have still : world.Moves world := ⟨_, _, rfl⟩
  simp only [Chains.advance, results_accessor]
  split
  · exact ⟨still, nofun⟩
  rename_i placed
  refine Results.andThen (?_ : Results _ (fun _ later => world.Moves later) _ world) ?_
  · cases rounds with
    | zero => exact absurd fuel (by decide)
    | succ rounds =>
        by_cases stop : target ≤ world.accessor.position.logical ∨ world.accessor.position.page = invalidBlock
        · exact (follow_stop stop).mpr still
        obtain ⟨below, valid⟩ := not_or.mp stop
        have unlocked := World.unlocked_of_free free world.accessor.position.page
        have below := UInt32.not_le.mp below
        have goes : world.GoesOn target world.accessor.position.page := ⟨quiet, unlocked, below, valid⟩
        cases at_page : world.image.page? world.accessor.position.page with
        | none => exact (goes.follow_missing at_page).mpr ⟨still, .inl ⟨_, rfl⟩⟩
        | some page =>
            by_cases map : isMap page = true
            · have out : world.SetsOut target := ⟨quiet, unlocked, placed, below, valid, page, at_page, map⟩
              rw [out.follow_eq]
              have small := target.toNat_lt
              apply (Walks.here.ends quiet free (by omega)).mono
              · exact fun _ _ => Walks.Ends.moves
              · rintro failure later ⟨ends, ended⟩
                refine ⟨ends.moves, ended.imp_right fun ⟨exhausted, linked, lt⟩ => ⟨exhausted, ?_, linked, lt⟩⟩
                obtain ⟨last, walk, rfl⟩ := ends
                exact walk
            · exact (goes.follow_alien at_page map).mpr ⟨still, .inl ⟨_, rfl⟩⟩
  · intro _ later moves
    refine ⟨moves, fun block found => ?_⟩
    split at found
    · rename_i reached
      exact ⟨Option.some.inj found, reached⟩
    · contradiction

/-- A link that a walk follows to another range map page, whose number is not larger, is reported for that page. -/
theorem advance_unordered (out : world.SetsOut target) (free : world.held = [])
    (walk : Walks world.image target world.accessor.position.page block) (below : numberOf world.image block < target)
    (valid : linkOf world.image block ≠ invalidBlock)
    (at_next : world.image.page? (linkOf world.image block) = some page) (map : isMap page = true)
    (other : linkOf world.image block ≠ block)
    (unordered : logicalPageOf page ≤ numberOf world.image block) (fuel : 2 ^ 32 < rounds) :
    Results (fun failure later => world.Moves later ∧ ∃ reason, failure =
        .error (.indexCorrupted world.accessor.index (linkOf world.image block) reason))
      (fun _ _ => False) (Chains.advance rounds target) world := by
  simp only [Chains.advance, results_accessor]
  rw [if_neg out.placed]
  apply Results.stuck
  obtain ⟨count, le, same⟩ := walk.results out.undisturbed free
  have small := (numberOf world.image block).toNat_lt
  obtain ⟨rest, rfl⟩ : ∃ rest, rounds = rest + 1 + count + 1 := ⟨rounds - count - 2, by omega⟩
  have goes := World.goesOn_standing out.undisturbed (World.unlocked_of_free free _) below valid
  rw [out.follow_eq, same _ _ (rest + 1), goes.follow_unordered at_next map other unordered]
  exact ⟨⟨block, _, rfl⟩, _, rfl⟩

/-- A walk that comes to a page with a smaller number that links to itself does not end. -/
theorem advance_selfLinked (out : world.SetsOut target) (free : world.held = [])
    (walk : Walks world.image target world.accessor.position.page block) (below : numberOf world.image block < target)
    (linked : SelfLinked world.image block) (rounds : Nat) :
    Results (fun failure _ => failure = .exhausted) (fun _ _ => False) (Chains.advance rounds target) world := by
  simp only [Chains.advance, results_accessor]
  rw [if_neg out.placed]
  apply Results.stuck
  have stuck := walk.exhausts out.undisturbed free fun rounds =>
    (linked.exhausts out.undisturbed free below).mpr rfl
  cases rounds with
  | zero => exact rfl
  | succ rounds => exact out.follow_eq.mpr (stuck rounds)

end Advancing

end Warehouse.RangeIndex
