import Warehouse.Proofs.RangeIndex.Refinement

/-! # What accessors find

An accessor that was opened before the last write may miss a summary, but it does not lose sight of what it could
find: it finds the entries that the range map had a page for when it was opened, and those up to which it has
extended the range map itself. An outlook is a ledger that keeps account of that. `Sane.foresee` says that every call
comes to what the outlook says, and `Sane.follows` that all calls do. -/

namespace Warehouse.RangeIndex

/-- A new accessor finds the entry of a table block if there is one: a plain table has the page of the entry, and the
chain of an append-only one has begun. -/
def Metapage.Maps (contents : Metapage) (heapBlock : BlockNumber) : Prop :=
  if contents.appendOnly then (contents.chain (sequenceOf heapBlock)).first ≠ invalidBlock
  else contents.addressing.target heapBlock ≤ contents.lastMapPage

/-- The table block up to which a use of an accessor extends the range map. -/
def Use.reaches (addressing : Addressing) : Use → Option BlockNumber
  | .insert heapBlock payload =>
      if payload.length + 4 ≤ maxTupleSize then some (addressing.start heapBlock) else none
  | .ensure heapBlock => some heapBlock
  | .find _ => none

/-- A ledger that says as well which entries a new accessor finds, and for every accessor which ones it is known to
find. -/
structure Outlook extends Ledger where
  mapped : BlockNumber → Prop
  sights : List (BlockNumber → Prop)

namespace Outlook

/-- What is to be expected after an accessor was used. -/
def used (addressing : Addressing) (outlook : Outlook) (number : Nat) (use : Use) : Outlook where
  toLedger := outlook.toLedger.used addressing use
  mapped other := outlook.mapped other ∨ ∃ heapBlock, use.reaches addressing = some heapBlock ∧
    addressing.Before other heapBlock
  sights := outlook.sights.modify number fun known other =>
    known other ∨ ∃ heapBlock, use.reaches addressing = some heapBlock ∧ addressing.Before other heapBlock

/-- What is to be expected after a call. -/
def after (addressing : Addressing) (outlook : Outlook) : Call → Outlook
  | .openAccessor =>
      ⟨outlook.toLedger.after addressing .openAccessor, outlook.mapped, outlook.sights ++ [outlook.mapped]⟩
  | .use number use => if number < outlook.current.length then outlook.used addressing number use else outlook
  | .desummarize heapBlock =>
      ⟨outlook.toLedger.after addressing (.desummarize heapBlock), outlook.mapped, outlook.sights⟩

/-- What the outcome of a call should be. An accessor finds the summary that is bound to a range, or none although it
is bound if it is not known to find the entry. -/
def Accepts (addressing : Addressing) (outlook : Outlook) (call : Call)
    (outcome : Option (Except Failure Answer)) : Prop :=
  outlook.toLedger.Accepts addressing call outcome ∧
    ∀ number heapBlock found, call = .use number (.find heapBlock) → outcome = some (.ok (.found found)) →
      found.map FoundSummary.summary =
          (outlook.bindings (addressing.start heapBlock)).map (Summary.mk (addressing.start heapBlock)) ∨
        found = none ∧ ∀ known, outlook.sights[number]? = some known → ¬ known (addressing.start heapBlock)

@[simp]
theorem toLedger_after (addressing : Addressing) (outlook : Outlook) (call : Call) :
    (outlook.after addressing call).toLedger = outlook.toLedger.after addressing call := by
  cases call with
  | openAccessor => rfl
  | use number use =>
      rw [after, Ledger.after]
      split <;> rfl
  | desummarize heapBlock => rfl

end Outlook

/-- An accessor that is known to find the entry of a range finds the summary that is bound to it. -/
theorem Outlook.Accepts.found {addressing : Addressing} {outlook : Outlook} {number : Nat} {heapBlock : BlockNumber}
    {outcome : Option (Except Failure Answer)} {known : BlockNumber → Prop} {payload : List UInt8}
    (accepts : outlook.Accepts addressing (.use number (.find heapBlock)) outcome)
    (opened : number < outlook.current.length) (at_number : outlook.sights[number]? = some known)
    (here : known (addressing.start heapBlock))
    (bound : outlook.bindings (addressing.start heapBlock) = some payload) :
    ∃ found, outcome = some (.ok (.found (some found))) ∧
      found.summary = ⟨addressing.start heapBlock, payload⟩ := by
  obtain ⟨accepts, sighted⟩ := accepts
  rw [Ledger.Accepts, List.getElem?_eq_getElem opened] at accepts
  obtain ⟨result, rfl, found, rfl, -⟩ := accepts
  rcases sighted number heapBlock found rfl rfl with eq | ⟨-, unknown⟩
  · rw [bound] at eq
    obtain ⟨found, rfl, same⟩ := Option.map_eq_some_iff.mp eq
    exact ⟨found, rfl, same⟩
  · exact absurd here (unknown known at_number)

/-! ## What accessors see -/

section Sighting

variable {image after : Image} {contents contents' : Metapage} {accessor : Accessor} {heapBlock other : BlockNumber}
  {index : String}

/-- The range map does not shrink. -/
theorem Metapage.Maps.grow (maps : contents.Maps heapBlock) (grows : Grows image contents after contents') :
    contents'.Maps heapBlock := by
  have kind : contents'.appendOnly = contents.appendOnly := congrArg Addressing.appendOnly grows.addressing_eq
  rw [Metapage.Maps] at maps ⊢
  rw [kind, grows.addressing_eq]
  split at maps
  · rename_i chained
    rw [if_pos chained, grows.first_eq _ maps]
    exact maps
  · rename_i plain
    rw [if_neg plain]
    exact UInt32.le_trans maps grows.last_le

/-- What an accessor finds, new accessors find. -/
theorem Knows.maps (knows : Knows image contents accessor) (sights : accessor.Sights heapBlock) :
    contents.Maps heapBlock := by
  have kind : accessor.addressing.appendOnly = contents.appendOnly :=
    congrArg Addressing.appendOnly knows.addressing_eq
  rw [Accessor.Sights, kind] at sights
  rw [Metapage.Maps]
  split at sights
  · rename_i chained
    rw [if_pos chained]
    rcases knows.chain chained _ (sequenceOf_lt heapBlock) with empty | ⟨-, ne, -⟩
    · exact absurd empty sights.1
    · exact ne
  · rename_i plain
    rw [if_neg plain, ← knows.addressing_eq]
    exact UInt32.le_trans sights knows.last_le

theorem Accessor.anchored_ofMetapage : (Accessor.ofMetapage index contents).Anchored := nofun

/-- A new accessor finds what there is. -/
theorem Accessor.sights_ofMetapage (maps : contents.Maps heapBlock) :
    (Accessor.ofMetapage index contents).Sights heapBlock := by
  rw [Metapage.Maps] at maps
  rw [Accessor.Sights]
  change if contents.appendOnly then (contents.chain (sequenceOf heapBlock) ≠ .empty ∧ (_ → _)) else
    contents.addressing.target heapBlock ≤ contents.lastMapPage
  split at maps
  · rename_i chained
    rw [if_pos chained]
    refine ⟨fun empty => maps (congrArg Chain.first empty), ?_⟩
    rintro ⟨⟩
  · rename_i plain
    rwa [if_neg plain]

end Sighting

/-- The range map and the accessors are as an outlook says. -/
structure Service.Meets (service : Service) (contents : Metapage) (outlook : Outlook) : Prop where
  mapped : ∀ heapBlock, outlook.mapped heapBlock → contents.Maps heapBlock
  count : outlook.sights.length = service.accessors.length
  anchored : ∀ accessor ∈ service.accessors, accessor.Anchored
  sights : ∀ (number : Nat) (accessor : Accessor) (known : BlockNumber → Prop),
    service.accessors[number]? = some accessor → outlook.sights[number]? = some known →
      ∀ heapBlock, known heapBlock → accessor.Sights heapBlock

section Foreseeing

variable {service : Service} {scene : Scene} {addressing : Addressing} {ledger : Ledger} {outlook : Outlook}
  {telling : Telling} {accessor : Accessor} {number : Nat} {heapBlock : BlockNumber}

/-- What a use of an accessor leaves the accessor to find: what it found, and what is up to where it has extended the
range map. -/
theorem Sane.use_sights (sane : Sane service scene addressing ledger telling) {use : Use}
    (mem : accessor ∈ service.accessors)
    (room : (use.procedure.run (service.world accessor)).2.relation.buffers.size < 2 ^ 32) :
    accessor.Keeps (use.procedure.run (service.world accessor)).2.accessor ∧
      (accessor.Anchored → ∀ heapBlock, use.reaches addressing = some heapBlock →
        (use.procedure.run (service.world accessor)).2.accessor.Sights heapBlock) := by
  by_cases fits : use.Fits
  · have start : (Moment.mk scene scene accessor []).contents.addressing = addressing := sane.addressing_eq
    have contract := (use_spec use (sane.steady mem) rfl sane.clean fits).keeping fun _ => .refl accessor
    obtain ⟨answer, later, -, models, ⟨-, -, did⟩, keeps⟩ := contract.run (sane.models accessor) room
    have keeps := keeps rfl
    rw [models.accessor]
    refine ⟨keeps, fun anchored heapBlock reaches => ?_⟩
    cases use with
    | insert block payload =>
        have short : payload.length + 4 ≤ maxTupleSize := fits
        rw [Use.reaches, if_pos short] at reaches
        obtain rfl := Option.some.inj reaches
        obtain ⟨-, -, sights⟩ := did
        rw [start] at sights
        exact sights anchored
    | ensure block =>
        obtain rfl := Option.some.inj reaches
        obtain ⟨-, -, -, there⟩ := did
        exact there.sights (keeps.anchored anchored)
    | find block => cases reaches
  · cases use with
    | insert block payload =>
        have long : ¬ payload.length + 4 ≤ maxTupleSize := fits
        rw [sane.run_refused mem long, Use.reaches, if_neg long]
        exact ⟨.refl accessor, nofun⟩
    | ensure block => exact absurd trivial fits
    | find block => exact absurd trivial fits

/-- An accessor finds what the ledger says, or nothing if it does not sight the entry of the range. -/
theorem Sane.found_or_blind (sane : Sane service scene addressing ledger telling) (mem : accessor ∈ service.accessors)
    {found : Option FoundSummary}
    (room : ((Use.find heapBlock).procedure.run (service.world accessor)).2.relation.buffers.size < 2 ^ 32)
    (outcome : ((Use.find heapBlock).procedure.run (service.world accessor)).1 = .ok (.found found)) :
    found.map FoundSummary.summary =
        (ledger.bindings (addressing.start heapBlock)).map (Summary.mk (addressing.start heapBlock)) ∨
      found = none ∧ ¬ accessor.Sights (addressing.start heapBlock) := by
  have start : (Moment.mk scene scene accessor []).contents.addressing = addressing := sane.addressing_eq
  have addressing_eq : accessor.addressing = addressing :=
    (sane.steady mem).knows.addressing_eq.trans sane.addressing_eq
  have contract := use_spec (.find heapBlock) (sane.steady mem) rfl sane.clean trivial
  obtain ⟨answer, later, answered, -, -, -, found', rfl, -, -, finding⟩ := contract.run (sane.models accessor) room
  obtain rfl := Answer.found.inj (Except.ok.inj (answered.symm.trans outcome))
  rw [start] at finding
  rcases finding with ⟨blind, rfl⟩ | finding
  · have blind := (Accessor.blind_start (addressing_eq ▸ sane.valid)).mpr blind
    rw [addressing_eq] at blind
    exact .inr ⟨rfl, fun sights => sights.not_blind blind⟩
  · exact .inl (sane.finding_eq finding)

/-- What an accessor sights after it was used, new accessors find as well. -/
theorem Service.Meets.used {after : World} {scene' : Scene} {use : Use} {accessors : List Accessor}
    (meets : service.Meets scene.image.contents outlook) (at_number : service.accessors[number]? = some accessor)
    (accessors_eq : accessors = service.accessors.set number after.accessor)
    (sane' : Sane ⟨after.relation, after.logFile, accessors⟩ scene' addressing (outlook.toLedger.used addressing use)
      telling)
    (grows : Grows scene.image scene.image.contents scene'.image scene'.image.contents)
    (before : accessor.addressing = addressing) (keeps : accessor.Keeps after.accessor)
    (gains : accessor.Anchored → ∀ heapBlock, use.reaches addressing = some heapBlock →
      after.accessor.Sights heapBlock) :
    Service.Meets ⟨after.relation, after.logFile, accessors⟩ scene'.image.contents
      (outlook.used addressing number use) := by
  subst accessors_eq
  have inside := (List.getElem?_eq_some_iff.mp at_number).1
  have knows := sane'.knows after.accessor (List.mem_set inside after.accessor)
  have addressing_eq : after.accessor.addressing = addressing := knows.addressing_eq.trans sane'.addressing_eq
  have anchored := meets.anchored accessor (List.mem_of_getElem? at_number)
  -- the entries up to which the accessor has extended the range map
  have gained : ∀ other, (∃ heapBlock, use.reaches addressing = some heapBlock ∧ addressing.Before other heapBlock) →
      after.accessor.Sights other := by
    rintro other ⟨heapBlock, reaches, within⟩
    exact (gains anchored heapBlock reaches).mono (addressing_eq ▸ within)
  refine ⟨fun other known => ?_, ?_, fun other mem => ?_, fun other accessor' known at_other known_other => ?_⟩
  · rcases known with old | new
    · exact (meets.mapped other old).grow grows
    · exact knows.maps (gained other new)
  · simp only [Outlook.used, List.length_modify, List.length_set, meets.count]
  · rcases List.mem_or_eq_of_mem_set mem with old | rfl
    · exact meets.anchored other old
    · exact keeps.anchored anchored
  · simp only [Outlook.used, List.getElem?_modify] at known_other
    obtain ⟨earlier, at_earlier, rfl⟩ := Option.map_eq_some_iff.mp known_other
    by_cases here : number = other
    · subst here
      rw [List.getElem?_set_self inside] at at_other
      obtain rfl := Option.some.inj at_other
      rw [if_pos rfl]
      rintro heapBlock (old | new)
      · exact keeps.sights (addressing_eq.trans before.symm)
          (meets.sights number accessor earlier at_number at_earlier heapBlock old)
      · exact gained heapBlock new
    · rw [List.getElem?_set_ne here] at at_other
      rw [if_neg here]
      exact meets.sights other accessor' earlier at_other at_earlier

/-- Every call comes to what the outlook says, and leaves the index as it says. -/
theorem Sane.foresee (sane : Sane service scene addressing outlook.toLedger telling)
    (meets : service.Meets scene.image.contents outlook) (call : Call) (room : (service.perform call).2.size < 2 ^ 32) :
    outlook.Accepts addressing call (service.perform call).1 ∧ ∃ scene',
      Sane (service.perform call).2 scene' addressing (outlook.after addressing call).toLedger telling ∧
      (service.perform call).2.Meets scene'.image.contents (outlook.after addressing call) := by
  obtain ⟨accepts, scene', conducts, sane'⟩ := sane.perform call room
  obtain ⟨contents, sound, grows⟩ := Evolves.sound (conducts.evolves sane.sound) sane.sound
  obtain rfl := Image.contents_eq sound.holds
  have mapped : ∀ heapBlock, outlook.mapped heapBlock → scene'.image.contents.Maps heapBlock :=
    fun _ known => (meets.mapped _ known).grow grows
  cases call with
  | openAccessor =>
      rw [sane.perform_openAccessor] at accepts sane' ⊢
      refine ⟨⟨accepts, by rintro _ _ _ ⟨⟩⟩, scene', sane', mapped, ?_, ?_, ?_⟩
      · simp only [Outlook.after, List.length_append, List.length_singleton, meets.count]
      · intro other mem
        rcases List.mem_append.mp mem with old | new
        · exact meets.anchored other old
        · obtain rfl := List.mem_singleton.mp new
          exact Accessor.anchored_ofMetapage
      · intro number accessor known at_number at_known
        by_cases old : number < service.accessors.length
        · rw [List.getElem?_append_left old] at at_number
          rw [Outlook.after, List.getElem?_append_left (by rw [meets.count]; exact old)] at at_known
          exact meets.sights number accessor known at_number at_known
        · rw [List.getElem?_append_right (Nat.not_lt.mp old)] at at_number
          rw [Outlook.after, List.getElem?_append_right (by rw [meets.count]; exact Nat.not_lt.mp old)] at at_known
          obtain rfl := List.mem_singleton.mp (List.mem_of_getElem? at_number)
          obtain rfl := List.mem_singleton.mp (List.mem_of_getElem? at_known)
          exact fun heapBlock mapped => Accessor.sights_ofMetapage (meets.mapped heapBlock mapped)
  | desummarize heapBlock =>
      refine ⟨⟨accepts, by rintro _ _ _ ⟨⟩⟩, scene', sane', mapped, ?_, ?_, ?_⟩
      · exact meets.count
      · exact meets.anchored
      · exact meets.sights
  | use number use =>
      have count := sane.count
      rw [Outlook.after]
      cases at_number : service.accessors[number]? with
      | none =>
          have outside : ¬ number < outlook.current.length := by
            rw [← count]
            exact Nat.not_lt.mpr (List.getElem?_eq_none_iff.mp at_number)
          rw [Service.perform, at_number] at accepts ⊢
          rw [if_neg outside]
          exact ⟨⟨accepts, by rintro _ _ _ _ ⟨⟩⟩, scene, sane, meets⟩
      | some accessor =>
          have mem := List.mem_of_getElem? at_number
          have inside : number < outlook.current.length := by
            rw [← count]
            exact (List.getElem?_eq_some_iff.mp at_number).1
          rw [Ledger.after, if_pos inside] at sane'
          rw [Service.perform, at_number] at accepts sane' room ⊢
          rw [if_pos inside]
          refine ⟨⟨accepts, ?_⟩, scene', sane', ?_⟩
          · rintro other heapBlock found eq outcome
            obtain ⟨rfl, rfl⟩ := Call.use.inj eq
            refine (sane.found_or_blind mem room (Option.some.inj outcome)).imp_right ?_
            rintro ⟨rfl, unseen⟩
            exact ⟨rfl, fun known at_known here => unseen (meets.sights _ _ known at_number at_known _ here)⟩
          · obtain ⟨keeps, gains⟩ := sane.use_sights mem room
            have before := (sane.steady mem).knows.addressing_eq.trans sane.addressing_eq
            exact meets.used at_number rfl sane' grows before keeps gains

/-- Any calls leave the index as the outlook says. -/
theorem Sane.foresees (sane : Sane service scene addressing outlook.toLedger telling)
    (meets : service.Meets scene.image.contents outlook) (calls : List Call)
    (room : (service.run calls).size < 2 ^ 32) : ∃ scene',
      Sane (service.run calls) scene' addressing (calls.foldl (Outlook.after addressing) outlook).toLedger telling ∧
      (service.run calls).Meets scene'.image.contents (calls.foldl (Outlook.after addressing) outlook) := by
  induction calls generalizing service scene outlook with
  | nil => exact ⟨scene, sane, meets⟩
  | cons call calls ih =>
      have room' := Nat.lt_of_le_of_lt ((service.perform call).2.size_run_le calls) room
      obtain ⟨-, scene', sane', meets'⟩ := sane.foresee meets call room'
      exact ih sane' meets' room

end Foreseeing

/-! ## Services that follow an outlook -/

/-- Whatever is called, the index binds what the outlook says, and calls come to what it says. -/
def Service.Follows (service : Service) (addressing : Addressing) (outlook : Outlook) : Prop :=
  ∀ calls, (service.run calls).size < 2 ^ 32 →
    (∀ heapBlock payload, (service.run calls).Binds heapBlock payload ↔
      (calls.foldl (Outlook.after addressing) outlook).bindings heapBlock = some payload) ∧
    ∀ call, ((service.run calls).perform call).2.size < 2 ^ 32 →
      (calls.foldl (Outlook.after addressing) outlook).Accepts addressing call ((service.run calls).perform call).1

theorem Sane.follows {service : Service} {scene : Scene} {addressing : Addressing} {outlook : Outlook}
    {telling : Telling} (sane : Sane service scene addressing outlook.toLedger telling)
    (meets : service.Meets scene.image.contents outlook) : service.Follows addressing outlook := by
  intro calls room
  obtain ⟨scene', sane', meets'⟩ := sane.foresees meets calls room
  constructor
  · intro heapBlock payload
    rw [Service.Binds, sane'.shows.pages]
    exact sane'.binds heapBlock payload
  · intro call room'
    exact (sane'.foresee meets' call room').1

section Anew

variable {service : Service} {scene : Scene} {addressing : Addressing} {ledger : Ledger} {telling : Telling}
  {mapped : BlockNumber → Prop}

end Anew

end Warehouse.RangeIndex
