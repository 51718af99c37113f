import Mathlib.Data.List.Nodup
import Mathlib.Data.List.Perm.Basic
import Warehouse.Plan.Document
import Warehouse.Proofs.Plan.Arenas

/-! # Statistics of columns and the order of their entries

A column has many names in a document: `1`, `01` and `+1` stand for the same one. Names that are different as texts
are entries of their own, and when they are collected in another order than that of the document, another entry of a
column may be the last one and count. The order makes no difference exactly when all entries of a column agree;
otherwise every choice of one entry for each column is what some order gives. -/

namespace Warehouse.Plan.ColumnMap

open Json

variable {entries order : List (ColumnId × Float)} {column : ColumnId} {number : Float} {map : ColumnMap}

/-! ## Maps of entries -/

/-- A number that is found is that of an entry. -/
theorem mem_of_get?_ofEntries (found : (ofEntries entries).get? column = some number) : (column, number) ∈ entries := by
  obtain ⟨before, after, split, -⟩ := List.lookup_eq_some_iff.mp found
  have member : (column, number) ∈ entries.reverse := by
    rw [show entries.reverse = before ++ (column, number) :: after from split]
    exact List.mem_append_right _ List.mem_cons_self
  exact List.mem_reverse.mp member

/-- A column with an entry has a number. -/
theorem exists_get?_ofEntries (member : (column, number) ∈ entries) :
    ∃ found, (ofEntries entries).get? column = some found := by
  refine Option.isSome_iff_exists.mp (List.lookup_isSome_iff.mpr ?_)
  exact ⟨(column, number), List.mem_reverse.mpr member, beq_self_eq_true column⟩

/-- The entries of a column all have the same number. -/
def Unanimous (entries : List (ColumnId × Float)) : Prop :=
  ∀ column number other, (column, number) ∈ entries → (column, other) ∈ entries → number = other

/-- Entries for pairwise different columns are unanimous. -/
theorem unanimous_of_nodup (different : (entries.map Prod.fst).Nodup) : Unanimous entries := by
  intro column number other first second
  have same := List.inj_on_of_nodup_map different first second rfl
  exact congrArg Prod.snd same

theorem Unanimous.get?_eq_some_iff (agree : Unanimous entries) :
    (ofEntries entries).get? column = some number ↔ (column, number) ∈ entries := by
  constructor
  · exact mem_of_get?_ofEntries
  · intro member
    obtain ⟨found, eq⟩ := exists_get?_ofEntries member
    rw [eq, agree column found number (mem_of_get?_ofEntries eq) member]

/-- Entries that agree may be collected in any order. -/
theorem Unanimous.get?_perm (agree : Unanimous entries) (perm : order.Perm entries) :
    (ofEntries order).get? column = (ofEntries entries).get? column := by
  have agree' : Unanimous order := fun column number other first second =>
    agree column number other (perm.mem_iff.mp first) (perm.mem_iff.mp second)
  apply Option.ext
  intro number
  rw [agree'.get?_eq_some_iff, agree.get?_eq_some_iff, perm.mem_iff]

/-- Whichever entry is chosen for each column, in some order the chosen ones are the last. -/
theorem exists_perm_get? (chosen : ColumnId → Float)
    (choice : ∀ column number, (column, number) ∈ entries → (column, chosen column) ∈ entries) :
    ∃ order, order.Perm entries ∧ ∀ column number, (column, number) ∈ entries →
      (ofEntries order).get? column = some (chosen column) := by
  let isChosen : ColumnId × Float → Bool := fun entry => decide (entry.2 = chosen entry.1)
  refine ⟨entries.filter (fun entry => !isChosen entry) ++ entries.filter isChosen,
    List.perm_append_comm.trans (List.filter_append_perm isChosen entries), ?_⟩
  intro column number member
  have last : (column, chosen column) ∈ entries.filter isChosen :=
    List.mem_filter.mpr ⟨choice column number member, decide_eq_true rfl⟩
  obtain ⟨found, eq⟩ := exists_get?_ofEntries last
  have counts : found = chosen column :=
    of_decide_eq_true (List.mem_filter.mp (mem_of_get?_ofEntries eq)).2
  rw [get?, ofEntries, List.reverse_append, List.lookup_append]
  rw [get?, ofEntries] at eq
  rw [eq, Option.some_or, counts]

/-- Every entry is the last one of its column in some order. -/
theorem exists_perm_get?_of_mem (member : (column, number) ∈ entries) :
    ∃ order, order.Perm entries ∧ (ofEntries order).get? column = some number := by
  let chosen : ColumnId → Float := fun other =>
    if other = column then number else ((ofEntries entries).get? other).getD 0
  have choice : ∀ other any, (other, any) ∈ entries → (other, chosen other) ∈ entries := by
    intro other any among
    by_cases same : other = column
    · rw [same, show chosen column = number from if_pos rfl]
      exact member
    · obtain ⟨found, eq⟩ := exists_get?_ofEntries among
      rw [show chosen other = found by simp only [chosen, same, if_false, eq, Option.getD_some]]
      exact mem_of_get?_ofEntries eq
  obtain ⟨order, perm, gives⟩ := exists_perm_get? chosen choice
  refine ⟨order, perm, (gives column number member).trans ?_⟩
  rw [show chosen column = number from if_pos rfl]

/-- All orders of the entries give the same numbers exactly when the entries of each column agree. -/
theorem orders_agree_iff :
    (∀ order order' : List (ColumnId × Float), order.Perm entries → order'.Perm entries →
      ∀ column, (ofEntries order).get? column = (ofEntries order').get? column) ↔ Unanimous entries := by
  constructor
  · intro same column number other first second
    obtain ⟨order, perm, gives⟩ := exists_perm_get?_of_mem first
    obtain ⟨order', perm', gives'⟩ := exists_perm_get?_of_mem second
    exact Option.some.inj (gives.symm.trans ((same order order' perm perm' column).trans gives'))
  · intro agree order order' perm perm' column
    rw [agree.get?_perm perm, agree.get?_perm perm']

/-! ## Documents -/

/-- The column and the number that a member of a document stands for. -/
def entryOf (member : String × Float) : Option (ColumnId × Float) := do
  return (← columnOfName member.1, member.2)

example : columnOfName "01" = columnOfName "1" ∧ columnOfName " +1" = columnOfName "1" := by decide +kernel

/-- A document whose names are different as texts may be read as the map: its members are collected in some order. -/
def ReadsAs (value : Value) (map : ColumnMap) : Prop :=
  ∃ (members order : List (String × Float)) (entries : List (ColumnId × Float)),
    Decode.entries Decode.float value = some members ∧ (members.map Prod.fst).Nodup ∧ order.Perm members ∧
      order.mapM entryOf = some entries ∧ map = ofEntries entries

theorem decode_eq_some_iff {value : Value} : decode value = some map ↔
    ∃ members entries, Decode.entries Decode.float value = some members ∧ members.mapM entryOf = some entries ∧
      map = ofEntries entries := by
  constructor
  · intro decoded
    obtain ⟨members, found, decoded⟩ := Option.bind_eq_some_iff.mp decoded
    obtain ⟨entries, each, decoded⟩ := Option.bind_eq_some_iff.mp decoded
    exact ⟨members, entries, found, each, (Option.some.inj decoded).symm⟩
  · rintro ⟨members, entries, found, each, rfl⟩
    exact Option.bind_eq_some_iff.mpr ⟨members, found, Option.bind_eq_some_iff.mpr ⟨entries, each, rfl⟩⟩

section Documents

variable {value : Value} {members : List (String × Float)}

/-- The order of the document is one of those in which it may be read. -/
theorem readsAs_decode (found : Decode.entries Decode.float value = some members)
    (different : (members.map Prod.fst).Nodup) (decoded : decode value = some map) : ReadsAs value map := by
  obtain ⟨members', entries, found', each, rfl⟩ := decode_eq_some_iff.mp decoded
  obtain rfl : members = members' := Option.some.inj (found.symm.trans found')
  exact ⟨members, members, entries, found, different, .refl members, each, rfl⟩

/-- To read the members in some order is to collect the entries in some order. -/
theorem readsAs_iff (found : Decode.entries Decode.float value = some members)
    (different : (members.map Prod.fst).Nodup) (each : members.mapM entryOf = some entries) :
    ReadsAs value map ↔ ∃ order : List (ColumnId × Float), order.Perm entries ∧ map = ofEntries order := by
  have pairs := Arena.mapM_eq_some_iff.mp each
  constructor
  · rintro ⟨members', order, taken, found', -, perm, each', rfl⟩
    obtain rfl : members = members' := Option.some.inj (found.symm.trans found')
    obtain ⟨other, pairs', perm'⟩ := List.perm_comp_forall₂ perm pairs
    have same : some taken = some other := each'.symm.trans (Arena.mapM_eq_some_iff.mpr pairs')
    obtain rfl := Option.some.inj same
    exact ⟨taken, perm', rfl⟩
  · rintro ⟨order, perm, rfl⟩
    obtain ⟨members', perm', pairs'⟩ :
        Relation.Comp List.Perm (List.Forall₂ fun member entry => entryOf member = some entry) members order := by
      rw [← List.forall₂_comp_perm_eq_perm_comp_forall₂]
      exact ⟨entries, pairs, perm.symm⟩
    exact ⟨members, members', order, found, different, perm'.symm, Arena.mapM_eq_some_iff.mpr pairs', rfl⟩

/-- However a document is read, the columns that have a number are those that its names stand for. -/
theorem ReadsAs.isSome_get?_iff (found : Decode.entries Decode.float value = some members)
    (different : (members.map Prod.fst).Nodup) (each : members.mapM entryOf = some entries)
    (reads : ReadsAs value map) : (map.get? column).isSome = true ↔ column ∈ entries.map Prod.fst := by
  obtain ⟨order, perm, rfl⟩ := (readsAs_iff found different each).mp reads
  constructor
  · intro some
    obtain ⟨number, eq⟩ := Option.isSome_iff_exists.mp some
    exact List.mem_map.mpr ⟨(column, number), perm.mem_iff.mp (mem_of_get?_ofEntries eq), rfl⟩
  · intro named
    obtain ⟨⟨_, number⟩, member, rfl⟩ := List.mem_map.mp named
    exact Option.isSome_iff_exists.mpr (exists_get?_ofEntries (perm.mem_iff.mpr member))

/-- Every number that a document has for a column is what the document may be read to say about it. -/
theorem exists_readsAs_of_mem (found : Decode.entries Decode.float value = some members)
    (different : (members.map Prod.fst).Nodup) (each : members.mapM entryOf = some entries)
    (member : (column, number) ∈ entries) : ∃ map, ReadsAs value map ∧ map.get? column = some number := by
  obtain ⟨order, perm, gives⟩ := exists_perm_get?_of_mem member
  exact ⟨ofEntries order, (readsAs_iff found different each).mpr ⟨order, perm, rfl⟩, gives⟩

/-- All ways of reading a document give the same numbers exactly when the names of each column agree on its number. -/
theorem readsAs_agree_iff (found : Decode.entries Decode.float value = some members)
    (different : (members.map Prod.fst).Nodup) (each : members.mapM entryOf = some entries) :
    (∀ map map', ReadsAs value map → ReadsAs value map' → ∀ column, map.get? column = map'.get? column) ↔
      Unanimous entries := by
  rw [← orders_agree_iff]
  constructor
  · intro same order order' perm perm'
    exact same _ _ ((readsAs_iff found different each).mpr ⟨order, perm, rfl⟩)
      ((readsAs_iff found different each).mpr ⟨order', perm', rfl⟩)
  · intro same map map' reads reads'
    obtain ⟨order, perm, rfl⟩ := (readsAs_iff found different each).mp reads
    obtain ⟨order', perm', rfl⟩ := (readsAs_iff found different each).mp reads'
    exact same order order' perm perm'

/-- A document whose names stand for pairwise different columns is read as what it is decoded to, in any order. -/
theorem ReadsAs.get?_eq_decode {decoded : ColumnMap} (found : Decode.entries Decode.float value = some members)
    (different : (members.map Prod.fst).Nodup) (each : members.mapM entryOf = some entries)
    (columns : (entries.map Prod.fst).Nodup) (decodes : decode value = some decoded) (reads : ReadsAs value map) :
    map.get? column = decoded.get? column :=
  (readsAs_agree_iff found different each).mpr (unanimous_of_nodup columns) map decoded reads
    (readsAs_decode found different decodes) column

end Documents

end Warehouse.Plan.ColumnMap
