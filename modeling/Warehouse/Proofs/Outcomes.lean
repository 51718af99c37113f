import Warehouse.Error

/-! # Computations that may fail

When a computation that is put together from others gives a result, so do its parts. When its parts fail in one
way only, so does it: `Ends`. -/

namespace Warehouse

variable {ε ε' α β : Type} {x : Except ε α}

theorem bind_eq_ok {f : α → Except ε β} {b : β} : x >>= f = .ok b ↔ ∃ a, x = .ok a ∧ f a = .ok b := by
  cases x with
  | error failure => simp [bind, Except.bind]
  | ok a => simp [bind, Except.bind]

theorem map_eq_ok {f : α → β} {b : β} : f <$> x = .ok b ↔ ∃ a, x = .ok a ∧ f a = b := by
  cases x with
  | error failure => simp [Functor.map, Except.map]
  | ok a => simp [Functor.map, Except.map]

theorem mapError_eq_ok {f : ε → ε'} {a : α} : x.mapError f = .ok a ↔ x = .ok a := by
  cases x with
  | error failure => exact ⟨nofun, nofun⟩
  | ok b => exact ⟨fun h => congrArg _ (Except.ok.inj h), fun h => congrArg _ (Except.ok.inj h)⟩

theorem pure_eq_ok {a b : α} : (pure a : Except ε α) = .ok b ↔ a = b := by
  simp [pure, Except.pure]

theorem throw_ne_ok {failure : ε} {a : α} : (throw failure : Except ε α) ≠ .ok a := by
  simp [throw, throwThe, MonadExceptOf.throw]

theorem exists_eq_ok (h : x.isOk = true) : ∃ a, x = .ok a := by
  cases x with
  | error failure => contradiction
  | ok a => exact ⟨a, rfl⟩

theorem toOption_eq_some {a : α} : x.toOption = some a ↔ x = .ok a := by
  cases x with
  | error failure => exact ⟨nofun, nofun⟩
  | ok b => exact ⟨fun h => congrArg _ (Option.some.inj h), fun h => congrArg _ (Except.ok.inj h)⟩

/-- A computation gives a result for which something holds, or fails in the given way. -/
inductive Ends (failure : ε) (holds : α → Prop) : Except ε α → Prop
  | ok {a : α} (held : holds a) : Ends failure holds (.ok a)
  | error : Ends failure holds (.error failure)

namespace Ends

variable {failure : ε} {holds : α → Prop} {holds' : β → Prop}

theorem bind {f : α → Except ε β} (first : Ends failure holds x)
    (second : ∀ a, holds a → Ends failure holds' (f a)) : Ends failure holds' (x >>= f) := by
  cases first with
  | ok held => exact second _ held
  | error => exact .error

theorem mono {weaker : α → Prop} (h : Ends failure holds x) (weaken : ∀ a, holds a → weaker a) :
    Ends failure weaker x := by
  cases h with
  | ok held => exact .ok (weaken _ held)
  | error => exact .error

theorem eq_ok_or (h : Ends failure holds x) : (∃ a, x = .ok a ∧ holds a) ∨ x = .error failure := by
  cases h with
  | ok held => exact .inl ⟨_, rfl, held⟩
  | error => exact .inr rfl

end Ends

end Warehouse
