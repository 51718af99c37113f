import Warehouse.Error
import Warehouse.Search.Rules

/-! # Exploring a memo

The expressions of a group are gone through one after the other, those included that are found on the way.
Before the rules are applied to an expression, the groups that it reads are explored. No group is explored
twice. -/

namespace Warehouse.Search

/-- Change the group with a number. -/
def Memo.change (f : Group → Group) (id : GroupId) : Memo → Memo
  | [] => []
  | group :: earlier => if id = earlier.length then f group :: earlier else group :: change f id earlier

/-- A memo that is being explored. -/
structure Exploration where
  memo : Memo
  /-- The groups whose exploration has begun. -/
  begun : List GroupId

namespace Exploration

/-- Begin to explore a group. -/
def begin (state : Exploration) (id : GroupId) : Exploration := { state with begun := id :: state.begun }

/-- The expression at a position of a group. -/
def expr? (state : Exploration) (id : GroupId) (position : Nat) : Option GroupExpr := do
  let group ← state.memo.group? id
  group.exprs[position]?

/-- Add to a group what the rules find for one of its expressions. -/
def apply (rules : List Rule) (id : GroupId) (expr : GroupExpr) (state : Exploration) : Exploration :=
  { state with
    memo := state.memo.change
      (fun group => (rules.flatMap fun rule => rule.equivalents expr).foldl Group.add group) id }

end Exploration

mutual

/-- Explore a group unless that has begun already. -/
def explore (rules : List Rule) : (rounds : Nat) → GroupId → Exploration → Except Failure Exploration
  | 0, _, _ => throw .exhausted
  | rounds + 1, id, state =>
      if id ∈ state.begun then return state else exploreFrom rules rounds id 0 (state.begin id)

/-- Go through the expressions of a group from a position on until there are no more. -/
def exploreFrom (rules : List Rule) :
    (rounds : Nat) → GroupId → (position : Nat) → Exploration → Except Failure Exploration
  | 0, _, _, _ => throw .exhausted
  | rounds + 1, id, position, state =>
      match state.expr? id position with
      | none => return state
      | some expr => do
          let state ← expr.inputs.foldlM (fun state input => explore rules rounds input state) state
          exploreFrom rules rounds id (position + 1) (state.apply rules id expr)

end

/-- Explore the last group of a memo, and with it all groups that it reads. Four rounds for each group are
enough: one to begin, one for each of at most two expressions, and one to see that there are no more. -/
def Goal.explore (rules : List Rule) (goal : Goal) : Except Failure Memo := do
  return (← Search.explore rules (4 * goal.memo.length) goal.id ⟨goal.memo, []⟩).memo

end Warehouse.Search
