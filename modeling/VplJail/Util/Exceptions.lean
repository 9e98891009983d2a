import Mathlib.Init

/-!
# Exceptions

What the code throws: texts, `HttpException` with its code, exceptions of the standard library, and
what `readConfiguration` and `readInfo` throw.
-/

namespace VplJail

/-- A value thrown. -/
inductive Thrown
  | text (message : String)
  | http (code : Nat) (message : String)
  | std (name : String)
  | unreadableConfig
  | taskCleaning
deriving DecidableEq, Repr

/-- A computation that succeeds: its parts do. -/
theorem exists_of_bind_eq_ok {α β : Type} {x : Except Thrown α} {f : α → Except Thrown β} {b : β}
    (h : x >>= f = .ok b) : ∃ a, x = .ok a ∧ f a = .ok b := by
  cases x with
  | error e => cases h
  | ok a => exact ⟨a, rfl, h⟩

/-- `badRequestCode`: the request cannot be understood. -/
def badRequestCode : Nat := 400

/-- `notFoundCode`: there is no such page. -/
def notFoundCode : Nat := 404

/-- `internalServerErrorCode`: the server has failed. -/
def internalServerErrorCode : Nat := 500

end VplJail
