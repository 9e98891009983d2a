import VplJail.Common.Places

/-!
# Checked steps

What the language leaves undefined, as errors of the model: a result that is no `int`, and an access
to a string beyond its bytes. A function is written twice where it matters, once with these checks,
and then shown to be the other one where no check fails.
-/

namespace VplJail

/-- The model's own error: a result that an `int` does not hold. -/
def overflow : Thrown :=
  .std "overflow"

/-- The model's own error: an access beyond a string. -/
def outOfBounds : Thrown :=
  .std "out of bounds"

/-- The exception of a string of a size that no string has. -/
def lengthError : Thrown :=
  .std "length_error"

/-- The exception of `substr`. -/
def outOfRange : Thrown :=
  .std "out_of_range"

/-- The result of an `int` operation, where `least` is the least value that is let through. -/
def intResult (least n : ℤ) : Except Thrown ℤ :=
  if least ≤ n ∧ n < 2 ^ 31 then pure n else throw overflow

theorem intResult_eq {least n : ℤ} (hlow : least ≤ n) (hhigh : n < 2 ^ 31) :
    intResult least n = .ok n :=
  if_pos ⟨hlow, hhigh⟩

theorem intResult_overflow {least n : ℤ} (h : 2 ^ 31 ≤ n) : intResult least n = .error overflow :=
  if_neg fun hn => absurd hn.2 (not_lt.mpr h)

/-- The size of a string in an `int`. -/
def sizeInt (s : Bytes) : ℤ :=
  (s.length : ℤ).bmod (2 ^ 32)

theorem sizeInt_eq {s : Bytes} (h : s.length < 2 ^ 31) : sizeInt s = s.length := by
  exact Int.bmod_eq_of_le_mul_two (by omega) (by omega)

/-- The sizes behind the largest `int` are negative in one. -/
theorem sizeInt_neg {s : Bytes} (hlow : 2 ^ 31 ≤ s.length) (hhigh : s.length < 2 ^ 32) :
    sizeInt s < 0 := by
  have hdef : sizeInt s = _ := Int.bmod_def _ _
  rw [Int.emod_eq_of_lt (by omega) (by omega)] at hdef
  split at hdef <;> omega

/-- `s[i]`, which must be in the string. -/
def byteAt (s : Bytes) (i : ℕ) : Except Thrown UInt8 :=
  if i < s.length then pure (charAt s i) else throw outOfBounds

theorem byteAt_eq {s : Bytes} {i : ℕ} (h : i < s.length) : byteAt s i = .ok (charAt s i) :=
  if_pos h

/-- `s.substr(i, n)`, which must start in the string or at its end. -/
def substr (s : Bytes) (i n : ℕ) : Except Thrown Bytes :=
  if i ≤ s.length then pure ((s.drop i).take n) else throw outOfRange

theorem substr_eq {s : Bytes} {i : ℕ} (n : ℕ) (h : i ≤ s.length) :
    substr s i n = .ok ((s.drop i).take n) :=
  if_pos h

theorem ok_bind {α β : Type} (a : α) (f : α → Except Thrown β) : (Except.ok a >>= f) = f a := rfl

/-- A checked computation and the plain one have one result, which is a value that satisfies `P` or
an `HttpException`. -/
inductive Agrees {α : Type} (P : α → Prop) : Except Thrown α → Except Thrown α → Prop
  | ok {a : α} (h : P a) : Agrees P (.ok a) (.ok a)
  | http (code : ℕ) (message : String) :
      Agrees P (.error (.http code message)) (.error (.http code message))

section Agrees

variable {α β : Type} {P P' : α → Prop} {Q : β → Prop} {x x' : Except Thrown α}

theorem Agrees.bind {f f' : α → Except Thrown β} (h : Agrees P x x')
    (hf : ∀ a, P a → Agrees Q (f a) (f' a)) : Agrees Q (x >>= f) (x' >>= f') := by
  cases h with
  | ok h => exact hf _ h
  | http code message => exact .http code message

theorem Agrees.imp (h : Agrees P x x') (hP : ∀ a, P a → P' a) : Agrees P' x x' := by
  cases h with
  | ok h => exact .ok (hP _ h)
  | http code message => exact .http code message

theorem Agrees.eq (h : Agrees P x x') : x = x' := by
  cases h <;> rfl

/-- The outcome of the plain computation. -/
theorem Agrees.outcome (h : Agrees P x x') :
    (∃ a, x' = .ok a ∧ P a) ∨ ∃ code message, x' = .error (.http code message) := by
  cases h with
  | ok h => exact .inl ⟨_, rfl, h⟩
  | http code message => exact .inr ⟨code, message, rfl⟩

end Agrees

/-- Two computations end alike: with values that are related, or both without one. -/
inductive Alike {α β : Type} (R : α → β → Prop) : Except Thrown α → Except Thrown β → Prop
  | ok {a : α} {b : β} (h : R a b) : Alike R (.ok a) (.ok b)
  | error (e e' : Thrown) : Alike R (.error e) (.error e')

section Alike

variable {α β γ δ : Type} {R : α → β → Prop} {S : γ → δ → Prop} {x : Except Thrown α}
  {y : Except Thrown β}

theorem Alike.bind {f : α → Except Thrown γ} {g : β → Except Thrown δ} (h : Alike R x y)
    (hf : ∀ a b, R a b → y = .ok b → Alike S (f a) (g b)) : Alike S (x >>= f) (y >>= g) := by
  cases h with
  | ok h => exact hf _ _ h rfl
  | error e e' => exact .error e e'

/-- The image of a computation ends like it. -/
theorem Alike.map (f : β → α) (y : Except Thrown β) : Alike (fun a b => a = f b) (f <$> y) y := by
  cases y with
  | ok b => exact .ok rfl
  | error e => exact .error e e

theorem Alike.exists_iff (h : Alike R x y) : (∃ a, x = .ok a) ↔ ∃ b, y = .ok b := by
  cases h with
  | ok h => exact iff_of_true ⟨_, rfl⟩ ⟨_, rfl⟩
  | error e e' => exact iff_of_false nofun nofun

end Alike

/-- A change of the byte at `i`. -/
def modifyAt (s : Bytes) (i : ℤ) (f : UInt8 → UInt8) : Except Thrown Bytes :=
  if 0 ≤ i ∧ i < s.length then pure (s.modify i.toNat f) else throw outOfBounds

theorem modifyAt_eq {s : Bytes} {i : ℕ} (f : UInt8 → UInt8) (h : i < s.length) :
    modifyAt s i f = .ok (s.modify i f) :=
  if_pos ⟨by omega, by omega⟩

end VplJail
