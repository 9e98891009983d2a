import Mathlib.Data.List.TakeWhile
import Mathlib.Data.UInt

/-!
# Byte strings

`std::string` and the buffers handed to the operating system are lists of bytes. `ascii` writes the
source's string literals, `cstr` is what a C function sees of a `std::string`.
-/

namespace VplJail

/-- A `std::string`: any bytes, NUL included. -/
abbrev Bytes := List UInt8

/-- The bytes of an ASCII string literal of the source. -/
def ascii (s : String) : Bytes :=
  s.toList.map fun c => c.toNat.toUInt8

/-- Bytes as the text of a message, with a character for each byte. -/
def messageOf (s : Bytes) : String :=
  String.ofList (s.map fun b => Char.ofNat b.toNat)

/-- `s.c_str()` as a C function reads it: the bytes before the first NUL. -/
def cstr (s : Bytes) : Bytes :=
  s.takeWhile (· ≠ 0)

/-- A string without NUL is read whole. -/
theorem cstr_eq_self {s : Bytes} (h : (0 : UInt8) ∉ s) : cstr s = s := by
  refine List.takeWhile_eq_self_iff.mpr fun b hb => ?_
  exact decide_eq_true fun h0 => h (h0 ▸ hb)

/-- What a C function reads has no NUL. -/
theorem zero_notMem_cstr (s : Bytes) : (0 : UInt8) ∉ cstr s := by
  intro h
  have := List.mem_takeWhile_imp h
  simp at this

section Separator

variable {α : Type*} {x : α} {u v s t : List α}

/-- Lists with a separator start alike if their parts in front of the first separator agree. -/
theorem append_cons_prefix_iff (hu : x ∉ u) (hv : x ∉ v) :
    u ++ x :: s <+: v ++ x :: t ↔ u = v ∧ s <+: t := by
  induction u generalizing v with
  | nil =>
    cases v with
    | nil => simp
    | cons b v =>
      have hb : x ≠ b := fun h => hv (h ▸ List.mem_cons_self)
      simp [List.cons_prefix_cons, hb]
  | cons a u ih =>
    cases v with
    | nil =>
      have ha : a ≠ x := fun h => hu (h ▸ List.mem_cons_self)
      simp [List.cons_prefix_cons, ha]
    | cons b v =>
      have ih := ih (fun h => hu (List.mem_cons_of_mem _ h)) fun h => hv (List.mem_cons_of_mem _ h)
      simp only [List.cons_append, List.cons_prefix_cons, ih, List.cons.injEq, and_assoc]

/-- A list is divided by its first separator. -/
theorem append_cons_inj (hu : x ∉ u) (hv : x ∉ v) :
    u ++ x :: s = v ++ x :: t ↔ u = v ∧ s = t := by
  constructor
  · intro h
    have hprefix : u ++ x :: s <+: v ++ x :: t := h ▸ List.prefix_refl _
    obtain ⟨rfl, -⟩ := (append_cons_prefix_iff hu hv).mp hprefix
    exact ⟨rfl, (List.cons.inj (List.append_cancel_left h)).2⟩
  · rintro ⟨rfl, rfl⟩
    rfl

end Separator

/-- `std::string::find`: the first place where `pattern` stands in a string. -/
def find (pattern : Bytes) : Bytes → Option ℕ
  | [] => if pattern = [] then some 0 else none
  | b :: s => if pattern <+: b :: s then some 0 else (find pattern s).map (· + 1)

/-- The pattern is not found in a text that has it nowhere. -/
theorem find_eq_none {pattern s : Bytes} :
    find pattern s = none ↔ ∀ k, ¬ pattern <+: s.drop k := by
  induction s with
  | nil => simp [find]
  | cons b s ih =>
    rw [find]
    split
    · rename_i hpattern
      exact iff_of_false nofun fun h => h 0 hpattern
    · rename_i hpattern
      rw [Option.map_eq_none_iff, ih]
      constructor
      · intro h k
        cases k with
        | zero => exact hpattern
        | succ k => exact h k
      · exact fun h k => h (k + 1)

/-- The place that is found is the first one. -/
theorem find_eq_some {pattern s : Bytes} {pos : ℕ} :
    find pattern s = some pos ↔ pattern <+: s.drop pos ∧ ∀ k < pos, ¬ pattern <+: s.drop k := by
  induction s generalizing pos with
  | nil =>
    simp only [find, List.drop_nil, List.prefix_nil]
    split
    · rename_i hpattern
      constructor
      · rintro h
        obtain rfl := Option.some.inj h
        exact ⟨hpattern, fun k hk => absurd hk (Nat.not_lt_zero k)⟩
      · rintro ⟨-, h⟩
        cases pos with
        | zero => rfl
        | succ pos => exact absurd hpattern (h 0 (Nat.succ_pos pos))
    · rename_i hpattern
      exact iff_of_false nofun fun h => hpattern h.1
  | cons b s ih =>
    rw [find]
    split
    · rename_i hpattern
      constructor
      · rintro h
        obtain rfl := Option.some.inj h
        exact ⟨hpattern, fun k hk => absurd hk (Nat.not_lt_zero k)⟩
      · rintro ⟨-, h⟩
        cases pos with
        | zero => rfl
        | succ pos => exact absurd hpattern (h 0 (Nat.succ_pos pos))
    · rename_i hpattern
      rw [Option.map_eq_some_iff]
      constructor
      · rintro ⟨p, hp, rfl⟩
        refine ⟨(ih.mp hp).1, fun k hk => ?_⟩
        cases k with
        | zero => exact hpattern
        | succ k => exact (ih.mp hp).2 k (Nat.lt_of_succ_lt_succ hk)
      · rintro ⟨hpos, h⟩
        cases pos with
        | zero => exact absurd hpos hpattern
        | succ pos =>
          exact ⟨pos, ih.mpr ⟨hpos, fun k hk => h (k + 1) (Nat.succ_lt_succ hk)⟩, rfl⟩

/-- The first bytes of a text contain the pattern as soon as they hold its first occurrence. -/
theorem find_take {pattern s : Bytes} {pos : ℕ} (hpattern : pattern ≠ [])
    (h : find pattern s = some pos) (k : ℕ) :
    find pattern (s.take k) = if pos + pattern.length ≤ k then some pos else none := by
  have hlen := List.length_pos_iff.mpr hpattern
  have hiff (j : ℕ) : pattern <+: (s.take k).drop j ↔
      pattern <+: s.drop j ∧ j + pattern.length ≤ k := by
    rw [List.drop_take, List.prefix_take_iff]
    exact and_congr_right fun _ => by omega
  obtain ⟨hpos, hfirst⟩ := find_eq_some.mp h
  split
  · refine find_eq_some.mpr ⟨(hiff pos).mpr ⟨hpos, ‹_›⟩, fun j hj hprefix => ?_⟩
    exact hfirst j hj ((hiff j).mp hprefix).1
  · refine find_eq_none.mpr fun j hj => ?_
    obtain ⟨hj, hjk⟩ := (hiff j).mp hj
    by_cases hlt : j < pos
    · exact hfirst j hlt hj
    · omega

end VplJail
