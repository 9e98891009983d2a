import VplJail.Common.Bytes
import VplJail.Util.Exceptions

/-!
# Places in a text

The parsers of messages read one text by offsets. What stands at an offset is said with `List.drop`:
`raw.drop offset = t ++ rest`.
-/

namespace VplJail

/-- The model's own error: a computation has not been given enough steps. -/
def outOfFuel : Thrown :=
  .std "fuel"

/-- `s[i]` of a `std::string`, which has a NUL behind its end. -/
def charAt (s : Bytes) (i : ℕ) : UInt8 :=
  s.getD i 0

theorem charAt_of_drop {s rest : Bytes} {i : ℕ} {b : UInt8} (h : s.drop i = b :: rest) :
    charAt s i = b := by
  have hget : s[i]? = some b := by
    rw [← List.head?_drop, h]
    rfl
  rw [charAt, List.getD_eq_getElem?_getD, hget]
  rfl

/-- What stands at a place stands within the text. -/
theorem length_of_drop {s t : Bytes} {i : ℕ} (h : s.drop i = t) (ht : t ≠ []) :
    i + t.length = s.length := by
  have hlength := congrArg List.length h
  rw [List.length_drop] at hlength
  have hpos := List.length_pos_iff.mpr ht
  omega

/-- Behind a part of the text. -/
theorem drop_of_append {s t rest : Bytes} {i j : ℕ} (h : s.drop i = t ++ rest)
    (hj : i + t.length = j) : s.drop j = rest := by
  rw [← hj, ← List.drop_drop, h, List.drop_left]

theorem drop_of_cons {s rest : Bytes} {i : ℕ} {b : UInt8} (h : s.drop i = b :: rest) :
    s.drop (i + 1) = rest :=
  drop_of_append (t := [b]) h rfl

/-- A part of the text. -/
theorem take_of_append {s t rest : Bytes} {i n : ℕ} (h : s.drop i = t ++ rest) (hn : t.length = n) :
    (s.drop i).take n = t := by
  rw [h, ← hn, List.take_left]

/-- The text from one place up to another. -/
def part (data : Bytes) (i limit : ℕ) : Bytes :=
  (data.drop i).take (limit - i)

section Part

variable {data : Bytes} {i j limit : ℕ}

theorem part_of_le (h : limit ≤ i) : part data i limit = [] := by
  rw [part, Nat.sub_eq_zero_of_le h, List.take_zero]

theorem part_of_lt (h : i < limit) (hlimit : limit ≤ data.length) :
    part data i limit = charAt data i :: part data (i + 1) limit := by
  obtain ⟨n, hn⟩ : ∃ n, limit - i = n + 1 := ⟨limit - i - 1, by omega⟩
  have hi : i < data.length := by omega
  have hchar : charAt data i = data[i] := charAt_of_drop (List.drop_eq_getElem_cons hi)
  rw [part, part, hn, show limit - (i + 1) = n by omega, List.drop_eq_getElem_cons hi,
    List.take_succ_cons, hchar]

/-- A later part is a suffix. -/
theorem part_suffix (h : i ≤ j) : part data j limit <:+ part data i limit := by
  have hdrop : part data j limit = (part data i limit).drop (j - i) := by
    rw [part, part, List.drop_take, List.drop_drop, Nat.add_sub_cancel' h]
    congr 1
    omega
  rw [hdrop]
  exact List.drop_suffix _ _

end Part

end VplJail
