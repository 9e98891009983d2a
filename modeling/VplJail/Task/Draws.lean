import VplJail.Task.Open

/-!
# Random numbers

`Util::random` adds two 32-bit numbers and takes `abs`. Tickets are written from what it returns, and
`selectPrisoner` reduces it to a prisoner of the range. The arithmetic wraps around, and the most
negative number has no absolute value.
-/

namespace VplJail.Util

/-- `abs` of an `int`. -/
def intAbs (n : Int32) : Int32 := if n < 0 then -n else n

/-- What a call of `Util::random` gets: the number read from the device, if it could be read, the
result of `rand` that replaces it, and the one that is added. -/
structure Draw where
  device : Option Int32
  fallback : Int32
  rand : Int32

/-- `Util::random`: the sum of two sources, without its sign. -/
def random (d : Draw) : Int32 := intAbs (d.device.getD d.fallback + d.rand)

/-- The sum in 32 bits of the two numbers of a draw. -/
def Draw.sum (d : Draw) : ℤ :=
  ((d.device.getD d.fallback).toInt + d.rand.toInt).bmod (2 ^ 32)

theorem Draw.toInt_add (d : Draw) : (d.device.getD d.fallback + d.rand).toInt = d.sum :=
  Int32.toInt_add _ _

theorem le_toInt (n : Int32) : -2 ^ 31 ≤ n.toInt := Int32.le_toInt n

theorem toInt_lt (n : Int32) : n.toInt < 2 ^ 31 := Int32.toInt_lt n

/-- The absolute value of any other number. -/
theorem toInt_intAbs {n : Int32} (h : n.toInt ≠ -2 ^ 31) : (intAbs n).toInt = |n.toInt| := by
  have hlow := le_toInt n
  have hhigh := toInt_lt n
  unfold intAbs
  split
  · rename_i hneg
    have hneg' : n.toInt < 0 := Int32.lt_iff_toInt_lt.mp hneg
    rw [Int32.toInt_neg, abs_of_neg hneg', Int.bmod_eq_of_le (by omega) (by omega)]
  · rename_i hneg
    have hneg' : 0 ≤ n.toInt := by
      rw [Int32.lt_iff_toInt_lt, not_lt] at hneg
      exact hneg
    rw [abs_of_nonneg hneg']

/-- The most negative number stays as it is. -/
theorem toInt_intAbs_min {n : Int32} (h : n.toInt = -2 ^ 31) : (intAbs n).toInt = -2 ^ 31 := by
  have hmin : n = Int32.minValue := Int32.toInt_inj.mp h
  rw [hmin]
  rfl

/-- `Util::random` returns a number that is not negative unless the sum is the most negative one. -/
theorem random_nonneg_iff (d : Draw) : 0 ≤ (random d).toInt ↔ d.sum ≠ -2 ^ 31 := by
  unfold random
  constructor
  · intro h hmin
    rw [toInt_intAbs_min (d.toInt_add.trans hmin)] at h
    exact absurd h (by decide)
  · intro h
    rw [toInt_intAbs (d.toInt_add ▸ h)]
    exact abs_nonneg _

end VplJail.Util

namespace VplJail.Task

open Util

/-! ## Tickets -/

/-- `getPartialTicket`: a part of a random number, in digits. -/
def getPartialTicket (d : Draw) : Bytes :=
  let salt : Int32 := 127
  itos (random d / salt).toInt

/-- A number is written with digits only unless it is negative. -/
theorem isDigit_itos_iff {n : ℤ} : (∀ b ∈ itos n, isDigit b = true) ↔ 0 ≤ n := by
  unfold itos
  constructor
  · intro h
    by_contra hneg
    rw [if_pos (not_le.mp hneg)] at h
    exact absurd (h 45 List.mem_cons_self) (by decide)
  · intro hpos
    rw [if_neg (not_lt.mpr hpos)]
    exact fun b => isDigit_of_mem_decimal

theorem itos_ne_nil (n : ℤ) : itos n ≠ [] := by
  obtain ⟨d, ds, h, -⟩ := exists_decimal_eq_cons n.natAbs
  unfold itos
  split
  · exact List.cons_ne_nil _ _
  · exact h ▸ List.cons_ne_nil d ds

/-- A partial ticket consists of digits unless the sum is the most negative number. -/
theorem getPartialTicket_iff (d : Draw) :
    (getPartialTicket d ≠ [] ∧ ∀ b ∈ getPartialTicket d, isDigit b = true) ↔ d.sum ≠ -2 ^ 31 := by
  have hdiv : (random d / 127).toInt = (random d).toInt.tdiv 127 :=
    Int32.toInt_div_of_ne_right _ _ (by decide)
  unfold getPartialTicket
  rw [isDigit_itos_iff, and_iff_right (itos_ne_nil _), hdiv]
  constructor
  · intro h hmin
    rw [random, toInt_intAbs_min (d.toInt_add.trans hmin)] at h
    exact absurd h (by decide)
  · intro h
    exact Int.tdiv_nonneg ((random_nonneg_iff d).mpr h) (by decide)

/-! ## Prisoners -/

/-- `range` of `selectPrisoner`. -/
def prisonerRange (cfg : Configuration) : Int32 :=
  (UInt32.ofNat cfg.maxPrisoner - UInt32.ofNat cfg.firstPrisoner + 1).toInt32

/-- The prisoner of an attempt, as `uid_t`. -/
def drawnPrisoner (cfg : Configuration) (d : Draw) (i : ℕ) : UInt32 :=
  UInt32.ofNat cfg.firstPrisoner +
    (intAbs (random d + Int32.ofNat i) % prisonerRange cfg).toUInt32

/-- An `int` as `uid_t`. -/
theorem toNat_toUInt32 (n : Int32) : (n.toUInt32.toNat : ℤ) = n.toInt % 2 ^ 32 := by
  have h : n.toInt = (n.toUInt32.toNat : ℤ).bmod (2 ^ 32) := BitVec.toInt_eq_toNat_bmod _
  have hlt := UInt32.toNat_lt n.toUInt32
  rw [h, Int.bmod_def]
  split <;> omega

/-- The range is the one of the configuration. -/
theorem toInt_prisonerRange (cfg : Configuration) :
    (prisonerRange cfg).toInt = cfg.maxPrisoner - cfg.minPrisoner := by
  have hmax := cfg.maxPrisoner_le
  have hrange := cfg.range
  have hnat : (UInt32.ofNat cfg.maxPrisoner - UInt32.ofNat cfg.firstPrisoner + 1).toNat =
      cfg.maxPrisoner - cfg.minPrisoner := by
    rw [UInt32.toNat_add, UInt32.toNat_sub, UInt32.toNat_ofNat', UInt32.toNat_ofNat',
      Configuration.firstPrisoner]
    unfold maxPrisonerUid at hmax
    have hone : (1 : UInt32).toNat = 1 := rfl
    omega
  have hint : (prisonerRange cfg).toInt =
      ((cfg.maxPrisoner - cfg.minPrisoner : ℕ) : ℤ).bmod (2 ^ 32) := by
    rw [← hnat]
    exact BitVec.toInt_eq_toNat_bmod _
  unfold maxPrisonerUid at hmax
  rw [hint, Int.bmod_eq_of_le (by omega) (by omega)]
  omega

section Prisoner

variable {cfg : Configuration} {d : Draw} {i : ℕ}

/-- The random number, when there is one. -/
theorem toInt_random (hd : d.sum ≠ -2 ^ 31) : (random d).toInt = |d.sum| := by
  unfold random
  rw [toInt_intAbs (d.toInt_add ▸ hd), d.toInt_add]

/-- The number that an attempt reduces, when there is a random one. -/
theorem toInt_random_add (hi : (i : ℤ) < 2 ^ 16) (hd : d.sum ≠ -2 ^ 31) :
    (random d + Int32.ofNat i).toInt = -2 ^ 31 ↔ |d.sum| + i = 2 ^ 31 := by
  have hrandom := toInt_random hd
  have hindex : (Int32.ofNat i).toInt = i := Int32.toInt_ofNat_of_lt (by omega)
  have hpos := abs_nonneg d.sum
  have hlt := toInt_lt (random d)
  rw [Int32.toInt_add, hindex, hrandom, Int.bmod_def]
  rw [hrandom] at hlt
  split <;> omega

/-- A number that has an absolute value is reduced to a prisoner of the range. -/
theorem toNat_drawnPrisoner (h : (random d + Int32.ofNat i).toInt ≠ -2 ^ 31) :
    ((drawnPrisoner cfg d i).toNat : ℤ) = cfg.firstPrisoner +
      |(random d + Int32.ofNat i).toInt| % (cfg.maxPrisoner - cfg.minPrisoner) := by
  have hmax := cfg.maxPrisoner_le
  have hrange := cfg.range
  unfold maxPrisonerUid at hmax
  have hpos := abs_nonneg (random d + Int32.ofNat i).toInt
  have hrem := toNat_toUInt32 (intAbs (random d + Int32.ofNat i) % prisonerRange cfg)
  rw [Int32.toInt_mod, toInt_intAbs h, toInt_prisonerRange, Int.tmod_eq_emod_of_nonneg hpos] at hrem
  have hlow := Int.emod_nonneg |(random d + Int32.ofNat i).toInt|
    (show (cfg.maxPrisoner - cfg.minPrisoner : ℤ) ≠ 0 by omega)
  have hhigh := Int.emod_lt_of_pos |(random d + Int32.ofNat i).toInt|
    (show 0 < (cfg.maxPrisoner - cfg.minPrisoner : ℤ) by omega)
  rw [Int.emod_eq_of_lt (by omega) (by omega)] at hrem
  rw [drawnPrisoner, UInt32.toNat_add, UInt32.toNat_ofNat', Configuration.firstPrisoner]
  omega

/-- The most negative number is reduced to a number that is not positive. -/
theorem toNat_drawnPrisoner_min (h : (random d + Int32.ofNat i).toInt = -2 ^ 31) :
    ((drawnPrisoner cfg d i).toNat : ℤ) =
      (cfg.firstPrisoner - 2 ^ 31 % (cfg.maxPrisoner - cfg.minPrisoner)) % 2 ^ 32 := by
  have hmax := cfg.maxPrisoner_le
  have hrange := cfg.range
  unfold maxPrisonerUid at hmax
  have hrem := toNat_toUInt32 (intAbs (random d + Int32.ofNat i) % prisonerRange cfg)
  have htmod : (-2 ^ 31 : ℤ).tmod (cfg.maxPrisoner - cfg.minPrisoner) =
      -(2 ^ 31 % (cfg.maxPrisoner - cfg.minPrisoner)) := by
    rw [Int.neg_tmod, Int.tmod_eq_emod_of_nonneg (by decide)]
  rw [Int32.toInt_mod, toInt_intAbs_min h, toInt_prisonerRange, htmod] at hrem
  rw [drawnPrisoner, UInt32.toNat_add, UInt32.toNat_ofNat', Configuration.firstPrisoner]
  omega

variable (cfg d) in
/-- An attempt draws a prisoner of the range unless the number that it reduces is the most negative
one, and the range does not divide it. -/
theorem isPrisonerUID_drawnPrisoner (hi : (i : ℤ) < 2 ^ 16) (hd : d.sum ≠ -2 ^ 31) :
    cfg.isPrisonerUID (drawnPrisoner cfg d i).toNat = true ↔
      (|d.sum| + i = 2 ^ 31 → (cfg.maxPrisoner - cfg.minPrisoner : ℤ) ∣ 2 ^ 31) := by
  have hmax := cfg.maxPrisoner_le
  have hrange := cfg.range
  unfold maxPrisonerUid at hmax
  rw [← toInt_random_add hi hd, Configuration.isPrisonerUID, Bool.and_eq_true, decide_eq_true_eq,
    decide_eq_true_eq]
  have hlow (n : ℤ) := Int.emod_nonneg n
    (show (cfg.maxPrisoner - cfg.minPrisoner : ℤ) ≠ 0 by omega)
  have hhigh (n : ℤ) := Int.emod_lt_of_pos n
    (show 0 < (cfg.maxPrisoner - cfg.minPrisoner : ℤ) by omega)
  by_cases h : (random d + Int32.ofNat i).toInt = -2 ^ 31
  · have hprisoner := @toNat_drawnPrisoner_min cfg d i h
    have := hlow (2 ^ 31)
    have := hhigh (2 ^ 31)
    rw [Int.dvd_iff_emod_eq_zero]
    rw [Configuration.firstPrisoner] at hprisoner ⊢
    simp only [h, true_imp_iff]
    omega
  · have hprisoner := @toNat_drawnPrisoner cfg d i h
    have := hlow |(random d + Int32.ofNat i).toInt|
    have := hhigh |(random d + Int32.ofNat i).toInt|
    refine iff_of_true ?_ fun hmin => absurd hmin h
    rw [Configuration.firstPrisoner] at hprisoner ⊢
    omega

end Prisoner

/-- A prisoner that is set is one of the range. -/
theorem isPrisonerUID_of_setPrisonerID {cfg : Configuration} {value : ℤ} {prisoner : ℕ}
    (h : setPrisonerID cfg value = .ok prisoner) : cfg.isPrisonerUID prisoner = true := by
  unfold setPrisonerID at h
  dsimp only at h
  split at h
  · cases h
  · split at h
    · rename_i hrange
      exact Except.ok.inj h ▸ hrange
    · cases h

/-- The prisoners of the range are set, and no others. -/
theorem setPrisonerID_eq_ok {cfg : Configuration} {uid : ℕ} (huid : uid < 2 ^ 32) :
    setPrisonerID cfg uid = .ok uid ↔ cfg.isPrisonerUID uid = true := by
  refine ⟨isPrisonerUID_of_setPrisonerID, fun h => ?_⟩
  have hnat : ((uid : ℤ) % 2 ^ 32).toNat = uid := by omega
  have hne : uid ≠ cfg.homeDirOwnerUid := by
    rintro rfl
    rw [Configuration.isPrisonerUID, Bool.and_eq_true, decide_eq_true_eq] at h
    exact absurd h.1 (Nat.not_succ_le_self _)
  unfold setPrisonerID
  simp only [hnat]
  rw [if_neg hne, if_pos h]
  rfl

/-- A string of digits has the form of a ticket. -/
theorem hasTicketFormat_of_digits {ticket : Bytes} (hne : ticket ≠ [])
    (hdigits : ∀ b ∈ ticket, isDigit b = true) : hasTicketFormat ticket = true := by
  have hzero : (0 : UInt8) ∉ ticket := fun h0 => absurd (hdigits 0 h0) (by decide)
  unfold hasTicketFormat
  rw [PosixRegex.matchesWhole_iff, cstr_eq_self hzero]
  exact ⟨[ticket], .cons (PosixRegex.Item.accepts_plus hdigits hne) .nil,
    List.flatten_singleton.symm⟩

/-- What is expected of a draw: the number is not negative, the ticket is written with digits, and the
prisoner of the attempt is in the range. -/
structure IsSound (cfg : Configuration) (d : Draw) (i : ℕ) : Prop where
  random : 0 ≤ random d
  ticket : getPartialTicket d ≠ [] ∧ (∀ b ∈ getPartialTicket d, isDigit b = true) ∧
    hasTicketFormat (getPartialTicket d) = true
  prisoner : cfg.firstPrisoner ≤ (drawnPrisoner cfg d i).toNat ∧
    (drawnPrisoner cfg d i).toNat ≤ cfg.maxPrisoner ∧
    setPrisonerID cfg (drawnPrisoner cfg d i).toNat = .ok (drawnPrisoner cfg d i).toNat

/-- A draw is sound unless the numbers add up to the most negative one, or the random number and the
index do where the range does not divide it. -/
theorem isSound_iff (cfg : Configuration) (d : Draw) {i : ℕ} (hi : i < (prisonerRange cfg).toInt) :
    IsSound cfg d i ↔ d.sum ≠ -2 ^ 31 ∧
      (|d.sum| + i = 2 ^ 31 → (cfg.maxPrisoner - cfg.minPrisoner : ℤ) ∣ 2 ^ 31) := by
  have hindex : (i : ℤ) < 2 ^ 16 := by
    have hmax := cfg.maxPrisoner_le
    unfold maxPrisonerUid at hmax
    rw [toInt_prisonerRange] at hi
    omega
  have hlt := UInt32.toNat_lt (drawnPrisoner cfg d i)
  constructor
  · intro h
    have hsum := (getPartialTicket_iff d).mp ⟨h.ticket.1, h.ticket.2.1⟩
    refine ⟨hsum, (isPrisonerUID_drawnPrisoner cfg d hindex hsum).mp ?_⟩
    exact (setPrisonerID_eq_ok hlt).mp h.prisoner.2.2
  · rintro ⟨hsum, hdvd⟩
    have huid := (isPrisonerUID_drawnPrisoner cfg d hindex hsum).mpr hdvd
    have hbounds := huid
    obtain ⟨hne, hdigits⟩ := (getPartialTicket_iff d).mpr hsum
    rw [Configuration.isPrisonerUID, Bool.and_eq_true, decide_eq_true_eq, decide_eq_true_eq]
      at hbounds
    exact ⟨Int32.le_iff_toInt_le.mpr ((random_nonneg_iff d).mpr hsum),
      ⟨hne, hdigits, hasTicketFormat_of_digits hne hdigits⟩,
      ⟨hbounds.1, hbounds.2, (setPrisonerID_eq_ok hlt).mpr huid⟩⟩

/-- A draw that is usual. -/
theorem isSound_iff_small : IsSound .default ⟨some 5, 0, 7⟩ 3 :=
  (isSound_iff .default ⟨some 5, 0, 7⟩ (by decide +kernel)).mpr (by decide +kernel)

/-- The device gives the most negative number, and `rand` gives zero. -/
theorem not_isSound_min : random ⟨some Int32.minValue, 0, 0⟩ = Int32.minValue ∧
    getPartialTicket ⟨some Int32.minValue, 0, 0⟩ = ascii "-16909320" ∧
    setPrisonerID .default (drawnPrisoner .default ⟨some Int32.minValue, 0, 0⟩ 0).toNat =
      .error (.http internalServerErrorCode "Invalid prisoner id") ∧
    ¬ IsSound .default ⟨some Int32.minValue, 0, 0⟩ 0 := by
  refine ⟨by decide +kernel, by decide +kernel, by decide +kernel, fun h => ?_⟩
  exact absurd h.random (by decide +kernel)

end VplJail.Task
