import VplJail.Configuration.Settings
import VplJail.Rpc.TreeNode

/-!
# The limits of an execution

A request may ask for limits of its own, which `getParseExecutionLimits` combines with those of the
server and `setLimits` and `isOutOfMemory` apply. `asStrict_iff` says for which requests the limits
applied are at least as strict as those of the server.
-/

namespace VplJail.Jail

open Rpc

/-! ## From the request -/

/-- `Util::fixMemSize`: a size that is not positive means no limit. -/
def fixMemSize (memSize : ℤ) : ℤ :=
  if memSize ≤ 0 then 2 ^ 63 - 1 else memSize

/-- A limit of the server combined with the member of the request, if there is one. -/
def combine (read : TreeNode → Except Thrown ℤ) (member : Option TreeNode) (limit : ℤ) :
    Except Thrown ℤ :=
  match member with
  | none => pure limit
  | some node => do pure (min (← read node) limit)

/-- `maxfilesize` and `maxmemory` as they are read. -/
def getMemSize (lib : FloatLib) (node : TreeNode) : Except Thrown ℤ := do
  pure (fixMemSize (← node.getLong lib))

/-- `getParseExecutionLimits`, with the limits of the server. -/
def getParseExecutionLimits (lib : FloatLib) (jailLimits : ExecutionLimits)
    (parsedata : Mapstruct) : Except Thrown ExecutionLimits := do
  let maxtime ← combine (TreeNode.getInt lib) parsedata[ascii "maxtime"]? jailLimits.maxtime
  let maxfilesize ← combine (getMemSize lib) parsedata[ascii "maxfilesize"]? jailLimits.maxfilesize
  let maxmemory ← combine (getMemSize lib) parsedata[ascii "maxmemory"]? jailLimits.maxmemory
  let maxprocesses ←
    combine (TreeNode.getInt lib) parsedata[ascii "maxprocesses"]? jailLimits.maxprocesses
  pure ⟨maxtime, maxfilesize, maxmemory, maxprocesses⟩

/-! ## To the process -/

/-- `JAIL_VPL_EXTRA_TIME`: seconds that a program gets above its limit. -/
def vplExtraTime : ℤ := 2

/-- The conversion of a signed number to `rlim_t`. -/
def toRlim (value : ℤ) : ℕ :=
  (value % 2 ^ 64).toNat

/-- The resource limits that are set; `none` is left as it was. -/
structure Rlimits where
  core : Option ℕ
  cpu : Option ℕ
  fsize : Option ℕ
  nproc : Option ℕ
deriving DecidableEq, Repr

/-- A limit that is set if it is positive. -/
def setIfPositive (value : ℤ) : Option ℕ :=
  if 0 < value then some (toRlim value) else none

/-- `setLimits`, with the sum of `int` that wraps around. -/
def setLimits (limits : ExecutionLimits) : Rlimits where
  core := some 0
  cpu := some (toRlim ((limits.maxtime + vplExtraTime).bmod (2 ^ 32)))
  fsize := setIfPositive limits.maxfilesize
  nproc := setIfPositive limits.maxprocesses

/-- `isOutOfMemory`, with what the control group says and the memory used. -/
def isOutOfMemory (limits : ExecutionLimits) (underOom : Bool) (usedMemory : ℤ) : Bool :=
  if limits.maxmemory ≤ 0 then false else underOom || decide (limits.maxmemory < usedMemory)

/-! ## As strict as the server -/

/-- A resource limit that is set, and is at most `bound`. -/
def SetAtMost (limit : Option ℕ) (bound : ℤ) : Prop :=
  ∃ n, limit = some n ∧ n ≤ bound

/-- The limits applied are at least as strict as those of the server. -/
structure AsStrict (jailLimits limits : ExecutionLimits) : Prop where
  cpu : SetAtMost (setLimits limits).cpu (jailLimits.maxtime + vplExtraTime)
  fsize : SetAtMost (setLimits limits).fsize jailLimits.maxfilesize
  nproc : SetAtMost (setLimits limits).nproc jailLimits.maxprocesses
  memory : 0 < limits.maxmemory ∧ limits.maxmemory ≤ jailLimits.maxmemory
  outOfMemory : ∀ underOom usedMemory, jailLimits.maxmemory < usedMemory →
    isOutOfMemory limits underOom usedMemory = true

/-- Limits of a server that are positive, in the ranges of their types. -/
structure Positive (limits : ExecutionLimits) : Prop where
  maxtime : 0 < limits.maxtime ∧ limits.maxtime ≤ intMax - 2
  maxfilesize : 0 < limits.maxfilesize ∧ limits.maxfilesize < 2 ^ 63
  maxmemory : 0 < limits.maxmemory ∧ limits.maxmemory < 2 ^ 63
  maxprocesses : 0 < limits.maxprocesses ∧ limits.maxprocesses ≤ intMax

/-- A member that is a number, or absent. -/
def IsNumberOrAbsent (parsedata : Mapstruct) (name : Bytes) : Prop :=
  ∀ node, parsedata[name]? = some node → node.IsNumber

/-- The number that the member is read as, if there is one, satisfies `p`. -/
def IntMember (lib : FloatLib) (parsedata : Mapstruct) (name : Bytes) (p : ℤ → Prop) : Prop :=
  ∀ node n, parsedata[name]? = some node → node.getInt lib = .ok n → p n

/-! ## What is applied -/

/-- A positive limit fits `rlim_t`. -/
theorem toRlim_of_nonneg {value : ℤ} (hlow : 0 ≤ value) (hhigh : value < 2 ^ 64) :
    (toRlim value : ℤ) = value := by
  rw [toRlim, Int.emod_eq_of_lt hlow hhigh, Int.toNat_of_nonneg hlow]

/-- A negative limit becomes a huge one. -/
theorem toRlim_of_neg {value : ℤ} (hlow : -2 ^ 32 ≤ value) (hneg : value < 0) :
    (toRlim value : ℤ) = value + 2 ^ 64 := by
  have hmod : value % 2 ^ 64 = value + 2 ^ 64 := by omega
  rw [toRlim, hmod, Int.toNat_of_nonneg (by omega)]

/-- A limit that is set if positive is at most a greater one if it is positive. -/
theorem setAtMost_setIfPositive {value bound : ℤ} (hle : value ≤ bound) (hbound : bound < 2 ^ 63) :
    SetAtMost (setIfPositive value) bound ↔ 0 < value := by
  rw [SetAtMost, setIfPositive]
  split
  · rename_i hpos
    refine iff_of_true ⟨toRlim value, rfl, ?_⟩ hpos
    rw [toRlim_of_nonneg hpos.le (by omega)]
    exact hle
  · rename_i hpos
    exact iff_of_false (fun ⟨n, hn, _⟩ => by cases hn) hpos

/-- The time limit of the processor is at most a greater one if the sum is not negative. -/
theorem setAtMost_cpu {limits : ExecutionLimits} {maxtime : ℤ} (hlow : -2 ^ 31 ≤ limits.maxtime)
    (hle : limits.maxtime ≤ maxtime) (hmax : maxtime ≤ intMax - 2) :
    SetAtMost (setLimits limits).cpu (maxtime + vplExtraTime) ↔ -2 ≤ limits.maxtime := by
  rw [intMax] at hmax
  have hsum : (limits.maxtime + vplExtraTime).bmod (2 ^ 32) = limits.maxtime + 2 :=
    Int.bmod_eq_of_le (by rw [vplExtraTime]; omega) (by rw [vplExtraTime]; omega)
  rw [SetAtMost, setLimits, hsum, vplExtraTime]
  by_cases hneg : limits.maxtime + 2 < 0
  · refine iff_of_false ?_ (by omega)
    rintro ⟨n, hn, hle'⟩
    rw [← Option.some.inj hn, toRlim_of_neg (by omega) hneg] at hle'
    omega
  · refine iff_of_true ⟨_, rfl, ?_⟩ (by omega)
    rw [toRlim_of_nonneg (by omega) (by omega)]
    omega

/-- A size is never zero or negative. -/
theorem fixMemSize_pos (memSize : ℤ) : 0 < fixMemSize memSize := by
  rw [fixMemSize]
  split <;> omega

/-- More memory than a positive limit is too much. -/
theorem isOutOfMemory_of_lt {limits : ExecutionLimits} (h : 0 < limits.maxmemory) (underOom : Bool)
    {usedMemory : ℤ} (hused : limits.maxmemory < usedMemory) :
    isOutOfMemory limits underOom usedMemory = true := by
  rw [isOutOfMemory, if_neg (by omega), decide_eq_true hused, Bool.or_true]

section Combine

variable {read : TreeNode → Except Thrown ℤ} {member : Option TreeNode} {limit : ℤ}

/-- A combined limit is that of the server, or the smaller one. -/
theorem exists_combine (h : ∀ node, member = some node → ∃ n, read node = .ok n) :
    ∃ value, combine read member limit = .ok value ∧
      (member = none ∧ value = limit ∨
        ∃ node n, member = some node ∧ read node = .ok n ∧ value = min n limit) := by
  cases member with
  | none => exact ⟨limit, rfl, .inl ⟨rfl, rfl⟩⟩
  | some node =>
    obtain ⟨n, hn⟩ := h node rfl
    refine ⟨min n limit, ?_, .inr ⟨node, n, rfl, hn, rfl⟩⟩
    rw [combine, hn]
    rfl

/-- A positive size combined with a positive limit is positive and no greater. -/
theorem exists_combine_memSize (lib : FloatLib) (h : ∀ node, member = some node → node.IsNumber)
    (hlimit : 0 < limit) :
    ∃ value, combine (getMemSize lib) member limit = .ok value ∧ 0 < value ∧ value ≤ limit := by
  have hread : ∀ node, member = some node → ∃ n, getMemSize lib node = .ok n := by
    intro node hnode
    obtain ⟨n, hn⟩ := TreeNode.exists_getLong (h node hnode)
    exact ⟨fixMemSize n, by rw [getMemSize, hn]; rfl⟩
  obtain ⟨value, hvalue, hcases⟩ :
      ∃ value, combine (getMemSize lib) member limit = .ok value ∧ _ := exists_combine hread
  rcases hcases with ⟨-, rfl⟩ | ⟨node, n, -, hn, rfl⟩
  · exact ⟨_, hvalue, hlimit, le_rfl⟩
  · refine ⟨_, hvalue, ?_, min_le_right _ _⟩
    rw [getMemSize] at hn
    cases hlong : node.getLong lib with
    | error e =>
      rw [hlong] at hn
      cases hn
    | ok m =>
      rw [hlong] at hn
      obtain rfl := Except.ok.inj hn
      exact lt_min (fixMemSize_pos m) hlimit

/-- A number combined with a limit satisfies what the limit does and the number asks for. -/
theorem exists_combine_int (lib : FloatLib) (h : ∀ node, member = some node → node.IsNumber)
    (hlow : -2 ^ 31 ≤ limit) {bound : ℤ} (hbound : bound ≤ limit) :
    ∃ value, combine (TreeNode.getInt lib) member limit = .ok value ∧ -2 ^ 31 ≤ value ∧
      value ≤ limit ∧
      (bound ≤ value ↔ ∀ node n, member = some node → node.getInt lib = .ok n → bound ≤ n) := by
  have hread : ∀ node, member = some node → ∃ n, node.getInt lib = .ok n := fun node hnode =>
    TreeNode.exists_getInt (h node hnode)
  obtain ⟨value, hvalue, hcases⟩ :
      ∃ value, combine (TreeNode.getInt lib) member limit = .ok value ∧ _ := exists_combine hread
  rcases hcases with ⟨rfl, rfl⟩ | ⟨node, n, rfl, hn, rfl⟩
  · exact ⟨value, hvalue, hlow, le_rfl, iff_of_true hbound fun node n hnode => by cases hnode⟩
  · refine ⟨_, hvalue, le_min (TreeNode.getInt_range hn).1 hlow, min_le_right _ _, ?_⟩
    rw [le_min_iff, and_iff_left hbound]
    constructor
    · intro hle node' n' hnode hn'
      obtain rfl := Option.some.inj hnode
      rw [hn] at hn'
      rwa [← Except.ok.inj hn']
    · intro hall
      exact hall node n rfl hn

end Combine

/-- The limits applied are at least as strict as the positive ones of the server exactly when the
time asked for, if any, is not below -2 and the number of processes, if any, is positive. -/
theorem asStrict_iff (lib : FloatLib) {jailLimits : ExecutionLimits} (hjail : Positive jailLimits)
    {parsedata : Mapstruct} (htime : IsNumberOrAbsent parsedata (ascii "maxtime"))
    (hfilesize : IsNumberOrAbsent parsedata (ascii "maxfilesize"))
    (hmemory : IsNumberOrAbsent parsedata (ascii "maxmemory"))
    (hprocesses : IsNumberOrAbsent parsedata (ascii "maxprocesses")) :
    (∃ limits, getParseExecutionLimits lib jailLimits parsedata = .ok limits ∧
        AsStrict jailLimits limits) ↔
      IntMember lib parsedata (ascii "maxtime") (-2 ≤ ·) ∧
        IntMember lib parsedata (ascii "maxprocesses") (1 ≤ ·) := by
  obtain ⟨⟨htime_pos, htime_le⟩, ⟨hfilesize_pos, hfilesize_lt⟩, ⟨hmemory_pos, hmemory_lt⟩,
    ⟨hprocesses_pos, hprocesses_le⟩⟩ := hjail
  obtain ⟨maxtime, ht, ht_low, ht_le, ht_iff⟩ := exists_combine_int lib htime
    (by omega : -2 ^ 31 ≤ jailLimits.maxtime) (by omega : -2 ≤ jailLimits.maxtime)
  obtain ⟨maxfilesize, hf, hf_pos, hf_le⟩ := exists_combine_memSize lib hfilesize hfilesize_pos
  obtain ⟨maxmemory, hm, hm_pos, hm_le⟩ := exists_combine_memSize lib hmemory hmemory_pos
  obtain ⟨maxprocesses, hp, hp_low, hp_le, hp_iff⟩ := exists_combine_int lib hprocesses
    (by omega : -2 ^ 31 ≤ jailLimits.maxprocesses) (by omega : 1 ≤ jailLimits.maxprocesses)
  have hlimits : getParseExecutionLimits lib jailLimits parsedata =
      .ok ⟨maxtime, maxfilesize, maxmemory, maxprocesses⟩ := by
    rw [getParseExecutionLimits, ht, hf, hm, hp]
    rfl
  rw [intMax] at hprocesses_le
  rw [IntMember, IntMember, ← ht_iff, ← hp_iff]
  have hcpu : SetAtMost (setLimits ⟨maxtime, maxfilesize, maxmemory, maxprocesses⟩).cpu
      (jailLimits.maxtime + vplExtraTime) ↔ -2 ≤ maxtime := setAtMost_cpu ht_low ht_le htime_le
  have hnproc : SetAtMost (setLimits ⟨maxtime, maxfilesize, maxmemory, maxprocesses⟩).nproc
      jailLimits.maxprocesses ↔ 0 < maxprocesses := setAtMost_setIfPositive hp_le (by omega)
  constructor
  · rintro ⟨limits, hok, hstrict⟩
    obtain rfl := Except.ok.inj (hlimits.symm.trans hok)
    exact ⟨hcpu.mp hstrict.cpu, hnproc.mp hstrict.nproc⟩
  · rintro ⟨htime, hprocesses⟩
    refine ⟨_, hlimits, hcpu.mpr htime, ?_, hnproc.mpr hprocesses, ⟨hm_pos, hm_le⟩, ?_⟩
    · exact (setAtMost_setIfPositive hf_le hfilesize_lt).mpr hf_pos
    · intro underOom usedMemory hused
      exact isOutOfMemory_of_lt hm_pos underOom (lt_of_le_of_lt hm_le hused)

/-! ## Requests -/

/-- One minute of time. -/
theorem asStrict_iff_minute :
    ∃ limits, getParseExecutionLimits .integers Configuration.default.jailLimits
        (Mapstruct.single "maxtime" "number" "60") = .ok limits ∧
      AsStrict Configuration.default.jailLimits limits := by
  have htime : (Mapstruct.single "maxtime" "number" "60")[ascii "maxtime"]? =
      some ⟨.json, ascii "number", ascii "60"⟩ := by decide +kernel
  have habsent {name : Bytes} (h : (Mapstruct.single "maxtime" "number" "60")[name]? = none) :
      IsNumberOrAbsent (Mapstruct.single "maxtime" "number" "60") name := by
    intro node hnode
    rw [h] at hnode
    cases hnode
  have hnumber : IsNumberOrAbsent (Mapstruct.single "maxtime" "number" "60") (ascii "maxtime") := by
    intro node hnode
    rw [htime] at hnode
    rw [← Option.some.inj hnode]
    exact .inl rfl
  have hprocesses : (Mapstruct.single "maxtime" "number" "60")[ascii "maxprocesses"]? = none := by
    decide +kernel
  refine (asStrict_iff .integers ⟨by decide, by decide, by decide, by decide⟩ hnumber
    (habsent (by decide +kernel)) (habsent (by decide +kernel)) (habsent hprocesses)).mpr ⟨?_, ?_⟩
  · intro node n hnode hn
    rw [htime] at hnode
    rw [← Option.some.inj hnode] at hn
    rw [← Except.ok.inj hn]
    decide +kernel
  · intro node n hnode
    rw [hprocesses] at hnode
    cases hnode

/-- A time of -3 seconds becomes a limit of nearly 2^64 seconds, and with no process allowed their
number is not limited. -/
theorem negative_request_loosens :
    (∃ limits, getParseExecutionLimits .integers Configuration.default.jailLimits
        (Mapstruct.single "maxtime" "number" "-3") = .ok limits ∧
      ¬ SetAtMost (setLimits limits).cpu (Configuration.default.jailLimits.maxtime + vplExtraTime)) ∧
    ∃ limits, getParseExecutionLimits .integers Configuration.default.jailLimits
        (Mapstruct.single "maxprocesses" "number" "0") = .ok limits ∧
      (setLimits limits).nproc = none := by
  constructor
  · refine ⟨⟨-3, 64 * 1024 ^ 2, 2000 * 1024 ^ 2, 500⟩, by decide +kernel, ?_⟩
    rintro ⟨n, hn, hle⟩
    have hhuge : n = 2 ^ 64 - 1 := by
      rw [← Option.some.inj hn]
      decide
    rw [hhuge] at hle
    exact absurd hle (by decide)
  · exact ⟨⟨1200, 64 * 1024 ^ 2, 2000 * 1024 ^ 2, 0⟩, by decide +kernel, by decide⟩

end VplJail.Jail
