import VplJail.Configuration.Codec
import VplJail.Task.OneTime

/-!
# Tasks that are read back

A stored task survives if every value is read as it has been stored and the fields read are stored
as they were. `survives_store` says that this is so for strings on one line without `=`, blanks or
quotes around them, and for numbers of the size of their fields.
-/

namespace VplJail.Task

open ConfigurationFile Util

/-- What is stored is read back, and the fields read are stored as they were. -/
def Survives (data : ConfigData) : Prop :=
  ∃ read, readConfiguration (serialize data) ∅ = some read ∧
    (∀ key : Bytes, read[key]? = data[key]?) ∧
    ∀ key : Bytes, ((Info.ofData read).store read)[key]? = read[key]?

/-- The stored task is read back. -/
def Sound (cfg : Configuration) (uid : ℕ) (files : Files) : Prop :=
  ∃ data, files (processConfigFile cfg uid) = some (serialize data) ∧ Survives data

/-! ## Plain values -/

/-- A value on one line, without `=` and without blanks or quotes around it. -/
structure IsPlainValue (value : Bytes) : Prop where
  isValue : IsValue value
  noEquals : (61 : UInt8) ∉ value
  head : ∀ b ∈ value.head?, isBlank b = false
  trim : trimAndRemoveQuotes value = value

/-- A key that is read as it is written. -/
structure IsPlainKey (key : Bytes) : Prop where
  isKey : IsKey key
  noEquals : (61 : UInt8) ∉ key

/-- The numbers of a task fit their fields, and its strings are plain. -/
structure Info.Fits (info : Info) : Prop where
  maxtime : -2 ^ 31 ≤ info.maxtime ∧ info.maxtime < 2 ^ 31
  maxfilesize : -2 ^ 63 ≤ info.maxfilesize ∧ info.maxfilesize < 2 ^ 63
  maxmemory : -2 ^ 63 ≤ info.maxmemory ∧ info.maxmemory < 2 ^ 63
  maxprocesses : -2 ^ 31 ≤ info.maxprocesses ∧ info.maxprocesses < 2 ^ 31
  adminticket : IsPlainValue info.adminticket
  executionticket : IsPlainValue info.executionticket
  monitorticket : IsPlainValue info.monitorticket
  httpPassthroughticket : IsPlainValue info.httpPassthroughticket
  localwebserver : IsPlainValue info.localwebserver
  startTime : -2 ^ 31 ≤ info.startTime ∧ info.startTime < 2 ^ 31
  lang : IsPlainValue info.lang
  compilerPid : -2 ^ 31 ≤ info.compilerPid ∧ info.compilerPid < 2 ^ 31
  runnerPid : -2 ^ 31 ≤ info.runnerPid ∧ info.runnerPid < 2 ^ 31
  monitorPid : -2 ^ 31 ≤ info.monitorPid ∧ info.monitorPid < 2 ^ 31

/-- A value of letters, digits, `_` and `-` is plain. -/
theorem isPlainValue_of_word {value : Bytes}
    (h : ∀ b ∈ value, isDigit b = true ∨ b = 45 ∨ b = 95 ∨ 65 ≤ b ∧ b ≤ 90) :
    IsPlainValue value := by
  have hno (b : UInt8) (hb : ¬ (isDigit b = true ∨ b = 45 ∨ b = 95 ∨ 65 ≤ b ∧ b ≤ 90)) :
      b ∉ value := fun hmem => hb (h b hmem)
  refine ⟨⟨hno 35 (by decide), hno 0 (by decide), hno 10 (by decide)⟩, hno 61 (by decide),
    fun b hb => ?_, trim_eq_self fun b hb => ⟨?_, ?_, ?_⟩⟩
  · have hmem : b ∈ value := List.mem_of_mem_head? hb
    rw [isBlank, Bool.or_eq_false_iff, beq_eq_false_iff_ne, beq_eq_false_iff_ne]
    exact ⟨fun heq => hno 32 (by decide) (heq ▸ hmem), fun heq => hno 9 (by decide) (heq ▸ hmem)⟩
  · exact fun heq => hno 32 (by decide) (heq ▸ hb)
  · exact fun heq => hno 39 (by decide) (heq ▸ hb)
  · exact fun heq => hno 34 (by decide) (heq ▸ hb)

theorem isPlainValue_itos (value : ℤ) : IsPlainValue (itos value) :=
  isPlainValue_of_word fun b hb => by
    rcases mem_itos hb with rfl | hdigit
    · exact .inr (.inl rfl)
    · exact .inl hdigit

theorem isPlainValue_flag (b : Bool) : IsPlainValue (flag b) := by
  cases b
  · exact isPlainValue_of_word (by decide +kernel)
  · exact isPlainValue_of_word (by decide +kernel)

/-- The keys of a task are plain. -/
theorem isPlainKey_of_mem_params {info : Info} {p : Bytes × Bytes} (h : p ∈ info.params) :
    IsPlainKey p.1 := by
  have hall : ((Info.ofData ∅).params.map Prod.fst).all isWord = true := by
    decide +kernel
  have hmem : p.1 ∈ info.params.map Prod.fst := List.mem_map_of_mem h
  have hword : isWord p.1 = true := List.all_eq_true.mp hall p.1 hmem
  exact ⟨isKey_of_isWord hword, fun hb => absurd (mem_of_isWord hword hb) (by decide)⟩

/-- The values of a task with plain strings are plain. -/
theorem isPlainValue_of_mem_params {info : Info} (hadmin : IsPlainValue info.adminticket)
    (hexecution : IsPlainValue info.executionticket) (hmonitor : IsPlainValue info.monitorticket)
    (hpassthrough : IsPlainValue info.httpPassthroughticket)
    (hserver : IsPlainValue info.localwebserver) (hlang : IsPlainValue info.lang)
    {p : Bytes × Bytes} (hp : p ∈ info.params) : IsPlainValue p.2 := by
  have hall : ∀ p ∈ info.params, IsPlainValue p.2 := by
    simp only [Info.params, List.forall_mem_cons]
    exact ⟨isPlainValue_itos _, isPlainValue_itos _, isPlainValue_itos _, isPlainValue_itos _,
      hadmin, hexecution, hmonitor, hpassthrough, hserver, isPlainValue_flag _, isPlainValue_itos _,
      isPlainValue_flag _, hlang, isPlainValue_itos _, isPlainValue_itos _, isPlainValue_itos _,
      fun p hp => absurd hp List.not_mem_nil⟩
  exact hall p hp

theorem Info.Fits.isPlainValue {info : Info} (h : info.Fits) {p : Bytes × Bytes}
    (hp : p ∈ info.params) : IsPlainValue p.2 :=
  isPlainValue_of_mem_params h.adminticket h.executionticket h.monitorticket
    h.httpPassthroughticket h.localwebserver h.lang hp

/-! ## What is read -/

/-- A configuration whose entries are all plain. -/
def IsPlainData (data : ConfigData) : Prop :=
  ∀ key value : Bytes, data[key]? = some value → IsPlainKey key ∧ IsPlainValue value

theorem isPlainData_empty : IsPlainData ∅ := by
  intro key value h
  simp at h

/-- A task of plain values over plain entries. -/
theorem IsPlainData.store_of_params {data : ConfigData} (h : IsPlainData data) {info : Info}
    (hinfo : ∀ p ∈ info.params, IsPlainValue p.2) : IsPlainData (info.store data) := by
  intro key value hvalue
  rw [Info.store, getElem?_foldl_insert] at hvalue
  rcases Option.or_eq_some_iff.mp hvalue with hlast | ⟨-, hdata⟩
  · obtain ⟨p, hp, rfl⟩ := Option.map_eq_some_iff.mp hlast
    have hmem : p ∈ info.params := List.mem_reverse.mp (List.mem_of_find?_eq_some hp)
    obtain rfl : p.1 = key := by simpa using List.find?_some hp
    exact ⟨isPlainKey_of_mem_params hmem, hinfo p hmem⟩
  · exact h key value hdata

theorem IsPlainData.store {data : ConfigData} (h : IsPlainData data) {info : Info}
    (hinfo : info.Fits) : IsPlainData (info.store data) :=
  h.store_of_params fun _ => hinfo.isPlainValue

/-- Plain entries are read back. -/
theorem IsPlainData.exists_read {data : ConfigData} (h : IsPlainData data) :
    ∃ read, readConfiguration (serialize data) ∅ = some read ∧
      ∀ key : Bytes, read[key]? = data[key]? := by
  have hentry : Storable data := fun key value hvalue =>
    ⟨(h key value hvalue).1.isKey, (h key value hvalue).2.isValue⟩
  refine exists_readConfiguration_of_readLine hentry ?_
  rintro ⟨key, value⟩ hp
  have hvalue := Std.TreeMap.mem_toList_iff_getElem?_eq_some.mp hp
  obtain ⟨hkey, hplain⟩ := h key value hvalue
  exact readLine_entryLine_plain ⟨hkey.isKey, hplain.isValue⟩
    ⟨hkey.noEquals, hplain.noEquals, hplain.head, hplain.trim⟩

/-- The fields of a task that fits are read back. -/
theorem ofData_of_store {info : Info} (h : info.Fits) {data read : ConfigData}
    (hread : ∀ key : Bytes, read[key]? = (info.store data)[key]?) : Info.ofData read = info := by
  have hvalue (key : Bytes) {value : Bytes} (hlast : lastValue info.params key = some value) :
      valueOf read key = value := by
    rw [valueOf, hread, Info.store, getElem?_foldl_insert, hlast]
    rfl
  have hcleaning : (flag info.cleaning == ascii "1") = info.cleaning := by
    cases info.cleaning <;> rfl
  have hinteractive : (atoi (flag info.interactive) != 0) = info.interactive := by
    cases info.interactive <;> decide +kernel
  rw [Info.ofData, hvalue (ascii "MAXTIME") rfl, hvalue (ascii "MAXFILESIZE") rfl,
    hvalue (ascii "MAXMEMORY") rfl, hvalue (ascii "MAXPROCESSES") rfl,
    hvalue (ascii "ADMINTICKET") rfl, hvalue (ascii "EXECUTIONTICKET") rfl,
    hvalue (ascii "MONITORTICKET") rfl, hvalue (ascii "HTTPPASSTHROUGHTTICKET") rfl,
    hvalue addressKey rfl, hvalue (ascii "CLEANING") rfl, hvalue (ascii "STARTTIME") rfl,
    hvalue (ascii "INTERACTIVE") rfl, hvalue (ascii "LANG") rfl,
    hvalue (ascii "COMPILER_PID") rfl, hvalue (ascii "RUNNER_PID") rfl,
    hvalue (ascii "MONITOR_PID") rfl, hcleaning, hinteractive,
    atoi_itos h.maxtime.1 h.maxtime.2, atoi_itos h.maxprocesses.1 h.maxprocesses.2,
    atoi_itos h.startTime.1 h.startTime.2, atoi_itos h.compilerPid.1 h.compilerPid.2,
    atoi_itos h.runnerPid.1 h.runnerPid.2, atoi_itos h.monitorPid.1 h.monitorPid.2, atoll, atoll,
    strtol_itos h.maxfilesize.1 h.maxfilesize.2, strtol_itos h.maxmemory.1 h.maxmemory.2]

/-- A task that fits survives over plain entries. -/
theorem survives_store {info : Info} (h : info.Fits) {data : ConfigData} (hdata : IsPlainData data) :
    Survives (info.store data) := by
  obtain ⟨read, hread, hback⟩ := (hdata.store h).exists_read
  refine ⟨read, hread, hback, fun key => ?_⟩
  rw [ofData_of_store h hback, hback, Info.store, Info.store, getElem?_foldl_insert,
    getElem?_foldl_insert, hback, Info.store, getElem?_foldl_insert]
  cases lastValue info.params key <;> rfl

/-- A task that fits is read as it was stored. -/
theorem readInfo_serialize_store {info : Info} (h : info.Fits) {data : ConfigData}
    (hdata : IsPlainData data) : readInfo (some (serialize (info.store data))) =
      if info.cleaning then .cleaning info else .ok info := by
  obtain ⟨read, hread, hback⟩ := (hdata.store h).exists_read
  rw [readInfo, readTask, Option.bind_some, hread]
  dsimp only
  rw [ofData_of_store h hback]

/-! ## A task of prisoner 10001 -/

/-- A task that has been created. -/
def createdTask : Info where
  maxtime := 0
  maxfilesize := 0
  maxmemory := 0
  maxprocesses := 0
  adminticket := ascii "11"
  executionticket := ascii "13"
  monitorticket := ascii "12"
  httpPassthroughticket := []
  localwebserver := []
  cleaning := false
  startTime := 1000
  interactive := false
  lang := []
  compilerPid := 0
  runnerPid := 0
  monitorPid := 0

theorem fits_createdTask : createdTask.Fits where
  maxtime := by decide
  maxfilesize := by decide
  maxmemory := by decide
  maxprocesses := by decide
  adminticket := isPlainValue_of_word (by decide +kernel)
  executionticket := isPlainValue_of_word (by decide +kernel)
  monitorticket := isPlainValue_of_word (by decide +kernel)
  httpPassthroughticket := isPlainValue_of_word (by decide +kernel)
  localwebserver := isPlainValue_of_word (by decide +kernel)
  startTime := by decide
  lang := isPlainValue_of_word (by decide +kernel)
  compilerPid := by decide
  runnerPid := by decide
  monitorPid := by decide

/-- The files of the created task of prisoner 10001. -/
def createdFiles : Files := fun path =>
  if path = processConfigFile .default 10001 then some (serialize (createdTask.store ∅)) else none

end VplJail.Task
