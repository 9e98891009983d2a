import VplJail.Task.Info

/-!
# The address of the local web server

`getLocalWebServer` stores the content of a file that the prisoner writes as the value of
`LOCALWEBSERVER`. The value is written as it is, so its lines become lines of the configuration.
`sameButAddress_iff_harmless` says for which contents the other entries stay what they were.
-/

namespace VplJail.Task

open ConfigurationFile

/-! ## `getLocalWebServer` -/

/-- The configuration file after `getLocalWebServer`, where `file` is the content of
`.vpl_localserveraddress` if it exists, and the string returned unless an exception was thrown. -/
def getLocalWebServer (config : Option Bytes) (file : Option Bytes) :
    Option Bytes × Option Bytes :=
  match readInfo config with
  | .failed => (config, none)
  | .cleaning _ => (config, none)
  | .ok info =>
      if info.localwebserver = [] then
        match file with
        | none => (config, some info.localwebserver)
        | some content =>
            match writeInfo config { info with localwebserver := content } ∅ with
            | none => (config, none)
            | some config => (some config, some content)
      else (config, some info.localwebserver)

/-! ## What should not depend on the prisoner -/

/-- The task with the prisoner's own field blank. -/
def Info.eraseAddress (info : Info) : Info :=
  { info with localwebserver := [] }

/-- A later `readInfo` with the prisoner's own field blank. -/
def ReadInfo.eraseAddress : ReadInfo → ReadInfo
  | failed => failed
  | cleaning info => cleaning info.eraseAddress
  | ok info => ok info.eraseAddress

/-- Two configurations with the same entries but the address. -/
def AgreeOffAddress (data data' : ConfigData) : Prop :=
  ∀ key, key ≠ addressKey → data[key]? = data'[key]?

/-- Two configuration files that are read alike but for the address, by `readConfiguration` and by
`readInfo`. -/
def SameButAddress (config config' : Option Bytes) : Prop :=
  Option.Rel AgreeOffAddress (readTask config) (readTask config') ∧
    (readInfo config).eraseAddress = (readInfo config').eraseAddress

/-! ## The lines of a content -/

/-- The parameters of the lines that a content is written as, unless one is incorrect. -/
def contentParams (content : Bytes) : Option (List (Bytes × Bytes)) :=
  assignments (lines (entryLine (addressKey, content) ++ [10]))

/-- The entries of the task as they stand in the file `config`, with an empty address. -/
def storedEntries (config : Option Bytes) (info : Info) : ConfigData :=
  info.eraseAddress.store ((readTask config).getD ∅)

/-- The parameters of the lines written in front of the address. -/
def paramsBefore (config : Option Bytes) (info : Info) : List (Bytes × Bytes) :=
  (assignments ((entriesBefore (storedEntries config info) addressKey).map entryLine)).getD []

/-- The parameters of the lines written behind the address. -/
def paramsBehind (config : Option Bytes) (info : Info) : List (Bytes × Bytes) :=
  (assignments ((entriesBehind (storedEntries config info) addressKey).map entryLine)).getD []

/-- Neither or both of the contents have an incorrect line, and every key but the address that the
lines behind do not set again ends up with the same value: the last one in the content, or else the
one in front. -/
def HarmlessLines (config : Option Bytes) (info : Info) (content content' : Bytes) : Prop :=
  Option.Rel
    (fun ps ps' => ∀ key, key ≠ addressKey → lastValue (paramsBehind config info) key = none →
      (lastValue ps key).or (lastValue (paramsBefore config info) key) =
        (lastValue ps' key).or (lastValue (paramsBefore config info) key))
    (contentParams content) (contentParams content')

/-- The contents do no harm: nothing is stored, or their lines set nothing else. -/
def Harmless (config : Option Bytes) (content content' : Bytes) : Prop :=
  ∀ info, readInfo config = .ok info → info.localwebserver = [] →
    HarmlessLines config info content content'

/-! ## The stored file -/

section Stored

variable {config : Option Bytes} {info : Info} {data : ConfigData}

/-- A task stored with an address differs from one without in that entry alone. -/
theorem getElem?_store_address (info : Info) (data : ConfigData) (content key : Bytes) :
    ({ info with localwebserver := content }.store data)[key]? =
      if key = addressKey then some content else (info.eraseAddress.store data)[key]? := by
  have hparams (content : Bytes) : { info with localwebserver := content }.params =
      info.params.take 8 ++ ([(addressKey, content)] ++ info.params.drop 9) := rfl
  have hback : lastValue (info.params.drop 9) addressKey = none := rfl
  have hone (content : Bytes) : lastValue [(addressKey, content)] key =
      if key = addressKey then some content else none := by
    by_cases h : key = addressKey
    · simp [lastValue, h]
    · simp [lastValue, h, Ne.symm h]
  rw [Info.eraseAddress, Info.store, Info.store, getElem?_foldl_insert, getElem?_foldl_insert,
    hparams content, hparams [], lastValue_append, lastValue_append, lastValue_append,
    lastValue_append, hone, hone]
  by_cases h : key = addressKey
  · simp [h, hback]
  · simp [h]

/-- The entries around the address. -/
theorem entries_store_address (info : Info) (data : ConfigData) (content : Bytes) :
    entriesBefore ({ info with localwebserver := content }.store data) addressKey =
        entriesBefore (info.eraseAddress.store data) addressKey ∧
      entriesBehind ({ info with localwebserver := content }.store data) addressKey =
        entriesBehind (info.eraseAddress.store data) addressKey :=
  entriesAround_congr fun key hkey => by rw [getElem?_store_address, if_neg hkey]

/-- Without I/O errors an address is stored once it is there and not yet known. -/
theorem getLocalWebServer_of_ok {content : Bytes} (h : readInfo config = .ok info)
    (haddress : info.localwebserver = []) (hdata : readTask config = some data) :
    (getLocalWebServer config (some content)).1 =
      some (serialize ({ info with localwebserver := content }.store data)) := by
  obtain ⟨text, data', rfl, hread, -⟩ := readTask_of_readInfo h
  obtain rfl : data' = data := by
    rw [readTask, Option.bind_some, hread] at hdata
    exact Option.some.inj hdata
  rw [getLocalWebServer, h]
  simp [haddress, writeInfo, hread]

theorem Info.Storable.eraseAddress {info : Info} (h : info.Storable) :
    info.eraseAddress.Storable where
  adminticket := h.adminticket
  executionticket := h.executionticket
  monitorticket := h.monitorticket
  httpPassthroughticket := h.httpPassthroughticket
  localwebserver := isValue_nil
  lang := h.lang

/-- What is read from the file that has been stored: the lines in front, those of the content, and
those behind. -/
theorem readTask_stored {content : Bytes} (h : readInfo config = .ok info)
    (haddress : info.localwebserver = []) :
    readTask (getLocalWebServer config (some content)).1 =
      (contentParams content).map fun ps =>
        (paramsBefore config info ++ (ps ++ paramsBehind config info)).foldl
          (fun d p => d.insert p.1 p.2) ∅ := by
  obtain ⟨text, data, rfl, hread, hinfo⟩ := readTask_of_readInfo h
  have hdata : readTask (some text) = some data := hread
  have hentries : storedEntries (some text) info = info.eraseAddress.store data := by
    rw [storedEntries, hdata, Option.getD_some]
  have hstorable := storable_readConfiguration hread
  have hstored : ConfigurationFile.Storable (info.eraseAddress.store data) :=
    Info.Storable.store (hinfo ▸ Info.storable_ofData hstorable).eraseAddress hstorable
  obtain ⟨hbefore, hbehind⟩ := entries_store_address info data content
  have haround (p : Bytes × Bytes)
      (hp : p ∈ entriesBefore (info.eraseAddress.store data) addressKey ∨
        p ∈ entriesBehind (info.eraseAddress.store data) addressKey) :
      IsEntry p := hstored _ _ (getElem?_of_mem_entriesAround hp).1
  have hvalue : ({ info with localwebserver := content }.store data)[addressKey]? = some content := by
    rw [getElem?_store_address, if_pos rfl]
  rw [getLocalWebServer_of_ok h haddress hdata, readTask, Option.bind_some,
    readConfiguration_empty, assignments_serialize hvalue
      (fun p hp => haround p (.inl (hbefore ▸ hp))) (fun p hp => haround p (.inr (hbehind ▸ hp))),
    hbefore, hbehind]
  obtain ⟨as, has⟩ := exists_assignments fun p hp => haround p (.inl hp)
  obtain ⟨bs, hbs⟩ := exists_assignments fun p hp => haround p (.inr hp)
  rw [assignments_append, assignments_append, has, hbs, paramsBefore, paramsBehind, hentries, has,
    hbs, contentParams]
  cases assignments (lines (entryLine (addressKey, content) ++ [10])) with
  | none => rfl
  | some ps => simp

end Stored

/-! ## What the prisoner can set -/

/-- Configurations that agree off the address give the same task but for the address. -/
theorem eraseAddress_ofData {data data' : ConfigData} (h : AgreeOffAddress data data') :
    (Info.ofData data).eraseAddress = (Info.ofData data').eraseAddress := by
  have hvalue (key : Bytes) (hkey : key ≠ addressKey) : valueOf data key = valueOf data' key := by
    rw [valueOf, valueOf, h key hkey]
  rw [Info.eraseAddress, Info.eraseAddress, Info.ofData, Info.ofData]
  simp only [hvalue _ (by decide : ascii "MAXTIME" ≠ addressKey),
    hvalue _ (by decide : ascii "MAXFILESIZE" ≠ addressKey),
    hvalue _ (by decide : ascii "MAXMEMORY" ≠ addressKey),
    hvalue _ (by decide : ascii "MAXPROCESSES" ≠ addressKey),
    hvalue _ (by decide : ascii "ADMINTICKET" ≠ addressKey),
    hvalue _ (by decide : ascii "EXECUTIONTICKET" ≠ addressKey),
    hvalue _ (by decide : ascii "MONITORTICKET" ≠ addressKey),
    hvalue _ (by decide : ascii "HTTPPASSTHROUGHTTICKET" ≠ addressKey),
    hvalue _ (by decide : ascii "CLEANING" ≠ addressKey),
    hvalue _ (by decide : ascii "STARTTIME" ≠ addressKey),
    hvalue _ (by decide : ascii "INTERACTIVE" ≠ addressKey),
    hvalue _ (by decide : ascii "LANG" ≠ addressKey),
    hvalue _ (by decide : ascii "COMPILER_PID" ≠ addressKey),
    hvalue _ (by decide : ascii "RUNNER_PID" ≠ addressKey),
    hvalue _ (by decide : ascii "MONITOR_PID" ≠ addressKey)]

/-- A later `readInfo` follows the configuration read. -/
theorem readInfo_eraseAddress {config config' : Option Bytes}
    (h : Option.Rel AgreeOffAddress (readTask config) (readTask config')) :
    (readInfo config).eraseAddress = (readInfo config').eraseAddress := by
  rw [readInfo, readInfo]
  generalize readTask config = r at h
  generalize readTask config' = r' at h
  cases h with
  | none => rfl
  | @some data data' h =>
      have heq := eraseAddress_ofData h
      have hcleaning : (Info.ofData data).eraseAddress.cleaning =
          (Info.ofData data').eraseAddress.cleaning := by rw [heq]
      change (Info.ofData data).cleaning = (Info.ofData data').cleaning at hcleaning
      dsimp only
      rw [hcleaning]
      split
      · exact congrArg ReadInfo.cleaning heq
      · exact congrArg ReadInfo.ok heq

/-- Nothing is stored unless the task is read, is not being cleaned and has no address. -/
theorem getLocalWebServer_eq_self {config : Option Bytes} (file : Option Bytes)
    (h : ∀ info, readInfo config = .ok info → info.localwebserver ≠ []) :
    (getLocalWebServer config file).1 = config := by
  rw [getLocalWebServer]
  cases hr : readInfo config with
  | failed => rfl
  | cleaning info => rfl
  | ok info => simp [h info hr]

/-- Related values under functions that carry a relation over. -/
theorem rel_map_iff {α β : Type*} {r : β → β → Prop} {s : α → α → Prop} {f : α → β}
    (h : ∀ a a', r (f a) (f a') ↔ s a a') (o o' : Option α) :
    Option.Rel r (o.map f) (o'.map f) ↔ Option.Rel s o o' := by
  cases o with
  | none =>
      cases o' with
      | none => exact iff_of_true .none .none
      | some a' => exact iff_of_false nofun nofun
  | some a =>
      cases o' with
      | none => exact iff_of_false nofun nofun
      | some a' => exact ⟨fun | .some hr => .some ((h a a').mp hr),
          fun | .some hs => .some ((h a a').mpr hs)⟩

theorem agreeOffAddress_refl (data : ConfigData) : AgreeOffAddress data data :=
  fun _ _ => rfl

/-- The content that a prisoner leaves changes no other entry of the task, now or in a later read,
exactly when its lines are harmless. -/
theorem sameButAddress_iff_harmless (config : Option Bytes) (content content' : Bytes) :
    SameButAddress (getLocalWebServer config (some content)).1
        (getLocalWebServer config (some content')).1 ↔
      Harmless config content content' := by
  have hinfo (c c' : Option Bytes) :
      SameButAddress c c' ↔ Option.Rel AgreeOffAddress (readTask c) (readTask c') :=
    ⟨And.left, fun h => ⟨h, readInfo_eraseAddress h⟩⟩
  rw [hinfo]
  by_cases hstored : ∃ info, readInfo config = .ok info ∧ info.localwebserver = []
  · obtain ⟨info, hread, haddress⟩ := hstored
    have hharmless : Harmless config content content' ↔
        HarmlessLines config info content content' := by
      constructor
      · exact fun h => h info hread haddress
      · intro h info' hread' _
        obtain rfl := ReadInfo.ok.inj (hread.symm.trans hread')
        exact h
    rw [hharmless, HarmlessLines, readTask_stored hread haddress, readTask_stored hread haddress]
    -- a key that the lines behind set again has the same value whatever the content
    have hrel (ps ps' : List (Bytes × Bytes)) :
        AgreeOffAddress
            ((paramsBefore config info ++ (ps ++ paramsBehind config info)).foldl
              (fun d p => d.insert p.1 p.2) ∅)
            ((paramsBefore config info ++ (ps' ++ paramsBehind config info)).foldl
              (fun d p => d.insert p.1 p.2) ∅) ↔
          ∀ key, key ≠ addressKey → lastValue (paramsBehind config info) key = none →
            (lastValue ps key).or (lastValue (paramsBefore config info) key) =
              (lastValue ps' key).or (lastValue (paramsBefore config info) key) := by
      refine forall_congr' fun key => imp_congr_right fun _ => ?_
      rw [getElem?_foldl_insert, getElem?_foldl_insert, lastValue_append, lastValue_append,
        lastValue_append, lastValue_append]
      cases lastValue (paramsBehind config info) key <;> simp
    exact rel_map_iff hrel _ _
  · have hnot : ∀ info, readInfo config = .ok info → info.localwebserver ≠ [] :=
      fun info hr ha => hstored ⟨info, hr, ha⟩
    rw [getLocalWebServer_eq_self _ hnot, getLocalWebServer_eq_self _ hnot]
    refine iff_of_true ?_ fun info hr ha => absurd ha (hnot info hr)
    cases readTask config with
    | none => exact .none
    | some data => exact .some (agreeOffAddress_refl data)

/-- A second line in the content replaces the admin ticket of a task that the code has written. -/
theorem content_sets_adminticket :
    let config := writeInfo none { Info.ofData ∅ with adminticket := ascii "17" } ∅
    ¬ SameButAddress (getLocalWebServer config (some (ascii "localhost:8080"))).1
      (getLocalWebServer config (some (ascii "localhost:8080\nADMINTICKET=9"))).1 :=
  fun h => absurd h.2 (by decide +kernel)

end VplJail.Task
