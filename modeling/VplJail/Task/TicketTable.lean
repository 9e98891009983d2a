import VplJail.Task.Lifecycle

/-!
# The table of tickets

The ticket files and the configurations make a table: every ticket file names a prisoner whose
configuration lists the ticket. What the sections of the tasks do to the files keeps it: a task is
stored or marked, a ticket is written or removed, and a control directory is removed once the tickets
of its task are.
-/

namespace VplJail.Task.Lifecycle

open CriticalSection ConfigurationFile Util

/-! ## Kinds of tickets -/

/-- The level of a ticket. -/
def Kind.level : Kind → SecurityLevel
  | admin => .admin
  | monitor => .monitor
  | execution => .execute
  | httpPassthrough => .httppassthrough

/-- The key of a ticket in the configuration of its task. -/
def Kind.key : Kind → Bytes
  | admin => ascii "ADMINTICKET"
  | monitor => ascii "MONITORTICKET"
  | execution => ascii "EXECUTIONTICKET"
  | httpPassthrough => ascii "HTTPPASSTHROUGHTTICKET"

/-- The field of a ticket. -/
def Kind.field (info : Info) : Kind → Bytes
  | admin => info.adminticket
  | monitor => info.monitorticket
  | execution => info.executionticket
  | httpPassthrough => info.httpPassthroughticket

section Kinds

variable {kind : Kind} {info : Info} {data : ConfigData}

theorem field_ofData (data : ConfigData) (kind : Kind) :
    kind.field (Info.ofData data) = valueOf data kind.key := by
  cases kind <;> rfl

/-- The tickets of a task that is stored are its fields. -/
theorem valueOf_store (info : Info) (data : ConfigData) (kind : Kind) :
    valueOf (info.store data) kind.key = kind.field info := by
  rw [valueOf, Info.store, getElem?_foldl_insert]
  cases kind <;> rfl

theorem valueOf_mem_ticketsOf (data : ConfigData) (kind : Kind) :
    valueOf data kind.key ∈ ticketsOf data := by
  cases kind <;> simp [ticketsOf, Kind.key]

theorem exists_kind_of_mem_tickets {ticket : Bytes} (h : ticket ∈ info.tickets) :
    ∃ kind : Kind, ticket = kind.field info := by
  simp only [Info.tickets, List.mem_cons, List.not_mem_nil, or_false] at h
  rcases h with rfl | rfl | rfl | rfl
  · exact ⟨.admin, rfl⟩
  · exact ⟨.execution, rfl⟩
  · exact ⟨.monitor, rfl⟩
  · exact ⟨.httpPassthrough, rfl⟩

theorem exists_kind_of_mem_ticketsOf {ticket : Bytes} (h : ticket ∈ ticketsOf data) :
    ∃ kind : Kind, ticket = valueOf data kind.key := by
  simp only [ticketsOf, List.mem_cons, List.not_mem_nil, or_false] at h
  rcases h with rfl | rfl | rfl | rfl
  · exact ⟨.admin, rfl⟩
  · exact ⟨.execution, rfl⟩
  · exact ⟨.monitor, rfl⟩
  · exact ⟨.httpPassthrough, rfl⟩

/-- The mark of the end is no ticket. -/
theorem valueOf_insert_cleaning (data : ConfigData) (kind : Kind) :
    valueOf (data.insert (ascii "CLEANING") (ascii "1")) kind.key = valueOf data kind.key := by
  have hne : compare (ascii "CLEANING") kind.key ≠ .eq := by
    cases kind <;> decide +kernel
  rw [valueOf, valueOf, Std.TreeMap.getElem?_insert, if_neg hne]

end Kinds

/-! ## Tasks that are read back -/

/-- A task whose strings are plain, and whose tickets name no file in another directory. -/
structure PlainInfo (info : Info) : Prop where
  tickets : ∀ kind : Kind, IsPlainValue (kind.field info) ∧ (47 : UInt8) ∉ kind.field info
  localwebserver : IsPlainValue info.localwebserver
  lang : IsPlainValue info.lang

/-- A configuration with such a task. -/
structure PlainTask (data : ConfigData) : Prop where
  plain : IsPlainData data
  tickets : ∀ kind : Kind, (47 : UInt8) ∉ valueOf data kind.key

section Plain

variable {info : Info} {data read : ConfigData}

theorem PlainTask.congr (h : PlainTask data) (hread : ∀ key : Bytes, read[key]? = data[key]?) :
    PlainTask read := by
  refine ⟨fun key value hvalue => h.plain key value (hread key ▸ hvalue), fun kind => ?_⟩
  rw [valueOf, hread]
  exact h.tickets kind

theorem plainTask_empty : PlainTask ∅ :=
  ⟨isPlainData_empty, fun kind => by simp [valueOf]⟩

/-- A value of a plain configuration is plain. -/
theorem isPlainValue_valueOf (h : IsPlainData data) (key : Bytes) :
    IsPlainValue (valueOf data key) := by
  rw [valueOf]
  cases hvalue : data[key]? with
  | none => exact isPlainValue_of_word fun _ hb => absurd hb List.not_mem_nil
  | some value => exact (h key value hvalue).2

/-- The task of such a configuration. -/
theorem PlainTask.ofData (h : PlainTask data) : PlainInfo (Info.ofData data) := by
  refine ⟨fun kind => ?_, isPlainValue_valueOf h.plain _, isPlainValue_valueOf h.plain _⟩
  rw [field_ofData]
  exact ⟨isPlainValue_valueOf h.plain _, h.tickets kind⟩

/-- The task with other fields and the same tickets. -/
theorem PlainInfo.of_tickets (h : PlainInfo info) {info' : Info}
    (htickets : ∀ kind : Kind, kind.field info' = kind.field info)
    (hserver : IsPlainValue info'.localwebserver) (hlang : IsPlainValue info'.lang) :
    PlainInfo info' :=
  ⟨fun kind => by rw [htickets]; exact h.tickets kind, hserver, hlang⟩

/-- The values of such a task are plain. -/
theorem PlainInfo.isPlainValue (h : PlainInfo info) {p : Bytes × Bytes} (hp : p ∈ info.params) :
    IsPlainValue p.2 :=
  isPlainValue_of_mem_params (h.tickets .admin).1 (h.tickets .execution).1 (h.tickets .monitor).1
    (h.tickets .httpPassthrough).1 h.localwebserver h.lang hp

/-- Such a task is stored over plain entries. -/
theorem PlainTask.store (h : PlainTask data) (hinfo : PlainInfo info) :
    PlainTask (info.store data) := by
  refine ⟨h.plain.store_of_params fun _ => hinfo.isPlainValue, fun kind => ?_⟩
  rw [valueOf_store]
  exact (hinfo.tickets kind).2

/-- What is stored is read back. -/
theorem PlainTask.exists_readTask (h : PlainTask data) :
    ∃ read, readTask (some (serialize data)) = some read ∧ PlainTask read ∧
      ∀ key, valueOf read key = valueOf data key := by
  obtain ⟨read, hread, hback⟩ := h.plain.exists_read
  refine ⟨read, hread, h.congr hback, fun key => ?_⟩
  rw [valueOf, hback]
  rfl

/-- A task is stored over what is read. -/
theorem writeInfo_of_readTask {config : Option Bytes} (h : readTask config = some data)
    (info : Info) : writeInfo config info ∅ = some (serialize (info.store data)) := by
  obtain ⟨content, rfl, hdata⟩ := Option.bind_eq_some_iff.mp h
  exact congrArg (Option.map fun data => serialize (info.store data)) hdata

/-- The mark of the end leaves a plain configuration. -/
theorem PlainTask.insert_cleaning (h : PlainTask data) :
    PlainTask (data.insert (ascii "CLEANING") (ascii "1")) := by
  refine ⟨fun key value hvalue => ?_, fun kind => ?_⟩
  · rw [Std.TreeMap.getElem?_insert] at hvalue
    split at hvalue
    · rename_i hkey
      obtain rfl := Std.LawfulEqCmp.compare_eq_iff_eq.mp hkey
      obtain rfl := Option.some.inj hvalue
      exact ⟨⟨isKey_of_isWord (by decide +kernel), by decide⟩, isPlainValue_flag true⟩
    · exact h.plain key value hvalue
  · rw [valueOf_insert_cleaning]
    exact h.tickets kind

end Plain

/-! ## Ticket files -/

/-- The entries of a ticket. -/
def ticketData (uid : ℕ) (kind : Kind) : ConfigData :=
  (Std.TreeMap.insert ∅ (ascii "USER_ID") (itos uid)).insert (ascii "SECURITY") kind.code

theorem isPlainData_ticketData (uid : ℕ) (kind : Kind) : IsPlainData (ticketData uid kind) := by
  have hcode : IsPlainValue kind.code := by
    cases kind <;> exact isPlainValue_of_word (by decide +kernel)
  have hsecurity : IsPlainKey (ascii "SECURITY") :=
    ⟨isKey_of_isWord (by decide +kernel), by decide⟩
  have huser : IsPlainKey (ascii "USER_ID") := ⟨isKey_of_isWord (by decide +kernel), by decide⟩
  intro key value hvalue
  rw [ticketData, Std.TreeMap.getElem?_insert, Std.TreeMap.getElem?_insert] at hvalue
  split at hvalue
  · rename_i hkey
    obtain rfl := Std.LawfulEqCmp.compare_eq_iff_eq.mp hkey
    exact ⟨hsecurity, Option.some.inj hvalue ▸ hcode⟩
  · split at hvalue
    · rename_i hkey
      obtain rfl := Std.LawfulEqCmp.compare_eq_iff_eq.mp hkey
      exact ⟨huser, Option.some.inj hvalue ▸ isPlainValue_itos uid⟩
    · simp at hvalue

/-- The file of a ticket is read as it was written. -/
theorem readTicket_ticketContent {cfg : Configuration} {uid : ℕ}
    (huid : cfg.isPrisonerUID uid = true) (kind : Kind) :
    readTicket cfg (some (Locked.ticketContent uid kind.code)) = .ok (uid, kind.level) := by
  have hcontent : Locked.ticketContent uid kind.code = serialize (ticketData uid kind) := rfl
  obtain ⟨read, hread, hback⟩ := (isPlainData_ticketData uid kind).exists_read
  have huser : valueOf (addDefaults read ticketDefaults) (ascii "USER_ID") = itos uid := by
    have hne : compare (ascii "SECURITY") (ascii "USER_ID") ≠ .eq := by decide +kernel
    have hvalue : read[ascii "USER_ID"]? = some (itos uid) := by
      rw [hback, ticketData, Std.TreeMap.getElem?_insert, if_neg hne,
        Std.TreeMap.getElem?_insert_self]
    rw [valueOf, getElem?_addDefaults hvalue, Option.getD_some]
  have hsecurity : valueOf (addDefaults read ticketDefaults) (ascii "SECURITY") = kind.code := by
    have hvalue : read[ascii "SECURITY"]? = some kind.code := by
      rw [hback, ticketData, Std.TreeMap.getElem?_insert_self]
    rw [valueOf, getElem?_addDefaults hvalue, Option.getD_some]
  have hlt : uid < 2 ^ 31 ∧ uid ≠ 0 := by
    have hmin := cfg.minPrisoner_ge
    have hmax := cfg.maxPrisoner_le
    unfold maxPrisonerUid at hmax
    rw [Configuration.isPrisonerUID, Bool.and_eq_true, decide_eq_true_eq, decide_eq_true_eq,
      Configuration.firstPrisoner] at huid
    omega
  have hatoi : atoi (itos uid) = uid := atoi_itos (by omega) (by omega)
  have hzero : itos uid ≠ ascii "0" := by
    intro h
    rw [h] at hatoi
    have : atoi (ascii "0") = 0 := by decide +kernel
    omega
  have hfive : kind.code ≠ ascii "5" := by cases kind <;> decide +kernel
  have hlevel : SecurityLevel.ofInt (atoi kind.code) = kind.level := by
    cases kind <;> decide +kernel
  rw [readTicket, Option.bind_some, hcontent, readConfiguration_of_empty hread]
  dsimp only
  rw [ticketOfData, huser, hsecurity, if_neg (not_or.mpr ⟨hzero, hfive⟩), hatoi, hlevel,
    (setPrisonerID_eq_ok (by omega)).mpr huid]
  rfl

/-! ## Paths -/

section Paths

variable {cfg : Configuration} {uid uid' : ℕ} {name : Bytes}

theorem slash_notMem_itos (uid : ℕ) : (47 : UInt8) ∉ itos uid := by
  intro h
  rcases mem_itos h with h | h
  · cases h
  · exact absurd h (by decide)

theorem configFile_eq (cfg : Configuration) (uid : ℕ) :
    processConfigFile cfg uid =
      cfg.controlPath ++ ascii "/" ++ (112 :: (itos uid ++ 47 :: ascii "config")) := by
  rw [processConfigFile, processControlPath, List.append_assoc _ (ascii "p" ++ itos uid),
    List.append_assoc (ascii "p")]
  rfl

/-- The configuration is in the control directory of its own prisoner. -/
theorem eq_of_isPrefixOf_configFile
    (h : (processControlPath cfg uid ++ ascii "/").isPrefixOf (processConfigFile cfg uid') = true) :
    uid = uid' := by
  rw [List.isPrefixOf_iff_prefix, configFile_eq] at h
  obtain ⟨rest, hrest⟩ := h
  have hdir : processControlPath cfg uid ++ ascii "/" ++ rest =
      cfg.controlPath ++ ascii "/" ++ (112 :: (itos uid ++ 47 :: rest)) := by
    rw [processControlPath, List.append_assoc, List.append_assoc _ (ascii "p" ++ itos uid),
      List.append_assoc (ascii "p")]
    rfl
  rw [hdir] at hrest
  have htail := (List.cons.inj (List.append_cancel_left hrest)).2
  have hconfig : (47 : UInt8) ∉ ascii "config" := by decide
  obtain ⟨heq, -, -⟩ :=
    (List.append_cons_inj_of_notMem (slash_notMem_itos uid') hconfig).mp htail.symm
  exact Nat.cast_injective (itos_injective heq.symm)

theorem configFile_injective (h : processConfigFile cfg uid = processConfigFile cfg uid') :
    uid = uid' := by
  refine @eq_of_isPrefixOf_configFile cfg uid uid' ?_
  rw [← h, List.isPrefixOf_iff_prefix, processConfigFile]
  exact ⟨ascii "config", by rw [List.append_assoc]; rfl⟩

/-- A name of a file, which is none in another directory. -/
structure IsName (name : Bytes) : Prop where
  ne_nil : name ≠ []
  slash : (47 : UInt8) ∉ name

/-- A string of digits is a name. -/
theorem isName_of_digits (hne : name ≠ []) (hdigits : ∀ b ∈ name, isDigit b = true) :
    IsName name :=
  ⟨hne, fun h => absurd (hdigits 47 h) (by decide)⟩

/-- A name without `/` is not that of a file in the control directory of a prisoner. -/
theorem ticketPath_ne_inside (h : (47 : UInt8) ∉ name) (uid : ℕ) (rest : Bytes) :
    ticketPath cfg name ≠ processControlPath cfg uid ++ 47 :: rest := by
  rw [ticketPath, processControlPath, List.append_assoc (cfg.controlPath ++ ascii "/")]
  intro heq
  refine h ?_
  rw [List.append_cancel_left heq]
  simp

theorem ticketPath_ne_config (h : (47 : UInt8) ∉ name) (uid : ℕ) :
    ticketPath cfg name ≠ processConfigFile cfg uid :=
  ticketPath_ne_inside h uid (ascii "config")

/-- Neither is what the system sees of it. -/
theorem ticketPath_ne_of_notMem (h : (47 : UInt8) ∉ name) (uid : ℕ) :
    cstr (ticketPath cfg name) ≠ processConfigFile cfg uid := by
  rw [cstr_ticketPath]
  exact ticketPath_ne_config (fun hslash => h (List.takeWhile_subset _ hslash)) uid

theorem ticketPath_injective {ticket ticket' : Bytes}
    (h : ticketPath cfg ticket = ticketPath cfg ticket') : ticket = ticket' :=
  List.append_cancel_left h

end Paths

/-! ## The table -/

/-- The file of a ticket names a prisoner whose configuration lists the ticket in the field of its
level. -/
def IsListed (cfg : Configuration) (files : Files) (ticket content : Bytes) : Prop :=
  ∃ uid kind data, readTicket cfg (some content) = .ok (uid, Kind.level kind) ∧
    readTask (files (processConfigFile cfg uid)) = some data ∧ valueOf data kind.key = ticket

/-- Every ticket file is listed. -/
def TicketsListed (cfg : Configuration) (files : Files) : Prop :=
  ∀ ticket content : Bytes, IsName ticket → files (ticketPath cfg ticket) = some content →
    IsListed cfg files ticket content

/-- No ticket file gets another content. -/
def NotOverwritten (cfg : Configuration) (files files' : Files) : Prop :=
  ∀ ticket content : Bytes, IsName ticket → files (ticketPath cfg ticket) = some content →
    files' (ticketPath cfg ticket) = some content ∨ files' (ticketPath cfg ticket) = none

/-- Every configuration is plain and in a control directory, and every ticket file is listed and can
be removed. -/
structure Table (cfg : Configuration) (control : ℕ → Bool) (files : Files) : Prop where
  config : ∀ uid content, files (processConfigFile cfg uid) = some content → control uid = true ∧
    ∃ data, readTask (some content) = some data ∧ PlainTask data
  tickets : TicketsListed cfg files
  paths : ∀ ticket content : Bytes, IsName ticket →
    files (ticketPath cfg ticket) = some content → correctPath (ticketPath cfg ticket) = true

/-- Some files get other contents, which are a table again: no configuration appears, and no ticket is
overwritten. -/
structure Keeps (cfg : Configuration) (control : ℕ → Bool) (files files' : Files) : Prop where
  table : Table cfg control files'
  config : ∀ uid, files (processConfigFile cfg uid) = none →
    files' (processConfigFile cfg uid) = none
  tickets : NotOverwritten cfg files files'

section Table

variable {cfg : Configuration} {control : ℕ → Bool} {files files₁ : Files} {uid : ℕ}
  {data : ConfigData}

/-- A task that is read is plain, and it has a control directory. -/
theorem Table.of_readTask (h : Table cfg control files)
    (hread : readTask (files (processConfigFile cfg uid)) = some data) :
    control uid = true ∧ PlainTask data := by
  cases hconfig : files (processConfigFile cfg uid) with
  | none =>
    rw [hconfig] at hread
    cases hread
  | some content =>
    obtain ⟨hcontrol, data', hread', hdata'⟩ := h.config uid content hconfig
    rw [hconfig, hread'] at hread
    exact ⟨hcontrol, Option.some.inj hread ▸ hdata'⟩

/-- Control directories may be made. -/
theorem Table.mono (h : Table cfg control files) {control' : ℕ → Bool}
    (hmono : ∀ uid, control uid = true → control' uid = true) : Table cfg control' files :=
  ⟨fun uid content hcontent =>
    let ⟨hdir, htask⟩ := h.config uid content hcontent
    ⟨hmono uid hdir, htask⟩, h.tickets, h.paths⟩

/-- A configuration is stored that lists the tickets of the one before it, if there is one. -/
theorem Table.store (h : Table cfg control files) {new : ConfigData} (hcontrol : control uid = true)
    (hnew : PlainTask new)
    (hkeeps : ∀ data, readTask (files (processConfigFile cfg uid)) = some data → ∀ kind : Kind,
      valueOf data kind.key ≠ [] → valueOf new kind.key = valueOf data kind.key) :
    Table cfg control
      (Function.update files (processConfigFile cfg uid) (some (serialize new))) := by
  obtain ⟨read, hread, hplain, hback⟩ := hnew.exists_readTask
  have hticket {ticket : Bytes} (hname : IsName ticket) :
      Function.update files (processConfigFile cfg uid) (some (serialize new))
        (ticketPath cfg ticket) = files (ticketPath cfg ticket) :=
    Function.update_of_ne (ticketPath_ne_config hname.slash uid) _ _
  refine ⟨fun uid' content hcontent => ?_, fun ticket content hname hcontent => ?_,
    fun ticket content hname hcontent =>
      h.paths ticket content hname (hticket hname ▸ hcontent)⟩
  · by_cases huid : uid' = uid
    · rw [huid, Function.update_self] at hcontent
      obtain rfl := Option.some.inj hcontent
      exact ⟨huid ▸ hcontrol, read, hread, hplain⟩
    · rw [Function.update_of_ne fun heq => huid (configFile_injective heq)] at hcontent
      exact h.config uid' content hcontent
  · rw [hticket hname] at hcontent
    obtain ⟨uid', kind, data, hlevel, hdata, hvalue⟩ := h.tickets ticket content hname hcontent
    by_cases huid : uid' = uid
    · subst huid
      refine ⟨uid', kind, read, hlevel, ?_, ?_⟩
      · rw [Function.update_self, hread]
      · rw [hback, hkeeps data hdata kind (hvalue ▸ hname.ne_nil), hvalue]
    · refine ⟨uid', kind, data, hlevel, ?_, hvalue⟩
      rw [Function.update_of_ne fun heq => huid (configFile_injective heq), hdata]

/-- A ticket is written that is listed. -/
theorem Table.put (h : Table cfg control files) (huid : cfg.isPrisonerUID uid = true)
    (hread : readTask (files (processConfigFile cfg uid)) = some data) {kind : Kind}
    {ticket : Bytes} (hname : IsName ticket) (hvalue : valueOf data kind.key = ticket)
    (hpath : correctPath (ticketPath cfg ticket) = true) :
    Table cfg control (Function.update files (ticketPath cfg ticket)
      (some (Locked.ticketContent uid kind.code))) := by
  have hconfig (uid' : ℕ) : Function.update files (ticketPath cfg ticket)
      (some (Locked.ticketContent uid kind.code)) (processConfigFile cfg uid') =
        files (processConfigFile cfg uid') :=
    Function.update_of_ne (ticketPath_ne_config hname.slash uid').symm _ _
  refine ⟨fun uid' content hcontent => h.config uid' content (hconfig uid' ▸ hcontent),
    fun ticket' content hname' hcontent => ?_, fun ticket' content hname' hcontent => ?_⟩
  · by_cases heq : ticketPath cfg ticket' = ticketPath cfg ticket
    · rw [heq, Function.update_self] at hcontent
      obtain rfl := Option.some.inj hcontent
      refine ⟨uid, kind, data, readTicket_ticketContent huid kind, ?_, ?_⟩
      · rw [hconfig, hread]
      · rw [hvalue, ticketPath_injective heq]
    · rw [Function.update_of_ne heq] at hcontent
      obtain ⟨uid', kind', data', hlevel, hdata', hvalue'⟩ :=
        h.tickets ticket' content hname' hcontent
      exact ⟨uid', kind', data', hlevel, by rw [hconfig, hdata'], hvalue'⟩
  · by_cases heq : ticketPath cfg ticket' = ticketPath cfg ticket
    · rw [heq, hpath]
    · rw [Function.update_of_ne heq] at hcontent
      exact h.paths ticket' content hname' hcontent

theorem Table.keeps (h : Table cfg control files) : Keeps cfg control files files :=
  ⟨h, fun _ hnone => hnone, fun _ _ _ => .inl⟩

/-- Files other than the configurations go. -/
theorem Keeps.of_removed (h : Keeps cfg control files files₁) {files' : Files}
    (hconfig : ∀ uid, files' (processConfigFile cfg uid) = files₁ (processConfigFile cfg uid))
    (hother : ∀ path, files' path = files₁ path ∨ files' path = none) :
    Keeps cfg control files files' := by
  have hstays {path content : Bytes} (hcontent : files' path = some content) :
      files₁ path = some content := by
    rcases hother path with heq | hnone
    · exact heq.symm.trans hcontent
    · cases hnone.symm.trans hcontent
  refine ⟨⟨fun uid content hcontent => h.table.config uid content (hstays hcontent),
    fun ticket content hname hcontent => ?_, fun ticket content hname hcontent =>
      h.table.paths ticket content hname (hstays hcontent)⟩,
    fun uid hnone => by rw [hconfig, h.config uid hnone], fun ticket content hname hcontent => ?_⟩
  · obtain ⟨uid, kind, data, hticket, hread, hvalue⟩ :=
      h.table.tickets ticket content hname (hstays hcontent)
    exact ⟨uid, kind, data, hticket, by rw [hconfig, hread], hvalue⟩
  · rcases hother (ticketPath cfg ticket) with heq | hnone
    · rw [heq]
      exact h.tickets ticket content hname hcontent
    · exact .inr hnone

/-- A configuration is stored that lists the tickets of the one that was read. -/
theorem Keeps.store (h : Keeps cfg control files files₁)
    (hread : readTask (files₁ (processConfigFile cfg uid)) = some data) {new : ConfigData}
    (hnew : PlainTask new) (hvalues : ∀ kind : Kind, valueOf data kind.key ≠ [] →
      valueOf new kind.key = valueOf data kind.key) :
    Keeps cfg control files
      (Function.update files₁ (processConfigFile cfg uid) (some (serialize new))) := by
  refine ⟨h.table.store (h.table.of_readTask hread).1 hnew fun data' hdata' kind => ?_,
    fun uid' hnone => ?_, fun ticket content hname hcontent => ?_⟩
  · obtain rfl := Option.some.inj (hread.symm.trans hdata')
    exact hvalues kind
  · have hnone' := h.config uid' hnone
    by_cases huid : uid' = uid
    · rw [← huid, hnone'] at hread
      cases hread
    · rw [Function.update_of_ne fun heq => huid (configFile_injective heq), hnone']
  · rw [Function.update_of_ne (ticketPath_ne_config hname.slash uid)]
    exact h.tickets ticket content hname hcontent

/-- So is a task with these tickets. -/
theorem Keeps.storeInfo (h : Keeps cfg control files files₁)
    (hread : readTask (files₁ (processConfigFile cfg uid)) = some data) {info : Info}
    (hinfo : PlainInfo info) (htickets : ∀ kind : Kind, kind.field (Info.ofData data) ≠ [] →
      kind.field info = kind.field (Info.ofData data)) :
    Keeps cfg control files (Function.update files₁ (processConfigFile cfg uid)
      (some (serialize (info.store data)))) :=
  h.store hread ((h.table.of_readTask hread).2.store hinfo) fun kind => by
    rw [valueOf_store, ← field_ofData]
    exact htickets kind

/-- A listed ticket is written that names no file. -/
theorem Keeps.put (h : Keeps cfg control files files₁) (huid : cfg.isPrisonerUID uid = true)
    (hread : readTask (files₁ (processConfigFile cfg uid)) = some data) {kind : Kind}
    {ticket : Bytes} (hname : IsName ticket) (hvalue : valueOf data kind.key = ticket)
    (hpath : correctPath (ticketPath cfg ticket) = true)
    (hfresh : files (ticketPath cfg ticket) = none) :
    Keeps cfg control files (Function.update files₁ (ticketPath cfg ticket)
      (some (Locked.ticketContent uid kind.code))) := by
  refine ⟨h.table.put huid hread hname hvalue hpath, fun uid' hnone => ?_,
    fun ticket' content hname' hcontent => ?_⟩
  · rw [Function.update_of_ne (ticketPath_ne_config hname.slash uid').symm, h.config uid' hnone]
  · by_cases heq : ticketPath cfg ticket' = ticketPath cfg ticket
    · rw [heq, hfresh] at hcontent
      cases hcontent
    · rw [Function.update_of_ne heq]
      exact h.tickets ticket' content hname' hcontent

/-- The removal of tickets leaves what is not named. -/
theorem removeTickets_of_ne {tickets : List Bytes} {path : Bytes}
    (h : ∀ ticket ∈ tickets, cstr (ticketPath cfg ticket) ≠ path) (files : Files) :
    tickets.foldl (removeTicketFile cfg) files path = files path := by
  induction tickets generalizing files with
  | nil => rfl
  | cons ticket tickets ih =>
    obtain ⟨hticket, htickets⟩ := List.forall_mem_cons.mp h
    rw [List.foldl_cons, ih htickets, removeTicketFile]
    split
    · rfl
    · rw [deletePath]
      split
      · exact Function.update_of_ne hticket.symm _ _
      · rfl

/-- The removal of tickets leaves a file or removes it. -/
theorem removeTickets_eq_or (tickets : List Bytes) (files : Files) (path : Bytes) :
    tickets.foldl (removeTicketFile cfg) files path = files path ∨
      tickets.foldl (removeTicketFile cfg) files path = none := by
  induction tickets generalizing files with
  | nil => exact .inl rfl
  | cons ticket tickets ih =>
    rw [List.foldl_cons]
    rcases ih (removeTicketFile cfg files ticket) with heq | hnone
    · rw [heq, removeTicketFile]
      split
      · exact .inl rfl
      · exact deletePath_eq_or _ _ _
    · exact .inr hnone

/-- The tickets are removed whose paths are accepted. -/
theorem removeTickets_of_mem {tickets : List Bytes} {ticket : Bytes} (h : ticket ∈ tickets)
    (hne : ticket ≠ []) (hpath : correctPath (ticketPath cfg ticket) = true) (files : Files) :
    tickets.foldl (removeTicketFile cfg) files (ticketPath cfg ticket) = none := by
  have hcstr : cstr (ticketPath cfg ticket) = ticketPath cfg ticket :=
    cstr_eq_self (zero_notMem_of_correctPath hpath)
  induction tickets generalizing files with
  | nil => cases h
  | cons ticket' tickets ih =>
    rw [List.foldl_cons]
    rcases List.mem_cons.mp h with rfl | h
    · refine removeTickets_eq_none ?_ tickets
      rw [removeTicketFile, if_neg hne, deletePath, if_pos hpath, hcstr, Function.update_self]
    · exact ih h _

/-- Tickets are removed. -/
theorem Keeps.removeTickets (h : Keeps cfg control files files₁) {tickets : List Bytes}
    (hnames : ∀ ticket ∈ tickets, (47 : UInt8) ∉ ticket) :
    Keeps cfg control files (tickets.foldl (removeTicketFile cfg) files₁) :=
  h.of_removed
    (fun uid => removeTickets_of_ne (fun ticket hmem =>
      ticketPath_ne_of_notMem (hnames ticket hmem) uid) files₁)
    fun _ => removeTickets_eq_or _ _ _

theorem ticketsOf_eq_map (data : ConfigData) :
    ticketsOf data = [Kind.admin, .execution, .monitor, .httpPassthrough].map fun kind =>
      valueOf data kind.key := rfl

/-- The mark changes the configuration, and tells the tickets that it lists. -/
theorem ticketsOf_markCleaning (cfg : Configuration) (uid : ℕ) (files : Files) :
    ticketsOf (markCleaning cfg uid files).2 =
      ticketsOf ((readTask (files (processConfigFile cfg uid))).getD ∅) := by
  rw [markCleaning]
  cases hconfig : files (processConfigFile cfg uid) with
  | none => rfl
  | some content =>
    dsimp only
    rw [readTask, Option.bind_some]
    cases readConfiguration content ∅ with
    | none => rfl
    | some data =>
      show ticketsOf (data.insert (ascii "CLEANING") (ascii "1")) = ticketsOf data
      rw [ticketsOf_eq_map, ticketsOf_eq_map]
      simp only [valueOf_insert_cleaning]

/-- The mark of a task, and what it tells of the tickets. -/
theorem Table.keeps_markCleaning (h : Table cfg control files) (uid : ℕ) :
    Keeps cfg control files (markCleaning cfg uid files).1 ∧
      PlainTask (markCleaning cfg uid files).2 ∧
      ∀ data, readTask ((markCleaning cfg uid files).1 (processConfigFile cfg uid)) = some data →
        ∀ kind : Kind, valueOf data kind.key = valueOf (markCleaning cfg uid files).2 kind.key := by
  rw [markCleaning]
  cases hconfig : files (processConfigFile cfg uid) with
  | none =>
    dsimp only
    refine ⟨h.keeps, plainTask_empty, fun data hread => ?_⟩
    rw [hconfig] at hread
    cases hread
  | some content =>
    obtain ⟨hcontrol, data, hread, hdata⟩ := h.config uid content hconfig
    have hread' : readConfiguration content ∅ = some data := hread
    dsimp only
    rw [hread']
    dsimp only
    obtain ⟨read, hback, -, hvalues⟩ := hdata.insert_cleaning.exists_readTask
    refine ⟨h.keeps.store (by rw [hconfig, hread]) hdata.insert_cleaning
      fun kind _ => valueOf_insert_cleaning data kind, hdata.insert_cleaning,
      fun data' hdata' kind => ?_⟩
    rw [Function.update_self, hback] at hdata'
    rw [← Option.some.inj hdata', hvalues]

theorem PlainTask.notMem (hdata : PlainTask data) {ticket : Bytes} (h : ticket ∈ ticketsOf data) :
    (47 : UInt8) ∉ ticket := by
  obtain ⟨kind, rfl⟩ := exists_kind_of_mem_ticketsOf h
  exact hdata.tickets kind

theorem PlainInfo.notMem {info : Info} (hinfo : PlainInfo info) {ticket : Bytes}
    (h : ticket ∈ info.tickets) : (47 : UInt8) ∉ ticket := by
  obtain ⟨kind, rfl⟩ := exists_kind_of_mem_tickets h
  exact (hinfo.tickets kind).2

/-- The tickets that the first section of `cleanTask` removes. -/
theorem Table.notMem_tickets (h : Table cfg control files) {pm : ProcessMonitor}
    (hinfo : PlainInfo pm.info) {ticket : Bytes}
    (hticket : ticket ∈ ticketsOf (markCleaning cfg pm.prisoner files).2 ++ pm.info.tickets) :
    (47 : UInt8) ∉ ticket := by
  rcases List.mem_append.mp hticket with hticket | hticket
  · exact (h.keeps_markCleaning pm.prisoner).2.1.notMem hticket
  · exact hinfo.notMem hticket

/-- The first section of `cleanTask`. -/
theorem Table.keeps_markTask {w : World} (h : Table cfg control w.files) {pm : ProcessMonitor}
    (hinfo : PlainInfo pm.info) : Keeps cfg control w.files (markTask cfg pm w).files :=
  (h.keeps_markCleaning pm.prisoner).1.removeTickets fun _ => h.notMem_tickets hinfo

theorem isPrefixOf_configFile (cfg : Configuration) (uid : ℕ) :
    (processControlPath cfg uid ++ ascii "/").isPrefixOf (processConfigFile cfg uid) = true := by
  rw [List.isPrefixOf_iff_prefix, processConfigFile]
  exact ⟨ascii "config", by rw [List.append_assoc]; rfl⟩

/-- A control directory is removed when no ticket names its prisoner. -/
theorem Keeps.removeDir (h : Keeps cfg control files files₁)
    (hgone : ∀ ticket content : Bytes, IsName ticket →
      files₁ (ticketPath cfg ticket) = some content →
        ∀ level, readTicket cfg (some content) ≠ .ok (uid, level)) :
    Keeps cfg (Function.update control uid false) files (removeControlDir cfg uid files₁) := by
  have hticket {ticket : Bytes} (hname : IsName ticket) :
      removeControlDir cfg uid files₁ (ticketPath cfg ticket) = files₁ (ticketPath cfg ticket) := by
    rw [removeControlDir, if_neg]
    rw [List.isPrefixOf_iff_prefix]
    rintro ⟨rest, hrest⟩
    rw [List.append_assoc] at hrest
    exact ticketPath_ne_inside hname.slash uid rest hrest.symm
  -- of the configurations only the one of the prisoner itself goes
  have hself : removeControlDir cfg uid files₁ (processConfigFile cfg uid) = none :=
    if_pos (isPrefixOf_configFile cfg uid)
  have hconfig {uid' : ℕ} (hne : uid' ≠ uid) : removeControlDir cfg uid files₁
      (processConfigFile cfg uid') = files₁ (processConfigFile cfg uid') :=
    if_neg fun hprefix => hne (eq_of_isPrefixOf_configFile hprefix).symm
  refine ⟨⟨fun uid' content hcontent => ?_, fun ticket content hname hcontent => ?_,
    fun ticket content hname hcontent =>
      h.table.paths ticket content hname (hticket hname ▸ hcontent)⟩, fun uid' hnone => ?_,
    fun ticket content hname hcontent => ?_⟩
  · by_cases huid : uid' = uid
    · rw [huid, hself] at hcontent
      cases hcontent
    · rw [hconfig huid] at hcontent
      rw [Function.update_of_ne huid]
      exact h.table.config uid' content hcontent
  · rw [hticket hname] at hcontent
    obtain ⟨uid', kind, data, hlevel, hdata, hvalue⟩ :=
      h.table.tickets ticket content hname hcontent
    have huid : uid' ≠ uid := by
      rintro rfl
      exact hgone ticket content hname hcontent _ hlevel
    exact ⟨uid', kind, data, hlevel, by rw [hconfig huid, hdata], hvalue⟩
  · by_cases huid : uid' = uid
    · rw [huid, hself]
    · rw [hconfig huid, h.config uid' hnone]
  · rw [hticket hname]
    exact h.tickets ticket content hname hcontent

/-- When the listed tickets of a prisoner have been removed, no ticket names it. -/
theorem Table.readTicket_ne (h : Table cfg control files) (uid : ℕ) {tickets : List Bytes}
    (htickets : ticketsOf (markCleaning cfg uid files).2 ⊆ tickets) {ticket content : Bytes}
    (hname : IsName ticket) (hcontent : tickets.foldl (removeTicketFile cfg)
      (markCleaning cfg uid files).1 (ticketPath cfg ticket) = some content) (level : SecurityLevel) :
    readTicket cfg (some content) ≠ .ok (uid, level) := by
  intro hlevel
  obtain ⟨hmark, -, hvalues⟩ := h.keeps_markCleaning uid
  rcases @removeTickets_eq_or cfg tickets (markCleaning cfg uid files).1
    (ticketPath cfg ticket) with heq | hnone
  · rw [heq] at hcontent
    -- a ticket that names the prisoner is listed, so it is one of those that have been removed
    obtain ⟨uid', kind, data, hlevel', hread, hvalue⟩ :=
      hmark.table.tickets ticket content hname hcontent
    obtain ⟨rfl, -⟩ := Prod.mk.inj (Except.ok.inj (hlevel.symm.trans hlevel'))
    have hmem : ticket ∈ ticketsOf (markCleaning cfg uid files).2 := by
      rw [← hvalue, hvalues data hread]
      exact valueOf_mem_ticketsOf _ kind
    have hremoved := removeTickets_of_mem (htickets hmem) hname.ne_nil
      (hmark.table.paths ticket content hname hcontent) (markCleaning cfg uid files).1
    rw [← heq, hremoved] at hcontent
    cases hcontent
  · rw [hnone] at hcontent
    cases hcontent

/-- The files of a prisoner are removed, and its tickets before them. -/
theorem Table.keeps_clean {w : World} (h : Table cfg control w.files) (uid : ℕ) :
    Keeps cfg (Function.update control uid false) w.files
      (cleanPrisonerFiles cfg uid w).files := by
  obtain ⟨hmark, hdata, -⟩ := h.keeps_markCleaning uid
  exact (hmark.removeTickets fun _ => hdata.notMem).removeDir
    fun ticket content hname hcontent level =>
      h.readTicket_ne uid (List.Subset.refl _) hname hcontent level

end Table

end VplJail.Task.Lifecycle
