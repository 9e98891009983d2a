import VplJail.Task.Results
import VplJail.Task.TicketTable

/-!
# Tickets and their tasks over time

Every ticket file names a prisoner whose configuration lists the ticket, and no ticket is overwritten,
in every run in which no control directory is removed between the two sections of its constructor
(`ticketsListed_of_reaches`). Otherwise the second section leaves tickets without a task
(`not_ticketsListed`).
-/

namespace VplJail.Task.Lifecycle

open CriticalSection ConfigurationFile Util

/-! ## Use of tickets -/

section Use

variable {cfg : Configuration} {control : ℕ → Bool} {files : Files}

/-- A ticket that is read names a prisoner. -/
theorem isPrisonerUID_of_readTicket {content : Option Bytes} {uid : ℕ} {level : SecurityLevel}
    (h : readTicket cfg content = .ok (uid, level)) : cfg.isPrisonerUID uid = true := by
  rw [readTicket] at h
  split at h
  · cases h
  · rename_i data _
    rw [ticketOfData] at h
    split at h
    · cases h
    · cases hset : setPrisonerID cfg (atoi (valueOf data (ascii "USER_ID"))) with
      | error e =>
        rw [hset] at h
        cases h
      | ok prisoner =>
        rw [hset] at h
        obtain ⟨rfl, -⟩ := Prod.mk.inj (Except.ok.inj h)
        exact isPrisonerUID_of_setPrisonerID hset

/-- The object of a process has a prisoner, and its task is plain. -/
structure PlainObject (cfg : Configuration) (pm : ProcessMonitor) : Prop where
  prisoner : cfg.isPrisonerUID pm.prisoner = true
  info : PlainInfo pm.info

/-- A task that is opened is plain. -/
theorem Table.plainInfo (h : Table cfg control files) {uid : ℕ} {info : Info}
    (hinfo : infoOrThrow (files (processConfigFile cfg uid)) = .ok info) : PlainInfo info := by
  obtain ⟨data, hread, rfl, -⟩ := Locked.writeInfo_of_infoOrThrow hinfo info
  exact (h.of_readTask hread).2.ofData

/-- A ticket that is used is no configuration. -/
theorem afterUse_config {ticket : Bytes} (hformat : hasTicketFormat ticket = true)
    (security : SecurityLevel) (files : Files) (uid : ℕ) :
    afterUse (ticketPath cfg ticket) security files (processConfigFile cfg uid) =
      files (processConfigFile cfg uid) :=
  afterUse_of_ne security (ticketPath_ne_processConfigFile hformat uid)

theorem Table.keeps_afterUse (h : Table cfg control files) {ticket : Bytes}
    (hformat : hasTicketFormat ticket = true) (security : SecurityLevel) :
    Keeps cfg control files (afterUse (ticketPath cfg ticket) security files) :=
  h.keeps.of_removed (afterUse_config hformat security files) (afterUse_eq_or _ security files)

/-- A task that is opened lists its tickets as before, also with a monitor. -/
theorem Table.keeps_opening (h : Table cfg control files) {pid : ℤ} {ticket : Bytes}
    (hformat : hasTicketFormat ticket = true) {outcome : Files × Except Thrown ProcessMonitor}
    (hopen : Opening cfg pid (ticketPath cfg ticket) files outcome) :
    Keeps cfg control files outcome.1 ∧
      ∀ pm, outcome.2 = .ok pm → PlainObject cfg pm := by
  have huse (security : SecurityLevel) := h.keeps_afterUse hformat security
  cases hopen with
  | refused e hticket => exact ⟨h.keeps, fun _ hpm => by cases hpm⟩
  | wasted e hticket hfailed => exact ⟨huse _, fun _ hpm => by cases hpm⟩
  | opened hticket hsecurity hinfo =>
    refine ⟨huse _, fun pm hpm => ?_⟩
    obtain rfl := Except.ok.inj hpm
    exact ⟨isPrisonerUID_of_readTicket hticket, (huse _).table.plainInfo hinfo⟩
  | @monitored prisoner info content hticket hinfo hpid hwrite =>
    have hplain := (huse .monitor).table.plainInfo hinfo
    obtain ⟨data, hread, rfl, hstored⟩ :=
      Locked.writeInfo_of_infoOrThrow hinfo { info with monitorPid := pid }
    obtain rfl := Option.some.inj (hwrite.symm.trans hstored)
    have hnew : PlainInfo { Info.ofData data with monitorPid := pid } :=
      hplain.of_tickets (fun kind => by cases kind <;> rfl) hplain.localwebserver hplain.lang
    refine ⟨(huse .monitor).storeInfo hread hnew fun kind _ => ?_, fun pm hpm => ?_⟩
    · cases kind <;> rfl
    · obtain rfl := Except.ok.inj hpm
      exact ⟨isPrisonerUID_of_readTicket hticket, hnew⟩

/-- So does the constructor with a ticket. -/
theorem Table.keeps_ofTicket (h : Table cfg control files) (pid : ℤ) (ticket : Bytes) :
    Keeps cfg control files (Prog.runExcept (ofTicket cfg pid ticket) files).1 ∧
      ∀ pm, (Prog.runExcept (ofTicket cfg pid ticket) files).2 = .ok pm → PlainObject cfg pm := by
  rw [ofTicket, Prog.runExcept_ite]
  split
  · exact h.keeps_opening ‹_› (run_openTicket cfg pid _ files)
  · rw [Prog.runExcept_throw]
    exact ⟨h.keeps, fun _ hpm => by cases hpm⟩

end Use

/-! ## Operations -/

/-- The strings of an operation are plain, and its ticket is drawn until it names no file. -/
def Operation.IsPlain (cfg : Configuration) (files : Files) : Operation → Prop
  | update (.setExtraInfo _ _ lang) => IsPlainValue lang
  | update (.getLocalWebServer address) => ∀ a ∈ address, IsPlainValue a
  | update (.getHttpPassthroughTicket ticket redrawn) =>
      files (ticketPath cfg (Locked.drawnTicket cfg files ticket redrawn)) = none ∧
        correctPath (ticketPath cfg (Locked.drawnTicket cfg files ticket redrawn)) = true
  | _ => True

section Operations

variable {cfg : Configuration} {control : ℕ → Bool} {files : Files} {pm : ProcessMonitor}
  {data : ConfigData}

/-- The fields that change are stored when they list the tickets that were read. -/
theorem Table.keeps_afterChange (h : Table cfg control files)
    (hread : readTask (files (processConfigFile cfg pm.prisoner)) = some data)
    {r : Except Thrown (Option Info)} (hr : ∀ info, r = .ok (some info) → PlainInfo info ∧
      ∀ kind : Kind, kind.field info = kind.field (Info.ofData data)) :
    Keeps cfg control files (Locked.afterChange cfg pm (files, r) (Info.ofData data)).1 ∧
      ∀ pm', (Locked.afterChange cfg pm (files, r) (Info.ofData data)).2 = .ok pm' →
        PlainInfo pm'.info := by
  rcases r with e | info | info
  · exact ⟨h.keeps, fun _ hpm => by cases hpm⟩
  · refine ⟨h.keeps, fun pm' hpm => ?_⟩
    obtain rfl := Except.ok.inj hpm
    exact (h.of_readTask hread).2.ofData
  · obtain ⟨hinfo, htickets⟩ := hr info rfl
    rw [Locked.afterChange, writeInfo_of_readTask hread]
    refine ⟨h.keeps.storeInfo hread hinfo fun kind _ => htickets kind, fun pm' hpm => ?_⟩
    obtain rfl := Except.ok.inj hpm
    exact hinfo

/-- A new ticket is written and listed. -/
theorem Table.keeps_drawn (h : Table cfg control files)
    (huid : cfg.isPrisonerUID pm.prisoner = true)
    (hread : readTask (files (processConfigFile cfg pm.prisoner)) = some data)
    (hnone : (Info.ofData data).httpPassthroughticket = []) {drawn : Bytes} (hname : IsName drawn)
    (hplain : IsPlainValue drawn) (hpath : correctPath (ticketPath cfg drawn) = true)
    (hfresh : files (ticketPath cfg drawn) = none) :
    let outcome := Locked.afterChange cfg pm (Function.update files (ticketPath cfg drawn)
      (some (Locked.ticketContent pm.prisoner (ascii "3"))),
        .ok (some { Info.ofData data with httpPassthroughticket := drawn })) (Info.ofData data)
    Keeps cfg control files outcome.1 ∧ ∀ pm', outcome.2 = .ok pm' → PlainInfo pm'.info := by
  have hdata := (h.of_readTask hread).2
  have hne : ticketPath cfg drawn ≠ processConfigFile cfg pm.prisoner :=
    ticketPath_ne_config hname.slash _
  have hinfo : PlainInfo { Info.ofData data with httpPassthroughticket := drawn } := by
    refine ⟨fun kind => ?_, hdata.ofData.localwebserver, hdata.ofData.lang⟩
    cases kind with
    | httpPassthrough => exact ⟨hplain, hname.slash⟩
    | admin => exact hdata.ofData.tickets .admin
    | monitor => exact hdata.ofData.tickets .monitor
    | execution => exact hdata.ofData.tickets .execution
  have hstored := h.keeps.storeInfo hread hinfo fun kind hkind => by
    cases kind with
    | httpPassthrough => exact absurd hnone hkind
    | _ => rfl
  -- the configuration that lists the ticket is stored behind it, which makes no difference
  obtain ⟨read, hback, -, hvalues⟩ := (hdata.store hinfo).exists_readTask
  have hvalue : valueOf read Kind.httpPassthrough.key = drawn := by
    rw [hvalues, valueOf_store]
    rfl
  have hlisted := hstored.put huid (by rw [Function.update_self, hback]) hname hvalue hpath hfresh
  rw [Function.update_comm hne.symm] at hlisted
  dsimp only
  rw [Locked.afterChange, Function.update_of_ne hne.symm, writeInfo_of_readTask hread]
  refine ⟨hlisted, fun pm' hok => ?_⟩
  obtain rfl := Except.ok.inj hok
  exact hinfo

/-- An operation that sets fields. -/
theorem Table.keeps_update (h : Table cfg control files) {u : Locked.Update}
    (hu : (Operation.update u).IsPlain cfg files) (hpm : PlainObject cfg pm) :
    Keeps cfg control files (Prog.runExcept (u.run cfg pm) files).1 ∧
      ∀ pm', (Prog.runExcept (u.run cfg pm) files).2 = .ok pm' → PlainInfo pm'.info := by
  rw [Locked.run_update]
  split
  · refine ⟨h.keeps, fun pm' hok => ?_⟩
    obtain rfl := Except.ok.inj hok
    exact hpm.info
  cases hinfo : infoOrThrow (files (processConfigFile cfg pm.prisoner)) with
  | error e => exact ⟨h.keeps, fun _ hok => by cases hok⟩
  | ok info =>
    have hplain := h.plainInfo hinfo
    obtain ⟨data, hread, rfl, -⟩ := Locked.writeInfo_of_infoOrThrow hinfo info
    have hchange {r : Except Thrown (Option Info)}
        (hr : ∀ info, r = .ok (some info) → IsPlainValue info.localwebserver ∧
          IsPlainValue info.lang ∧ ∀ kind : Kind, kind.field info = kind.field (Info.ofData data)) :=
      h.keeps_afterChange hread fun info hok => by
        obtain ⟨hserver, hlang, htickets⟩ := hr info hok
        exact ⟨hplain.of_tickets htickets hserver hlang, htickets⟩
    dsimp only
    -- all updates but the last one leave the tickets as they are
    cases u with
    | setExtraInfo el ri lang =>
      refine hchange fun info hok => ?_
      obtain rfl := Option.some.inj (Except.ok.inj hok)
      exact ⟨hplain.localwebserver, hu, fun kind => by cases kind <;> rfl⟩
    | setCompiler pid now =>
      refine hchange fun info hok => ?_
      obtain rfl := Option.some.inj (Except.ok.inj hok)
      exact ⟨hplain.localwebserver, hplain.lang, fun kind => by cases kind <;> rfl⟩
    | setRunner pid now =>
      refine hchange fun info hok => ?_
      obtain rfl := Option.some.inj (Except.ok.inj hok)
      exact ⟨hplain.localwebserver, hplain.lang, fun kind => by cases kind <;> rfl⟩
    | monitorize pid =>
      refine hchange fun info hok => ?_
      split at hok
      · cases hok
      · obtain rfl := Option.some.inj (Except.ok.inj hok)
        exact ⟨hplain.localwebserver, hplain.lang, fun kind => by cases kind <;> rfl⟩
    | getLocalWebServer address =>
      refine hchange fun info hok => ?_
      have hfields := Except.ok.inj hok
      rw [Locked.Update.fields] at hfields
      split at hfields
      · obtain ⟨a, ha, rfl⟩ := Option.map_eq_some_iff.mp hfields
        exact ⟨hu a ha, hplain.lang, fun kind => by cases kind <;> rfl⟩
      · cases hfields
    | getHttpPassthroughTicket ticket redrawn =>
      obtain ⟨hfresh, hpath⟩ := hu
      rw [Locked.Update.change]
      split
      · exact hchange fun _ hok => by cases hok
      · rename_i hnone
        obtain ⟨hne, hdigits⟩ := (Locked.drawnTicket cfg files ticket redrawn).2
        exact h.keeps_drawn hpm.prisoner hread (not_not.mp hnone) (isName_of_digits hne hdigits)
          (isPlainValue_of_word fun b hb => .inl (hdigits b hb)) hpath hfresh

/-- Another file is written in the control directory of a prisoner. -/
theorem Table.keeps_controlFile (h : Table cfg control files) (uid : ℕ) {name : Bytes}
    (hname : name ≠ ascii "config") (content : Bytes) :
    Keeps cfg control files
      (Function.update files (Locked.controlFile cfg uid name) (some content)) := by
  have hconfig (uid' : ℕ) : Function.update files (Locked.controlFile cfg uid name) (some content)
      (processConfigFile cfg uid') = files (processConfigFile cfg uid') := by
    refine Function.update_of_ne (fun heq => ?_) _ _
    have hprefix : (processControlPath cfg uid ++ ascii "/").isPrefixOf
        (processConfigFile cfg uid') = true := by
      rw [heq, Locked.controlFile, List.isPrefixOf_iff_prefix]
      exact List.prefix_append _ _
    obtain rfl := eq_of_isPrefixOf_configFile hprefix
    exact Locked.controlFile_ne_config hname heq.symm
  have hticket {ticket : Bytes} (hticket : IsName ticket) :
      Function.update files (Locked.controlFile cfg uid name) (some content)
        (ticketPath cfg ticket) = files (ticketPath cfg ticket) := by
    have hpath : Locked.controlFile cfg uid name = processControlPath cfg uid ++ 47 :: name := by
      rw [Locked.controlFile, List.append_assoc]
      rfl
    exact Function.update_of_ne (hpath ▸ ticketPath_ne_inside hticket.slash uid name) _ _
  refine ⟨⟨fun uid' content' h' => h.config uid' content' (hconfig uid' ▸ h'),
    fun ticket content' hname' h' => ?_, fun ticket content' hname' h' =>
      h.paths ticket content' hname' (hticket hname' ▸ h')⟩, fun uid' h' => by rw [hconfig, h'],
    fun ticket content' hname' h' => .inl (by rw [hticket hname', h'])⟩
  obtain ⟨uid', kind, data, hlevel, hdata, hvalue⟩ :=
    h.tickets ticket content' hname' (hticket hname' ▸ h')
  exact ⟨uid', kind, data, hlevel, by rw [hconfig, hdata], hvalue⟩

/-- A file is saved or not. -/
theorem Table.keeps_saveFile (h : Table cfg control files) (uid : ℕ) {name : Bytes}
    (hname : name ≠ ascii "config") (content : Bytes) :
    Keeps cfg control files (Prog.runExcept
      (Locked.saveFile (Locked.controlFile cfg uid name) content) files).1 := by
  rw [Locked.saveFile, Prog.runExcept_ite]
  split
  · rw [Locked.run_putFile]
    exact h.keeps_controlFile uid hname content
  · exact h.keeps

theorem Table.keeps_setCompilationOutput (h : Table cfg control files) (compilation : Bytes)
    (pm : ProcessMonitor) : Keeps cfg control files
      (Prog.runExcept (Locked.setCompilationOutput cfg compilation pm) files).1 := by
  rw [Locked.setCompilationOutput, Prog.runExcept_bind, Locked.run_loadInfo]
  cases infoOrThrow (files (processConfigFile cfg pm.prisoner)) with
  | error e => exact h.keeps
  | ok info =>
    dsimp only
    rw [Prog.runExcept_bind, run_look]
    dsimp only
    rw [Prog.runExcept_ite]
    split
    · exact h.keeps
    · exact h.keeps_saveFile pm.prisoner (by decide +kernel) compilation

theorem Table.keeps_setExecutionOutput (h : Table cfg control files) (execution : Bytes)
    (executed : Bool) (pm : ProcessMonitor) : Keeps cfg control files
      (Prog.runExcept (Locked.setExecutionOutput cfg execution executed pm) files).1 := by
  rw [Locked.setExecutionOutput, Prog.runExcept_bind, Locked.run_loadInfo]
  cases infoOrThrow (files (processConfigFile cfg pm.prisoner)) with
  | error e => exact h.keeps
  | ok info =>
    dsimp only
    rw [Prog.runExcept_bind, run_look]
    dsimp only
    rw [Prog.runExcept_ite, Prog.runExcept_ite]
    split
    · exact h.keeps
    split
    · rw [Prog.runExcept_bind, run_look]
      dsimp only
      rw [Prog.runExcept_ite]
      split
      · exact h.keeps
      · exact h.keeps_saveFile pm.prisoner (by decide +kernel) execution
    · exact h.keeps

/-- An operation on an object. -/
theorem Table.keeps_operation (h : Table cfg control files) {op : Operation}
    (hop : op.IsPlain cfg files) (hpm : PlainObject cfg pm) :
    Keeps cfg control files (Prog.runExcept (op.run cfg pm) files).1 ∧
      ∀ pm', (Prog.runExcept (op.run cfg pm) files).2 = .ok pm' → PlainInfo pm'.info := by
  have hsave {x : FileM Unit} (hx : Keeps cfg control files (Prog.runExcept x files).1) :
      Keeps cfg control files (Prog.runExcept (do x; pure pm) files).1 ∧
        ∀ pm', (Prog.runExcept (do x; pure pm) files).2 = .ok pm' → PlainInfo pm'.info := by
    rw [Prog.runExcept_bind]
    generalize Prog.runExcept x files = outcome at hx ⊢
    obtain ⟨files', e | u⟩ := outcome
    · exact ⟨hx, fun _ hok => by cases hok⟩
    · refine ⟨hx, fun pm' hok => ?_⟩
      obtain rfl := Except.ok.inj hok
      exact hpm.info
  -- outputs go to files of their own, and `getState` writes nothing
  cases op with
  | update u => exact h.keeps_update hop hpm
  | setCompilationOutput compilation => exact hsave (h.keeps_setCompilationOutput compilation pm)
  | setExecutionOutput execution executed =>
    exact hsave (h.keeps_setExecutionOutput execution executed pm)
  | getState =>
    rw [Operation.run, loadState, Prog.runExcept_bind, run_look]
    dsimp only
    cases hconfig : files (processConfigFile cfg pm.prisoner) with
    | none =>
      refine ⟨h.keeps, fun pm' hok => ?_⟩
      obtain rfl := Except.ok.inj hok
      exact hpm.info
    | some content =>
      obtain ⟨-, data, hread, hdata⟩ := h.config _ content hconfig
      dsimp only
      rw [readInfo, hread]
      dsimp only
      split
      · exact ⟨h.keeps, fun _ hok => by cases hok⟩
      · rename_i info hinfo
        refine ⟨h.keeps, fun pm' hok => ?_⟩
        obtain rfl := Except.ok.inj hok
        split at hinfo
        · rw [← ReadInfo.cleaning.inj hinfo]
          exact hdata.ofData
        · cases hinfo
      · rename_i info hinfo
        refine ⟨h.keeps, fun pm' hok => ?_⟩
        obtain rfl := Except.ok.inj hok
        split at hinfo
        · cases hinfo
        · rw [← ReadInfo.ok.inj hinfo]
          exact hdata.ofData

/-- A task that is read again is plain. -/
theorem Table.plainInfo_reread (h : Table cfg control files) (hinfo : PlainInfo pm.info) :
    PlainInfo (reread cfg files pm).info := by
  rw [reread, readInfo]
  cases hread : readTask (files (processConfigFile cfg pm.prisoner)) with
  | none => exact hinfo
  | some data =>
    have hdata := (h.of_readTask hread).2.ofData
    dsimp only
    by_cases hcleaning : (Info.ofData data).cleaning = true
    · rw [if_pos hcleaning]
      exact hdata
    · rw [if_neg hcleaning]
      exact hdata

end Operations

/-! ## New tasks -/

/-- The strings that the constructors and `getHttpPassthroughTicket` put together. -/
def IsDrawn (ticket : Bytes) : Prop :=
  ∃ d d' : Draw, ticket = getPartialTicket d ++ getPartialTicket d'

section Creation

variable {cfg : Configuration} {control : ℕ → Bool} {files : Files} {uid : ℕ}
  {tickets : List (Bytes × Kind)} {path : Bytes}

theorem IsDrawn.isName {ticket : Bytes} (h : IsDrawn ticket) : IsName ticket := by
  obtain ⟨d, d', rfl⟩ := h
  refine ⟨List.append_ne_nil_of_left_ne_nil (itos_ne_nil _) _, fun hslash => ?_⟩
  rcases List.mem_append.mp hslash with h | h <;> rcases mem_itos h with h | h
  all_goals exact absurd h (by decide)

theorem IsDrawn.isPlainValue {ticket : Bytes} (h : IsDrawn ticket) : IsPlainValue ticket := by
  obtain ⟨d, d', rfl⟩ := h
  refine isPlainValue_of_word fun b hb => ?_
  rcases List.mem_append.mp hb with h | h <;> rcases mem_itos h with h | h
  all_goals simp [h]

/-- The tickets of a new task are listed in it. -/
theorem field_newInfo {tickets : Locking.Tickets} {ticket : Bytes × Kind}
    (h : ticket ∈ ticketsOfKinds tickets) (now : ℤ) :
    ticket.2.field (Locking.newInfo tickets now) = ticket.1 := by
  obtain ⟨admin, monitor, execution⟩ := tickets
  cases monitor with
  | none =>
    simp only [ticketsOfKinds, Option.toList_none, List.map_nil, List.cons_append, List.nil_append,
      List.mem_cons, List.not_mem_nil, or_false] at h
    rcases h with rfl | rfl <;> rfl
  | some monitor =>
    simp only [ticketsOfKinds, Option.toList_some, List.map_cons, List.map_nil, List.cons_append,
      List.nil_append, List.mem_cons, List.not_mem_nil, or_false] at h
    rcases h with rfl | rfl | rfl <;> rfl

/-- A new task is plain. -/
theorem plainInfo_newInfo {tickets : Locking.Tickets}
    (h : ∀ ticket ∈ ticketsOfKinds tickets, IsDrawn ticket.1) (now : ℤ) :
    PlainInfo (Locking.newInfo tickets now) := by
  have hdrawn {ticket : Bytes} (hticket : IsDrawn ticket) :
      IsPlainValue ticket ∧ (47 : UInt8) ∉ ticket :=
    ⟨hticket.isPlainValue, hticket.isName.slash⟩
  have hempty : IsPlainValue [] := isPlainValue_of_word fun _ hb => absurd hb List.not_mem_nil
  refine ⟨fun kind => ?_, hempty, hempty⟩
  cases kind with
  | admin => exact hdrawn (h _ List.mem_cons_self)
  | execution => exact hdrawn (h (tickets.execution, .execution) (by simp [ticketsOfKinds]))
  | httpPassthrough => exact ⟨hempty, List.not_mem_nil⟩
  | monitor =>
    cases hmonitor : tickets.monitor with
    | none =>
      show IsPlainValue (tickets.monitor.getD _) ∧ (47 : UInt8) ∉ tickets.monitor.getD _
      rw [hmonitor]
      exact ⟨isPlainValue_of_word (by decide +kernel), by decide +kernel⟩
    | some monitor =>
      show IsPlainValue (tickets.monitor.getD _) ∧ (47 : UInt8) ∉ tickets.monitor.getD _
      rw [hmonitor]
      exact hdrawn (h (monitor, .monitor) (by simp [ticketsOfKinds, hmonitor]))

theorem ticketPath_mem_paths {tickets : Locking.Tickets} {ticket : Bytes × Kind}
    (h : ticket ∈ ticketsOfKinds tickets) : ticketPath cfg ticket.1 ∈ tickets.paths cfg := by
  refine List.mem_map_of_mem ?_
  simp only [ticketsOfKinds, List.cons_append, List.mem_cons, List.mem_append, List.mem_map,
    List.not_mem_nil, or_false] at h ⊢
  rcases h with rfl | ⟨monitor, hmonitor, rfl⟩ | rfl
  · simp
  · exact .inl hmonitor
  · simp

/-- What is no ticket is left. -/
theorem writeTickets_of_ne (h : ∀ ticket ∈ tickets, ticketPath cfg ticket.1 ≠ path) :
    writeTickets cfg uid tickets files path = files path := by
  induction tickets generalizing files with
  | nil => rfl
  | cons ticket tickets ih =>
    obtain ⟨hne, h⟩ := List.forall_mem_cons.mp h
    exact (ih h).trans (Function.update_of_ne hne.symm _ _)

/-- The tickets and another file are written in any order. -/
theorem writeTickets_update (h : ∀ ticket ∈ tickets, ticketPath cfg ticket.1 ≠ path)
    (content : Option Bytes) : writeTickets cfg uid tickets (Function.update files path content) =
      Function.update (writeTickets cfg uid tickets files) path content := by
  induction tickets generalizing files with
  | nil => rfl
  | cons ticket tickets ih =>
    obtain ⟨hne, h⟩ := List.forall_mem_cons.mp h
    show writeTickets cfg uid tickets (Function.update (Function.update files path content) _ _) = _
    rw [Function.update_comm hne.symm]
    exact ih h

/-- The tickets of a task that is stored are written. -/
theorem Table.writeTickets (h : Table cfg control files) (huid : cfg.isPrisonerUID uid = true)
    {data : ConfigData} (hread : readTask (files (processConfigFile cfg uid)) = some data)
    (htickets : ∀ ticket ∈ tickets, IsName ticket.1 ∧ valueOf data ticket.2.key = ticket.1 ∧
      correctPath (ticketPath cfg ticket.1) = true) :
    Table cfg control (writeTickets cfg uid tickets files) := by
  induction tickets generalizing files with
  | nil => exact h
  | cons ticket tickets ih =>
    obtain ⟨⟨hname, hvalue, hpath⟩, htickets⟩ := List.forall_mem_cons.mp htickets
    refine ih (h.put huid hread hname hvalue hpath) ?_ htickets
    dsimp only
    rw [Function.update_of_ne (ticketPath_ne_config hname.slash uid).symm, hread]

end Creation

/-! ## The server -/

/-- The tickets are drawn and can be removed, and what is stored is plain. -/
def Drawn (cfg : Configuration) (s : Server) : Action → Prop
  | .create _ tickets _ => ∀ ticket ∈ ticketsOfKinds tickets,
      IsDrawn ticket.1 ∧ correctPath (ticketPath cfg ticket.1) = true
  | .operate _ op => op.IsPlain cfg s.world.files
  | _ => True

/-- No control directory is removed between the two sections of the constructor of its task. -/
structure Orderly (cfg : Configuration) (s : Server) (a : Action) : Prop where
  drawn : Drawn cfg s a
  removes : ∀ uid, Removes cfg s uid a → ∀ c ∈ s.creations, c.prisoner ≠ uid

/-- The files of the server are a table. Its objects are plain, and for each prisoner there is at most
one constructor under way, which has a control directory without a configuration. -/
structure Tabled (cfg : Configuration) (s : Server) : Prop where
  table : Table cfg s.control s.world.files
  objects : ∀ o ∈ s.objects, PlainObject cfg o.pm
  creations : ∀ c ∈ s.creations, cfg.isPrisonerUID c.prisoner = true ∧
    s.control c.prisoner = true ∧ s.world.files (processConfigFile cfg c.prisoner) = none
  distinct : (s.creations.map Creation.prisoner).Nodup

section Server

variable {cfg : Configuration} {s s' : Server} {a : Action}

/-- A section that keeps the table and starts no task. -/
theorem Tabled.of_keeps (hs : Tabled cfg s)
    (hfiles : Keeps cfg s.control s.world.files s'.world.files) (hsettled : Settled s s')
    (hobjects : ∀ o ∈ s'.objects, PlainObject cfg o.pm) :
    Tabled cfg s' ∧ NotOverwritten cfg s.world.files s'.world.files := by
  refine ⟨⟨hsettled.control ▸ hfiles.table, hobjects, fun c hc => ?_,
    hs.distinct.sublist (hsettled.creations.map _)⟩, hfiles.tickets⟩
  obtain ⟨huid, hdir, hnone⟩ := hs.creations c (hsettled.creations.subset hc)
  exact ⟨huid, hsettled.control ▸ hdir, hfiles.config _ hnone⟩

/-- Objects that are carried over are plain. -/
theorem Tabled.of_carriedOver (hs : Tabled cfg s) (h : CarriedOver s s') :
    ∀ o ∈ s'.objects, PlainObject cfg o.pm := by
  intro o ho
  obtain ⟨o', ho', hpm⟩ := h o ho
  exact hpm ▸ hs.objects o' ho'

/-- The control directory of a prisoner is removed for which no constructor is under way. -/
theorem Tabled.clean (hs : Tabled cfg s) {uid : ℕ} (hfree : ∀ c ∈ s.creations, c.prisoner ≠ uid)
    (hcreations : s'.creations = s.creations)
    (hcontrol : s'.control = Function.update s.control uid false)
    (hfiles : s'.world.files = (cleanPrisonerFiles cfg uid s.world).files)
    (hobjects : CarriedOver s s') :
    Tabled cfg s' ∧ NotOverwritten cfg s.world.files s'.world.files := by
  have hclean := hs.table.keeps_clean uid
  rw [← hcontrol, ← hfiles] at hclean
  refine ⟨⟨hclean.table, hs.of_carriedOver hobjects, fun c hc => ?_, hcreations ▸ hs.distinct⟩,
    hclean.tickets⟩
  rw [hcreations] at hc
  obtain ⟨huid, hdir, hnone⟩ := hs.creations c hc
  refine ⟨huid, ?_, hclean.config _ hnone⟩
  rw [hcontrol, Function.update_of_ne (hfree c hc), hdir]

theorem creations_select (cfg : Configuration) (draws : ℕ → Draw) (faults : ℕ → Faults)
    (s : Server) :
    (s.select cfg draws faults).creations = s.creations ∨
      ∃ uid task, (selectPrisoner cfg draws faults s.directories).2 = .ok uid ∧
        (s.select cfg draws faults).creations = s.creations ++ [⟨uid, task⟩] := by
  rw [Server.select]
  split
  · exact .inl rfl
  · rename_i d uid hselect
    exact .inr ⟨uid, _, congrArg Prod.snd hselect, rfl⟩

/-- A prisoner that is selected has no task, and no constructor is under way for it. -/
theorem Tabled.select (hs : Tabled cfg s) (draws : ℕ → Draw) (faults : ℕ → Faults) :
    Tabled cfg (s.select cfg draws faults) := by
  have hfiles : (s.select cfg draws faults).world.files = s.world.files := by
    rw [Server.select]
    split <;> rfl
  have hobjects : (s.select cfg draws faults).objects = s.objects := by
    rw [Server.select]
    split <;> rfl
  have hmono (uid : ℕ) (h : s.control uid = true) : (s.select cfg draws faults).control uid = true :=
    control_select_of_control draws faults h
  have hkept : ∀ c ∈ s.creations, cfg.isPrisonerUID c.prisoner = true ∧
      (s.select cfg draws faults).control c.prisoner = true ∧
        (s.select cfg draws faults).world.files (processConfigFile cfg c.prisoner) = none :=
    fun c hc => by
      obtain ⟨huid, hdir, hnone⟩ := hs.creations c hc
      exact ⟨huid, hmono _ hdir, hfiles ▸ hnone⟩
  refine ⟨hfiles ▸ hs.table.mono hmono, fun o ho => hs.objects o (hobjects ▸ ho), ?_, ?_⟩
  · rcases creations_select cfg draws faults s with heq | ⟨uid, task, hok, heq⟩
    · exact heq ▸ hkept
    · obtain ⟨huid, hfree, hdir⟩ := control_of_selected hok
      rw [heq]
      intro c hc
      rcases List.mem_append.mp hc with hc | hc
      · exact hkept c hc
      · obtain rfl := List.mem_singleton.mp hc
        refine ⟨huid, hdir, hfiles ▸ Option.eq_none_iff_forall_ne_some.mpr fun content hcontent => ?_⟩
        rw [(hs.table.config uid content hcontent).1] at hfree
        cases hfree
  · rcases creations_select cfg draws faults s with heq | ⟨uid, task, hok, heq⟩
    · rw [heq]
      exact hs.distinct
    · rw [heq, List.map_append, List.nodup_append]
      refine ⟨hs.distinct, List.nodup_singleton _, fun uid₁ h₁ uid₂ h₂ hsame => ?_⟩
      obtain ⟨c, hc, rfl⟩ := List.mem_map.mp h₁
      obtain rfl := List.mem_singleton.mp h₂
      have hdir := (hs.creations c hc).2.1
      rw [hsame, (control_of_selected hok).2.1] at hdir
      cases hdir

/-- The other constructors are for other prisoners. -/
theorem prisoner_ne_of_mem_eraseIdx {creations : List Creation}
    (h : (creations.map Creation.prisoner).Nodup) {k : ℕ} {c c' : Creation}
    (hc : creations[k]? = some c) (hc' : c' ∈ creations.eraseIdx k) :
    c'.prisoner ≠ c.prisoner := by
  obtain ⟨i, hik, hi⟩ := List.mem_eraseIdx_iff_getElem?.mp hc'
  obtain ⟨hlt, -⟩ := List.getElem?_eq_some_iff.mp hi
  intro heq
  refine hik ((List.getElem?_inj (List.length_map Creation.prisoner ▸ hlt) h).mp ?_)
  rw [List.getElem?_map, List.getElem?_map, hi, hc, Option.map_some, Option.map_some, heq]

/-- The second section of a constructor. -/
theorem Tabled.create (hs : Tabled cfg s) {k : ℕ} {c : Creation} (hc : s.creations[k]? = some c)
    {tickets : Locking.Tickets} (now : ℤ)
    (htickets : ∀ ticket ∈ ticketsOfKinds tickets,
      IsDrawn ticket.1 ∧ correctPath (ticketPath cfg ticket.1) = true)
    (hfresh : ∀ path ∈ tickets.paths cfg, s.world.files path = none) :
    Tabled cfg (s.create cfg k c tickets now) ∧
      NotOverwritten cfg s.world.files (s.create cfg k c tickets now).world.files := by
  obtain ⟨huid, hdir, hnone⟩ := hs.creations c (List.mem_of_getElem? hc)
  let info := Locking.newInfo tickets now
  let files := writeTickets cfg c.prisoner (ticketsOfKinds tickets) s.world.files
  have hplain : PlainInfo info := plainInfo_newInfo (fun ticket h => (htickets ticket h).1) now
  have hname (ticket) (h : ticket ∈ ticketsOfKinds tickets) : IsName ticket.1 :=
    (htickets ticket h).1.isName
  have hne (uid : ℕ) (ticket) (h : ticket ∈ ticketsOfKinds tickets) :
      ticketPath cfg ticket.1 ≠ processConfigFile cfg uid :=
    ticketPath_ne_config (hname ticket h).slash uid
  have hconfig : files (processConfigFile cfg c.prisoner) = none :=
    (writeTickets_of_ne (hne _)).trans hnone
  have hcreate : s.create cfg k c tickets now =
      { s.withFiles (Function.update files (processConfigFile cfg c.prisoner)
          (some (serialize (info.store ∅)))) with
        creations := s.creations.eraseIdx k
        objects := s.objects ++ [⟨⟨c.prisoner, .admin, info⟩, c.task, .idle, false⟩] } := by
    rw [Server.create]
    refine (if_pos hdir).trans ?_
    dsimp only [files] at hconfig
    dsimp only
    rw [hconfig]
    rfl
  have hread : readTask (Function.update s.world.files (processConfigFile cfg c.prisoner)
      (some (serialize (info.store ∅))) (processConfigFile cfg c.prisoner)) =
        readTask (some (serialize (info.store ∅))) := by
    rw [Function.update_self]
  obtain ⟨read, hback, -, hvalues⟩ := (plainTask_empty.store hplain).exists_readTask
  have hstored := hs.table.store hdir (plainTask_empty.store hplain) fun data hdata => by
    rw [hnone] at hdata
    cases hdata
  have htable := hstored.writeTickets huid (hread.trans hback) fun ticket h =>
    ⟨hname ticket h, by rw [hvalues, valueOf_store, field_newInfo h], (htickets ticket h).2⟩
  rw [writeTickets_update (hne _)] at htable
  rw [hcreate]
  refine ⟨⟨htable, fun o ho => ?_, fun c' hc' => ?_, hs.distinct.sublist
    ((List.eraseIdx_sublist _ _).map _)⟩, fun ticket content hticket hcontent => .inl ?_⟩
  · rcases List.mem_append.mp ho with ho | ho
    · exact hs.objects o ho
    · obtain rfl := List.mem_singleton.mp ho
      exact ⟨huid, hplain⟩
  · obtain ⟨huid', hdir', hnone'⟩ := hs.creations c' (List.mem_of_mem_eraseIdx hc')
    refine ⟨huid', hdir', ?_⟩
    show Function.update files _ _ (processConfigFile cfg c'.prisoner) = none
    rw [Function.update_of_ne fun heq => prisoner_ne_of_mem_eraseIdx hs.distinct hc hc'
      (configFile_injective heq)]
    exact (writeTickets_of_ne (hne _)).trans hnone'
  · show Function.update files _ _ (ticketPath cfg ticket) = some content
    rw [Function.update_of_ne (ticketPath_ne_config hticket.slash _), ← hcontent]
    refine writeTickets_of_ne fun ticket' h heq => ?_
    -- the paths of the new tickets were free
    rw [← heq, hfresh _ (ticketPath_mem_paths h)] at hcontent
    cases hcontent

/-- An operation on an object. -/
theorem Tabled.operate (hs : Tabled cfg s) {i : ℕ} {o : Object} (ho : s.holder i .idle = some o)
    {op : Operation} (hop : op.IsPlain cfg s.world.files) :
    Tabled cfg (s.operate cfg i o op) ∧
      NotOverwritten cfg s.world.files (s.operate cfg i o op).world.files := by
  have hobject := hs.objects o (mem_of_holder ho)
  obtain ⟨hkeeps, hinfo⟩ := hs.table.keeps_operation hop hobject
  have hset {o' : Object} (ho' : PlainObject cfg o'.pm) :
      ∀ o ∈ s.objects.set i o', PlainObject cfg o.pm := fun o₁ ho₁ => by
    rcases List.mem_or_eq_of_mem_set ho₁ with hmem | rfl
    · exact hs.objects o₁ hmem
    · exact ho'
  rw [Server.operate]
  split
  · rename_i files e hrun
    rw [hrun] at hkeeps
    refine hs.of_keeps hkeeps (.of_eq rfl rfl) (hset ⟨?_, ?_⟩)
    · rw [prisoner_reread]
      exact hobject.prisoner
    · exact hkeeps.table.plainInfo_reread hobject.info
  · rename_i files pm hrun
    rw [hrun] at hkeeps hinfo
    refine hs.of_keeps hkeeps (.of_eq rfl rfl) (hset ⟨?_, hinfo pm rfl⟩)
    rw [prisoner_of_run hrun]
    exact hobject.prisoner

/-- What one step keeps. -/
theorem tabled_step (hs : Tabled cfg s) (ha : Orderly cfg s a) (h : step cfg s a = some s') :
    Tabled cfg s' ∧ NotOverwritten cfg s.world.files s'.world.files := by
  cases effect_of_step h with
  | selected draws faults haction hselect =>
    subst hselect
    refine ⟨hs.select draws faults, fun ticket content _ hcontent => .inl ?_⟩
    rw [Server.select]
    split <;> exact hcontent
  | created k tickets now c haction hc hfresh hcreate =>
    subst haction hcreate
    exact hs.create hc now ha.drawn hfresh
  | used pid ticket hsettled hfiles hobjects =>
    obtain ⟨hkeeps, hopened⟩ := hs.table.keeps_ofTicket pid ticket
    exact hs.of_keeps (hfiles ▸ hkeeps) hsettled fun o ho =>
      (hobjects o ho).elim (hs.objects o) (hopened o.pm)
  | operated i op o haction ho hoperate =>
    subst haction hoperate
    exact hs.operate ho ha.drawn
  | marked i o haction ho hsettled hfiles hobjects =>
    have hplain := (hs.objects o (mem_of_holder ho)).info
    exact hs.of_keeps (hfiles ▸ hs.table.keeps_markTask hplain) hsettled
      (hs.of_carriedOver hobjects)
  | cleaned uid hremoves hcreations hcontrol hfiles hobjects =>
    exact hs.clean (ha.removes uid hremoves) hcreations hcontrol hfiles hobjects
  | kept hsettled hfiles hobjects =>
    exact hs.of_keeps (hfiles ▸ hs.table.keeps) hsettled (hs.of_carriedOver hobjects)

theorem tabled_of_isInitial (h : s.IsInitial) : Tabled cfg s := by
  have hnone {path content : Bytes} (hcontent : s.world.files path = some content) : False := by
    rw [h.files] at hcontent
    cases hcontent
  refine ⟨⟨fun _ _ hcontent => (hnone hcontent).elim, fun _ _ _ hcontent => (hnone hcontent).elim,
    fun _ _ _ hcontent => (hnone hcontent).elim⟩, ?_, ?_, ?_⟩
  · simp [h.objects]
  · simp [h.creations]
  · simp [h.creations]

/-- What every run keeps. -/
theorem tabled_of_reaches {s₀ : Server} (h₀ : s₀.IsInitial) (h : Reaches cfg (Orderly cfg) s₀ s) :
    Tabled cfg s :=
  invariant (tabled_of_isInitial h₀) (fun _ _ _ hs ha hstep => (tabled_step hs ha hstep).1) h

/-- In every run in which no control directory is removed between the two sections of its constructor,
every ticket is listed by its task, and none is overwritten. -/
theorem ticketsListed_of_reaches {s₀ : Server} (h₀ : s₀.IsInitial)
    (h : Reaches cfg (Orderly cfg) s₀ s) :
    TicketsListed cfg s.world.files ∧ ∀ a s', Orderly cfg s a → step cfg s a = some s' →
      NotOverwritten cfg s.world.files s'.world.files :=
  ⟨(tabled_of_reaches h₀ h).table.tickets, fun _ _ ha hstep =>
    (tabled_step (tabled_of_reaches h₀ h) ha hstep).2⟩

end Server

/-! ## A constructor without its directory -/

/-- The tickets of a new task differ. -/
def Action.TicketsDiffer : Action → Prop
  | .create _ tickets _ => ((ticketsOfKinds tickets).map Prod.fst).Nodup
  | _ => True

theorem drawn_firstTickets : ∀ ticket ∈ ticketsOfKinds firstTickets,
    IsDrawn ticket.1 ∧ correctPath (ticketPath .default ticket.1) = true := by
  have hdrawn (d : ℤ) : IsDrawn (getPartialTicket ⟨some 127, 0, 0⟩ ++
      getPartialTicket ⟨some (Int32.ofInt d), 0, 0⟩) := ⟨_, _, rfl⟩
  have hpath : ∀ ticket ∈ ticketsOfKinds firstTickets,
      correctPath (ticketPath .default ticket.1) = true := by decide +kernel
  have hstrings : (ticketsOfKinds firstTickets).map Prod.fst = [127, 254, 381].map fun d : ℤ =>
      getPartialTicket ⟨some 127, 0, 0⟩ ++ getPartialTicket ⟨some (Int32.ofInt d), 0, 0⟩ := by
    decide +kernel
  refine fun ticket hticket => ⟨?_, hpath ticket hticket⟩
  have hmem := List.mem_map_of_mem (f := Prod.fst) hticket
  rw [hstrings] at hmem
  obtain ⟨d, -, hd⟩ := List.mem_map.mp hmem
  exact hd ▸ hdrawn d

theorem orderly_newTask : ∀ a ∈ newTask firstTickets, ∀ s, Orderly .default s a := by
  simp only [newTask, List.forall_mem_cons]
  exact ⟨fun _ => ⟨trivial, fun _ hremoves => by cases hremoves⟩,
    fun _ => ⟨drawn_firstTickets, fun _ hremoves => by cases hremoves⟩, fun _ ha => absurd ha List.not_mem_nil⟩

theorem ticketsListed_newTask :
    ∃ s, run .default started (newTask firstTickets) = some s ∧
      (TicketsListed .default s.world.files ∧ ∀ a s', Orderly .default s a →
        step .default s a = some s' → NotOverwritten .default s.world.files s'.world.files) := by
  have hrun : (run .default started (newTask firstTickets)).isSome = true := by decide +kernel
  obtain ⟨s, hs⟩ := Option.isSome_iff_exists.mp hrun
  exact ⟨s, hs, ticketsListed_of_reaches isInitial_started
    (reaches_of_run hs (allowed_of_forall orderly_newTask))⟩

/-- The control directory of a task is stale before its constructor goes on. -/
def collectedEarly : List Action :=
  [.select sameDraws fun _ => .none, .inspect 10001 0 2000, .collect 0 0 2000,
    .create 0 firstTickets 2000]

/-- The tickets of a constructor without its control directory are those of no task. -/
theorem not_ticketsListed :
    ¬ ∀ s₀ s, s₀.IsInitial →
      Reaches .default (fun s a => Drawn .default s a ∧ a.TicketsDiffer) s₀ s →
        TicketsListed .default s.world.files := by
  have hrun : ((run .default started collectedEarly).map fun s =>
      ((s.world.files (ticketPath .default (ascii "11"))).bind fun content =>
        (readTicket .default (some content)).toOption.map Prod.fst,
      (s.world.files (processConfigFile .default 10001)).isNone)) = some (some 10001, true) := by
    decide +kernel
  have hdiffer : ((ticketsOfKinds firstTickets).map Prod.fst).Nodup := by decide +kernel
  have hdrawn : ∀ a ∈ collectedEarly, ∀ s, Drawn .default s a ∧ a.TicketsDiffer := by
    simp only [collectedEarly, List.forall_mem_cons]
    exact ⟨fun _ => ⟨trivial, trivial⟩, fun _ => ⟨trivial, trivial⟩, fun _ => ⟨trivial, trivial⟩,
      fun _ => ⟨drawn_firstTickets, hdiffer⟩, fun _ ha => absurd ha List.not_mem_nil⟩
  obtain ⟨s, hs, hvalues⟩ := Option.map_eq_some_iff.mp hrun
  obtain ⟨hticket, hnone⟩ := Prod.mk.inj hvalues
  obtain ⟨content, hcontent, hread⟩ := Option.bind_eq_some_iff.mp hticket
  intro h
  have hname : IsName (ascii "11") := ⟨by decide +kernel, by decide +kernel⟩
  obtain ⟨uid, kind, data, hlevel, hdata, -⟩ := h started s isInitial_started
    (reaches_of_run hs (allowed_of_forall hdrawn)) (ascii "11") content hname hcontent
  rw [hlevel] at hread
  obtain rfl : uid = 10001 := Option.some.inj hread
  rw [Option.isNone_iff_eq_none.mp hnone] at hdata
  cases hdata

end VplJail.Task.Lifecycle
