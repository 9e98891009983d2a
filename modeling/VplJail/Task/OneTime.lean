import VplJail.Task.Open

/-!
# One-time tickets

A ticket of a monitor or for an execution should open its task once. The file of the ticket is
removed, but only if `correctPath` accepts the whole string presented; and the monitor that is
registered keeps later ones out. `at_most_one_use` counts the calls of any run, `ticket_used_twice`
is an execution ticket with a NUL behind it.
-/

namespace VplJail.Task

open CriticalSection ConfigurationFile Util

/-! ## A registered monitor -/

section Registered

variable {content content' : Bytes} {info info' : Info} {pid : ℤ}

/-- A number is written as it is read. -/
theorem isPlain_itos {key : Bytes} (hkey : (61 : UInt8) ∉ key) (pid : ℤ) :
    IsPlain key (itos pid) := by
  have hitos (b : UInt8) (hb : ¬ (b = 45 ∨ isDigit b = true)) : b ∉ itos pid :=
    fun h => hb (mem_itos h)
  refine ⟨hkey, hitos 61 (by decide), fun b hb => ?_, trim_eq_self fun b hb => ?_⟩
  · have hmem : b ∈ itos pid := List.mem_of_mem_head? hb
    rw [isBlank, Bool.or_eq_false_iff, beq_eq_false_iff_ne, beq_eq_false_iff_ne]
    exact ⟨fun h => hitos 32 (by decide) (h ▸ hmem), fun h => hitos 9 (by decide) (h ▸ hmem)⟩
  · exact ⟨fun h => hitos 32 (by decide) (h ▸ hb), fun h => hitos 39 (by decide) (h ▸ hb),
      fun h => hitos 34 (by decide) (h ▸ hb)⟩

/-- The registered pid is the one stored. -/
theorem getElem?_store_monitorPid (info : Info) (data : ConfigData) :
    (info.store data)[ascii "MONITOR_PID"]? = some (itos info.monitorPid) := by
  rw [Info.store, getElem?_foldl_insert]
  rfl

/-- A monitor that has been stored is read back. -/
theorem monitorPid_of_writeInfo {config : Option Bytes} (h : readInfo config = .ok info)
    (hlow : 0 < pid) (hhigh : pid < 2 ^ 31)
    (hwrite : writeInfo config { info with monitorPid := pid } ∅ = some content')
    (h' : readInfo (some content') = .ok info') : info'.monitorPid = pid := by
  obtain ⟨content, data, rfl, hdata, rfl⟩ := readTask_of_readInfo h
  obtain ⟨text, data', htext, hdata', rfl⟩ := readTask_of_readInfo h'
  obtain rfl := Option.some.inj htext
  rw [writeInfo, hdata] at hwrite
  obtain rfl := Option.some.inj hwrite
  have hstorable := storable_readConfiguration hdata
  have hinfo := Info.storable_ofData hstorable
  have hstore : ({ Info.ofData data with monitorPid := pid } : Info).Storable := ⟨hinfo.adminticket,
    hinfo.executionticket, hinfo.monitorticket, hinfo.httpPassthroughticket, hinfo.localwebserver,
    hinfo.lang⟩
  have hback := getElem?_of_readConfiguration_serialize (hstore.store hstorable)
    (getElem?_store_monitorPid _ data) (isPlain_itos (by decide) pid) hdata'
  change atoi (valueOf data' (ascii "MONITOR_PID")) = pid
  rw [valueOf, hback, Option.getD_some, atoi_itos (by omega) hhigh]

end Registered

/-! ## The path of a ticket -/

section Paths

variable {cfg : Configuration} {ticket name : Bytes}

/-- The operating system sees the path of the ticket up to its first NUL. -/
theorem cstr_ticketPath (cfg : Configuration) (ticket : Bytes) :
    cstr (ticketPath cfg ticket) = ticketPath cfg (cstr ticket) := by
  have hnul := zero_notMem_of_correctPath cfg.controlPath_correct
  have hpos : ∀ b ∈ cfg.controlPath ++ ascii "/", decide (b ≠ 0) = true := by
    intro b hb
    refine decide_eq_true fun h0 => ?_
    rcases List.mem_append.mp hb with hb | hb
    · exact hnul (h0 ▸ hb)
    · exact absurd (h0 ▸ hb) (by decide)
  rw [ticketPath, ticketPath, cstr, List.takeWhile_append_of_pos hpos, cstr]

/-- A string in the form of a ticket consists of digits. -/
theorem digits_of_hasTicketFormat (h : hasTicketFormat ticket = true) :
    cstr ticket ≠ [] ∧ ∀ b ∈ cstr ticket, isDigit b = true := by
  rw [hasTicketFormat, PosixRegex.matchesWhole_iff] at h
  obtain ⟨m, hm, hflat⟩ := h
  cases hm with | @cons _ seg _ m hacc hm =>
  cases hm
  rw [List.flatten_cons, List.flatten_nil, List.append_nil] at hflat
  rw [hflat]
  exact ⟨List.length_pos_iff.mp hacc.2.1, hacc.1⟩

/-- A string in the form of a ticket starts with a digit. -/
theorem exists_digit_of_hasTicketFormat (h : hasTicketFormat ticket = true) :
    ∃ d ds, cstr ticket = d :: ds ∧ isDigit d = true := by
  obtain ⟨hne, hdigits⟩ := digits_of_hasTicketFormat h
  obtain ⟨d, ds, heq⟩ := List.exists_cons_of_ne_nil hne
  exact ⟨d, ds, heq, hdigits d (heq ▸ List.mem_cons_self)⟩

/-- The path of a ticket is not that of the configuration of a task. -/
theorem ticketPath_ne_processConfigFile (h : hasTicketFormat ticket = true) (uid : ℕ) :
    cstr (ticketPath cfg ticket) ≠ processConfigFile cfg uid := by
  obtain ⟨d, ds, hd, hdigit⟩ := exists_digit_of_hasTicketFormat h
  have hconfig : processConfigFile cfg uid =
      cfg.controlPath ++ (ascii "/" ++ 112 :: (itos uid ++ ascii "/config")) := by
    rw [processConfigFile, processControlPath, List.append_assoc, List.append_assoc,
      List.append_assoc]
    rfl
  rw [cstr_ticketPath, hd, ticketPath, List.append_assoc, hconfig]
  intro heq
  have hp : d = 112 := (List.cons.inj (List.append_cancel_left (List.append_cancel_left heq))).1
  rw [hp] at hdigit
  cases hdigit

end Paths

/-! ## One call -/

section Call

variable {cfg : Configuration} {pid : ℤ} {ticket path : Bytes} {files : Files} {uid : ℕ}

/-- `fileName` as the constructor computes it from the string presented. -/
def presentedPath (cfg : Configuration) (ticket : Bytes) : Bytes :=
  ticketPath cfg (trimAndRemoveQuotes ticket)

/-- The string has the form of a ticket and names the file at `path`. -/
def ResolvesTo (cfg : Configuration) (path ticket : Bytes) : Prop :=
  hasTicketFormat (trimAndRemoveQuotes ticket) = true ∧ cstr (presentedPath cfg ticket) = path

instance : Decidable (ResolvesTo cfg path ticket) :=
  inferInstanceAs (Decidable (_ ∧ _))

/-- The file at `path` is a one-time ticket. -/
def IsOneTimeTicket (cfg : Configuration) (files : Files) (path : Bytes) : Prop :=
  ∃ uid security, readTicket cfg (files path) = .ok (uid, security) ∧ security.IsOneTime

/-- The task has a monitor, if it can be read at all. -/
def Monitored (cfg : Configuration) (files : Files) (uid : ℕ) : Prop :=
  ∀ info, readInfo (files (processConfigFile cfg uid)) = .ok info → info.monitorPid ≠ 0

/-- The ticket cannot be used any more: it is gone, or it is for a monitor of a monitored task. -/
def Spent (cfg : Configuration) (path : Bytes) (files : Files) : Prop :=
  files path = none ∨
    ∃ uid, readTicket cfg (files path) = .ok (uid, .monitor) ∧ Monitored cfg files uid

theorem infoOrThrow_eq_ok {config : Option Bytes} {info : Info} (h : infoOrThrow config = .ok info) :
    readInfo config = .ok info := by
  rw [infoOrThrow] at h
  cases hr : readInfo config with
  | failed => simp [hr] at h
  | cleaning info' => simp [hr] at h
  | ok info' =>
      rw [hr] at h
      rw [Except.ok.inj h]

/-- A file that does not exist is no ticket. -/
theorem readTicket_none (cfg : Configuration) : readTicket cfg none = .error .unreadableConfig := rfl

/-- The use of a ticket changes no other file. -/
theorem afterUse_of_ne {fileName : Bytes} (security : SecurityLevel) (h : cstr fileName ≠ path) :
    afterUse fileName security files path = files path := by
  rw [afterUse, deletePath]
  split
  · split
    · exact Function.update_of_ne (Ne.symm h) _ _
    · rfl
  · rfl

/-- The use of a ticket leaves every file or removes it. -/
theorem afterUse_eq_or (fileName : Bytes) (security : SecurityLevel) (files : Files) (path : Bytes) :
    afterUse fileName security files path = files path ∨
      afterUse fileName security files path = none := by
  by_cases h : cstr fileName = path
  · rw [afterUse, deletePath]
    split
    · split
      · exact .inr (h ▸ Function.update_self ..)
      · exact .inl rfl
    · exact .inl rfl
  · exact .inl (afterUse_of_ne security h)

/-- A removed ticket is gone. -/
theorem afterUse_self {fileName : Bytes} {security : SecurityLevel} (h : security.IsOneTime)
    (hpath : correctPath fileName = true) (files : Files) :
    afterUse fileName security files (cstr fileName) = none := by
  rw [afterUse, if_pos h, deletePath, if_pos hpath]
  exact Function.update_self ..

/-- The use of a ticket leaves a monitored task monitored. -/
theorem Monitored.afterUse {ticket : Bytes} (h : Monitored cfg files uid)
    (hticket : hasTicketFormat ticket = true) (security : SecurityLevel) :
    Monitored cfg (afterUse (ticketPath cfg ticket) security files) uid := by
  rw [Monitored, afterUse_of_ne security (ticketPath_ne_processConfigFile hticket uid)]
  exact h

variable {fileName : Bytes} {out : Files × Except Thrown ProcessMonitor}

/-- The path of a ticket. -/
def IsTicketPath (cfg : Configuration) (path : Bytes) : Prop :=
  ∃ ticket, hasTicketFormat ticket = true ∧ cstr (ticketPath cfg ticket) = path

/-- A call leaves a ticket or removes it. -/
theorem Opening.ticket_eq_or (h : Opening cfg pid fileName files out)
    (hpath : IsTicketPath cfg path) : out.1 path = files path ∨ out.1 path = none := by
  cases h with
  | refused e hticket => exact .inl rfl
  | wasted e hticket hfailed => exact afterUse_eq_or _ _ _ _
  | opened hticket hsecurity hinfo => exact afterUse_eq_or _ _ _ _
  | monitored hticket hinfo hpid hwrite =>
      obtain ⟨name, hname, rfl⟩ := hpath
      dsimp only
      rw [Function.update_of_ne (ticketPath_ne_processConfigFile hname _)]
      exact afterUse_eq_or _ _ _ _

/-- A call leaves a monitored task monitored. -/
theorem Opening.monitored_of_monitored (h : Opening cfg pid (ticketPath cfg ticket) files out)
    (hticket : hasTicketFormat ticket = true) (hmonitored : Monitored cfg files uid) :
    Monitored cfg out.1 uid := by
  cases h with
  | refused e _ => exact hmonitored
  | wasted e _ _ => exact hmonitored.afterUse hticket _
  | opened _ hsecurity hinfo => exact hmonitored.afterUse hticket _
  | @monitored prisoner info content _ hinfo hpid hwrite =>
      have hafter := hmonitored.afterUse hticket .monitor
      by_cases hsame : processConfigFile cfg uid = processConfigFile cfg prisoner
      · -- a monitor is registered only where there is none
        rw [← hsame] at hinfo
        exact absurd hpid (hafter info (infoOrThrow_eq_ok hinfo))
      · dsimp only
        rw [Monitored, Function.update_of_ne hsame]
        exact hafter

/-- What is spent stays spent. -/
theorem Opening.spent (h : Opening cfg pid (ticketPath cfg ticket) files out)
    (hticket : hasTicketFormat ticket = true) (hpath : IsTicketPath cfg path)
    (hspent : Spent cfg path files) : Spent cfg path out.1 := by
  rcases h.ticket_eq_or hpath with heq | hnone
  · rcases hspent with hspent | ⟨uid, hread, hmonitored⟩
    · exact .inl (heq.trans hspent)
    · exact .inr ⟨uid, heq ▸ hread, h.monitored_of_monitored hticket hmonitored⟩
  · exact .inl hnone

/-- A spent ticket opens nothing. -/
theorem Opening.not_ok_of_spent (h : Opening cfg pid (ticketPath cfg ticket) files out)
    (hticket : hasTicketFormat ticket = true)
    (hspent : Spent cfg (cstr (ticketPath cfg ticket)) files) (pm : ProcessMonitor) :
    out.2 ≠ .ok pm := by
  have hread {prisoner : ℕ} {security : SecurityLevel}
      (hread : readTicket cfg (files (cstr (ticketPath cfg ticket))) = .ok (prisoner, security)) :
      security = .monitor ∧ Monitored cfg files prisoner := by
    rcases hspent with hnone | ⟨uid, hspent, hmonitored⟩
    · rw [hnone, readTicket_none] at hread
      cases hread
    · rw [hread] at hspent
      obtain ⟨rfl, rfl⟩ := Prod.mk.inj (Except.ok.inj hspent)
      exact ⟨rfl, hmonitored⟩
  intro hok
  cases h with
  | refused e _ => cases hok
  | wasted e _ _ => cases hok
  | opened hticket' hsecurity hinfo => exact hsecurity (hread hticket').1
  | monitored hticket' hinfo hpid hwrite =>
      exact (hread hticket').2.afterUse hticket .monitor _ (infoOrThrow_eq_ok hinfo) hpid

/-- A call that opens a task spends its one-time ticket, if it is removed where it must be. -/
theorem Opening.spent_of_ok (h : Opening cfg pid (ticketPath cfg ticket) files out)
    (hticket : hasTicketFormat ticket = true) (hlow : 0 < pid) (hhigh : pid < 2 ^ 31)
    {prisoner : ℕ} {security : SecurityLevel}
    (hread : readTicket cfg (files (cstr (ticketPath cfg ticket))) = .ok (prisoner, security))
    (honce : security.IsOneTime)
    (hremove : security = .execute → correctPath (ticketPath cfg ticket) = true)
    {pm : ProcessMonitor} (hok : out.2 = .ok pm) :
    Spent cfg (cstr (ticketPath cfg ticket)) out.1 := by
  have heq := h.ticket_eq_or ⟨ticket, hticket, rfl⟩
  cases h with
  | refused e _ => cases hok
  | wasted e _ _ => cases hok
  | opened hticket' hsecurity hinfo =>
      rw [hread] at hticket'
      obtain ⟨rfl, rfl⟩ := Prod.mk.inj (Except.ok.inj hticket')
      rcases honce with rfl | rfl
      · exact absurd rfl hsecurity
      · exact .inl (afterUse_self (.inr rfl) (hremove rfl) files)
  | @monitored prisoner' info content hticket' hinfo hpid hwrite =>
      rcases heq with heq | hnone
      · refine .inr ⟨prisoner', heq ▸ hticket', fun info' hinfo' => ?_⟩
        dsimp only at hinfo'
        rw [Function.update_self] at hinfo'
        rw [monitorPid_of_writeInfo (infoOrThrow_eq_ok hinfo) hlow hhigh hwrite hinfo']
        exact hlow.ne'
      · exact .inl hnone

end Call

/-! ## Every run -/

section Runs

variable {ι : Type*} [DecidableEq ι] {cfg : Configuration} {pid : ι → ℤ}

/-- The constructor, by processes with the given pids. -/
def constructor (cfg : Configuration) (pid : ι → ℤ) (i : ι) (ticket : Bytes) :
    Prog Files (Except Thrown ProcessMonitor) :=
  (ofTicket cfg (pid i) ticket).run

/-- A call that has opened the task of the ticket at `path`. -/
def isUse (cfg : Configuration) (path : Bytes)
    (entry : ι × Bytes × Except Thrown ProcessMonitor) : Bool :=
  decide (ResolvesTo cfg path entry.2.1) && entry.2.2.isOk

/-- The calls that have opened the task of the ticket at `path`. -/
def uses (cfg : Configuration) (path : Bytes)
    (log : List (ι × Bytes × Except Thrown ProcessMonitor)) : ℕ :=
  log.countP (isUse cfg path)

/-- A string that names an execution ticket has a path that `correctPath` accepts. -/
def Removable (cfg : Configuration) (files : Files) (_ : ι) (ticket : Bytes) : Prop :=
  hasTicketFormat (trimAndRemoveQuotes ticket) = true →
    ∀ uid, readTicket cfg (files (cstr (presentedPath cfg ticket))) = .ok (uid, .execute) →
      correctPath (presentedPath cfg ticket) = true

omit [DecidableEq ι] in
/-- A call is refused for the form of the string, or it opens the ticket. -/
theorem constructor_cases (cfg : Configuration) (pid : ι → ℤ) (i : ι) (ticket : Bytes)
    (files : Files) :
    (∃ e, (constructor cfg pid i ticket).run files = (files, .error e)) ∨
      hasTicketFormat (trimAndRemoveQuotes ticket) = true ∧
        Opening cfg (pid i) (presentedPath cfg ticket) files
          ((constructor cfg pid i ticket).run files) := by
  have hrun : (constructor cfg pid i ticket).run files =
      Prog.runExcept (ofTicket cfg (pid i) ticket) files := rfl
  rw [hrun, ofTicket, Prog.runExcept_ite]
  split
  · exact .inr ⟨‹_›, run_openTicket _ _ _ _⟩
  · exact .inl ⟨_, rfl⟩

omit [DecidableEq ι] in
/-- A use has opened the ticket. -/
theorem opening_of_isUse {path ticket : Bytes} {files : Files} {i : ι}
    (h : isUse cfg path (i, ticket, ((constructor cfg pid i ticket).run files).2) = true) :
    ∃ pm, hasTicketFormat (trimAndRemoveQuotes ticket) = true ∧
      cstr (presentedPath cfg ticket) = path ∧
      Opening cfg (pid i) (presentedPath cfg ticket) files
        ((constructor cfg pid i ticket).run files) ∧
      ((constructor cfg pid i ticket).run files).2 = .ok pm := by
  rw [isUse, Bool.and_eq_true, decide_eq_true_eq] at h
  obtain ⟨⟨hformat, hpath⟩, hok⟩ := h
  rcases constructor_cases cfg pid i ticket files with ⟨e, he⟩ | ⟨-, hopening⟩
  · rw [he] at hok
    cases hok
  · dsimp only at hok
    cases hr : ((constructor cfg pid i ticket).run files).2 with
    | error e =>
        rw [hr] at hok
        cases hok
    | ok pm => exact ⟨pm, hformat, hpath, hopening, rfl⟩

/-- In every run in which execution tickets are presented by strings whose paths are accepted, each
one-time ticket opens its task at most once. -/
theorem at_most_one_use (hpid : ∀ i, 0 < pid i ∧ pid i < 2 ^ 31) {files : Files} {path : Bytes}
    (hticket : IsOneTimeTicket cfg files path)
    {s : System ι Bytes Files (Except Thrown ProcessMonitor)}
    (h : Reaches (constructor cfg pid) (Removable cfg) (System.initial files) s) :
    uses cfg path s.log ≤ 1 := by
  obtain ⟨cs, hok, hlog⟩ := exists_calls_of_reaches h
  rw [uses, hlog]
  by_cases hpath : IsTicketPath cfg path
  · have hgood (files : Files) (i : ι) (ticket : Bytes)
        (h : IsOneTimeTicket cfg files path ∨ files path = none) :
        IsOneTimeTicket cfg ((constructor cfg pid i ticket).run files).1 path ∨
          ((constructor cfg pid i ticket).run files).1 path = none := by
      rcases constructor_cases cfg pid i ticket files with ⟨e, he⟩ | ⟨-, hopening⟩
      · rwa [he]
      · rcases hopening.ticket_eq_or hpath with heq | hnone
        · rwa [IsOneTimeTicket, heq]
        · exact .inr hnone
    have hspent (files : Files) (i : ι) (ticket : Bytes) (h : Spent cfg path files) :
        Spent cfg path ((constructor cfg pid i ticket).run files).1 ∧
          ¬ isUse cfg path (i, ticket, ((constructor cfg pid i ticket).run files).2) = true := by
      refine ⟨?_, fun hused => ?_⟩
      · rcases constructor_cases cfg pid i ticket files with ⟨e, he⟩ | ⟨hformat, hopening⟩
        · rwa [he]
        · exact hopening.spent hformat hpath h
      · obtain ⟨pm, hformat, rfl, hopening, hpm⟩ := opening_of_isUse hused
        exact hopening.not_ok_of_spent hformat h pm hpm
    have huse (files : Files) (i : ι) (ticket : Bytes)
        (h : IsOneTimeTicket cfg files path ∨ files path = none)
        (hremovable : Removable cfg files i ticket)
        (hused : isUse cfg path (i, ticket, ((constructor cfg pid i ticket).run files).2) = true) :
        Spent cfg path ((constructor cfg pid i ticket).run files).1 := by
      obtain ⟨pm, hformat, rfl, hopening, hpm⟩ := opening_of_isUse hused
      rcases h with ⟨uid, security, hread, honce⟩ | hnone
      · refine hopening.spent_of_ok hformat (hpid i).1 (hpid i).2 hread honce (fun hexecute => ?_) hpm
        exact hremovable hformat uid (hexecute ▸ hread)
      · exact hopening.spent hformat hpath (.inl hnone)
    exact countP_runCalls_le_one hgood hspent huse (.inl hticket) hok
  · -- no string names the file
    have hzero : s.log.countP (isUse cfg path) = 0 := by
      refine List.countP_eq_zero.mpr fun entry _ hused => hpath ?_
      rw [isUse, Bool.and_eq_true, decide_eq_true_eq] at hused
      exact ⟨_, hused.1⟩
    rw [← hlog, hzero]
    exact Nat.zero_le 1

end Runs

/-! ## A ticket presented twice -/

/-- A task of prisoner 10001 with its execution ticket `5`. -/
def exampleFiles : Files := fun path =>
  if path = ticketPath .default (ascii "5") then
    some (serialize (.ofList [(ascii "USER_ID", ascii "10001"), (ascii "SECURITY", ascii "2")]))
  else if path = processConfigFile .default 10001 then
    writeInfo none { Info.ofData ∅ with executionticket := ascii "5" } ∅
  else none

/-- The pids of two processes. -/
def examplePid (i : Bool) : ℤ :=
  if i then 301 else 300

/-- Two processes that present `ticket` one after the other. -/
def presentTwice (ticket : Bytes) : List (Bool × Bytes) :=
  [(false, ticket), (true, ticket)]

/-- The ticket `5` of the example. -/
theorem isOneTimeTicket_exampleFiles :
    IsOneTimeTicket .default exampleFiles (ticketPath .default (ascii "5")) := by
  refine ⟨10001, .execute, ?_, .inr rfl⟩
  decide +kernel

theorem at_most_one_use_exampleFiles :
    uses .default (ticketPath .default (ascii "5"))
      (runCalls (constructor .default examplePid) exampleFiles (presentTwice (ascii "5"))).2 ≤ 1 := by
  have hpid : ∀ i, 0 < examplePid i ∧ examplePid i < 2 ^ 31 := by decide
  have hremovable (files : Files) (i : Bool) : Removable .default files i (ascii "5") :=
    fun _ _ _ => by decide +kernel
  have hok : CallsOk (constructor .default examplePid) (Removable .default) exampleFiles
      (presentTwice (ascii "5")) := ⟨hremovable _ _, hremovable _ _, trivial⟩
  have huses := at_most_one_use hpid isOneTimeTicket_exampleFiles (reaches_of_calls hok)
  dsimp only at huses
  exact huses

/-- An execution ticket with a NUL behind it is found and not removed. -/
theorem ticket_used_twice :
    IsOneTimeTicket .default exampleFiles (ticketPath .default (ascii "5")) ∧
      ¬ ∀ s, Reaches (constructor .default examplePid) (fun _ _ _ => True)
          (System.initial exampleFiles) s →
        uses .default (ticketPath .default (ascii "5")) s.log ≤ 1 := by
  refine ⟨isOneTimeTicket_exampleFiles, fun h => ?_⟩
  have hok : CallsOk (constructor .default examplePid) (fun _ _ _ => True) exampleFiles
      (presentTwice (ascii "5" ++ [0])) := ⟨trivial, trivial, trivial⟩
  exact absurd (h _ (reaches_of_calls hok)) (by decide +kernel)

end VplJail.Task
