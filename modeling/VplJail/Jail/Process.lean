import VplJail.Jail.Commands
import VplJail.Jail.Limits
import VplJail.Rpc.Request

/-!
# The dispatch of a request

The part of `Jail::process` behind the body of a request, with the commands and the child processes
that read members. The rest of the server is left open: what it does is `Outcomes`. A process that
goes through the pointer of an absent member is killed; `not_crashed_iff` says for which requests none
is.
-/

namespace VplJail.Jail.Dispatch

open Rpc Util

/-- What the code that reads no member of the request does: it may fail wherever it likes. -/
structure Outcomes where
  jailLimits : ExecutionLimits
  available : ℤ → Response
  request : Except Thrown Response
  directRun : Except Thrown Response
  openTask : Bytes → Except Thrown Unit
  getResult : Except Thrown Response
  isRunning : Except Thrown Bool
  cleanTask : Except Thrown Unit
  becomePrisoner : Except Thrown Unit
  writeFile : Bytes → Bytes → Except Thrown Unit
  deleteFile : Bytes → Except Thrown Unit
  setExtraInfo : Bytes → Bool → Except Thrown Unit
  compile : Bytes → Except Thrown Bool
  execute : ExecutionLimits → Except Thrown Unit

/-- The reply to a request, and how the child process that works on the task ends. -/
structure Run where
  reply : Except Stop Response
  child : Except Stop Unit

/-- A process has gone through the pointer of an absent member. -/
def Run.Crashed (run : Run) : Prop :=
  run.reply = .error .crash ∨ run.child = .error .crash

variable (lib : FloatLib) (env : Outcomes) (r : Request)

/-! ## Files -/

/-- A child process that is waited for: an exception in it becomes one in the parent. A child that is
killed is one as well for the parent, but a crash all the same. -/
def waitFor (message : String) : Except Stop Unit → Except Stop Unit
  | .error (.thrown _) => throw (.thrown (.http internalServerErrorCode message))
  | x => x

/-- The name and the content that a file is written with. -/
def decodeMember (fileencoding : NodeMap) (file : Bytes × ParseNode) :
    Except Thrown (Bytes × Bytes) :=
  decodeFile lib (fun _ => r.getString file.2) (fileencoding.view r.encoding r.raw)
    (file.1, file.2.view r.encoding r.raw)

/-- The loop of `saveParseFiles`. -/
def saveMembers (fileencoding : NodeMap) : List (Bytes × ParseNode) → Except Thrown Unit
  | [] => pure ()
  | file :: files => do
      let (name, data) ← decodeMember lib r fileencoding file
      env.writeFile name data
      saveMembers fileencoding files

/-- `saveParseFiles`: a child process writes the files of the request. -/
def saveParseFiles : Except Stop Unit :=
  waitFor "Error saving files" do
    lift env.becomePrisoner
    let files ← r.getFiles
    let fileencoding ← lift r.getFileEncoding
    lift (saveMembers lib env r fileencoding files.toList)

/-- The loop of `deleteFilesMarkedForDeletion`. -/
def deleteMembers (files : NodeMap) : List Bytes → Except Thrown Unit
  | [] => pure ()
  | name :: names => do
      if name ∈ files then env.deleteFile name
      deleteMembers files names

/-- `deleteFilesMarkedForDeletion`: a child process deletes the marked ones of the files. -/
def deleteFilesMarkedForDeletion : Except Stop Unit :=
  waitFor "Error deleting files" do
    lift env.becomePrisoner
    let filestodelete ← lift r.getFileToDelete
    let files ← r.getFiles
    lift (deleteMembers env files filestodelete.keys)

/-- `checkFilesNameCorrectness`, on the members of the request. -/
def checkNames (files : NodeMap) : Except Thrown Unit :=
  checkFilesNameCorrectness (files.view r.encoding r.raw)

/-! ## Commands -/

/-- What `commandRequest` and `commandDirectRun` do first. -/
def checkUpload : Except Stop Unit := do
  let files ← r.getFiles
  lift (checkNames r files)
  let filestodelete ← lift r.getFileToDelete
  lift (checkNames r filestodelete)

/-- What the child processes of both do behind the first members. -/
def compileAndRun : Except Stop Unit := do
  let script ← r.member "execute"
  let script ← lift (r.getString script)
  let compiled ← lift (env.compile script)
  if compiled then do
    deleteFilesMarkedForDeletion env r
    let limits ← lift (getParseExecutionLimits lib env.jailLimits (r.data.view r.encoding r.raw))
    lift (env.execute limits)
  else pure ()

/-- The child process of `commandRequest`. -/
def requestChild : Except Stop Unit := do
  saveParseFiles lib env r
  let lang ← r.member "lang"
  let lang ← lift (r.getString lang)
  let interactive ← r.member "interactive"
  let interactive ← lift (r.getInt lib interactive)
  lift (env.setExtraInfo lang (0 < interactive))
  compileAndRun lib env r

/-- The child process of `commandDirectRun`. -/
def directRunChild : Except Stop Unit := do
  saveParseFiles lib env r
  let lang ← r.member "lang"
  let lang ← lift (r.getString lang)
  lift (env.setExtraInfo lang true)
  compileAndRun lib env r

/-- A reply, and the child process that is forked if there is one. -/
def fork (reply : Except Stop Response) (child : Except Stop Unit) : Run :=
  match reply with
  | .error e => ⟨.error e, pure ()⟩
  | .ok reply => ⟨.ok reply, child⟩

/-- `commandRequest`: a task is set up, and a child process compiles and runs it. -/
def commandRequest : Run :=
  fork (do checkUpload r; lift env.request) (requestChild lib env r)

/-- `commandDirectRun`: the same, for a program that is run at once. -/
def commandDirectRun : Run :=
  fork (do checkUpload r; lift env.directRun) (directRunChild lib env r)

/-- `parsedata["adminticket"]->getString()`: the ticket of the administrator. -/
def adminticket : Except Stop Bytes := do
  let ticket ← r.member "adminticket"
  lift (r.getString ticket)

/-- `commandUpdate`, which catches what is thrown behind the check of its ticket. -/
def commandUpdate (ticket : Bytes) : Except Stop Bool := do
  let files ← r.getFiles
  lift (checkNames r files)
  lift (env.openTask ticket)
  match (do saveParseFiles lib env r; deleteFilesMarkedForDeletion env r : Except Stop Unit) with
  | .ok () => pure true
  | .error .crash => throw .crash
  | .error (.thrown _) => pure false

/-- `commandRunning`, which catches everything. -/
def commandRunning (ticket : Bytes) : Bool :=
  match (do env.openTask ticket; env.isRunning : Except Thrown Bool) with
  | .ok running => running
  | .error _ => false

/-! ## The dispatch -/

/-- The reply to `available`. -/
def available : Except Stop Response := do
  let memRequested ← r.member "maxmemory"
  let memRequested ← lift (r.getLong lib memRequested)
  pure (env.available (if 0 < memRequested then memRequested else env.jailLimits.maxmemory))

/-- The reply to `getresult`. -/
def getresult : Except Stop Response := do
  let ticket ← adminticket r
  lift (env.openTask ticket)
  lift env.getResult

/-- The reply to `running`. Without the member `pluginversion` a task that does not run is an
error. -/
def running : Except Stop Response := do
  let ticket ← adminticket r
  if ¬ commandRunning env ticket ∧ ascii "pluginversion" ∉ r.data then
    throw (.thrown (.text "Ticket invalid"))
  else pure (.running (commandRunning env ticket))

/-- The reply to `stop`. -/
def stop : Except Stop Response := do
  let _ ← adminticket r
  pure .stop

/-- The reply to `update`. -/
def update : Except Stop Response := do
  let ticket ← adminticket r
  let ok ← commandUpdate lib env r ticket
  pure (.update ok)

/-- `Jail::process` of an accepted request -/
def process : Run :=
  if r.methodName = ascii "available" then ⟨available lib env r, pure ()⟩
  else if r.methodName = ascii "request" then commandRequest lib env r
  else if r.methodName = ascii "directrun" then commandDirectRun lib env r
  else if r.methodName = ascii "getresult" then ⟨getresult env r, pure ()⟩
  else if r.methodName = ascii "running" then ⟨running env r, pure ()⟩
  else if r.methodName = ascii "stop" then ⟨stop r, lift env.cleanTask⟩
  else if r.methodName = ascii "update" then ⟨update lib env r, pure ()⟩
  else
    ⟨throw (.thrown (.http badRequestCode ("Unknown request:" ++ messageOf r.methodName))), pure ()⟩

/-! ## What the commands read -/

/-- A step of a command as far as members are concerned: something of the request is checked, or a
member is gone through that nobody has looked for, and its value checked. -/
inductive Access
  | check (ok : Bool)
  | member (name : String) (ok : ParseNode → Bool)

/-- The members are there, up to the first check that refuses the request. -/
def Safe (data : NodeMap) : List Access → Prop
  | [] => True
  | .check ok :: rest => ok = true → Safe data rest
  | .member name ok :: rest => ∃ t, data[ascii name]? = some t ∧ (ok t = true → Safe data rest)

/-- The member can be read as a string. -/
def readsString (t : ParseNode) : Bool :=
  (r.getString t).isOk

/-- The names of the files can be read and are correct. -/
def namesAccepted (members : Except Thrown NodeMap) : Bool :=
  (members >>= checkNames r).isOk

/-- The files can be decoded. -/
def filesDecode (st : ParseNode) : Bool :=
  (do
    let files ← r.getStructMembers st
    let fileencoding ← r.getFileEncoding
    files.toList.forM fun file => do let _ ← decodeMember lib r fileencoding file).isOk

/-- `getFiles` and the checks of `checkUpload`. -/
def uploadAccesses : List Access :=
  [.member "files" fun st => namesAccepted r (r.getStructMembers st),
    .check (namesAccepted r r.getFileToDelete), .member "files" (filesDecode lib r)]

/-- What the child process of `commandRequest` reads behind the files. -/
def requestAccesses : List Access :=
  [.member "lang" (readsString r), .member "interactive" fun t => (r.getInt lib t).isOk,
    .member "execute" fun _ => true]

/-- What the child process of `commandDirectRun` reads behind the files. -/
def directRunAccesses : List Access :=
  [.member "lang" (readsString r), .member "execute" fun _ => true]

/-- What the command of the request's method reads, in its order. -/
def accesses : List Access :=
  if r.methodName = ascii "available" then [.member "maxmemory" fun _ => true]
  else if r.methodName = ascii "request" then
    uploadAccesses lib r ++ requestAccesses lib r
  else if r.methodName = ascii "directrun" then
    uploadAccesses lib r ++ directRunAccesses r
  else if r.methodName = ascii "getresult" ∨ r.methodName = ascii "running" ∨
      r.methodName = ascii "stop" then
    [.member "adminticket" fun _ => true]
  else if r.methodName = ascii "update" then
    [.member "adminticket" (readsString r), .member "files" fun _ => true]
  else []

/-! ## Crashes -/

section Crash

variable {α β : Type}

/-- The computation goes through the pointer of an absent member. -/
def Crashes (x : Except Stop α) : Prop :=
  x = .error .crash

@[simp] theorem not_crashes_lift (x : Except Thrown α) : ¬ Crashes (lift x) := by
  intro h
  cases x with
  | error e => cases h
  | ok a => cases h

@[simp] theorem not_crashes_pure (a : α) : ¬ Crashes (pure a) :=
  fun h => by cases h

theorem crashes_bind {x : Except Stop α} {f : α → Except Stop β} :
    Crashes (x >>= f) ↔ Crashes x ∨ ∃ a, x = .ok a ∧ Crashes (f a) := by
  cases x with
  | error e =>
    refine ⟨fun h => .inl ?_, fun h => ?_⟩
    · exact congrArg Except.error (Except.error.inj h)
    · rcases h with h | ⟨a, ha, -⟩
      · exact congrArg Except.error (Except.error.inj h)
      · cases ha
  | ok a =>
    refine ⟨fun h => .inr ⟨a, rfl, h⟩, fun h => ?_⟩
    rcases h with h | ⟨a', ha, h⟩
    · cases h
    · obtain rfl := Except.ok.inj ha
      exact h

theorem lift_eq_ok {x : Except Thrown α} {a : α} : lift x = .ok a ↔ x = .ok a := by
  cases x with
  | error e => exact ⟨fun h => (by cases h), fun h => (by cases h)⟩
  | ok b => exact ⟨fun h => congrArg Except.ok (Except.ok.inj h),
      fun h => congrArg Except.ok (Except.ok.inj h)⟩

theorem crashes_lift_bind {x : Except Thrown α} {f : α → Except Stop β} :
    Crashes (lift x >>= f) ↔ ∃ a, x = .ok a ∧ Crashes (f a) := by
  simp only [crashes_bind, not_crashes_lift, false_or, lift_eq_ok]

theorem crashes_member_bind {name : String} {f : ParseNode → Except Stop β} :
    Crashes (r.member name >>= f) ↔ ∀ t, r.data[ascii name]? = some t → Crashes (f t) := by
  rw [Request.member]
  cases r.data[ascii name]? with
  | none => exact ⟨fun _ t h => (by cases h), fun _ => rfl⟩
  | some t =>
    refine ⟨fun h t' ht => ?_, fun h => h t rfl⟩
    obtain rfl := Option.some.inj ht
    exact h

theorem crashes_waitFor {message : String} {x : Except Stop Unit} :
    Crashes (waitFor message x) ↔ Crashes x := by
  match x with
  | .ok () => exact Iff.rfl
  | .error .crash => exact Iff.rfl
  | .error (.thrown e) => exact ⟨fun h => (by cases h), fun h => (by cases h)⟩

end Crash

/-! ## Members that are read -/

section Read

variable {lib : FloatLib} {env : Outcomes} {r : Request} {α β : Type} {rest : List Access}
  {name : String} {x : ParseNode → Except Thrown α} {f : α → Except Stop β}

theorem not_safe_member {data : NodeMap} {ok : ParseNode → Bool} :
    ¬ Safe data (.member name ok :: rest) ↔
      ∀ t, data[ascii name]? = some t → ok t = true ∧ ¬ Safe data rest := by
  rw [Safe, not_exists]
  refine forall_congr' fun t => ?_
  tauto

theorem isOk_iff {x : Except Thrown α} : x.isOk = true ↔ ∃ a, x = .ok a := by
  cases x with
  | error e => exact ⟨fun h => (by cases h), fun ⟨a, h⟩ => (by cases h)⟩
  | ok a => exact ⟨fun _ => ⟨a, rfl⟩, fun _ => rfl⟩

/-- A command that goes through a member, reads it and goes on. -/
theorem not_safe_of_crashes (hrest : ∀ a, Crashes (f a) → ¬ Safe r.data rest)
    (h : Crashes (do let t ← r.member name; let a ← lift (x t); f a)) :
    ¬ Safe r.data (.member name (fun t => (x t).isOk) :: rest) := by
  rw [crashes_member_bind] at h
  rw [not_safe_member]
  intro t ht
  obtain ⟨a, ha, hcrash⟩ := crashes_lift_bind.mp (h t ht)
  exact ⟨isOk_iff.mpr ⟨a, ha⟩, hrest a hcrash⟩

theorem crashes_of_not_safe (hrest : ∀ a, ¬ Safe r.data rest → Crashes (f a))
    (h : ¬ Safe r.data (.member name (fun t => (x t).isOk) :: rest)) :
    Crashes (do let t ← r.member name; let a ← lift (x t); f a) := by
  rw [crashes_member_bind]
  intro t ht
  obtain ⟨hok, hsafe⟩ := not_safe_member.mp h t ht
  obtain ⟨a, ha⟩ := isOk_iff.mp hok
  exact crashes_lift_bind.mpr ⟨a, ha, hrest a hsafe⟩

/-- The last member that a command goes through. -/
theorem not_safe_last {ok : ParseNode → Bool} {data : NodeMap} :
    ¬ Safe data [.member name ok] ↔ data[ascii name]? = none := by
  rw [not_safe_member]
  cases data[ascii name]? with
  | none => exact ⟨fun _ => rfl, fun _ t h => (by cases h)⟩
  | some t => exact ⟨fun h => absurd trivial (h t rfl).2, fun h => (by cases h)⟩

end Read

/-! ## Files -/

section Files

variable {lib : FloatLib} {env : Outcomes} {r : Request} {st : ParseNode}

theorem getFiles_eq (h : r.data[ascii "files"]? = some st) :
    r.getFiles = lift (r.getStructMembers st) := by
  rw [Request.getFiles, Request.member, h]
  rfl

theorem not_crashes_save (h : r.data[ascii "files"]? = some st) :
    ¬ Crashes (saveParseFiles lib env r) := by
  rw [saveParseFiles, crashes_waitFor, getFiles_eq h]
  simp only [crashes_lift_bind, not_crashes_lift, and_false, exists_false, not_false_eq_true]

theorem not_crashes_delete (h : r.data[ascii "files"]? = some st) :
    ¬ Crashes (deleteFilesMarkedForDeletion env r) := by
  rw [deleteFilesMarkedForDeletion, crashes_waitFor, getFiles_eq h]
  simp only [crashes_lift_bind, not_crashes_lift, and_false, exists_false, not_false_eq_true]

theorem not_crashes_checkUpload (h : r.data[ascii "files"]? = some st) :
    ¬ Crashes (checkUpload r) := by
  rw [checkUpload, getFiles_eq h]
  simp only [crashes_lift_bind, not_crashes_lift, and_false, exists_false, not_false_eq_true]

/-- With files the compilation crashes only for want of the script. -/
theorem crashes_compileAndRun (h : r.data[ascii "files"]? = some st) :
    Crashes (compileAndRun lib env r) ↔ r.data[ascii "execute"]? = none := by
  rw [compileAndRun, crashes_member_bind]
  cases hscript : r.data[ascii "execute"]? with
  | none => exact ⟨fun _ => rfl, fun _ t h => (by cases h)⟩
  | some t =>
    refine ⟨fun hcrash => absurd (hcrash t rfl) ?_, fun h => (by cases h)⟩
    rw [crashes_lift_bind]
    rintro ⟨script, -, hcrash⟩
    obtain ⟨compiled, -, hcrash⟩ := crashes_lift_bind.mp hcrash
    cases compiled with
    | false => exact not_crashes_pure () hcrash
    | true =>
      rw [if_pos rfl, crashes_bind] at hcrash
      rcases hcrash with hcrash | ⟨_, -, hcrash⟩
      · exact not_crashes_delete h hcrash
      · obtain ⟨limits, -, hcrash⟩ := crashes_lift_bind.mp hcrash
        exact not_crashes_lift _ hcrash

/-- The checks of the upload pass. -/
theorem checkUpload_eq_ok (h : r.data[ascii "files"]? = some st) :
    checkUpload r = .ok () ↔ namesAccepted r (r.getStructMembers st) = true ∧
      namesAccepted r r.getFileToDelete = true := by
  rw [checkUpload, getFiles_eq h, namesAccepted, namesAccepted]
  cases r.getStructMembers st with
  | error e => exact ⟨fun h => (by cases h), fun h => (by cases h.1)⟩
  | ok files =>
    cases hnames : checkNames r files with
    | error e =>
      refine ⟨fun h => ?_, fun h => ?_⟩
      · simp only [lift, Except.mapError, bind, Except.bind, hnames] at h
        cases h
      · simp only [bind, Except.bind, hnames] at h
        cases h.1
    | ok u =>
      cases r.getFileToDelete with
      | error e =>
        refine ⟨fun h => ?_, fun h => (by cases h.2)⟩
        simp only [lift, Except.mapError, bind, Except.bind, hnames] at h
        cases h
      | ok filestodelete =>
        simp only [lift, Except.mapError, bind, Except.bind, hnames]
        cases checkNames r filestodelete with
        | error e => exact ⟨fun h => (by cases h), fun h => (by cases h.2)⟩
        | ok u => exact ⟨fun _ => ⟨rfl, rfl⟩, fun _ => rfl⟩

/-- Files that are saved could be decoded. -/
theorem decode_of_saveMembers {fileencoding : NodeMap} {files : List (Bytes × ParseNode)}
    (h : saveMembers lib env r fileencoding files = .ok ()) :
    files.forM (fun file => do let _ ← decodeMember lib r fileencoding file) = Except.ok () := by
  induction files with
  | nil => rfl
  | cons file files ih =>
    obtain ⟨p, hp, h⟩ := exists_of_bind_eq_ok h
    obtain ⟨u, -, h⟩ := exists_of_bind_eq_ok h
    rw [List.forM_eq_forM, List.forM_cons, hp]
    exact ih h

/-- A file is saved where writing does not fail. -/
theorem saveMembers_of_decode {fileencoding : NodeMap} {files : List (Bytes × ParseNode)}
    (hwrite : ∀ name data, env.writeFile name data = .ok ())
    (h : files.forM (fun file => do let _ ← decodeMember lib r fileencoding file) = Except.ok ()) :
    saveMembers lib env r fileencoding files = .ok () := by
  induction files with
  | nil => rfl
  | cons file files ih =>
    rw [List.forM_eq_forM, List.forM_cons] at h
    obtain ⟨u, hfile, h⟩ := exists_of_bind_eq_ok h
    obtain ⟨p, hp, -⟩ := exists_of_bind_eq_ok hfile
    have hrest := ih h
    rw [saveMembers, hp]
    dsimp only [bind, Except.bind]
    rw [hwrite]
    exact hrest

theorem waitFor_eq_ok {message : String} {x : Except Stop Unit} :
    waitFor message x = .ok () ↔ x = .ok () := by
  match x with
  | .ok () => exact Iff.rfl
  | .error .crash => exact ⟨fun h => (by cases h), fun h => (by cases h)⟩
  | .error (.thrown e) => exact ⟨fun h => (by cases h), fun h => (by cases h)⟩

theorem exists_of_stop_bind_eq_ok {α β : Type} {x : Except Stop α} {f : α → Except Stop β} {b : β}
    (h : x >>= f = .ok b) : ∃ a, x = .ok a ∧ f a = .ok b := by
  cases x with
  | error e => cases h
  | ok a => exact ⟨a, rfl, h⟩

theorem filesDecode_of_save (hst : r.data[ascii "files"]? = some st)
    (h : saveParseFiles lib env r = .ok ()) : filesDecode lib r st = true := by
  rw [saveParseFiles, waitFor_eq_ok, getFiles_eq hst] at h
  obtain ⟨u, -, h⟩ := exists_of_stop_bind_eq_ok h
  obtain ⟨files, hfiles, h⟩ := exists_of_stop_bind_eq_ok h
  obtain ⟨fileencoding, hencoding, h⟩ := exists_of_stop_bind_eq_ok h
  rw [filesDecode, lift_eq_ok.mp hfiles, lift_eq_ok.mp hencoding]
  exact isOk_iff.mpr ⟨(), decode_of_saveMembers (lift_eq_ok.mp h)⟩

theorem save_of_filesDecode (hst : r.data[ascii "files"]? = some st)
    (hprisoner : env.becomePrisoner = .ok ())
    (hwrite : ∀ name data, env.writeFile name data = .ok ())
    (h : filesDecode lib r st = true) : saveParseFiles lib env r = .ok () := by
  obtain ⟨u, h⟩ := isOk_iff.mp h
  obtain ⟨files, hfiles, h⟩ := exists_of_bind_eq_ok h
  obtain ⟨fileencoding, hencoding, h⟩ := exists_of_bind_eq_ok h
  rw [saveParseFiles, waitFor_eq_ok, getFiles_eq hst, hprisoner, hfiles, hencoding]
  exact lift_eq_ok.mpr (saveMembers_of_decode hwrite h)

end Files

/-! ## The child processes -/

section Children

variable {lib : FloatLib} {env : Outcomes} {r : Request} {st : ParseNode}

/-- The commands that upload files read what they check, and then what the child process reads. -/
theorem safe_upload {tail : List Access} :
    Safe r.data (uploadAccesses lib r ++ tail) ↔ ∃ st, r.data[ascii "files"]? = some st ∧
      (checkUpload r = .ok () → filesDecode lib r st = true → Safe r.data tail) := by
  rw [uploadAccesses]
  simp only [List.cons_append, List.nil_append, Safe]
  refine exists_congr fun st => and_congr_right fun hst => ?_
  rw [checkUpload_eq_ok hst]
  constructor
  · rintro h ⟨hnames, hdelete⟩ hdecode
    obtain ⟨st', hst', h⟩ := h hnames hdelete
    rw [hst] at hst'
    obtain rfl := Option.some.inj hst'
    exact h hdecode
  · intro h hnames hdelete
    exact ⟨st, hst, h ⟨hnames, hdelete⟩⟩

theorem not_safe_of_requestChild (hst : r.data[ascii "files"]? = some st)
    (h : Crashes (requestChild lib env r)) :
    filesDecode lib r st = true ∧ ¬ Safe r.data (requestAccesses lib r) := by
  rw [requestChild, crashes_bind] at h
  rcases h with h | ⟨u, hsave, h⟩
  · exact absurd h (not_crashes_save hst)
  refine ⟨filesDecode_of_save hst hsave, not_safe_of_crashes (fun lang h => ?_) h⟩
  refine not_safe_of_crashes (fun interactive h => ?_) h
  obtain ⟨_, -, h⟩ := crashes_lift_bind.mp h
  exact not_safe_last.mpr ((crashes_compileAndRun hst).mp h)

theorem requestChild_of_not_safe (hst : r.data[ascii "files"]? = some st)
    (hsave : saveParseFiles lib env r = .ok ())
    (hinfo : ∀ lang interactive, env.setExtraInfo lang interactive = .ok ())
    (h : ¬ Safe r.data (requestAccesses lib r)) : Crashes (requestChild lib env r) := by
  rw [requestChild, hsave]
  refine crashes_of_not_safe (fun lang h => ?_) h
  refine crashes_of_not_safe (fun interactive h => ?_) h
  exact crashes_lift_bind.mpr ⟨(), hinfo _ _, (crashes_compileAndRun hst).mpr (not_safe_last.mp h)⟩

theorem not_safe_of_directRunChild (hst : r.data[ascii "files"]? = some st)
    (h : Crashes (directRunChild lib env r)) :
    filesDecode lib r st = true ∧ ¬ Safe r.data (directRunAccesses r) := by
  rw [directRunChild, crashes_bind] at h
  rcases h with h | ⟨u, hsave, h⟩
  · exact absurd h (not_crashes_save hst)
  refine ⟨filesDecode_of_save hst hsave, not_safe_of_crashes (fun lang h => ?_) h⟩
  obtain ⟨_, -, h⟩ := crashes_lift_bind.mp h
  exact not_safe_last.mpr ((crashes_compileAndRun hst).mp h)

theorem directRunChild_of_not_safe (hst : r.data[ascii "files"]? = some st)
    (hsave : saveParseFiles lib env r = .ok ())
    (hinfo : ∀ lang interactive, env.setExtraInfo lang interactive = .ok ())
    (h : ¬ Safe r.data (directRunAccesses r)) : Crashes (directRunChild lib env r) := by
  rw [directRunChild, hsave]
  refine crashes_of_not_safe (fun lang h => ?_) h
  exact crashes_lift_bind.mpr ⟨(), hinfo _ _, (crashes_compileAndRun hst).mpr (not_safe_last.mp h)⟩

end Children

/-! ## Every request -/

/-- A server in which nothing fails. -/
def smooth : Outcomes where
  jailLimits := ⟨0, 0, 0, 0⟩
  available _ := .stop
  request := pure .stop
  directRun := pure .stop
  openTask _ := pure ()
  getResult := pure .stop
  isRunning := pure true
  cleanTask := pure ()
  becomePrisoner := pure ()
  writeFile _ _ := pure ()
  deleteFile _ := pure ()
  setExtraInfo _ _ := pure ()
  compile _ := pure true
  execute _ := pure ()

section Requests

variable {lib : FloatLib} {r : Request}

theorem crashed_fork {reply : Except Stop Response} {child : Except Stop Unit} :
    (fork reply child).Crashed ↔ Crashes reply ∨ ∃ a, reply = .ok a ∧ Crashes child := by
  cases reply with
  | error e =>
    refine ⟨fun h => .inl ?_, fun h => .inl ?_⟩
    · rcases h with h | h
      · exact congrArg Except.error (Except.error.inj h)
      · cases h
    · rcases h with h | ⟨a, h, -⟩
      · exact congrArg Except.error (Except.error.inj h)
      · cases h
  | ok a =>
    refine ⟨fun h => .inr ⟨a, rfl, ?_⟩, fun h => .inr ?_⟩
    · rcases h with h | h
      · cases h
      · exact h
    · rcases h with h | ⟨_, -, h⟩
      · cases h
      · exact h

/-- A command that uploads files and leaves the rest to a child process. -/
theorem not_crashed_upload {tail : List Access} {newTask : Outcomes → Except Thrown Response}
    {child : Outcomes → Except Stop Unit} (hnew : newTask smooth = .ok .stop)
    (hsafe : ∀ env st, r.data[ascii "files"]? = some st → Crashes (child env) →
      filesDecode lib r st = true ∧ ¬ Safe r.data tail)
    (hcrash : ∀ st, r.data[ascii "files"]? = some st → filesDecode lib r st = true →
      ¬ Safe r.data tail → Crashes (child smooth)) :
    (∀ env, ¬ (fork (do checkUpload r; lift (newTask env)) (child env)).Crashed) ↔
      Safe r.data (uploadAccesses lib r ++ tail) := by
  rw [safe_upload]
  constructor
  · intro h
    have hsmooth := h smooth
    rw [crashed_fork, not_or] at hsmooth
    cases hst : r.data[ascii "files"]? with
    | none =>
      refine absurd ?_ hsmooth.1
      rw [checkUpload, Request.getFiles, Request.member, hst]
      rfl
    | some st =>
      refine ⟨st, rfl, fun hcheck hdecode => by_contra fun htail => hsmooth.2 ⟨.stop, ?_, ?_⟩⟩
      · rw [hcheck, hnew]
        rfl
      · exact hcrash st hst hdecode htail
  · rintro ⟨st, hst, h⟩ env hcrashed
    rcases crashed_fork.mp hcrashed with hcrashed | ⟨a, hreply, hcrashed⟩
    · rw [crashes_bind] at hcrashed
      rcases hcrashed with hcrashed | ⟨_, -, hcrashed⟩
      · exact not_crashes_checkUpload hst hcrashed
      · exact not_crashes_lift _ hcrashed
    · obtain ⟨u, hcheck, -⟩ := exists_of_stop_bind_eq_ok hreply
      obtain ⟨hdecode, htail⟩ := hsafe env st hst hcrashed
      exact htail (h hcheck hdecode)

/-- A command that only asks for its ticket. -/
theorem crashes_adminticket_bind {α : Type} {f : Bytes → Except Stop α}
    (hf : ∀ ticket, ¬ Crashes (f ticket)) :
    Crashes (adminticket r >>= f) ↔ r.data[ascii "adminticket"]? = none := by
  rw [crashes_bind, adminticket, crashes_member_bind]
  constructor
  · rintro (h | ⟨ticket, -, h⟩)
    · cases hticket : r.data[ascii "adminticket"]? with
      | none => rfl
      | some t => exact absurd (h t hticket) (not_crashes_lift _)
    · exact absurd h (hf ticket)
  · intro h
    refine .inl fun t ht => ?_
    rw [h] at ht
    cases ht

theorem crashed_mk {reply : Except Stop Response} {child : Except Stop Unit}
    (h : ¬ Crashes child) : (Run.mk reply child).Crashed ↔ Crashes reply :=
  or_iff_left h

/-- A command that replies without a child process and goes through one member first. -/
theorem not_crashed_member {name : String} {ok : ParseNode → Bool} {reply : Outcomes → Run}
    (h : ∀ env, (reply env).Crashed ↔ r.data[ascii name]? = none) :
    (∀ env, ¬ (reply env).Crashed) ↔ Safe r.data [.member name ok] := by
  rw [← not_iff_not, not_safe_last, not_forall_not]
  exact ⟨fun ⟨env, hcrash⟩ => (h env).mp hcrash, fun hnone => ⟨smooth, (h smooth).mpr hnone⟩⟩

theorem crashed_update (env : Outcomes) : Crashes (update lib env r) ↔
    ¬ Safe r.data [.member "adminticket" (readsString r), .member "files" fun _ => true] := by
  have hupdate (ticket : Bytes) : Crashes (do
      let ok ← commandUpdate lib env r ticket
      pure (Response.update ok)) ↔ ¬ Safe r.data [.member "files" fun _ => true] := by
    rw [not_safe_last, crashes_bind, commandUpdate]
    cases hst : r.data[ascii "files"]? with
    | none =>
      refine ⟨fun _ => rfl, fun _ => .inl ?_⟩
      rw [Request.getFiles, Request.member, hst]
      rfl
    | some st =>
      refine ⟨fun h => absurd h ?_, fun h => (by cases h)⟩
      rintro (h | ⟨ok, -, h⟩)
      · rw [getFiles_eq hst, crashes_lift_bind] at h
        obtain ⟨files, -, h⟩ := h
        obtain ⟨_, -, h⟩ := crashes_lift_bind.mp h
        obtain ⟨_, -, h⟩ := crashes_lift_bind.mp h
        split at h
        · exact not_crashes_pure _ h
        · rename_i hcrash
          rcases crashes_bind.mp hcrash with hcrash | ⟨_, -, hcrash⟩
          · exact not_crashes_save hst hcrash
          · exact not_crashes_delete hst hcrash
        · exact not_crashes_pure _ h
      · exact not_crashes_pure _ h
  have hread : update lib env r = (do
      let t ← r.member "adminticket"
      let ticket ← lift (r.getString t)
      let ok ← commandUpdate lib env r ticket
      pure (Response.update ok)) := by
    rw [update, adminticket, bind_assoc]
  rw [hread]
  exact ⟨not_safe_of_crashes fun ticket => (hupdate ticket).mp,
    crashes_of_not_safe fun ticket => (hupdate ticket).mpr⟩

/-- A reply that needs the ticket and nothing else of the request. -/
theorem not_crashed_ticket {f : Outcomes → Bytes → Except Stop Response}
    {child : Outcomes → Except Stop Unit} (hf : ∀ env ticket, ¬ Crashes (f env ticket))
    (hchild : ∀ env, ¬ Crashes (child env)) :
    (∀ env, ¬ (Run.mk (adminticket r >>= f env) (child env)).Crashed) ↔
      Safe r.data [.member "adminticket" fun _ => true] := by
  apply not_crashed_member
  intro env
  exact (crashed_mk (hchild env)).trans (crashes_adminticket_bind (hf env))

theorem crashed_available (env : Outcomes) :
    (Run.mk (available lib env r) (pure ())).Crashed ↔ r.data[ascii "maxmemory"]? = none := by
  rw [crashed_mk (not_crashes_pure ()), available, crashes_member_bind]
  cases r.data[ascii "maxmemory"]? with
  | none => exact ⟨fun _ => rfl, fun _ t h => (by cases h)⟩
  | some t =>
    refine ⟨fun h => absurd (h t rfl) ?_, fun h => (by cases h)⟩
    simp only [crashes_lift_bind, not_crashes_pure, and_false, exists_false, not_false_eq_true]

end Requests

/-- No process is killed on a request, whatever else happens in the server, exactly if the members
that the command goes through are there, up to the first check that refuses the request. -/
theorem not_crashed_iff : (∀ env, ¬ (process lib env r).Crashed) ↔ Safe r.data (accesses lib r) := by
  unfold process accesses
  -- one method after the other, as `process` compares the name
  by_cases havailable : r.methodName = ascii "available"
  · simp only [if_pos havailable]
    exact not_crashed_member crashed_available
  simp only [if_neg havailable]
  by_cases hrequest : r.methodName = ascii "request"
  · simp only [if_pos hrequest]
    exact not_crashed_upload rfl (fun env st => not_safe_of_requestChild)
      fun st hst hdecode => requestChild_of_not_safe hst
        (save_of_filesDecode hst rfl (fun _ _ => rfl) hdecode) fun _ _ => rfl
  simp only [if_neg hrequest]
  by_cases hdirect : r.methodName = ascii "directrun"
  · simp only [if_pos hdirect]
    exact not_crashed_upload rfl (fun env st => not_safe_of_directRunChild)
      fun st hst hdecode => directRunChild_of_not_safe hst
        (save_of_filesDecode hst rfl (fun _ _ => rfl) hdecode) fun _ _ => rfl
  simp only [if_neg hdirect]
  by_cases hresult : r.methodName = ascii "getresult"
  · have hticket : r.methodName = ascii "getresult" ∨ r.methodName = ascii "running" ∨
        r.methodName = ascii "stop" := .inl hresult
    simp only [if_pos hresult, if_pos hticket]
    refine not_crashed_ticket (fun env ticket => ?_) fun env => not_crashes_pure ()
    simp only [crashes_lift_bind, not_crashes_lift, and_false, exists_false, not_false_eq_true]
  simp only [if_neg hresult]
  by_cases hrunning : r.methodName = ascii "running"
  · have hticket : r.methodName = ascii "getresult" ∨ r.methodName = ascii "running" ∨
        r.methodName = ascii "stop" := .inr (.inl hrunning)
    simp only [if_pos hrunning, if_pos hticket]
    refine not_crashed_ticket (fun env ticket h => ?_) fun env => not_crashes_pure ()
    split at h
    · cases h
    · exact not_crashes_pure _ h
  simp only [if_neg hrunning]
  by_cases hstop : r.methodName = ascii "stop"
  · have hticket : r.methodName = ascii "getresult" ∨ r.methodName = ascii "running" ∨
        r.methodName = ascii "stop" := .inr (.inr hstop)
    simp only [if_pos hstop, if_pos hticket]
    exact not_crashed_ticket (fun env ticket => not_crashes_pure _) fun env => not_crashes_lift _
  have hticket : ¬ (r.methodName = ascii "getresult" ∨ r.methodName = ascii "running" ∨
      r.methodName = ascii "stop") := by
    rintro (h | h | h)
    · exact hresult h
    · exact hrunning h
    · exact hstop h
  simp only [if_neg hstop, if_neg hticket]
  -- whether an update crashes does not depend on the environment
  by_cases hupdate : r.methodName = ascii "update"
  · simp only [if_pos hupdate]
    rw [← not_iff_not, not_forall_not]
    constructor
    · rintro ⟨env, h⟩
      exact (crashed_update env).mp ((crashed_mk (not_crashes_pure ())).mp h)
    · intro h
      exact ⟨smooth, (crashed_mk (not_crashes_pure ())).mpr ((crashed_update smooth).mpr h)⟩
  simp only [if_neg hupdate]
  refine ⟨fun _ => trivial, fun _ env h => ?_⟩
  rcases h with h | h
  · cases h
  · cases h

/-- A request to stop a task, without a ticket. -/
def stopWithoutTicket : Bytes :=
  ascii "\x7b\"jsonrpc\":\"2.0\",\"method\":\"stop\",\"params\":\x7b\x7d,\"id\":\"1\"\x7d"

/-- The request is accepted, and the process is killed on it. -/
theorem not_not_crashed_stop : ¬ ∀ (u : Json.Uninit) (lib : FloatLib) (env : Outcomes) (body : Bytes)
    (r : Request), Request.ofBody u body = .ok r → ¬ (process lib env r).Crashed := by
  intro h
  have haccepted : (Request.ofBody .zero stopWithoutTicket).map
      (fun r => (r.methodName, r.data.contains (ascii "adminticket"))) =
        .ok (ascii "stop", false) := by decide +kernel
  cases hr : Request.ofBody .zero stopWithoutTicket with
  | error e =>
    rw [hr] at haccepted
    cases haccepted
  | ok r =>
    rw [hr] at haccepted
    obtain ⟨hmethod, hticket⟩ := Prod.mk.inj (Except.ok.inj haccepted)
    have hnone : r.data[ascii "adminticket"]? = none :=
      Std.TreeMap.getElem?_eq_none_of_contains_eq_false hticket
    apply h .zero FloatLib.integers smooth stopWithoutTicket r hr
    have hne (s : String) (hs : ascii "stop" ≠ ascii s) : r.methodName ≠ ascii s := hmethod ▸ hs
    rw [process, if_neg (hne "available" (by decide)), if_neg (hne "request" (by decide)),
      if_neg (hne "directrun" (by decide)), if_neg (hne "getresult" (by decide)),
      if_neg (hne "running" (by decide)), if_pos hmethod]
    exact .inl ((crashes_adminticket_bind fun ticket => not_crashes_pure _).mpr hnone)

end VplJail.Jail.Dispatch
