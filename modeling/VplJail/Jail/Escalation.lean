import VplJail.Util.Text

/-!
# Stopping a batch execution

The control loop of `Jail::run`. An execution that is not monitored or that exceeds a limit is asked
to end, and killed if it goes on. The three causes share `stopSignal`, but one of them hands the
signal itself to `stopPrisonerProcess`, as a `bool`, and so never kills (`escalates_iff`).
-/

namespace VplJail.Jail.ControlLoop

open Util

/-- `SIGTERM`: the signal of the first attempt. -/
def sigterm : ℕ := 15

/-- `SIGKILL`: the signal of the later ones. -/
def sigkill : ℕ := 9

/-- `JAIL_MONITORSTART_TIMEOUT`: seconds for the monitor to come. -/
def monitorstartTimeout : ℤ := 10

/-- How the child ended. The text of a signal is that of `strsignal`. -/
inductive Status
  | signaled (signal : ℕ) (text : Bytes)
  | exited (exitcode : ℤ)
  | unknown
deriving DecidableEq, Repr

/-- What `waitpid` answers. -/
inductive Waited
  | reaped (status : Status)
  | other
  | failed
  | running
deriving DecidableEq, Repr

/-- What an iteration meets: the redirector before and after `advance`, the child, the clock and the
task. -/
structure Iteration where
  active : Bool := true
  outputSize : ℕ := 0
  waited : Waited := .running
  now : ℤ
  startTime : ℤ
  monitored : Bool := true
  outOfMemory : Bool := false
  memoryLimit : Bytes := []
deriving DecidableEq, Repr

/-- `elapsedTime`, the difference of the times as an `int`. -/
def Iteration.elapsedTime (i : Iteration) : ℤ :=
  (i.now - i.startTime).bmod (2 ^ 32)

/-- The arguments of `run`, and `getMaxTime`. -/
structure Launch where
  othermaxtime : ℤ
  getMaxTime : ℤ
  VNCLaunch : Bool
deriving DecidableEq, Repr

/-- `maxtime`: the seconds that the program may run. -/
def Launch.maxtime (launch : Launch) : ℤ :=
  if launch.othermaxtime ≠ 0 then launch.othermaxtime else launch.getMaxTime

/-- The variables of the loop. -/
structure Control where
  stopSignal : ℕ
  lastTime : ℤ
deriving DecidableEq, Repr

/-- An attempt to stop the child: the messages added, whether the redirector is stopped, the argument
of `stopPrisonerProcess`, and the signal sent to the group of the child. -/
structure Attempt where
  messages : List Bytes
  stopped : Bool
  soft : Bool
  signal : ℕ
deriving DecidableEq, Repr

/-- The body that the branches of the three causes share. -/
def attempt (stopSignal : ℕ) (message : Bytes) (soft : Bool) : Attempt where
  messages := if stopSignal ≠ sigkill then [message] else []
  stopped := stopSignal = sigkill
  soft := soft
  signal := stopSignal

/-- The execution is not monitored. The argument of `stopPrisonerProcess` is `stopSignal`. -/
def stopNotMonitored (stopSignal : ℕ) : Attempt :=
  attempt stopSignal (ascii "browser connection error.") (stopSignal ≠ 0)

/-- The time limit is reached. -/
def stopTimeLimit (stopSignal : ℕ) (maxtime : ℤ) : Attempt :=
  attempt stopSignal (ascii "execution time limit reached (" ++ itos maxtime ++ ascii " seconds).")
    (stopSignal ≠ sigkill)

/-- The memory limit is reached. -/
def stopOutOfMemory (stopSignal : ℕ) (memoryLimit : Bytes) : Attempt :=
  attempt stopSignal (ascii "out of memory (" ++ memoryLimit ++ ascii ")") (stopSignal ≠ sigkill)

/-- The messages for a child that has ended. -/
def endMessages (i : Iteration) (status : Status) : List Bytes :=
  if i.outOfMemory then [ascii "out of memory (" ++ i.memoryLimit ++ ascii ")"]
  else match status with
    | .signaled signal text =>
        [ascii "program terminated due to \"" ++ text ++ ascii "\" (" ++ itos signal ++ ascii ")"]
    | .exited exitcode =>
        if exitcode ≠ 0 then
          [ascii "program terminated normally with exit code " ++ itos exitcode ++ ascii "."]
        else []
    | .unknown => [ascii "program terminated but unknown reason."]

/-- How an iteration ends. -/
inductive Step
  | leave (messages : List Bytes)
  | again (control : Control) (attempt : Option Attempt)
deriving DecidableEq, Repr

/-- An iteration in a new second. -/
def control (launch : Launch) (c : Control) (i : Iteration) : Step :=
  if monitorstartTimeout < i.elapsedTime ∧ ¬ i.monitored then
    .again ⟨sigkill, i.now⟩ (some (stopNotMonitored c.stopSignal))
  else if launch.maxtime ≤ i.elapsedTime then
    .again ⟨sigkill, i.now⟩ (some (stopTimeLimit c.stopSignal launch.maxtime))
  else if i.outOfMemory then
    .again ⟨sigkill, i.now⟩ (some (stopOutOfMemory c.stopSignal i.memoryLimit))
  else .again ⟨c.stopSignal, i.now⟩ none

/-- An iteration of the loop. -/
def iterate (launch : Launch) (c : Control) (i : Iteration) : Step :=
  if ¬ i.active then .leave []
  else match i.waited with
    | .reaped status => .leave (endMessages i status)
    | .other => .leave []
    | .failed => .leave []
    | .running =>
        if launch.VNCLaunch ∧ 0 < i.outputSize then .leave []
        else if c.lastTime = i.now then .again c none
        else control launch c i

/-- The attempts of the loop. -/
def attempts (launch : Launch) : Control → List Iteration → List Attempt
  | _, [] => []
  | c, i :: is =>
      match iterate launch c i with
      | .leave _ => []
      | .again c' a => a.toList ++ attempts launch c' is

/-- The variables before the loop. -/
def start (now : ℤ) : Control := ⟨sigterm, now⟩

/-! ## The law -/

/-- The first attempt. -/
structure IsSoft (a : Attempt) : Prop where
  soft : a.soft = true
  signal : a.signal = sigterm
  message : a.messages.length = 1

/-- A later attempt. -/
structure IsHard (a : Attempt) : Prop where
  hard : a.soft = false
  signal : a.signal = sigkill
  noMessage : a.messages = []
  stopped : a.stopped = true

/-- The first attempt is soft and the others are hard. -/
def Escalates : List Attempt → Prop
  | [] => True
  | a :: as => IsSoft a ∧ ∀ b ∈ as, IsHard b

/-- The iteration comes to the branch of an execution that is not monitored. -/
def NotMonitored (launch : Launch) (c : Control) (i : Iteration) : Prop :=
  i.active = true ∧ i.waited = .running ∧ ¬ (launch.VNCLaunch = true ∧ 0 < i.outputSize) ∧
    c.lastTime ≠ i.now ∧ monitorstartTimeout < i.elapsedTime ∧ i.monitored = false

/-- Once the loop has tried to stop the execution, no iteration comes to that branch. -/
def MonitoredAtKill (launch : Launch) : Control → List Iteration → Prop
  | _, [] => True
  | c, i :: is =>
      (c.stopSignal = sigkill → ¬ NotMonitored launch c i) ∧
        match iterate launch c i with
        | .leave _ => True
        | .again c' _ => MonitoredAtKill launch c' is

/-! ## One iteration -/

section Step

variable {launch : Launch} {c c' : Control} {i : Iteration} {a : Attempt}

/-- What an iteration does that goes on: it makes no attempt, or one of a cause. -/
theorem iterate_cases {o : Option Attempt} (h : iterate launch c i = .again c' o) :
    (o = none ∧ c'.stopSignal = c.stopSignal ∧ ¬ NotMonitored launch c i) ∨
      (o = some (stopNotMonitored c.stopSignal) ∧ c'.stopSignal = sigkill ∧
        NotMonitored launch c i) ∨
      (∃ message, o = some (attempt c.stopSignal message (c.stopSignal ≠ sigkill)) ∧
        c'.stopSignal = sigkill ∧ ¬ NotMonitored launch c i) := by
  rw [iterate] at h
  split at h
  · cases h
  rename_i hactive
  split at h
  · cases h
  · cases h
  · cases h
  rename_i hrunning
  split at h
  · cases h
  rename_i hoptions
  split at h
  · rename_i hnow
    cases h
    exact .inl ⟨rfl, rfl, fun hnot => hnot.2.2.2.1 hnow⟩
  rename_i hnow
  -- `control` tests for a monitor that has not come, then for the two limits
  rw [control] at h
  split at h
  · rename_i hmonitored
    cases h
    refine .inr (.inl ⟨rfl, rfl, not_not.mp hactive, hrunning, hoptions, hnow, hmonitored.1, ?_⟩)
    exact Bool.eq_false_of_not_eq_true hmonitored.2
  rename_i hmonitored
  have hnot : ¬ NotMonitored launch c i := by
    rintro ⟨-, -, -, -, helapsed, hfalse⟩
    exact hmonitored ⟨helapsed, by rw [hfalse]; exact Bool.false_ne_true⟩
  split at h
  · cases h
    exact .inr (.inr ⟨_, rfl, rfl, hnot⟩)
  split at h
  · cases h
    exact .inr (.inr ⟨_, rfl, rfl, hnot⟩)
  · cases h
    exact .inl ⟨rfl, rfl, hnot⟩

/-- An iteration that leaves the loop does not come to the branch. -/
theorem not_notMonitored_of_leave {messages : List Bytes}
    (h : iterate launch c i = .leave messages) : ¬ NotMonitored launch c i := by
  rintro ⟨hactive, hrunning, hoptions, hnow, helapsed, hfalse⟩
  rw [iterate, if_neg (not_not.mpr hactive), hrunning] at h
  dsimp only at h
  rw [if_neg hoptions, if_neg hnow, control, if_pos ⟨helapsed, by rw [hfalse]; simp⟩] at h
  cases h

/-! ## Attempts -/

/-- The first attempt is soft, whatever its cause. -/
theorem isSoft_attempt (message : Bytes) {soft : Bool} (hsoft : soft = true) :
    IsSoft (attempt sigterm message soft) :=
  ⟨hsoft, rfl, rfl⟩

/-- A later attempt is hard if it does not ask for a soft one. -/
theorem isHard_attempt_iff (message : Bytes) (soft : Bool) :
    IsHard (attempt sigkill message soft) ↔ soft = false :=
  ⟨IsHard.hard, fun hsoft => ⟨hsoft, rfl, rfl, rfl⟩⟩

/-- The later attempts are hard just when none of them is for an execution that is not monitored. -/
theorem forall_isHard_iff (launch : Launch) (is : List Iteration) {c : Control}
    (hc : c.stopSignal = sigkill) :
    (∀ a ∈ attempts launch c is, IsHard a) ↔ MonitoredAtKill launch c is := by
  induction is generalizing c with
  | nil => exact iff_of_true (fun a ha => absurd ha List.not_mem_nil) trivial
  | cons i is ih =>
    rw [attempts, MonitoredAtKill]
    cases hstep : iterate launch c i with
    | leave messages =>
      have hnot := not_notMonitored_of_leave hstep
      exact iff_of_true (fun a ha => absurd ha List.not_mem_nil) ⟨fun _ => hnot, trivial⟩
    | again c' o =>
      dsimp only
      rcases iterate_cases hstep with ⟨rfl, hsignal, hnot⟩ | ⟨rfl, hsignal, hnot⟩ |
        ⟨message, rfl, hsignal, hnot⟩
      · rw [Option.toList_none, List.nil_append, ih (hsignal.trans hc)]
        exact (and_iff_right fun _ => hnot).symm
      · -- the attempt passes the signal on as a truth value
        rw [hc, Option.toList_some]
        refine iff_of_false (fun hall => ?_) (fun hmonitored => hmonitored.1 rfl hnot)
        have hhard := hall _ (List.mem_append_left _ (List.mem_singleton_self _))
        exact Bool.noConfusion ((isHard_attempt_iff _ _).mp hhard)
      · rw [Option.toList_some, List.singleton_append, List.forall_mem_cons, ih hsignal, hc,
          isHard_attempt_iff]
        exact and_congr_left fun _ => iff_of_true rfl fun _ => hnot

/-- Before the first attempt there is nothing to meet. -/
theorem escalates_attempts_iff (launch : Launch) (is : List Iteration) {c : Control}
    (hc : c.stopSignal = sigterm) :
    Escalates (attempts launch c is) ↔ MonitoredAtKill launch c is := by
  induction is generalizing c with
  | nil => exact Iff.rfl
  | cons i is ih =>
    have hterm : c.stopSignal = sigkill → ¬ NotMonitored launch c i := by
      rw [hc]
      exact fun heq => absurd heq (by decide)
    rw [attempts, MonitoredAtKill, and_iff_right hterm]
    cases hstep : iterate launch c i with
    | leave messages => exact Iff.rfl
    | again c' o =>
      dsimp only
      rcases iterate_cases hstep with ⟨rfl, hsignal, -⟩ | ⟨rfl, hsignal, -⟩ |
        ⟨message, rfl, hsignal, -⟩
      · rw [Option.toList_none, List.nil_append]
        exact ih (hsignal.trans hc)
      · have hsoft : IsSoft (stopNotMonitored c.stopSignal) := by
          rw [hc]
          exact isSoft_attempt _ rfl
        exact (and_iff_right hsoft).trans (forall_isHard_iff launch is hsignal)
      · have hsoft : IsSoft (attempt c.stopSignal message (c.stopSignal ≠ sigkill)) := by
          rw [hc]
          exact isSoft_attempt _ rfl
        exact (and_iff_right hsoft).trans (forall_isHard_iff launch is hsignal)

/-- In every run of the loop, the first attempt is soft and the later ones are hard just when none of
these is for an execution that is not monitored. -/
theorem escalates_iff (launch : Launch) (now : ℤ) (is : List Iteration) :
    Escalates (attempts launch (start now) is) ↔ MonitoredAtKill launch (start now) is :=
  escalates_attempts_iff launch is rfl

/-- An execution that is not monitored for two seconds. -/
theorem not_escalates :
    ¬ ∀ (launch : Launch) (now : ℤ) (is : List Iteration),
      Escalates (attempts launch (start now) is) := by
  intro hall
  have hescalates := hall ⟨0, 100, false⟩ 0
    [{ now := 11, startTime := 0, monitored := false },
      { now := 12, startTime := 0, monitored := false }]
  exact absurd (hescalates.2 (stopNotMonitored sigkill) (by decide +kernel)).hard (by decide)

end Step

end VplJail.Jail.ControlLoop
