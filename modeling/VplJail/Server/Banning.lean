import VplJail.Server.Children

/-!
# Banned addresses

An address is banned by the criterion of the configuration's documentation: more than 20 * FAIL2BAN
failures, and more failures than successes, since the counters were reset. The counts are those of
what has happened: a process that is reaped counts for the address in `children`, the clean-up
processes for 127.0.0.1.
-/

namespace VplJail.Server

/-- Whether something that has happened is a failure of an address: a rejection, or a process that
has ended neither successfully nor neutrally. -/
def Happening.isFailure (IP : Bytes) : Happening → Bool
  | rejected IP' => IP' = IP
  | reaped _ origin status =>
      origin.IP = IP ∧ status.exitStatus ≠ .success ∧ status.exitStatus ≠ .neutral
  | _ => false

/-- Whether something that has happened is a success of an address. -/
def Happening.isSuccess (IP : Bytes) : Happening → Bool
  | reaped _ origin status => origin.IP = IP ∧ status.exitStatus = .success
  | _ => false

/-- The failures of an address. -/
def failures (IP : Bytes) (happenings : List Happening) : ℕ :=
  happenings.countP (·.isFailure IP)

/-- The successes of an address. -/
def successes (IP : Bytes) (happenings : List Happening) : ℕ :=
  happenings.countP (·.isSuccess IP)

/-- The log of an address; an address that has none is as one without requests. -/
def logOf (logs : Logs) (IP : Bytes) : Log :=
  logs[IP]?.getD {}

theorem logOf_countLog (logs : Logs) (IP IP' : Bytes) (es : ExitStatus) :
    logOf (countLog logs IP es) IP' =
      if es ≠ .neutral ∧ IP = IP' then (logOf logs IP').count es else logOf logs IP' := by
  unfold countLog logOf
  by_cases hn : es = .neutral
  · simp [hn]
  · rw [if_neg hn, Std.TreeMap.getElem?_insert]
    by_cases hIP : IP = IP'
    · subst hIP
      simp [hn]
    · simp [hn, hIP]

/-- The requests in the log of an address are those that are not neutral. -/
theorem logOf_logsOf (IP : Bytes) (requests : List (Bytes × ExitStatus)) :
    logOf (logsOf requests) IP =
      { requests := requests.countP fun r => r.1 = IP ∧ r.2 ≠ .neutral
        errors := requests.countP fun r => r.1 = IP ∧ isError r } := by
  induction requests using List.reverseRecOn with
  | nil => rfl
  | append_singleton requests request ih =>
      obtain ⟨IP', es⟩ := request
      rw [logsOf_append, logOf_countLog, ih]
      by_cases hIP : IP' = IP <;> by_cases hn : es = .neutral <;> by_cases hs : es = .success <;>
        simp_all [Log.count, isError]

theorem failures_eq (IP : Bytes) (happenings : List Happening) :
    failures IP happenings =
      (happenings.filterMap (·.request)).countP fun r => r.1 = IP ∧ isError r := by
  rw [failures, List.countP_filterMap]
  congr 1
  funext happening
  cases happening <;>
    simp [Happening.isFailure, Happening.request, isError, and_comm]

/-- A request that is not neutral is a failure or a success. -/
theorem failures_add_successes (IP : Bytes) (happenings : List Happening) :
    failures IP happenings + successes IP happenings =
      (happenings.filterMap (·.request)).countP fun r => r.1 = IP ∧ r.2 ≠ .neutral := by
  rw [List.countP_filterMap]
  induction happenings with
  | nil => rfl
  | cons happening happenings ih =>
      -- one happening is counted once or not at all
      have hone : ([happening].countP (·.isFailure IP)) + [happening].countP (·.isSuccess IP) =
          [happening].countP fun h =>
            (h.request.map fun r => decide (r.1 = IP ∧ r.2 ≠ .neutral)).getD false := by
        cases happening with
        | rejected IP' => simp [Happening.isFailure, Happening.isSuccess, Happening.request]
        | reaped pid origin status =>
            by_cases hs : status.exitStatus = .success <;>
              simp [Happening.isFailure, Happening.isSuccess, Happening.request, hs]
        | _ => rfl
      simp only [failures, successes, List.countP_cons, List.countP_nil] at *
      omega

/-- `isBanned`, of the requests and errors of the log that it looks at. -/
theorem isBanned_snd (fail2ban now : ℤ) (IP : Bytes) (d : Daemon)
    (h0 : 0 ≤ fail2ban) (hmax : fail2ban ≤ (2 ^ 31 - 1) / 20) :
    (d.isBanned fail2ban now IP).2 = true ↔
      fail2ban ≠ 0 ∧ 20 * fail2ban < (logOf (d.cleanOld now).logs IP).errors ∧
        (logOf (d.cleanOld now).logs IP).requests / 2 <
          (logOf (d.cleanOld now).logs IP).errors := by
  have hproduct : (20 * fail2ban).bmod (2 ^ 32) = 20 * fail2ban := by
    rw [Int.bmod_eq_of_le] <;> omega
  unfold Daemon.isBanned logOf
  cases h : (d.cleanOld now).logs[IP]? with
  | none => simp [h]
  | some log => simp only [h, hproduct]; simp [and_assoc]

theorem cleanOld_logs {s : System} (h : Invariant s) (now : ℤ) :
    (s.daemon.cleanOld now).logs =
      logsOf ((recent (s.history ++ [.accepted now])).2.filterMap (·.request)) :=
  (h.accept now).logs

/-- An address is banned if and only if banning is on and, since the last reset, it has more than
20 * FAIL2BAN failures and more failures than successes. -/
theorem isBanned_iff {fail2ban : ℤ} (h0 : 0 ≤ fail2ban) (hmax : fail2ban ≤ (2 ^ 31 - 1) / 20)
    {s : System} (h : s.Reaches fail2ban) (now : ℤ) (IP : Bytes) :
    (s.daemon.isBanned fail2ban now IP).2 = true ↔
      fail2ban ≠ 0 ∧
        20 * fail2ban < failures IP (recent (s.history ++ [.accepted now])).2 ∧
        successes IP (recent (s.history ++ [.accepted now])).2 <
          failures IP (recent (s.history ++ [.accepted now])).2 := by
  rw [isBanned_snd fail2ban now IP s.daemon h0 hmax,
    cleanOld_logs (invariant_of_reaches_init h) now, logOf_logsOf, ← failures_eq,
    ← failures_add_successes]
  generalize failures IP _ = failed
  generalize successes IP _ = succeeded
  -- the requests are halved downwards, which leaves the comparison as it is
  have hhalf : (failed + succeeded) / 2 < failed ↔ succeeded < failed := by omega
  simp only [hhalf]

/-- One failure more than 20 bans an address where FAIL2BAN is 1. -/
theorem isBanned_iff_failures : ∃ s,
    System.run 1
      (List.replicate 21 [.launch 100 (ascii "10.0.0.1") (some 7), .terminate 7 (.exited 1),
        .harvest, .waitpid (some 7), .waitpid none]).flatten {} = some s ∧
    (s.daemon.isBanned 1 101 (ascii "10.0.0.1")).2 = true := by
  have hrun : (System.run 1
      (List.replicate 21 [.launch 100 (ascii "10.0.0.1") (some 7), .terminate 7 (.exited 1),
        .harvest, .waitpid (some 7), .waitpid none]).flatten {}).map (fun s =>
          let since := (recent (s.history ++ [.accepted 101])).2
          (failures (ascii "10.0.0.1") since, successes (ascii "10.0.0.1") since)) =
      some (21, 0) := by
    decide +kernel
  obtain ⟨s, hs, hcounts⟩ := Option.map_eq_some_iff.mp hrun
  obtain ⟨hfailures, hsuccesses⟩ := Prod.mk.inj hcounts
  refine ⟨s, hs, (isBanned_iff (by decide) (by decide) (System.reaches_of_run .refl hs) 101
    (ascii "10.0.0.1")).mpr ?_⟩
  simp only [hfailures, hsuccesses]
  decide

end VplJail.Server
