import VplJail.Common.Retry
import VplJail.Task.Draws
import VplJail.Task.Home
import VplJail.Util.RemoveDir

/-!
# The selection of a prisoner

`selectPrisoner` draws prisoners until it can make both directories of one. The draws need not reach a
free prisoner (`selectPrisoner_iff`). A selection that throws may leave a control directory behind, when
the home of the prisoner cannot be made or handed over, and it has cleaned up after the prisoners whose
homes it came upon (`isAtomic_iff`).
-/

namespace VplJail.Task

open Util Retry

/-! ## The directories -/

/-- What is found at the control path and at the home path of each prisoner, and at `/tmp` of the
jail. -/
structure Directories where
  control : ℕ → Option Entry
  home : ℕ → Option Entry
  tmp : Option Entry

/-- The system calls of an attempt that fail for another reason than a file that exists, with
`strerror(errno)`. -/
structure Faults where
  control : Option String
  home : Option String
  chown : Option String
  chmod : Option String

/-- No system call fails. -/
def Faults.none : Faults := ⟨.none, .none, .none, .none⟩

/-- What `mkdir` does. -/
inductive Mkdir
  | created
  | eexist
  | failed (reason : String)

/-- `mkdir` where something is found, or not, and a fault may come first. -/
def mkdir (fault : Option String) (found : Option Entry) : Mkdir :=
  match fault with
  | some reason => .failed reason
  | none => if found.isSome then .eexist else .created

/-- `rmdir`: an empty directory is gone. -/
def rmdir : Option Entry → Option Entry
  | some (.node _ []) => none
  | found => found

/-- An empty directory, made by root. -/
def emptyDir : Entry := .node ⟨0, 0⟩ []

/-- The directory `/tmp` of the jail. -/
def tmpPath (cfg : Configuration) : Bytes := cfg.jailPath ++ ascii "/tmp"

/-- An attempt of `selectPrisoner` at a prisoner: the loop goes on without a value. -/
def tryPrisoner (cfg : Configuration) (faults : Faults) (uid : ℕ) (d : Directories) :
    Directories × Except Thrown (Option ℕ) :=
  match setPrisonerID cfg uid with
  | .error e => (d, .error e)
  | .ok prisoner =>
      let homePath := homePath cfg prisoner
      let failed (message : String) : Except Thrown (Option ℕ) :=
        .error (.http internalServerErrorCode message)
      match mkdir faults.control (d.control prisoner) with
      | .failed reason =>
          (d, failed ("I can't create prisoner control dir \"" ++ messageOf (itos prisoner) ++ "\" : " ++
            reason))
      | .eexist => (d, .ok none)
      | .created =>
          let control := Function.update d.control prisoner (some emptyDir)
          match mkdir faults.home (d.home prisoner) with
          | .created =>
              let owned : Entry := .node ⟨cfg.homeDirOwnerUid, prisoner⟩ []
              let removed (home : Entry) :=
                Function.update d.home prisoner (removeDir homePath (some home) 0 true).1
              match faults.chown with
              | some reason =>
                  (⟨control, removed emptyDir, d.tmp⟩,
                    failed ("I can't change prisoner home dir \"" ++ messageOf homePath ++
                      "\" to proper owner: " ++ reason))
              | none =>
                  match faults.chmod with
                  | some reason =>
                      (⟨control, removed owned, d.tmp⟩,
                        failed ("I can't change prisoner home dir \"" ++ messageOf homePath ++
                          "\" to proper permissions: " ++ reason))
                  | none =>
                      (⟨control, Function.update d.home prisoner (some owned), d.tmp⟩,
                        .ok (some prisoner))
          | .eexist =>
              -- a home without a control directory is a leftover
              (⟨Function.update control prisoner (rmdir (control prisoner)),
                  Function.update d.home prisoner
                    (removeDir homePath (d.home prisoner) prisoner true).1,
                  (removeDir (tmpPath cfg) d.tmp prisoner false).1⟩, .ok none)
          | .failed reason =>
              (⟨control, d.home, d.tmp⟩, failed ("I can't create prisoner home dir \"" ++
                messageOf homePath ++ "\" : " ++ reason))

/-- What is thrown when all the attempts have gone on. -/
def freeUidNotFound : Thrown :=
  .http internalServerErrorCode "I can't select prisoner home dir: free UID not found"

/-- The number of attempts. -/
def ntry (cfg : Configuration) : ℕ := (prisonerRange cfg).toInt.toNat

/-- The prisoner of an attempt. -/
def drawn (cfg : Configuration) (draws : ℕ → Draw) (i : ℕ) : ℕ :=
  (drawnPrisoner cfg (draws i) i).toNat

/-- `selectPrisoner`, given what is drawn and what fails in each attempt. -/
def selectPrisoner (cfg : Configuration) (draws : ℕ → Draw) (faults : ℕ → Faults)
    (d : Directories) : Directories × Except Thrown ℕ :=
  if prisonerRange cfg < 100 then
    (d, .error (.http internalServerErrorCode
      "Prisoner range too small, minPrisoner + 100 < maxPrisoner"))
  else if cfg.firstPrisoner < minPrisonerUid ∨ maxPrisonerUid < cfg.maxPrisoner then
    (d, .error (.http internalServerErrorCode "Prisoner range out of limits, minPrisoner"))
  else
    retry (fun i => tryPrisoner cfg (faults i) (drawn cfg draws i)) freeUidNotFound (ntry cfg) 0 d

theorem ntry_eq (cfg : Configuration) : ntry cfg = cfg.maxPrisoner - cfg.minPrisoner := by
  have hrange := cfg.range
  rw [ntry, toInt_prisonerRange]
  omega

/-- The settings leave range enough. -/
theorem selectPrisoner_eq (cfg : Configuration) (draws : ℕ → Draw) (faults : ℕ → Faults)
    (d : Directories) : selectPrisoner cfg draws faults d =
      retry (fun i => tryPrisoner cfg (faults i) (drawn cfg draws i)) freeUidNotFound
        (ntry cfg) 0 d := by
  have hrange := cfg.range
  have hmin := cfg.minPrisoner_ge
  have hmax := cfg.maxPrisoner_le
  have hsmall : ¬ prisonerRange cfg < 100 := by
    have hhundred : (100 : Int32).toInt = 100 := rfl
    rw [Int32.lt_iff_toInt_lt, toInt_prisonerRange, hhundred]
    omega
  rw [selectPrisoner, if_neg hsmall, if_neg]
  rw [Configuration.firstPrisoner]
  omega

/-! ## What an attempt does -/

section Attempt

/-- A directory is found. -/
def isDir : Option Entry → Bool
  | some (.node _ _) => true
  | _ => false

/-- The home path of a prisoner ends in a name. -/
theorem endsInName_homePath (cfg : Configuration) (uid : ℕ) : EndsInName (homePath cfg uid) := by
  have hno : ∀ b ∈ ascii "p" ++ itos uid, b ≠ 47 := by
    intro b hb
    rcases List.mem_append.mp hb with hb | hb
    · obtain rfl := List.mem_singleton.mp hb
      decide
    · rcases mem_itos hb with rfl | hdigit
      · decide
      · rintro rfl
        exact absurd hdigit (by decide)
  have hlast : lastComponent (homePath cfg uid) = ascii "p" ++ itos uid := by
    have hslash : cfg.jailPath ++ ascii "/home/" = (cfg.jailPath ++ ascii "/home") ++ [47] := by
      rw [List.append_assoc]
      rfl
    rw [lastComponent, homePath, hslash, @List.reverse_append _ _ (ascii "p" ++ itos uid),
      List.takeWhile_append_of_pos fun b hb => decide_eq_true (hno b (List.mem_reverse.mp hb))]
    simp
  rw [EndsInName, hlast]
  exact ⟨List.cons_ne_nil _ _, by simp [ascii], by simp [ascii]⟩

/-- A directory that is removed with force is gone, and anything else stays. -/
theorem removeDir_homePath (cfg : Configuration) (uid owner : ℕ) (found : Option Entry) :
    (removeDir (homePath cfg uid) found owner true).1 = if isDir found then none else found := by
  have hstays (found : Option Entry) (p : Prop) [Decidable p] (q : Prop) [Decidable q] :
      (if p then (found, 0) else if q then (found, 0) else (found, 0)) = (found, 0) := by
    rw [ite_self, ite_self]
  rcases found with _ | (f | ⟨o, cs⟩)
  · exact congrArg Prod.fst (hstays none _ _)
  · exact congrArg Prod.fst (hstays (some (.leaf f)) _ _)
  · rw [(removeDir_eq (endsInName_homePath cfg uid) o cs owner true).1]
    rfl

variable {cfg : Configuration} {faults : Faults} {uid : ℕ} {d : Directories}

/-- A prisoner of the range is set, and any other is refused. -/
theorem setPrisonerID_cases (cfg : Configuration) {uid : ℕ} (huid : uid < 2 ^ 32) :
    cfg.isPrisonerUID uid = true ∧ setPrisonerID cfg uid = .ok uid ∨
      cfg.isPrisonerUID uid = false ∧ ∃ e, setPrisonerID cfg uid = .error e := by
  by_cases hrange : cfg.isPrisonerUID uid = true
  · exact .inl ⟨hrange, (setPrisonerID_eq_ok huid).mpr hrange⟩
  · refine .inr ⟨Bool.not_eq_true _ ▸ hrange, ?_⟩
    have hnat : ((uid : ℤ) % 2 ^ 32).toNat = uid := by omega
    unfold setPrisonerID
    simp only [hnat, hrange]
    split
    · exact ⟨_, rfl⟩
    · exact ⟨_, rfl⟩

theorem mkdir_created {found : Option Entry} (h : found = none) : mkdir none found = .created := by
  rw [h]
  rfl

theorem mkdir_eexist {found : Option Entry} (h : found ≠ none) : mkdir none found = .eexist := by
  rw [mkdir, if_pos (Option.isSome_iff_ne_none.mpr h)]

/-- An attempt at no prisoner of the range. -/
theorem tryPrisoner_refused {e : Thrown} (h : setPrisonerID cfg uid = .error e) :
    tryPrisoner cfg faults uid d = (d, .error e) := by
  rw [tryPrisoner, h]

variable (huid : setPrisonerID cfg uid = .ok uid)

include huid

theorem tryPrisoner_control_failed (h : faults.control ≠ none) :
    ∃ e, tryPrisoner cfg faults uid d = (d, .error e) := by
  obtain ⟨reason, h⟩ := Option.ne_none_iff_exists'.mp h
  rw [tryPrisoner, huid, h]
  exact ⟨_, rfl⟩

/-- The prisoner has a control directory. -/
theorem tryPrisoner_occupied (h : faults.control = none) (hcontrol : d.control uid ≠ none) :
    tryPrisoner cfg faults uid d = (d, .ok none) := by
  rw [tryPrisoner, huid, h]
  dsimp only
  rw [mkdir_eexist hcontrol]

variable (h : faults.control = none) (hcontrol : d.control uid = none)

include h hcontrol

/-- The home cannot be made, and the control directory stays. -/
theorem tryPrisoner_home_failed (hhome : faults.home ≠ none) :
    ∃ e, tryPrisoner cfg faults uid d =
      (⟨Function.update d.control uid (some emptyDir), d.home, d.tmp⟩, .error e) := by
  obtain ⟨reason, hhome⟩ := Option.ne_none_iff_exists'.mp hhome
  rw [tryPrisoner, huid, h, hhome]
  dsimp only
  rw [mkdir_created hcontrol]
  exact ⟨_, rfl⟩

variable (hhome : faults.home = none)

include hhome

/-- A leftover home is removed, with what the prisoner has in `/tmp`, and the control directory again. -/
theorem tryPrisoner_leftover (hfound : d.home uid ≠ none) :
    tryPrisoner cfg faults uid d =
      (⟨d.control, Function.update d.home uid (if isDir (d.home uid) then none else d.home uid),
        (removeDir (tmpPath cfg) d.tmp uid false).1⟩, .ok none) := by
  rw [tryPrisoner, huid, h, hhome]
  dsimp only
  have hback : Function.update d.control uid (rmdir (some emptyDir)) = d.control := by
    rw [Function.update_eq_self_iff, hcontrol]
    rfl
  rw [mkdir_created hcontrol, mkdir_eexist hfound, Function.update_self, Function.update_idem, hback]
  dsimp only
  rw [removeDir_homePath]

variable (hfound : d.home uid = none)

include hfound

/-- The home cannot be handed over: it is removed, and the control directory stays. -/
theorem tryPrisoner_handover_failed (hfault : faults.chown ≠ none ∨ faults.chmod ≠ none) :
    ∃ e, tryPrisoner cfg faults uid d =
      (⟨Function.update d.control uid (some emptyDir), d.home, d.tmp⟩, .error e) := by
  have hremoved (o : Owner) : Function.update d.home uid
      (removeDir (homePath cfg uid) (some (.node o [])) 0 true).1 = d.home := by
    rw [removeDir_homePath, Function.update_eq_self_iff, hfound]
    rfl
  rw [tryPrisoner, huid, h, hhome]
  dsimp only
  rw [mkdir_created hcontrol, mkdir_created hfound, emptyDir, hremoved, hremoved]
  cases hchown : faults.chown with
  | some reason => exact ⟨_, rfl⟩
  | none =>
    obtain ⟨reason, hchmod⟩ :=
      Option.ne_none_iff_exists'.mp (hfault.resolve_left (not_not.mpr hchown))
    rw [hchmod]
    exact ⟨_, rfl⟩

/-- The prisoner is selected. -/
theorem tryPrisoner_selected (hchown : faults.chown = none) (hchmod : faults.chmod = none) :
    (tryPrisoner cfg faults uid d).2 = .ok (some uid) := by
  rw [tryPrisoner, huid, h, hhome]
  dsimp only
  rw [mkdir_created hcontrol, mkdir_created hfound, hchown, hchmod]

end Attempt

/-! ## The control directories -/

/-- An attempt leaves the control directories, or it makes one of a prisoner of the range, which stays
if it selects the prisoner or throws. -/
theorem tryPrisoner_control (cfg : Configuration) (faults : Faults) (uid : ℕ) (d : Directories) :
    (tryPrisoner cfg faults uid d).1.control = d.control ∧
        (∀ prisoner, (tryPrisoner cfg faults uid d).2 ≠ .ok (some prisoner)) ∨
      ∃ prisoner, cfg.isPrisonerUID prisoner = true ∧ d.control prisoner = none ∧
        (tryPrisoner cfg faults uid d).1.control =
          Function.update d.control prisoner (some emptyDir) ∧
        ((tryPrisoner cfg faults uid d).2 = .ok (some prisoner) ∨
          ∃ e, (tryPrisoner cfg faults uid d).2 = .error e) := by
  cases hset : setPrisonerID cfg uid with
  | error e =>
    rw [tryPrisoner_refused hset]
    exact .inl ⟨rfl, nofun⟩
  | ok prisoner =>
    have hrange : cfg.isPrisonerUID prisoner = true := isPrisonerUID_of_setPrisonerID hset
    rw [tryPrisoner, hset]
    dsimp only
    cases hcontrol : mkdir faults.control (d.control prisoner) with
    | failed reason => exact .inl ⟨rfl, nofun⟩
    | eexist => exact .inl ⟨rfl, nofun⟩
    | created =>
      have hnone : d.control prisoner = none := by
        cases hfound : d.control prisoner with
        | none => rfl
        | some e =>
          rw [hfound] at hcontrol
          cases hfault : faults.control with
          | none =>
            rw [hfault] at hcontrol
            cases hcontrol
          | some reason =>
            rw [hfault] at hcontrol
            cases hcontrol
      dsimp only
      cases mkdir faults.home (d.home prisoner) with
      | failed reason => exact .inr ⟨prisoner, hrange, hnone, rfl, .inr ⟨_, rfl⟩⟩
      | eexist =>
        -- the source removes the control directory that it has just made
        refine .inl ⟨?_, nofun⟩
        dsimp only
        rw [Function.update_self, Function.update_idem, Function.update_eq_self_iff, hnone]
        rfl
      | created =>
        cases faults.chown with
        | some reason => exact .inr ⟨prisoner, hrange, hnone, rfl, .inr ⟨_, rfl⟩⟩
        | none =>
          cases faults.chmod with
          | some reason => exact .inr ⟨prisoner, hrange, hnone, rfl, .inr ⟨_, rfl⟩⟩
          | none => exact .inr ⟨prisoner, hrange, hnone, rfl, .inl rfl⟩

/-- A selection leaves the control directories, or it makes one of a prisoner of the range, which stays
if it selects the prisoner or throws. -/
theorem selectPrisoner_control (cfg : Configuration) (draws : ℕ → Draw) (faults : ℕ → Faults)
    (d : Directories) :
    (selectPrisoner cfg draws faults d).1.control = d.control ∧
        (∀ uid, (selectPrisoner cfg draws faults d).2 ≠ .ok uid) ∨
      ∃ uid, cfg.isPrisonerUID uid = true ∧ d.control uid = none ∧
        (selectPrisoner cfg draws faults d).1.control =
          Function.update d.control uid (some emptyDir) ∧
        ((selectPrisoner cfg draws faults d).2 = .ok uid ∨
          ∃ e, (selectPrisoner cfg draws faults d).2 = .error e) := by
  rw [selectPrisoner_eq]
  refine retry_induction (P := fun s : Directories => s.control = d.control)
    (Q := fun (s : Directories) r =>
    s.control = d.control ∧ (∀ uid, r ≠ .ok uid) ∨
      ∃ uid, cfg.isPrisonerUID uid = true ∧ d.control uid = none ∧
        s.control = Function.update d.control uid (some emptyDir) ∧
        (r = .ok uid ∨ ∃ e, r = .error e)) ?_ ?_ ?_ rfl
  · intro i s s' hs hattempt
    have hcontrol := tryPrisoner_control cfg (faults i) (drawn cfg draws i) s
    rw [hattempt] at hcontrol
    rcases hcontrol with ⟨heq, -⟩ | ⟨uid, -, -, -, h | ⟨e, h⟩⟩
    · exact heq.trans hs
    · cases h
    · cases h
  · intro i s s' r hs hattempt
    have hcontrol := tryPrisoner_control cfg (faults i) (drawn cfg draws i) s
    rw [hattempt, hs] at hcontrol
    rcases hcontrol with ⟨heq, hne⟩ | ⟨uid, hrange, hnone, heq, h⟩
    · refine .inl ⟨heq, ?_⟩
      rintro uid rfl
      exact hne uid rfl
    · refine .inr ⟨uid, hrange, hnone, heq, h.imp (fun h => ?_) fun h => ?_⟩
      · cases r with
        | error e => cases h
        | ok uid' => exact congrArg _ (Option.some.inj (Except.ok.inj h))
      · obtain ⟨e, h⟩ := h
        cases r with
        | error e' => exact ⟨e', rfl⟩
        | ok uid' => cases h
  · exact fun s hs => .inl ⟨hs, nofun⟩

/-- An attempt leaves the homes of the prisoners with a control directory. -/
theorem tryPrisoner_home (cfg : Configuration) (faults : Faults) (uid : ℕ) (d : Directories) {uid' : ℕ}
    (h : d.control uid' ≠ none) : (tryPrisoner cfg faults uid d).1.home uid' = d.home uid' := by
  rw [tryPrisoner]
  split
  · rfl
  · rename_i prisoner _
    dsimp only
    split
    · rfl
    · rfl
    · rename_i hcreated
      -- the prisoner of the attempt has none
      have hne : uid' ≠ prisoner := by
        rintro rfl
        cases hfault : faults.control with
        | none =>
          rw [hfault, mkdir_eexist h] at hcreated
          cases hcreated
        | some reason =>
          rw [hfault] at hcreated
          cases hcreated
      split
      · split
        · exact Function.update_of_ne hne _ _
        · split <;> exact Function.update_of_ne hne _ _
      · exact Function.update_of_ne hne _ _
      · rfl

/-- So does a selection. -/
theorem selectPrisoner_home (cfg : Configuration) (draws : ℕ → Draw) (faults : ℕ → Faults)
    (d : Directories) {uid : ℕ} (h : d.control uid ≠ none) :
    (selectPrisoner cfg draws faults d).1.home uid = d.home uid := by
  have hattempt (i : ℕ) {s s' : Directories} {r : Except Thrown (Option ℕ)}
      (hs : s.home uid = d.home uid ∧ s.control uid ≠ none)
      (hr : tryPrisoner cfg (faults i) (drawn cfg draws i) s = (s', r)) :
      s'.home uid = d.home uid ∧ s'.control uid ≠ none := by
    have hhome := tryPrisoner_home cfg (faults i) (drawn cfg draws i) s hs.2
    have hcontrol := tryPrisoner_control cfg (faults i) (drawn cfg draws i) s
    rw [hr] at hhome hcontrol
    refine ⟨hhome.trans hs.1, ?_⟩
    rcases hcontrol with ⟨heq, -⟩ | ⟨prisoner, -, hnone, heq, -⟩
    · rw [heq]
      exact hs.2
    · have hne : uid ≠ prisoner := fun heq => hs.2 (heq ▸ hnone)
      rw [heq, Function.update_of_ne hne]
      exact hs.2
  rw [selectPrisoner_eq]
  exact retry_induction (P := fun s : Directories => s.home uid = d.home uid ∧ s.control uid ≠ none)
    (Q := fun (s : Directories) _ => s.home uid = d.home uid)
    (fun i _ _ hs hr => hattempt i hs hr) (fun i _ _ _ hs hr => (hattempt i hs hr).1)
    (fun _ hs => hs.1) ⟨rfl, h⟩

/-! ## What the attempts come upon -/

section Runs

variable (cfg : Configuration) (draws : ℕ → Draw) (faults : ℕ → Faults) (d : Directories)

/-- The attempt finds no home if it comes that far: there is none, or there is a directory and an
earlier attempt at the same prisoner removes it. -/
def HomeFree (i : ℕ) : Prop :=
  d.home (drawn cfg draws i) = none ∨
    isDir (d.home (drawn cfg draws i)) = true ∧ ∃ j < i, drawn cfg draws j = drawn cfg draws i

/-- The attempt ends the selection if no earlier one does. -/
def Ends (i : ℕ) : Prop :=
  cfg.isPrisonerUID (drawn cfg draws i) = false ∨ (faults i).control ≠ none ∨
    d.control (drawn cfg draws i) = none ∧ ((faults i).home ≠ none ∨ HomeFree cfg draws d i)

/-- The attempt makes a control directory, and then the home cannot be made or handed over. -/
structure LeavesControl (i : ℕ) : Prop where
  prisoner : cfg.isPrisonerUID (drawn cfg draws i) = true
  fault : (faults i).control = none
  control : d.control (drawn cfg draws i) = none
  home : (faults i).home ≠ none ∨
    HomeFree cfg draws d i ∧ ((faults i).chown ≠ none ∨ (faults i).chmod ≠ none)

/-- The attempt selects the prisoner, if no earlier one ends the selection. -/
structure Selects (i : ℕ) : Prop where
  prisoner : cfg.isPrisonerUID (drawn cfg draws i) = true
  control : (faults i).control = none ∧ d.control (drawn cfg draws i) = none
  home : (faults i).home = none ∧ HomeFree cfg draws d i
  handover : (faults i).chown = none ∧ (faults i).chmod = none

/-- The attempt takes something away, if it comes upon a home: there is no control directory, and a home
is a directory or the prisoner owns something in `/tmp`. -/
structure CleansUp (i : ℕ) : Prop where
  control : d.control (drawn cfg draws i) = none
  removes : isDir (d.home (drawn cfg draws i)) = true ∨
    (removeDir (tmpPath cfg) d.tmp (drawn cfg draws i) false).1 ≠ d.tmp

/-- What is found at a home path before an attempt, if the earlier ones have gone on. -/
def homesBefore (i : ℕ) (uid : ℕ) : Option Entry :=
  if (d.control uid).isNone ∧ isDir (d.home uid) = true ∧ ∃ j < i, drawn cfg draws j = uid then none
  else d.home uid

/-- What is left in `/tmp` before an attempt, if the earlier ones have gone on. -/
def tmpBefore : ℕ → Option Entry
  | 0 => d.tmp
  | i + 1 =>
      if (d.control (drawn cfg draws i)).isNone then
        (removeDir (tmpPath cfg) (tmpBefore i) (drawn cfg draws i) false).1
      else tmpBefore i

/-- The directories before an attempt, if the earlier ones have gone on. -/
structure Before (i : ℕ) (s : Directories) : Prop where
  control : s.control = d.control
  home : s.home = homesBefore cfg draws d i
  tmp : s.tmp = tmpBefore cfg draws d i

end Runs

section Outline

variable {cfg : Configuration} {draws : ℕ → Draw} {faults : ℕ → Faults} {d s : Directories} {i : ℕ}

theorem before_zero : Before cfg draws d 0 d := by
  refine ⟨rfl, funext fun uid => ?_, rfl⟩
  rw [homesBefore, if_neg]
  rintro ⟨-, -, j, hj, -⟩
  exact absurd hj (Nat.not_lt_zero j)

theorem homesBefore_eq_none_iff (hcontrol : d.control (drawn cfg draws i) = none) :
    homesBefore cfg draws d i (drawn cfg draws i) = none ↔ HomeFree cfg draws d i := by
  rw [homesBefore, HomeFree, hcontrol]
  by_cases hdir : isDir (d.home (drawn cfg draws i)) = true ∧
      ∃ j < i, drawn cfg draws j = drawn cfg draws i
  · rw [if_pos ⟨rfl, hdir⟩]
    exact iff_of_true rfl (.inr hdir)
  · rw [if_neg fun h => hdir h.2, or_iff_left hdir]

/-- The homes change by an attempt at a prisoner without control directory only. -/
theorem homesBefore_succ_of_ne {uid : ℕ}
    (h : uid ≠ drawn cfg draws i ∨ d.control uid ≠ none) :
    homesBefore cfg draws d (i + 1) uid = homesBefore cfg draws d i uid := by
  rw [homesBefore, homesBefore]
  refine if_congr (and_congr_right fun hnone => and_congr_right fun _ => ⟨?_, ?_⟩) rfl rfl
  · rintro ⟨j, hj, hdrawn⟩
    refine ⟨j, (Nat.lt_succ_iff_lt_or_eq.mp hj).resolve_right ?_, hdrawn⟩
    rintro rfl
    exact h.elim (fun hne => hne hdrawn.symm) fun hsome => hsome (Option.isNone_iff_eq_none.mp hnone)
  · rintro ⟨j, hj, hdrawn⟩
    exact ⟨j, by omega, hdrawn⟩

/-- Behind an attempt at a prisoner without control directory, no directory is the home. -/
theorem homesBefore_succ_self (hcontrol : d.control (drawn cfg draws i) = none) :
    homesBefore cfg draws d (i + 1) (drawn cfg draws i) =
      if isDir (d.home (drawn cfg draws i)) then none else d.home (drawn cfg draws i) := by
  rw [homesBefore, hcontrol]
  refine if_congr ⟨fun h => h.2.1, fun h => ⟨rfl, h, i, Nat.lt_succ_self i, rfl⟩⟩ rfl rfl

theorem lt_drawn (cfg : Configuration) (draws : ℕ → Draw) (i : ℕ) : drawn cfg draws i < 2 ^ 32 :=
  UInt32.toNat_lt _

theorem Selects.ends (h : Selects cfg draws faults d i) : Ends cfg draws faults d i :=
  .inr (.inr ⟨h.control.2, .inr h.home.2⟩)

theorem Selects.not_leavesControl (h : Selects cfg draws faults d i) :
    ¬ LeavesControl cfg draws faults d i := fun hleaves =>
  hleaves.home.elim (fun hne => hne h.home.1) fun hfault =>
    hfault.2.elim (fun hne => hne h.handover.1) fun hne => hne h.handover.2

theorem LeavesControl.ends (h : LeavesControl cfg draws faults d i) : Ends cfg draws faults d i :=
  .inr (.inr ⟨h.control, h.home.imp_right And.left⟩)

/-- How the attempt ends the selection: it throws and leaves what it found, it throws and leaves a
control directory, or it selects the prisoner. -/
theorem tryPrisoner_ends (hs : Before cfg draws d i s) (hends : Ends cfg draws faults d i) :
    (∃ e, tryPrisoner cfg (faults i) (drawn cfg draws i) s = (s, .error e)) ∧
        ¬ LeavesControl cfg draws faults d i ∧ ¬ Selects cfg draws faults d i ∨
      (∃ s' e, tryPrisoner cfg (faults i) (drawn cfg draws i) s = (s', .error e) ∧
        s'.control (drawn cfg draws i) ≠ none) ∧ LeavesControl cfg draws faults d i ∨
      (tryPrisoner cfg (faults i) (drawn cfg draws i) s).2 = .ok (some (drawn cfg draws i)) ∧
        Selects cfg draws faults d i := by
  rcases setPrisonerID_cases cfg (lt_drawn cfg draws i) with ⟨hrange, huid⟩ | ⟨hrange, e, he⟩
  swap
  · exact .inl ⟨⟨e, tryPrisoner_refused he⟩, fun h => Bool.false_ne_true (hrange ▸ h.prisoner),
      fun h => Bool.false_ne_true (hrange ▸ h.prisoner)⟩
  by_cases hfault : (faults i).control = none
  swap
  · exact .inl ⟨tryPrisoner_control_failed huid hfault, fun h => hfault h.fault,
      fun h => hfault h.control.1⟩
  obtain ⟨hcontrol, hhome⟩ : d.control (drawn cfg draws i) = none ∧
      ((faults i).home ≠ none ∨ HomeFree cfg draws d i) := by
    rcases hends with h | h | h
    · exact absurd hrange (h ▸ Bool.false_ne_true)
    · exact absurd hfault h
    · exact h
  have hcontrol' : s.control (drawn cfg draws i) = none := hs.control ▸ hcontrol
  -- the control directory is made, and it stays if the home fails
  have hstays : Function.update s.control (drawn cfg draws i) (some emptyDir)
      (drawn cfg draws i) ≠ none := by
    rw [Function.update_self]
    exact Option.some_ne_none _
  by_cases hmade : (faults i).home = none
  swap
  · obtain ⟨e, he⟩ := tryPrisoner_home_failed huid hfault hcontrol' hmade
    exact .inr (.inl ⟨⟨_, e, he, hstays⟩, ⟨hrange, hfault, hcontrol, .inl hmade⟩⟩)
  have hfree := hhome.resolve_left (not_not.mpr hmade)
  have hfound : s.home (drawn cfg draws i) = none := by
    rw [hs.home]
    exact (homesBefore_eq_none_iff hcontrol).mpr hfree
  by_cases hhandover : (faults i).chown ≠ none ∨ (faults i).chmod ≠ none
  · obtain ⟨e, he⟩ := tryPrisoner_handover_failed huid hfault hcontrol' hmade hfound hhandover
    exact .inr (.inl ⟨⟨_, e, he, hstays⟩, ⟨hrange, hfault, hcontrol, .inr ⟨hfree, hhandover⟩⟩⟩)
  · rw [not_or, not_not, not_not] at hhandover
    exact .inr (.inr ⟨tryPrisoner_selected huid hfault hcontrol' hmade hfound hhandover.1 hhandover.2,
      hrange, ⟨hfault, hcontrol⟩, ⟨hmade, hfree⟩, hhandover⟩)

/-- Which attempts end the selection, and what the others leave. -/
theorem outline (cfg : Configuration) (draws : ℕ → Draw) (faults : ℕ → Faults) (d : Directories) :
    Outline (fun i => tryPrisoner cfg (faults i) (drawn cfg draws i)) (Before cfg draws d)
      (Ends cfg draws faults d) := by
  constructor
  · intro i s hs hends
    simp only [Ends, not_or, not_and, not_not, Bool.not_eq_false] at hends
    obtain ⟨hrange, hfault, hgoes⟩ := hends
    have huid := (setPrisonerID_eq_ok (lt_drawn cfg draws i)).mpr hrange
    by_cases hcontrol : d.control (drawn cfg draws i) = none
    · obtain ⟨hhome, hfree⟩ := hgoes hcontrol
      have hcontrol' : s.control (drawn cfg draws i) = none := hs.control ▸ hcontrol
      have hbefore := mt (homesBefore_eq_none_iff hcontrol).mp hfree
      have hfound : s.home (drawn cfg draws i) ≠ none := hs.home ▸ hbefore
      have htmp : tmpBefore cfg draws d (i + 1) =
          (removeDir (tmpPath cfg) s.tmp (drawn cfg draws i) false).1 := by
        rw [tmpBefore, hcontrol, hs.tmp]
        rfl
      refine ⟨_, tryPrisoner_leftover huid hfault hcontrol' hhome hfound, hs.control,
        funext fun uid => ?_, htmp.symm⟩
      have hsame : s.home (drawn cfg draws i) = d.home (drawn cfg draws i) := by
        rw [hs.home, homesBefore] at hfound ⊢
        split at hfound
        · exact absurd rfl hfound
        · rename_i hno
          rw [if_neg hno]
      show Function.update s.home _ _ uid = _
      by_cases hne : uid = drawn cfg draws i
      · rw [hne, homesBefore_succ_self hcontrol, Function.update_self, hsame]
      · rw [homesBefore_succ_of_ne (.inl hne), Function.update_of_ne hne, hs.home]
    · have hcontrol' : s.control (drawn cfg draws i) ≠ none := hs.control ▸ hcontrol
      have htmp : tmpBefore cfg draws d (i + 1) = tmpBefore cfg draws d i := by
        rw [tmpBefore, if_neg (mt Option.isNone_iff_eq_none.mp hcontrol)]
      refine ⟨s, tryPrisoner_occupied huid hfault hcontrol', hs.control, funext fun uid => ?_,
        hs.tmp.trans htmp.symm⟩
      by_cases hne : uid = drawn cfg draws i
      · rw [homesBefore_succ_of_ne (.inr (hne ▸ hcontrol)), hs.home]
      · rw [homesBefore_succ_of_ne (.inl hne), hs.home]
  · intro i s hs hends hnone
    rcases tryPrisoner_ends hs hends with ⟨⟨e, h⟩, -⟩ | ⟨⟨s', e, h, -⟩, -⟩ | ⟨h, -⟩
    · rw [h] at hnone
      cases hnone
    · rw [h] at hnone
      cases hnone
    · cases h.symm.trans hnone

/-- A draw that the attempts cannot make overflow is one of the range. -/
theorem isPrisonerUID_drawn (hi : i < ntry cfg) (hlow : 0 ≤ (random (draws i)).toInt)
    (hhigh : (random (draws i)).toInt ≤ 2 ^ 31 - 1 - (prisonerRange cfg).toInt) :
    cfg.isPrisonerUID (drawn cfg draws i) = true := by
  have hmax := cfg.maxPrisoner_le
  unfold maxPrisonerUid at hmax
  have hsum := (random_nonneg_iff (draws i)).mp hlow
  rw [ntry_eq] at hi
  rw [toInt_random hsum, toInt_prisonerRange] at hhigh
  refine (isPrisonerUID_drawnPrisoner cfg (draws i) (by omega) hsum).mpr fun heq => ?_
  omega

/-- When no system call fails, a prisoner is selected if and only if an attempt comes upon one without
control directory whose home is not there any more. -/
theorem selectPrisoner_iff (cfg : Configuration) (draws : ℕ → Draw) (d : Directories)
    (hdraws : ∀ i < ntry cfg, 0 ≤ (random (draws i)).toInt ∧
      (random (draws i)).toInt ≤ 2 ^ 31 - 1 - (prisonerRange cfg).toInt) :
    (∃ uid, (selectPrisoner cfg draws (fun _ => .none) d).2 = .ok uid) ↔
      ∃ i < ntry cfg, d.control (drawn cfg draws i) = none ∧ HomeFree cfg draws d i := by
  have hends (i : ℕ) (hi : i < ntry cfg) : Ends cfg draws (fun _ => .none) d i ↔
      d.control (drawn cfg draws i) = none ∧ HomeFree cfg draws d i := by
    have hrange := isPrisonerUID_drawn hi (hdraws i hi).1 (hdraws i hi).2
    simp [Ends, hrange, Faults.none]
  rw [selectPrisoner_eq]
  rcases retry_cases (outline cfg draws (fun _ => .none) d) freeUidNotFound (ntry cfg) before_zero
    with ⟨hnone, s', -, hrun⟩ | ⟨k, hk, hend, -, before, s', r, hbefore, htry, hrun⟩
  · rw [hrun]
    refine iff_of_false (fun ⟨_, huid⟩ => nomatch huid) ?_
    rintro ⟨i, hi, hfree⟩
    exact hnone i hi ((hends i hi).mpr hfree)
  · rw [hrun]
    refine iff_of_true ?_ ⟨k, hk, (hends k hk).mp hend⟩
    obtain ⟨hcontrol, hhome⟩ := (hends k hk).mp hend
    have hrange := isPrisonerUID_drawn hk (hdraws k hk).1 (hdraws k hk).2
    have huid := (setPrisonerID_eq_ok (lt_drawn cfg draws k)).mpr hrange
    have hfound : before.home (drawn cfg draws k) = none := by
      rw [hbefore.home]
      exact (homesBefore_eq_none_iff hcontrol).mpr hhome
    have hselected : (tryPrisoner cfg .none (drawn cfg draws k) before).2 =
        .ok (some (drawn cfg draws k)) :=
      tryPrisoner_selected huid rfl (hbefore.control ▸ hcontrol) rfl hfound rfl rfl
    rw [htry] at hselected
    cases r with
    | error e => cases hselected
    | ok uid => exact ⟨uid, rfl⟩

/-- What is expected of a selection that throws: no directory that it has made remains, and all others
are as they were. -/
structure IsAtomic (d d' : Directories) : Prop where
  control : d'.control = d.control
  home : d'.home = d.home
  tmp : d'.tmp = d.tmp

/-- The attempts leave the homes unless one of them comes upon a leftover. -/
theorem homesBefore_eq_iff {n : ℕ} : homesBefore cfg draws d n = d.home ↔
    ∀ i < n, d.control (drawn cfg draws i) = none → ¬ isDir (d.home (drawn cfg draws i)) = true := by
  constructor
  · intro h i hi hcontrol hdir
    have hsame := congrFun h (drawn cfg draws i)
    rw [homesBefore, hcontrol, if_pos ⟨rfl, hdir, i, hi, rfl⟩] at hsame
    rw [← hsame] at hdir
    cases hdir
  · intro h
    funext uid
    rw [homesBefore, if_neg]
    rintro ⟨hcontrol, hdir, i, hi, rfl⟩
    exact h i hi (Option.isNone_iff_eq_none.mp hcontrol) hdir

/-- An attempt leaves `/tmp` as it is, or less in it. -/
theorem tmpBefore_succ (cfg : Configuration) (draws : ℕ → Draw) (d : Directories) (i : ℕ) :
    tmpBefore cfg draws d (i + 1) = tmpBefore cfg draws d i ∨
      entryCount (tmpBefore cfg draws d (i + 1)) < entryCount (tmpBefore cfg draws d i) := by
  rw [tmpBefore]
  split
  · exact removeDir_eq_or_lt _ _ _ _
  · exact .inl rfl

theorem entryCount_tmpBefore_le (cfg : Configuration) (draws : ℕ → Draw) (d : Directories) (i : ℕ) :
    entryCount (tmpBefore cfg draws d i) ≤ entryCount d.tmp := by
  induction i with
  | zero => exact le_rfl
  | succ i ih =>
    rcases tmpBefore_succ cfg draws d i with heq | hlt
    · rwa [heq]
    · exact hlt.le.trans ih

/-- They leave `/tmp` unless one of those prisoners owns something in it. -/
theorem tmpBefore_eq_iff {n : ℕ} : tmpBefore cfg draws d n = d.tmp ↔
    ∀ i < n, d.control (drawn cfg draws i) = none →
      (removeDir (tmpPath cfg) d.tmp (drawn cfg draws i) false).1 = d.tmp := by
  induction n with
  | zero => exact iff_of_true rfl fun i hi => absurd hi (Nat.not_lt_zero i)
  | succ n ih =>
    -- what is gone does not come back
    have hbefore (h : tmpBefore cfg draws d (n + 1) = d.tmp) : tmpBefore cfg draws d n = d.tmp := by
      rcases tmpBefore_succ cfg draws d n with heq | hlt
      · exact heq.symm.trans h
      · have hle := entryCount_tmpBefore_le cfg draws d n
        rw [h] at hlt
        omega
    have hstep (h : tmpBefore cfg draws d n = d.tmp) : tmpBefore cfg draws d (n + 1) = d.tmp ↔
        (d.control (drawn cfg draws n) = none →
          (removeDir (tmpPath cfg) d.tmp (drawn cfg draws n) false).1 = d.tmp) := by
      rw [tmpBefore, h]
      split
      · rename_i hnone
        rw [forall_prop_of_true (Option.isNone_iff_eq_none.mp hnone)]
      · rename_i hsome
        exact iff_of_true rfl fun hnone => absurd (Option.isNone_iff_eq_none.mpr hnone) hsome
    constructor
    · intro h i hi
      have htmp := hbefore h
      rcases Nat.lt_succ_iff_lt_or_eq.mp hi with hlt | rfl
      · exact ih.mp htmp i hlt
      · exact (hstep htmp).mp h
    · intro h
      have htmp := ih.mpr fun i hi => h i (hi.trans n.lt_succ_self)
      exact (hstep htmp).mpr (h n n.lt_succ_self)

/-- Attempts that go on leave everything unless one of them cleans up. -/
theorem Before.unchanged_iff {n : ℕ} (hs : Before cfg draws d n s) :
    IsAtomic d s ↔ ∀ i < n, ¬ CleansUp cfg draws d i := by
  constructor
  · intro h i hi hclean
    have hhome := homesBefore_eq_iff.mp (hs.home.symm.trans h.home) i hi hclean.control
    have htmp := tmpBefore_eq_iff.mp (hs.tmp.symm.trans h.tmp) i hi hclean.control
    exact hclean.removes.elim hhome fun hne => hne htmp
  · intro h
    refine ⟨hs.control, hs.home.trans (homesBefore_eq_iff.mpr fun i hi hcontrol hdir => ?_),
      hs.tmp.trans (tmpBefore_eq_iff.mpr fun i hi hcontrol => ?_)⟩
    · exact h i hi ⟨hcontrol, .inl hdir⟩
    · by_contra hne
      exact h i hi ⟨hcontrol, .inr hne⟩

/-- The first attempt that ends the selection is the only one. -/
theorem eq_of_first {j k : ℕ} (hj : Ends cfg draws faults d j) (hk : Ends cfg draws faults d k)
    (hearlier : ∀ l < j, ¬ Ends cfg draws faults d l)
    (hearlier' : ∀ l < k, ¬ Ends cfg draws faults d l) : j = k := by
  rcases Nat.lt_trichotomy j k with hlt | heq | hgt
  · exact absurd hj (hearlier' j hlt)
  · exact heq
  · exact absurd hk (hearlier k hgt)

/-- A selection that throws leaves everything as it was if and only if no attempt up to its end leaves a
control directory, or cleans up after a prisoner. -/
theorem isAtomic_iff (cfg : Configuration) (draws : ℕ → Draw) (faults : ℕ → Faults)
    (d : Directories) :
    (∀ e, (selectPrisoner cfg draws faults d).2 = .error e →
        IsAtomic d (selectPrisoner cfg draws faults d).1) ↔
      (∃ k < ntry cfg, (∀ j < k, ¬ Ends cfg draws faults d j) ∧ Selects cfg draws faults d k) ∨
        ∀ i < ntry cfg, (∀ j < i, ¬ Ends cfg draws faults d j) →
          ¬ LeavesControl cfg draws faults d i ∧
            (¬ Ends cfg draws faults d i → ¬ CleansUp cfg draws d i) := by
  rw [selectPrisoner_eq]
  rcases retry_cases (outline cfg draws faults d) freeUidNotFound (ntry cfg) before_zero
    with ⟨hnone, s', hs', hrun⟩ | ⟨k, hk, hend, hearlier, before, s', r, hbefore, htry, hrun⟩
  · rw [hrun]
    simp only [Except.error.injEq, forall_eq']
    rw [hs'.unchanged_iff]
    constructor
    · exact fun h => .inr fun i hi _ => ⟨fun hleaves => hnone i hi hleaves.ends, fun _ => h i hi⟩
    · rintro (⟨k, hk, -, hselects⟩ | h) i hi
      · exact absurd hselects.ends (hnone k hk)
      · exact (h i hi fun j hj => hnone j (hj.trans hi)).2 (hnone i hi)
  rw [hrun]
  -- no other attempt is the first one that ends the selection
  have hfirst {j : ℕ} (hj : Ends cfg draws faults d j)
      (hnot : ∀ l < j, ¬ Ends cfg draws faults d l) : j = k := eq_of_first hj hend hnot hearlier
  rcases tryPrisoner_ends hbefore hend with
    ⟨⟨e, h⟩, hleaves, hselects⟩ | ⟨⟨s'', e, h, hstays⟩, hleaves⟩ | ⟨h, hselects⟩
  · obtain ⟨rfl, hr⟩ := Prod.mk.inj (h.symm.trans htry)
    cases r with
    | ok uid => cases hr
    | error e' =>
      simp only [Except.error.injEq, forall_eq']
      rw [hbefore.unchanged_iff]
      constructor
      · refine fun h => .inr fun i hi hgo => ⟨fun hleaves' => ?_, fun hnot => ?_⟩
        · exact hleaves (hfirst hleaves'.ends hgo ▸ hleaves')
        · refine h i (lt_of_le_of_ne (not_lt.mp fun hlt => hgo k hlt hend) ?_)
          rintro rfl
          exact hnot hend
      · rintro (⟨j, -, hgo, hselects'⟩ | h) i hi
        · exact absurd (hfirst hselects'.ends hgo ▸ hselects') hselects
        · exact (h i (hi.trans hk) fun j hj => hearlier j (hj.trans hi)).2 (hearlier i hi)
  · obtain ⟨rfl, hr⟩ := Prod.mk.inj (h.symm.trans htry)
    refine iff_of_false (fun hatomic => hstays ?_) ?_
    · cases r with
      | error e => rw [(hatomic e rfl).control, hleaves.control]
      | ok uid => cases hr
    · rintro (⟨j, -, hgo, hselects⟩ | h)
      · exact (hfirst hselects.ends hgo ▸ hselects).not_leavesControl hleaves
      · exact (h k hk hearlier).1 hleaves
  · refine iff_of_true (fun e he => ?_) (.inl ⟨k, hk, hearlier, hselects⟩)
    rw [htry] at h
    cases r with
    | error e => cases h
    | ok uid => cases he

end Outline

/-! ## Runs on few directories -/

/-- The given prisoners have a control directory, and there is no home. -/
def occupied (uids : List ℕ) : Directories where
  control := fun uid => if uid ∈ uids then some emptyDir else none
  home := fun _ => none
  tmp := none

/-- Draws that the index brings back to the same prisoner. -/
def sameDraws (i : ℕ) : Draw := ⟨some (Int32.ofNat (10000 - i)), 0, 0⟩

theorem random_sameDraws {i : ℕ} (hi : i < 10000) :
    (random (sameDraws i)).toInt = 10000 - i := by
  have hint : (Int32.ofNat (10000 - i)).toInt = ((10000 - i : ℕ) : ℤ) :=
    Int32.toInt_ofNat_of_lt (by omega)
  have hsum : (sameDraws i).sum = 10000 - i := by
    rw [Draw.sum, sameDraws, Option.getD_some, hint]
    rw [show (0 : Int32).toInt = 0 from rfl, add_zero, Int.bmod_eq_of_le (by omega) (by omega)]
    omega
  rw [toInt_random (by omega), hsum]
  exact abs_of_nonneg (by omega)

theorem drawn_sameDraws {i : ℕ} (hi : i < 10000) : drawn .default sameDraws i = 10001 := by
  have hrandom := random_sameDraws hi
  have hindex : (Int32.ofNat i).toInt = i := Int32.toInt_ofNat_of_lt (by omega)
  have hadd : (random (sameDraws i) + Int32.ofNat i).toInt = 10000 := by
    rw [Int32.toInt_add, hrandom, hindex, Int.bmod_eq_of_le (by omega) (by omega)]
    omega
  have hprisoner := @toNat_drawnPrisoner .default (sameDraws i) i (by omega)
  rw [hadd] at hprisoner
  have hfirst : (Configuration.default.firstPrisoner : ℤ) = 10001 := rfl
  have hrem : |(10000 : ℤ)| % (Configuration.default.maxPrisoner -
      Configuration.default.minPrisoner) = 0 := by decide
  rw [hfirst, hrem, add_zero] at hprisoner
  exact_mod_cast hprisoner

theorem sameDraws_bounds (i : ℕ) (hi : i < ntry .default) :
    0 ≤ (random (sameDraws i)).toInt ∧
      (random (sameDraws i)).toInt ≤ 2 ^ 31 - 1 - (prisonerRange .default).toInt := by
  have hi : i < 10000 := hi
  have hrange : (prisonerRange .default).toInt = 10000 := rfl
  rw [random_sameDraws hi, hrange]
  omega

/-- The prisoner that is drawn first is free. -/
theorem selectPrisoner_iff_free :
    ∃ uid, (selectPrisoner .default sameDraws (fun _ => .none) (occupied [10002])).2 = .ok uid :=
  (selectPrisoner_iff .default sameDraws (occupied [10002]) sameDraws_bounds).mpr
    ⟨0, by decide +kernel, by rw [drawn_sameDraws (by decide)]; rfl, .inl rfl⟩

/-- All prisoners but one are free, and every attempt draws that one. -/
theorem not_selectPrisoner_free :
    (∃ uid, Configuration.default.isPrisonerUID uid = true ∧
        (occupied [10001]).control uid = none ∧ (occupied [10001]).home uid = none) ∧
      (∀ i < ntry .default, 0 ≤ (random (sameDraws i)).toInt ∧
        (random (sameDraws i)).toInt ≤ 2 ^ 31 - 1 - (prisonerRange .default).toInt) ∧
      (selectPrisoner .default sameDraws (fun _ => .none) (occupied [10001])).2 =
        .error freeUidNotFound := by
  refine ⟨⟨10002, by decide, rfl, rfl⟩, sameDraws_bounds, ?_⟩
  have hends (k : ℕ) (hk : k < ntry .default) :
      ¬ Ends .default sameDraws (fun _ => .none) (occupied [10001]) k := by
    have hk : k < 10000 := hk
    rw [Ends, drawn_sameDraws hk]
    simp [occupied, Faults.none, Configuration.isPrisonerUID, Configuration.firstPrisoner,
      Configuration.default]
  obtain ⟨s', -, hrun⟩ := retry_of_forall_not_ends
    (outline .default sameDraws (fun _ => .none) (occupied [10001])) freeUidNotFound
    (n := ntry .default) before_zero fun k _ hk => hends k (by rwa [Nat.zero_add] at hk)
  rw [selectPrisoner_eq, hrun]

/-- The home of the first prisoner cannot be made. -/
def homeFails : Faults := ⟨none, some "Input/output error", none, none⟩

/-- A selection that leaves a control directory when it throws. -/
theorem not_isAtomic_homeFails :
    (selectPrisoner .default sameDraws (fun _ => homeFails) (occupied [])).2 =
        .error (.http internalServerErrorCode
          "I can't create prisoner home dir \"/jail/home/p10001\" : Input/output error") ∧
      ¬ IsAtomic (occupied [])
        (selectPrisoner .default sameDraws (fun _ => homeFails) (occupied [])).1 := by
  refine ⟨by decide +kernel, fun h => ?_⟩
  have hstays : ((selectPrisoner .default sameDraws (fun _ => homeFails)
      (occupied [])).1.control 10001).isSome = true := by decide +kernel
  rw [h.control] at hstays
  cases hstays

end VplJail.Task
