import VplJail.Jail.Commands

/-!
# The connection of a monitor

`commandMonitor` tells a client over a WebSocket how far its task is, until the task is over, a limit
is reached or the client leaves, and then ends the task. Each turn of its loop sees a `Tick`.
-/

namespace VplJail.Jail

open VplJail.Task Util

/-- `JAIL_SOCKET_TIMEOUT`: seconds for the client to start the execution. -/
def socketTimeout : ℤ := 6

/-- `VPL_LOCALSERVERADDRESSFILE`: the file with the address of the local web server. -/
def vplLocalserveraddress : Bytes := ascii ".vpl_localserveraddress"

/-- What a turn of the loop meets: the clock and the processes, what the WebSocket received and
whether it is closed, the clock after the wait for it, the memory in use, and the ticket that would be
drawn for the local web server. -/
structure Tick where
  env : Env
  received : Bytes
  closed : Bool
  later : ℤ
  outOfMemory : Bool
  drawn : Bytes

/-- The variables of `commandMonitor`, the messages that it has sent, and the task. -/
structure MonitorLoop where
  pm : ProcessMonitor
  world : World
  sent : List Bytes
  state : ProcessState
  webserver : Bool
  runBrowser : Bool
  startTime : ℤ
  lastMessageTime : ℤ
  lastTime : ℤ
  timeout : ℤ
  lastMessage : Bytes

/-- How a part of a turn ends: the loop goes on, it is left, or an exception is thrown. -/
inductive Turn
  | again (loop : MonitorLoop)
  | leave (loop : MonitorLoop)
  | thrown (loop : MonitorLoop) (e : Thrown)

/-- The variables as a turn leaves them. -/
def Turn.loop : Turn → MonitorLoop
  | again loop => loop
  | leave loop => loop
  | thrown loop _ => loop

namespace MonitorLoop

/-- The variables at the start of the loop. -/
def start (pm : ProcessMonitor) (world : World) : MonitorLoop where
  pm := pm
  world := world
  sent := []
  state := .prestarting
  webserver := false
  runBrowser := false
  startTime := 0
  lastMessageTime := 0
  lastTime := pm.info.startTime
  timeout := pm.info.startTime + pm.info.maxtime
  lastMessage := []

/-- `ws.send`: a message for the client. -/
def send (message : Bytes) (loop : MonitorLoop) : MonitorLoop :=
  { loop with sent := loop.sent ++ [message] }

/-- A state that is announced, and whose duration is told every second. -/
def announce (now timeout : ℤ) (message : Bytes) (loop : MonitorLoop) : MonitorLoop :=
  { loop with
    timeout := timeout
    startTime := now
    lastMessageTime := now
    lastMessage := message }.send message

/-- The output of the compilation, told when there is a program to run. -/
def tellCompilation (cfg : Configuration) (loop : MonitorLoop) : Turn :=
  match getCompilation cfg loop.pm loop.world with
  | .error e => .thrown loop e
  | .ok compilation => .again (loop.send (ascii "compilation:" ++ compilation))

/-- The end of a task that has no program to run. -/
def tellFailure (cfg : Configuration) (loop : MonitorLoop) : Turn :=
  match getCompilation cfg loop.pm loop.world with
  | .error e => .thrown loop e
  | .ok compilation =>
      let output := if compilation = [] then
          ascii "The compilation process did not generate an executable nor error message."
        else compilation
      .leave ((loop.send (ascii "compilation:" ++ output)).send (ascii "close:"))

/-- `FileExists`: the prisoner has a file of this name. -/
def fileExists (name : Bytes) (loop : MonitorLoop) : Bool :=
  loop.world.fileExists loop.pm.prisoner name

/-- The case `beforeRunning` of the switch. -/
def enterBeforeRunning (cfg : Configuration) (now : ℤ) (loop : MonitorLoop) : Turn :=
  let loop := { loop with timeout := now + socketTimeout }
  if loop.fileExists vplExecution then (loop.send (ascii "run:terminal")).tellCompilation cfg
  else if loop.fileExists vplWebexecution then
    { loop.send (ascii "run:webterminal") with webserver := true }.tellCompilation cfg
  else if loop.fileExists vplWexecution then
    (loop.send (ascii "run:vnc:" ++ loop.pm.vncPassword)).tellCompilation cfg
  else loop.tellFailure cfg

/-- The browser sent to the local web server, once. -/
def openBrowser (cfg : Configuration) (drawn : Bytes) (loop : MonitorLoop) : Turn :=
  if loop.webserver ∧ ¬ loop.runBrowser ∧ loop.fileExists vplLocalserveraddress then
    match getHttpPassthroughTicket cfg drawn loop.pm loop.world with
    | (w, .error e) => .thrown { loop with world := w, runBrowser := true } e
    | (w, .ok pm) => .again ({ loop with world := w, pm := pm, runBrowser := true }.send
        (ascii "run:browser:" ++ pm.info.httpPassthroughticket))
  else .again loop

/-- The case `running` of the switch. -/
def enterRunning (cfg : Configuration) (now : ℤ) (drawn : Bytes) (loop : MonitorLoop) : Turn :=
  let timeout := now + loop.pm.info.maxtime +
    if loop.pm.info.interactive then 0 else harvestTimeout
  (loop.announce now timeout (ascii "message:running")).openBrowser cfg drawn

/-- The switch over a new state. -/
def enter (cfg : Configuration) (tick : Tick) (loop : MonitorLoop) : Turn :=
  let now := tick.env.now
  match loop.state with
  | .prestarting => .again loop
  | .starting => .again (loop.announce now (now + loop.pm.info.maxtime) (ascii "message:starting"))
  | .compiling =>
      .again (loop.announce now (now + loop.pm.info.maxtime) (ascii "message:compilation"))
  | .beforeRunning => loop.enterBeforeRunning cfg now
  | .running => loop.enterRunning cfg now tick.drawn
  | .retrieve => .again ({ loop with startTime := now, timeout := now + harvestTimeout }.send
      (ascii "retrieve:"))
  | .stopped => .again (loop.send (ascii "close:"))

/-- The duration of the state, told every second. -/
def tell (now : ℤ) (loop : MonitorLoop) : MonitorLoop :=
  if loop.lastMessage ≠ [] ∧ now ≠ loop.lastMessageTime then
    { loop with lastMessageTime := now }.send
      (loop.lastMessage ++ ascii ": " ++ itos (now - loop.startTime) ++ ascii " sec")
  else loop

/-- The part of a turn behind the switch. -/
def rest (tick : Tick) (loop : MonitorLoop) : Turn :=
  if loop.state = .stopped then .leave loop
  else
    let loop := loop.tell tick.env.now
    if tick.closed then
      if loop.state = .retrieve ∧ tick.later ≤ loop.timeout then .again loop else .leave loop
    else if tick.received ≠ [] then .leave loop
    else if loop.state ≠ .starting ∧ loop.timeout < tick.later then
      .leave ((loop.send (ascii "message:timeout")).send (ascii "close:"))
    else if loop.pm.info.interactive ∧ loop.lastTime ≠ tick.env.now ∧ tick.outOfMemory then
      .leave ((loop.send (ascii "message:outofmemory:" ++ loop.pm.memoryLimit)).send
        (ascii "close:"))
    else .again { loop with lastTime := tick.env.now }

/-- A turn of the loop. -/
def turn (cfg : Configuration) (tick : Tick) (loop : MonitorLoop) : Turn :=
  match getState cfg tick.env loop.pm loop.world with
  | (w, .error e) => .thrown { loop with world := w } e
  | (w, .ok (pm, newstate)) =>
    let loop := { loop with world := w, pm := pm }
    let entered := if newstate = loop.state then .again loop
      else { loop with state := newstate }.enter cfg tick
    match entered with
    | .again loop => loop.rest tick
    | left => left

/-- The loop over the given ticks. It may still be going on behind them. -/
def run (cfg : Configuration) : List Tick → MonitorLoop → World × Reply
  | [], loop => (loop.world, .messages loop.sent none)
  | tick :: ticks, loop =>
    match loop.turn cfg tick with
    | .again loop => run cfg ticks loop
    | .leave loop => (cleanTask cfg tick.env loop.pm loop.world, .messages loop.sent none)
    | .thrown loop e => (loop.world, closedBy loop.sent e)

end MonitorLoop

/-- `commandMonitor`: the client is told of the states of its task until it ends. -/
def commandMonitor (server : Server) (ticket : Bytes) (ticks : List Tick) (w : World) :
    World × Reply :=
  match construct server ticket w with
  | (w, .error e) => (w, closedBy [] e)
  | (w, .ok pm) => (MonitorLoop.start pm w).run server.cfg ticks

/-! ## What has been sent stays sent -/

/-- The messages of a reply. -/
def Reply.sent : Reply → List Bytes
  | .messages sent _ => sent
  | _ => []

/-- The messages stay when an exception closes the connection. -/
@[simp] theorem sent_closedBy (sent : List Bytes) (e : Thrown) : (closedBy sent e).sent = sent := by
  cases e <;> rfl

namespace MonitorLoop

variable {cfg : Configuration} {tick : Tick} {loop : MonitorLoop}

/-- A message comes behind those sent. -/
theorem sent_send (message : Bytes) (loop : MonitorLoop) :
    loop.sent <+: (loop.send message).sent :=
  List.prefix_append _ _

theorem sent_tell (now : ℤ) (loop : MonitorLoop) : loop.sent <+: (loop.tell now).sent := by
  rw [tell]
  split
  · exact sent_send _ { loop with lastMessageTime := now }
  · exact List.prefix_rfl

/-- Nothing sent is lost behind the switch. -/
theorem sent_rest (tick : Tick) (loop : MonitorLoop) : loop.sent <+: (loop.rest tick).loop.sent := by
  have htell := sent_tell tick.env.now loop
  have hsend (message : Bytes) (l : MonitorLoop) :
      l.sent <+: ((l.send message).send (ascii "close:")).sent :=
    (sent_send _ l).trans (sent_send _ _)
  rw [rest]
  split
  · exact List.prefix_rfl
  · dsimp only
    split
    · split <;> exact htell
    · split
      · exact htell
      · split
        · exact htell.trans (hsend _ _)
        · split
          · exact htell.trans (hsend _ _)
          · exact htell

theorem sent_tellCompilation (cfg : Configuration) (loop : MonitorLoop) :
    loop.sent <+: (loop.tellCompilation cfg).loop.sent := by
  rw [tellCompilation]
  split
  · exact List.prefix_rfl
  · exact sent_send _ loop

theorem sent_tellFailure (cfg : Configuration) (loop : MonitorLoop) :
    loop.sent <+: (loop.tellFailure cfg).loop.sent := by
  rw [tellFailure]
  split
  · exact List.prefix_rfl
  · exact (sent_send _ loop).trans (sent_send _ _)

/-- There is no program to run. -/
def NoProgram (loop : MonitorLoop) : Prop :=
  ∀ name ∈ [vplExecution, vplWebexecution, vplWexecution], loop.fileExists name = false

/-- A program to run is announced, the lack of one is not by this switch. -/
theorem enterBeforeRunning_cases (cfg : Configuration) (now : ℤ) (loop : MonitorLoop) :
    loop.NoProgram ∧ loop.enterBeforeRunning cfg now =
        { loop with timeout := now + socketTimeout }.tellFailure cfg ∨
      ¬ loop.NoProgram ∧ ∃ message, loop.sent ++ [message] <+:
        (loop.enterBeforeRunning cfg now).loop.sent := by
  have hno (name : Bytes) (hname : name ∈ [vplExecution, vplWebexecution, vplWexecution])
      (h : loop.fileExists name = true) : ¬ loop.NoProgram := by
    intro hnone
    rw [hnone name hname] at h
    cases h
  have hannounce (message : Bytes) (webserver : Bool) :
      loop.sent ++ [message] <+: ({ loop.send message with
        timeout := now + socketTimeout, webserver := webserver }.tellCompilation cfg).loop.sent :=
    sent_tellCompilation cfg { loop.send message with
      timeout := now + socketTimeout, webserver := webserver }
  rw [enterBeforeRunning]
  dsimp only
  split
  · rename_i h
    exact .inr ⟨hno _ (.head _) h, _, hannounce (ascii "run:terminal") loop.webserver⟩
  · rename_i hexecution
    split
    · rename_i h
      exact .inr ⟨hno _ (.tail _ (.head _)) h, _, hannounce (ascii "run:webterminal") true⟩
    · rename_i hweb
      split
      · rename_i h
        exact .inr ⟨hno _ (.tail _ (.tail _ (.head _))) h, _,
          hannounce (ascii "run:vnc:" ++ loop.pm.vncPassword) loop.webserver⟩
      · rename_i hvnc
        refine .inl ⟨?_, rfl⟩
        simp only [NoProgram, List.forall_mem_cons]
        exact ⟨Bool.eq_false_of_not_eq_true hexecution, Bool.eq_false_of_not_eq_true hweb,
          Bool.eq_false_of_not_eq_true hvnc, fun _ h => absurd h List.not_mem_nil⟩

theorem sent_openBrowser (cfg : Configuration) (drawn : Bytes) (loop : MonitorLoop) :
    loop.sent <+: (loop.openBrowser cfg drawn).loop.sent := by
  rw [openBrowser]
  split
  · split
    · exact List.prefix_rfl
    · exact List.prefix_append _ _
  · exact List.prefix_rfl

theorem sent_enterRunning (cfg : Configuration) (now : ℤ) (drawn : Bytes) (loop : MonitorLoop) :
    loop.sent ++ [ascii "message:running"] <+: (loop.enterRunning cfg now drawn).loop.sent := by
  let timeout := now + loop.pm.info.maxtime +
    if loop.pm.info.interactive then 0 else harvestTimeout
  exact sent_openBrowser cfg drawn (loop.announce now timeout (ascii "message:running"))

/-- A state that is entered is told to the client, if it is not `beforeRunning` without a program. -/
theorem enter_cases (cfg : Configuration) (tick : Tick) (loop : MonitorLoop)
    (hstate : loop.state ≠ .prestarting) :
    loop.state = .beforeRunning ∧ loop.NoProgram ∧ loop.enter cfg tick =
        { loop with timeout := tick.env.now + socketTimeout }.tellFailure cfg ∨
      ¬ (loop.state = .beforeRunning ∧ loop.NoProgram) ∧
        ∃ message, loop.sent ++ [message] <+: (loop.enter cfg tick).loop.sent := by
  have hnot (s : ProcessState) (h : s ≠ .beforeRunning) (p : Prop) :
      ¬ (s = .beforeRunning ∧ p) := fun hs => h hs.1
  obtain ⟨pm, world, sent, state, webserver, runBrowser, startTime, lastMessageTime, lastTime,
    timeout, lastMessage⟩ := loop
  cases state with
  | prestarting => exact absurd rfl hstate
  | starting => exact .inr ⟨hnot .starting nofun _, _, List.prefix_rfl⟩
  | compiling => exact .inr ⟨hnot .compiling nofun _, _, List.prefix_rfl⟩
  | beforeRunning =>
    rcases enterBeforeRunning_cases cfg tick.env.now _ with ⟨hno, heq⟩ | ⟨hno, hsent⟩
    · exact .inl ⟨rfl, hno, heq⟩
    · exact .inr ⟨fun h => hno h.2, hsent⟩
  | running => exact .inr ⟨hnot .running nofun _, _, sent_enterRunning cfg tick.env.now tick.drawn _⟩
  | retrieve => exact .inr ⟨hnot .retrieve nofun _, _, List.prefix_rfl⟩
  | stopped => exact .inr ⟨hnot .stopped nofun _, _, List.prefix_rfl⟩

/-- Nothing sent is lost by the switch. -/
theorem sent_enter (cfg : Configuration) (tick : Tick) (loop : MonitorLoop) :
    loop.sent <+: (loop.enter cfg tick).loop.sent := by
  by_cases hstate : loop.state = .prestarting
  · rw [enter, hstate]
    exact List.prefix_rfl
  · rcases enter_cases cfg tick loop hstate with ⟨-, -, heq⟩ | ⟨-, message, hsent⟩
    · rw [heq]
      exact sent_tellFailure cfg { loop with timeout := tick.env.now + socketTimeout }
    · exact (List.prefix_append _ _).trans hsent

/-- Nothing sent is lost behind the switch of a turn. -/
theorem sent_of_entered {entered : Turn} {tick : Tick} :
    entered.loop.sent <+:
      (match entered with
        | .again loop => loop.rest tick
        | left => left).loop.sent := by
  cases entered with
  | again loop => exact sent_rest tick loop
  | leave loop => exact List.prefix_rfl
  | thrown loop e => exact List.prefix_rfl

/-- Nothing sent is lost in a turn. -/
theorem sent_turn (cfg : Configuration) (tick : Tick) (loop : MonitorLoop) :
    loop.sent <+: (loop.turn cfg tick).loop.sent := by
  rw [turn]
  split
  · exact List.prefix_rfl
  · rename_i w pm newstate hstate
    refine List.IsPrefix.trans ?_ sent_of_entered
    split
    · exact List.prefix_rfl
    · exact sent_enter cfg tick { loop with state := newstate, world := w, pm := pm }

/-- Nothing sent is lost in the loop. -/
theorem sent_run (cfg : Configuration) (ticks : List Tick) (loop : MonitorLoop) :
    loop.sent <+: (loop.run cfg ticks).2.sent := by
  induction ticks generalizing loop with
  | nil => exact List.prefix_rfl
  | cons tick ticks ih =>
    have hturn := sent_turn cfg tick loop
    rw [run]
    split
    · rename_i loop' heq
      rw [heq] at hturn
      exact hturn.trans (ih loop')
    · rename_i loop' heq
      rw [heq] at hturn
      exact hturn
    · rename_i loop' e heq
      rw [heq] at hturn
      rw [sent_closedBy]
      exact hturn

/-- The end of a turn in the loop. -/
theorem sent_run_cons (cfg : Configuration) (tick : Tick) (ticks : List Tick) (loop : MonitorLoop) :
    (loop.turn cfg tick).loop.sent <+: (loop.run cfg (tick :: ticks)).2.sent := by
  rw [run]
  split
  · rename_i loop' heq
    rw [heq]
    exact sent_run cfg ticks loop'
  · rename_i loop' heq
    rw [heq]
    exact List.prefix_rfl
  · rename_i loop' e heq
    rw [heq, sent_closedBy]
    exact List.prefix_rfl

/-- A monitor that has no right to the compilation fails where it would tell of it. -/
theorem tellFailure_of_ne {loop : MonitorLoop} (h : loop.pm.security ≠ .monitor) :
    loop.tellFailure cfg = .thrown loop (.http internalServerErrorCode
      "Security: required monitor ticket for getCompilation") := by
  rw [tellFailure, getCompilation_of_ne h]
  rfl

/-- The first turn with another ticket: it fails without a message, or it tells something. -/
theorem run_cons_cases (cfg : Configuration) (tick : Tick) (ticks : List Tick)
    (pm : ProcessMonitor) (w : World) (hsecurity : pm.security ≠ .monitor) :
    (∃ w' e, getState cfg tick.env pm w = (w', .error e) ∧
        (start pm w).run cfg (tick :: ticks) = (w', closedBy [] e)) ∨
      ∃ w' pm' state, getState cfg tick.env pm w = (w', .ok (pm', state)) ∧
        (state = .beforeRunning ∧ (start pm' w').NoProgram ∧
            (∃ e, (start pm w).run cfg (tick :: ticks) = (w', closedBy [] e)) ∨
          ¬ (state = .beforeRunning ∧ (start pm' w').NoProgram) ∧
            ((start pm w).run cfg (tick :: ticks)).2.sent ≠ []) := by
  cases hstate : getState cfg tick.env pm w with
  | mk w' r =>
    cases r with
    | error e =>
      refine .inl ⟨w', e, rfl, ?_⟩
      have hturn : (start pm w).turn cfg tick = .thrown { start pm w with world := w' } e := by
        rw [turn, start, hstate]
      rw [run, hturn]
      rfl
    | ok found =>
      obtain ⟨pm', state⟩ := found
      obtain ⟨-, hsame, hne⟩ := getState_eq_ok hstate
      refine .inr ⟨w', pm', state, rfl, ?_⟩
      let entered : MonitorLoop := { start pm w with world := w', pm := pm', state := state }
      have hturn : (start pm w).turn cfg tick =
          match entered.enter cfg tick with
          | .again loop => loop.rest tick
          | left => left := by
        rw [turn, start, hstate]
        dsimp only
        rw [if_neg hne]
        rfl
      rcases enter_cases cfg tick entered hne with ⟨hbefore, hno, heq⟩ | ⟨hnot, m, hsent⟩
      · rw [tellFailure_of_ne (hsame ▸ hsecurity)] at heq
        rw [heq] at hturn
        refine .inl ⟨hbefore, hno, .http internalServerErrorCode
          "Security: required monitor ticket for getCompilation", ?_⟩
        rw [run, hturn]
        rfl
      · refine .inr ⟨hnot, ?_⟩
        -- messages are only added: the one of the first turn is at the front in the end
        have hpre : [m] <+: ((start pm w).run cfg (tick :: ticks)).2.sent := by
          refine List.IsPrefix.trans ?_ (sent_run_cons cfg tick ticks (start pm w))
          rw [hturn]
          exact hsent.trans sent_of_entered
        intro hnil
        rw [hnil] at hpre
        exact absurd (List.prefix_nil.mp hpre) (List.cons_ne_nil _ _)

end MonitorLoop

end VplJail.Jail
