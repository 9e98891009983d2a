import VplJail.Jail.Admission

/-!
# Answers and statuses

On a connection that is written to undisturbed, a client that is not handed over to a local web server
or to a session behind an accepted ticket gets at most one answer beside those to `Expect`, also if its
ticket is refused, and what is written are the answers (`process_answers`). The status that `GET`
computes for a wrong ticket is never the one of the process: the ticket counts as a success, as a right
one does (`process_cookie`).
-/

namespace VplJail.Jail.Connection

open HttpServer PosixRegex Rpc VplJail.Server Socket Util

/-! ## Undisturbed writing -/

/-- A poll of a connection that takes what is written: nothing yet, or some bytes. -/
def Smooth (p : SendPoll) : Prop :=
  p = .idle ∨ ∃ n, 0 < n ∧ p = .ready { pollout := some (.wrote n) }

section Smooth

variable {buffer : Bytes} {offset : ℕ}

/-- A loop over such polls goes on, or it has written all that there is. -/
theorem sendLoop_smooth (ws : Bool) (h : offset < buffer.length) {ps : List SendPoll}
    (hps : ∀ p ∈ ps, Smooth p) :
    (sendLoop ws false buffer offset ps).2 = .leave buffer.length false ∨
      ∃ o, (sendLoop ws false buffer offset ps).2 = .again o := by
  induction ps generalizing offset with
  | nil => exact .inr ⟨offset, rfl⟩
  | cons p ps ih =>
    obtain ⟨hp, hrest⟩ := List.forall_mem_cons.mp hps
    rcases hp with rfl | ⟨n, hn, rfl⟩
    · exact ih h hrest
    · have hnet : 0 < netBufferSize := by decide
      have hwritten : min n (min netBufferSize (buffer.length - offset)) ≠ 0 := by omega
      rw [sendLoop]
      simp only [sendTurn, Bool.false_eq_true, if_false, if_neg hwritten, endTurn]
      by_cases hend : buffer.length ≤ offset + min n (min netBufferSize (buffer.length - offset))
      · rw [if_pos hend]
        exact .inl (congrArg (SendTurn.leave · false) (by omega))
      · rw [if_neg hend]
        exact ih (Nat.not_le.mp hend) hrest

/-- No exception comes of such polls, even if there is nothing to write. -/
theorem sendLoop_smooth_ne_raised (ws : Bool) {ps : List SendPoll} (hps : ∀ p ∈ ps, Smooth p)
    (o : ℕ) (e : SendError) : (sendLoop ws false buffer 0 ps).2 ≠ .raised o e := by
  by_cases hempty : buffer = []
  · subst hempty
    induction ps with
    | nil => exact nofun
    | cons p ps ih =>
      obtain ⟨hp, hrest⟩ := List.forall_mem_cons.mp hps
      rcases hp with rfl | ⟨n, hn, rfl⟩
      · exact ih hrest
      · rw [sendLoop]
        simp [sendTurn]
  · intro h
    rcases sendLoop_smooth ws (List.length_pos_iff.mpr hempty) hps with hleave | ⟨o', hagain⟩
    · rw [hleave] at h
      cases h
    · rw [hagain] at h
      cases h

end Smooth

theorem send_smooth_ne_raised (s : Socket) (data : Bytes) {polls : List SendPoll}
    (hpolls : ∀ p ∈ polls, Smooth p) (e : SendError) : (s.send data false polls).2.2 ≠ .raised e := by
  rw [Socket.send]
  split
  · intro h
    cases h
  · dsimp only
    cases hturn : (sendLoop s.websocketProtocol false (s.writeBuffer ++ data) 0 polls).2 with
    | again o => intro h; cases h
    | leave o closed => intro h; cases h
    | raised o e => exact absurd hturn (sendLoop_smooth_ne_raised _ hpolls o e)

theorem sendAnswer_smooth_ne_raised (header : Header) (s : Socket) (answer : Answer)
    {polls : List SendPoll} (hpolls : ∀ p ∈ polls, Smooth p) (e : SendError) :
    (sendAnswer header s answer polls).2.2 ≠ .raised e := by
  rw [sendAnswer]
  split
  · intro h
    cases h
  · have hsend := send_smooth_ne_raised s (answer.bytes header) hpolls e
    generalize s.send (answer.bytes header) false polls = r at hsend
    obtain ⟨wire, s', o⟩ := r
    cases o with
    | returned => intro h; cases h
    | raised e' => exact hsend
    | waiting => intro h; cases h

/-- An open connection takes the data whole, or it has not yet. -/
theorem send_smooth {s : Socket} (hopen : s.closed = false) (hpending : s.writeBuffer = [])
    {data : Bytes} (hdata : data ≠ []) {polls : List SendPoll} (hpolls : ∀ p ∈ polls, Smooth p) :
    s.send data false polls = (data, s, .returned) ∨
      ∃ wire, wire <+: data ∧
        s.send data false polls = (wire, { s with writeBuffer := data }, .waiting) := by
  have hlen : 0 < data.length := List.length_pos_iff.mpr hdata
  obtain ⟨hwire, -, hle⟩ := sendLoop_spec s.websocketProtocol false (Nat.zero_le data.length) polls
  rw [Socket.send, hopen, if_neg Bool.false_ne_true, hpending, List.nil_append]
  rcases sendLoop_smooth s.websocketProtocol hlen hpolls with hleave | ⟨o, hagain⟩
  · left
    rw [hleave] at hwire
    simp only [hleave]
    rw [hwire, SendTurn.offset, written, List.drop_zero, Nat.sub_zero, List.take_length,
      List.drop_length]
    have hsame : { s with writeBuffer := [], closed := false } = s := by
      rw [← hpending, ← hopen]
    rw [hsame]
  · right
    refine ⟨(sendLoop s.websocketProtocol false data 0 polls).1, ?_, ?_⟩
    · rw [hwire, written, List.drop_zero]
      exact List.take_prefix _ _
    · simp only [hagain]

/-! ## Reading leaves the writing side alone -/

/-- Two sockets that write alike: the second is closed if the first is. -/
structure SameOutput (s s' : Socket) : Prop where
  writeBuffer : s'.writeBuffer = s.writeBuffer
  websocketProtocol : s'.websocketProtocol = s.websocketProtocol
  closed : s.closed = true → s'.closed = true

namespace SameOutput

variable {s s' s'' : Socket}

theorem refl (s : Socket) : SameOutput s s :=
  ⟨rfl, rfl, fun h => h⟩

theorem trans (h : SameOutput s s') (h' : SameOutput s' s'') : SameOutput s s'' :=
  ⟨h'.writeBuffer.trans h.writeBuffer, h'.websocketProtocol.trans h.websocketProtocol,
    fun hclosed => h'.closed (h.closed hclosed)⟩

theorem close (s : Socket) : SameOutput s s.close :=
  ⟨rfl, rfl, fun _ => rfl⟩

theorem keeps_modify {f : Socket → Socket} (h : ∀ s, SameOutput s (f s)) :
    Keeps (SameOutput s) (modify f : SocketM PUnit) :=
  Triple.modify fun s' hs => hs.trans (h s')

theorem keeps_throw {α : Type} (e : Thrown) : Keeps (SameOutput s) (throw e : SocketM α) :=
  Triple.throw fun _ hs => hs

theorem keeps_parseCookiesLoop (fuel : ℕ) (rawcookies : Bytes) :
    Keeps (SameOutput s) (parseCookiesLoop fuel rawcookies) := by
  induction fuel generalizing rawcookies with
  | zero => exact Triple.pure fun _ hs => hs
  | succ fuel ih =>
    rw [parseCookiesLoop]
    split
    · exact Triple.bind (keeps_modify fun _ => ⟨rfl, rfl, fun h => h⟩) fun _ => ih _
    · exact Triple.pure fun _ hs => hs

theorem keeps_parseHeader (line : Bytes) : Keeps (SameOutput s) (parseHeader line) := by
  rw [parseHeader]
  split
  · refine Triple.bind (keeps_modify fun _ => ⟨rfl, rfl, fun h => h⟩) fun _ => ?_
    exact Triple.ite (fun _ => keeps_parseCookiesLoop _ _) fun _ => Triple.pure fun _ hs => hs
  · exact keeps_throw _

theorem keeps_parseHeaders (input : Bytes) (fuel offset : ℕ) :
    Keeps (SameOutput s) (parseHeaders input fuel offset) := by
  induction fuel generalizing offset with
  | zero => exact Triple.pure fun _ hs => hs
  | succ fuel ih =>
    rw [parseHeaders]
    exact Triple.ite (fun _ => Triple.pure fun _ hs => hs) fun _ =>
      Triple.bind (keeps_parseHeader _) fun _ => ih _

theorem keeps_parseRequestLine (line : Bytes) : Keeps (SameOutput s) (parseRequestLine line) := by
  refine Triple.bind (keeps_modify fun _ => ⟨rfl, rfl, fun h => h⟩) fun _ => ?_
  split
  · refine Triple.bind (keeps_modify fun _ => ⟨rfl, rfl, fun h => h⟩) fun _ => ?_
    split
    · exact keeps_modify fun _ => ⟨rfl, rfl, fun h => h⟩
    · exact keeps_throw _
  · exact keeps_throw _

theorem processHeaders (input : Bytes) (s : Socket) :
    SameOutput s ((Socket.processHeaders input).run s).2 :=
  Triple.final (Triple.bind (keeps_parseRequestLine _) fun _ => keeps_parseHeaders _ _ _) (refl s)

theorem recvTurn {n : ℤ} (s : Socket) (p : RecvPoll) :
    SameOutput s (Socket.recvTurn n s p).socket := by
  have hend (s' : Socket) (h : SameOutput s s') (r : Readable) :
      SameOutput s (endRecv s' r).socket := by
    rw [endRecv]
    split
    · exact h.trans (close s')
    · split
      · split
        · exact h.trans (close s')
        · exact h
      · exact h
  have hafter (s' : Socket) (h : SameOutput s s') (r : Readable) :
      SameOutput s (afterRead n s' r).socket := by
    rw [afterRead]
    split
    · split
      · rename_i pos hfind
        have hrun := h.trans ((⟨rfl, rfl, fun h => h⟩ : SameOutput s'
          { s' with header := s'.readBuffer.take (pos + 4) }).trans
            (processHeaders (s'.readBuffer.take (pos + 4)) _))
        dsimp only
        generalize ((Socket.processHeaders (s'.readBuffer.take (pos + 4))).run
          { s' with header := s'.readBuffer.take (pos + 4) }) = r at hrun
        obtain ⟨_ | _, s''⟩ := r
        · exact hrun
        · exact ⟨hrun.1, hrun.2, hrun.3⟩
      · split
        · exact h
        · exact hend s' h r
    · split
      · exact h
      · exact hend s' h r
  cases p with
  | failed => exact refl s
  | timedOut =>
    rw [Socket.recvTurn]
    split
    · exact refl s
    · split
      · exact close s
      · exact refl s
  | idle =>
    rw [Socket.recvTurn]
    split <;> exact refl s
  | ready r =>
    rw [Socket.recvTurn]
    split
    · exact hend s (refl s) r
    · exact refl s
    · split
      · exact close s
      · exact refl s
    · split
      · exact close s
      · exact hafter { s with readBuffer := s.readBuffer ++ _ } ⟨rfl, rfl, fun h => h⟩ r

theorem recvLoop {n : ℤ} (s : Socket) (polls : List RecvPoll) :
    SameOutput s (Socket.recvLoop n s polls).1 := by
  induction polls generalizing s with
  | nil => exact refl s
  | cons p ps ih =>
    have hturn := recvTurn (n := n) s p
    rw [Socket.recvLoop]
    cases hp : Socket.recvTurn n s p with
    | again s' =>
      rw [hp] at hturn
      exact hturn.trans (ih s')
    | leave s' =>
      rw [hp] at hturn
      exact ⟨hturn.1, hturn.2, hturn.3⟩
    | done s' =>
      rw [hp] at hturn
      exact hturn
    | raised s' e =>
      rw [hp] at hturn
      exact hturn

theorem receive {n : ℤ} (s : Socket) (polls : List RecvPoll) :
    SameOutput s (Socket.receive s n polls).1 := by
  rw [Socket.receive]
  split
  · exact ⟨rfl, rfl, fun h => h⟩
  · dsimp only
    generalize (if s.header = [] then (headersSizeLimit : ℤ) else n) = size
    split
    · exact ⟨rfl, rfl, fun h => h⟩
    · exact recvLoop s polls

theorem readHeaders (s : Socket) (polls : List RecvPoll) :
    SameOutput s (Socket.readHeaders s polls).1 := by
  rw [Socket.readHeaders]
  split
  · exact receive s polls
  · exact refl s

theorem receiveBody (s : Socket) (requestMaxSize : ℤ) (polls : List RecvPoll) :
    SameOutput s (HttpServer.receiveBody s requestMaxSize polls).1 := by
  rw [HttpServer.receiveBody]
  split
  · split
    · exact refl s
    · exact receive s polls
  · exact refl s

end SameOutput

/-! ## No page for a ticket -/

/-- A path that asks for a cookie: the ticket stands between two slashes. -/
theorem cstr_of_isRequestingCookie {path ticket : Bytes} (h : isRequestingCookie path = some ticket) :
    ∃ ticket, (47 : UInt8) ∉ ticket ∧ ticket ≠ [] ∧
      cstr path = 47 :: (ticket ++ ascii "/httpPassthrough") := by
  rw [isRequestingCookie, Option.map_eq_some_iff] at h
  obtain ⟨found, hfound, -⟩ := h
  have hwhole : matchesWhole regPassthroughTicket (cstr path) = true := by
    rw [matchesWhole, List.any_eq_true]
    exact ⟨found, List.mem_of_find?_eq_some hfound, by simpa using List.find?_some hfound⟩
  obtain ⟨m, hm, hflat⟩ := matchesWhole_iff.mp hwhole
  rw [regPassthroughTicket, List.cons_append, List.cons_append, List.nil_append] at hm
  obtain ⟨slash, rest, hslash, hrest, rfl⟩ := List.forall₂_cons_left_iff.mp hm
  obtain ⟨seg, literal, hseg, hliteral, rfl⟩ := List.forall₂_cons_left_iff.mp hrest
  obtain ⟨b, rfl, hb⟩ := exists_of_accepts_one hslash
  have hname := flatten_of_accepts_literal hliteral
  refine ⟨seg, ?_, ?_, ?_⟩
  · intro hmem
    exact absurd (hseg.1 47 hmem) (by decide)
  · exact List.length_pos_iff.mp hseg.2.1
  · rw [hflat, List.flatten_cons, List.flatten_cons, hname, beq_iff_eq.mp hb]
    rfl

/-- The path of a challenge has one slash more. -/
theorem challenge_of_matches {path : Bytes} (h : matchesWhole regChallenge path = true) :
    ∃ token, (47 : UInt8) ∉ token ∧ path = ascii "/.well-known/acme-challenge/" ++ token := by
  obtain ⟨m, hm, hflat⟩ := matchesWhole_iff.mp h
  have hliteral := (List.forall₂_take_append _ _ _ hm.flip).flip
  have hstar := (List.forall₂_drop_append _ _ _ hm.flip).flip
  rw [List.length_map] at hliteral hstar
  obtain ⟨token, rest, htoken, hrest, hdrop⟩ := List.forall₂_cons_left_iff.mp hstar
  obtain rfl := List.forall₂_nil_left_iff.mp hrest
  refine ⟨token, fun hmem => absurd (htoken.1 47 hmem) (by decide), ?_⟩
  rw [hflat, ← List.take_append_drop (ascii "/.well-known/acme-challenge/").length m,
    List.flatten_append, flatten_of_accepts_literal hliteral, hdrop, List.flatten_singleton]

/-- There is no page for such a path. -/
theorem predefinedURLResponse_of_ticket {W : Type} {site : Site} {h : Handlers W}
    {path ticket : Bytes} (hticket : isRequestingCookie path = some ticket) :
    predefinedURLResponse site h path = pure [] := by
  obtain ⟨ticket, hslash, -, hpath⟩ := cstr_of_isRequestingCookie hticket
  have hlength : 16 < path.length := by
    have hle : (cstr path).length ≤ path.length := (List.takeWhile_sublist _).length_le
    rw [hpath] at hle
    have hname : (ascii "/httpPassthrough").length = 16 := by decide +kernel
    rw [List.length_cons, List.length_append, hname] at hle
    omega
  have hupper : toUppercase path ≠ ascii "/OK" := fun heq => by
    have hlen := congrArg List.length heq
    rw [toUppercase, List.length_map] at hlen
    have hok : (ascii "/OK").length = 3 := by decide +kernel
    omega
  have hother (page : String) (hpage : (ascii page).length ≤ 16) : path ≠ ascii page := fun heq => by
    rw [heq] at hlength
    omega
  have hchallenge : matchesWhole regChallenge (cstr path) = false := by
    by_contra hne
    obtain ⟨token, htoken, hwhole⟩ := challenge_of_matches (Bool.eq_true_of_not_eq_false hne)
    have hcount : (cstr path).count 47 = 2 := by
      rw [hpath, List.count_cons_self, List.count_append, List.count_eq_zero.mpr hslash]
      decide +kernel
    have hcount' : (cstr path).count 47 = 3 := by
      rw [hwhole, List.count_append, List.count_eq_zero.mpr htoken]
      decide +kernel
    omega
  rw [predefinedURLResponse, if_neg hupper, if_neg (hother _ (by decide +kernel)),
    if_neg (hother _ (by decide +kernel)), if_neg fun hand => by simp [hchallenge] at hand]

/-! ## What every step keeps -/

/-- A ticket has been asked for. -/
def Done.isCookie : Done → Bool
  | .cookie _ _ => true
  | .passthrough _ _ | .command _ | .monitor _ | .execute _ => false

section Stable

variable {W : Type} {site : Site} {h : Handlers W}

/-- `I` holds between the steps of the process and `E` where it is left: what is asked of a send, of what
is read, of the checks, of a command or a ticket that is refused, of what gets the socket, and of a
command on a WebSocket. -/
structure Stable (site : Site) (h : Handlers W) (I : State W → Prop) (E : Leave → State W → Prop) :
    Prop where
  send : ∀ answer, Triple I (send site answer) (fun _ => I) E
  read : ∀ s socket polls, I s → SameOutput s.socket socket → I { s with socket, polls }
  authenticated : ∀ s, I s → I { s with authenticated := true }
  work : ∀ s world d, d.isCookie = false → I s → I { s with world, done := s.done ++ [d] }
  handOver : ∀ s world socket wire d, d.isCookie = false → I s →
    I { s with world, socket, wire, done := s.done ++ [d], handedOver := true }
  session : ∀ run (event : Bytes → Done) ticket, (event ticket).isCookie = false →
    Triple I (runCommand h run event ticket) (fun _ => I) E
  leave : ∀ s left, left ≠ .exit .httpError → I s → E left s

/-- A command on a WebSocket keeps what the socket and what is written do not bear on. -/
theorem runCommand_of_frame {I : State W → Prop} {E : Leave → State W → Prop}
    (hwritten : ∀ s socket wire handshake, I s →
      I { s with socket, sends := s.sends.tail, wire, handshake })
    (hwork : ∀ s world d, d.isCookie = false → I s → I { s with world, done := s.done ++ [d] })
    (hover : ∀ s world socket wire d, d.isCookie = false → I s →
      I { s with world, socket, wire, done := s.done ++ [d], handedOver := true })
    (hleave : ∀ s left, left ≠ .exit .httpError → I s → E left s)
    {run : Bytes → Socket → W → W × Except Exception Session} {event : Bytes → Done} {ticket : Bytes}
    (hevent : (event ticket).isCookie = false) :
    Triple I (runCommand h run event ticket) (fun _ => I) E := by
  have hopen : Triple I (openWebSocket h) (fun _ => I) E := by
    intro s hs
    have hafter : I (afterHandshake h s) := hwritten s _ _ _ hs
    rw [run_openWebSocket]
    generalize (s.socket.markWebSocketProtocol.send _ false (s.sends.headD [])).2.2 = o
    cases o with
    | returned => exact hafter
    | raised e => exact hleave _ _ Leave.noConfusion hafter
    | waiting => exact hleave _ _ Leave.noConfusion hafter
  exact triple_runCommand hopen
    (fun s world e hs => hleave _ _ Leave.noConfusion (hwork s world _ hevent hs))
    (fun s world session hs _ => hover s world session.1 (s.wire ++ session.2.1) _ hevent hs)
    fun s e hs => hleave s _ Leave.noConfusion hs

namespace Stable

variable {I : State W → Prop} {E : Leave → State W → Prop} (st : Stable site h I E)

include st

theorem thrown {α : Type} {Q : α → State W → Prop} (e : Exception) :
    Triple I (throw (.thrown e) : ProcessM W α) Q E :=
  Triple.throw fun s hs => st.leave s _ nofun hs

theorem exit {α : Type} {Q : α → State W → Prop} {status : ExitStatus}
    (hstatus : status ≠ .httpError) : Triple I (throw (.exit status) : ProcessM W α) Q E :=
  Triple.throw fun s hs => st.leave s _ (fun heq => hstatus (Leave.exit.inj heq)) hs

theorem readHeaders : Triple I readHeaders (fun _ => I) E := by
  intro s hs
  have houtput := SameOutput.readHeaders s.socket s.polls
  unfold Connection.readHeaders
  rw [run_bind_get]
  dsimp only
  generalize s.socket.readHeaders s.polls = r at houtput
  obtain ⟨socket, o, polls⟩ := r
  have hread := st.read s socket polls hs houtput
  dsimp only
  rw [run_bind_set]
  cases o with
  | returned _ => exact hread
  | raised e => exact st.leave _ (.thrown (.ofThrown e)) nofun hread
  | waiting => exact st.leave _ .waiting nofun hread

theorem body : Triple I (body site) (fun _ => I) E := by
  intro s hs
  have houtput := SameOutput.receiveBody s.socket site.cfg.requestMaxSize s.polls
  unfold Connection.body
  rw [run_bind_get]
  dsimp only
  generalize receiveBody s.socket site.cfg.requestMaxSize s.polls = r at houtput
  obtain ⟨socket, o, polls⟩ := r
  have hread := st.read s socket polls hs houtput
  dsimp only
  rw [run_bind_set]
  cases o with
  | returned _ => exact hread
  | raised e => exact st.leave _ (.thrown (.ofThrown e)) nofun hread
  | waiting => exact st.leave _ .waiting nofun hread

theorem receive : Triple I (receive site) (fun _ => I) E := by
  refine Triple.bind (Triple.bind_get fun s hs => Triple.ite (fun _ => ?_) fun _ => ?_) fun _ => st.body
  · exact (st.send _).at_state hs
  · exact Triple.pure fun _ heq => heq ▸ hs

theorem validateRequest (path : Bytes) : Triple I (validateRequest path) (fun _ => I) E :=
  Triple.bind_get fun _ hs => Triple.ite (fun _ => (st.thrown _).at_state hs) fun _ =>
    Triple.ite (fun _ => (st.thrown _).at_state hs) fun _ => Triple.pure fun _ heq => heq ▸ hs

theorem predefinedURLResponse (path : Bytes) :
    Triple I (predefinedURLResponse site h path) (fun _ => I) E := by
  have hpure (page : Bytes) : Triple I (pure page : ProcessM W Bytes) (fun _ => I) E :=
    Triple.pure fun _ hs => hs
  refine Triple.ite (fun _ => hpure _) fun _ => Triple.ite (fun _ => hpure _) fun _ =>
    Triple.ite (fun _ => hpure _) fun _ => Triple.ite (fun _ => ?_) fun _ => hpure _
  cases h.readFile (site.cfg.certbotWebrootPath ++ path) with
  | ok page => exact hpure page
  | error e => exact st.thrown e

theorem passthrough : Triple I (passthrough h) (fun _ => I) E := by
  refine Triple.bind_get fun s hs => Triple.ite (fun _ => Triple.pure fun _ heq => heq ▸ hs) fun _ => ?_
  rcases h.httpPassthrough (s.socket.getCookie (ascii "VPL_web")) s.socket s.world with
    ⟨world, _ | ⟨socket, wire, granted⟩⟩
  · exact Triple.set fun _ _ => st.work s world _ rfl hs
  · refine Triple.bind (Triple.set (Q := fun _ => I) fun _ _ => ?_) fun _ => ?_
    · exact st.handOver s world socket (s.wire ++ wire) _ rfl hs
    · exact Triple.ite (fun _ => st.exit ExitStatus.noConfusion) fun _ => Triple.pure fun _ h => h

/-- The end of `getPage`. -/
theorem page {status : ExitStatus} (hstatus : status ≠ .httpError) (response path : Bytes) :
    Triple I (do
        let response ← orPredefined site h response path
        if response = [] then
          throw (.thrown (.http .notFound (ascii "HTTP GET: URL path not found")))
        else do
          Connection.send site (.page response)
          throw (.exit status))
      (fun _ : Unit => I) E := by
  refine Triple.bind (Q := fun _ => I) ?_ fun response => ?_
  · exact Triple.ite (fun _ => st.predefinedURLResponse _) fun _ => Triple.pure fun _ h => h
  · exact Triple.ite (fun _ => st.thrown _) fun _ =>
      Triple.bind (st.send _) fun _ => st.exit hstatus

/-- A request for a cookie keeps `I`, if granting or refusing one does. The status of a refusal is lost,
as there is no page for the path. -/
theorem getPage
    (hcookie : ∀ s world t g, I s → I { s with world, done := s.done ++ [.cookie t g] }) :
    Triple I (getPage site h) (fun _ => I) E := by
  have hset (ticket : Bytes) : Triple I (setPassthroughCookie site h ticket) (fun _ => I) E := by
    refine Triple.bind_get fun s hs => ?_
    rcases h.grantsPassthrough ticket s.world with ⟨world, granted⟩
    refine Triple.bind (Triple.set (Q := fun _ => I) fun _ _ => hcookie s world _ _ hs) fun _ => ?_
    exact Triple.ite (fun _ => Triple.bind (st.send _) fun _ => Triple.pure fun _ h => h)
      fun _ => Triple.pure fun _ h => h
  refine Triple.bind_get fun s hs => ?_
  have hfound : Triple (fun s' => s' = s) (cookiePage site h s.socket.getURLPath)
      (fun found s' => I s' ∧ (found.2 = .httpError → found.1 = [] ∧
        ∃ ticket, isRequestingCookie s.socket.getURLPath = some ticket)) E := by
    rw [cookiePage]
    cases hticket : isRequestingCookie s.socket.getURLPath with
    | none => exact Triple.pure fun _ heq => ⟨heq ▸ hs, fun h => by cases h⟩
    | some ticket =>
      refine Triple.at_state (P := I)
        (Triple.bind_get fun s' hs' => Triple.ite (fun _ => ?_) fun _ => ?_) hs
      · exact Triple.pure fun _ heq => ⟨heq ▸ hs', fun h => by cases h⟩
      · exact Triple.bind ((hset ticket).at_state hs') fun granted =>
          Triple.pure fun _ hs => ⟨hs, fun _ => ⟨rfl, ticket, rfl⟩⟩
  refine Triple.bind hfound fun found => Triple.of_states fun _ hboth => ?_
  obtain ⟨hs', hlost⟩ := hboth
  by_cases hstatus : found.2 = .httpError
  · obtain ⟨hpage, ticket, hticket⟩ := hlost hstatus
    rw [orPredefined, if_pos hpage, predefinedURLResponse_of_ticket hticket, pure_bind, if_pos rfl]
    exact (st.thrown _).at_state hs'
  · exact (st.page hstatus _ _).at_state hs'

theorem headPage : Triple I (headPage site h) (fun _ => I) E := by
  refine Triple.bind_get fun _ hs => ?_
  refine Triple.bind ((st.predefinedURLResponse _).at_state hs) fun _ => ?_
  exact Triple.ite (fun _ => st.thrown _) fun _ =>
    Triple.bind (st.send _) fun _ => st.exit ExitStatus.noConfusion

theorem reply (r : Request) : Triple I (reply site h r) (fun _ => I) E := by
  refine Triple.bind_get fun s hs => ?_
  rcases h.command r s.world with ⟨world, result⟩
  refine Triple.bind (Triple.set (Q := fun _ => I) fun _ _ => st.work s world _ rfl hs) fun _ => ?_
  match result with
  | none => exact Triple.throw fun s hs => st.leave s .crash nofun hs
  | some (.error e) => exact st.thrown e
  | some (.ok text) => exact st.send _

theorem request : Triple I (request site h) (fun _ => I) E := by
  refine Triple.ite (fun _ => st.thrown _) fun _ => ?_
  refine Triple.bind (st.validateRequest _) fun _ => ?_
  refine Triple.bind (Triple.modify (Q := fun _ => I) st.authenticated) fun _ => ?_
  refine Triple.bind st.receive fun data => ?_
  cases Request.ofBody site.uninit data with
  | error e => exact st.thrown _
  | ok r => exact st.reply r

theorem websocket : Triple I (websocket h) (fun _ => I) E := by
  refine Triple.bind_get fun s hs => Triple.ite (fun _ => (st.thrown _).at_state hs) fun _ => ?_
  split
  · exact Triple.ite (fun _ => (st.session _ .monitor _ rfl).at_state hs) fun _ =>
      Triple.ite (fun _ => (st.session _ .execute _ rfl).at_state hs) fun _ =>
        (st.thrown _).at_state hs
  · exact (st.thrown _).at_state hs

theorem dispatch (hget : Triple I (Connection.getPage site h) (fun _ => I) E) :
    Triple I (dispatch site h) (fun _ => I) E := by
  refine Triple.bind_get fun s hs => Triple.ite (fun _ => ?_) fun _ => st.websocket.at_state hs
  refine Triple.at_state (P := I) ?_ hs
  exact Triple.bind_get fun s hs => Triple.ite (fun _ => hget.at_state hs) fun _ =>
    Triple.ite (fun _ => st.headPage.at_state hs) fun _ =>
      Triple.ite (fun _ => (st.thrown _).at_state hs) fun _ => st.request.at_state hs

theorem serve (hget : Triple I (Connection.getPage site h) (fun _ => I) E) :
    Triple I (serve site h) (fun _ => I) E := by
  refine Triple.bind st.readHeaders fun _ => Triple.bind_get fun s hs => Triple.ite (fun _ => ?_)
    fun _ => ?_
  · refine (st.exit ?_).at_state hs
    split <;> exact ExitStatus.noConfusion
  · refine Triple.bind (st.passthrough.at_state hs) fun _ => ?_
    exact Triple.bind (st.dispatch hget) fun _ => st.exit ExitStatus.noConfusion

theorem recover (e : Exception) : Triple I (recover site e) (fun _ => I) E := by
  cases e <;>
    exact Triple.bind (st.send _) fun _ => st.exit ExitStatus.noConfusion

/-- What is kept in `serve` is kept in the process, where the answer to an exception keeps `J`. -/
theorem process {J : State W → Prop} (hget : Triple I (Connection.getPage site h) (fun _ => I) E)
    (hrecover : ∀ e, Triple (E (.thrown e)) (Connection.recover site e) (fun _ => J) E)
    (hkept : ∀ s, I s → J s) : Triple I (process site h) (fun _ => J) E := by
  refine Triple.tryCatch ((st.serve hget).weaken (fun _ h => h) (fun _ => hkept) fun _ _ h => h)
    fun left => ?_
  cases left with
  | thrown e => exact hrecover e
  | exit status => exact Triple.throw fun _ h => h
  | crash => exact Triple.throw fun _ h => h
  | waiting => exact Triple.throw fun _ h => h

end Stable

end Stable

/-! ## The answers -/

/-- What is written for these answers. -/
def Site.bytesOf (site : Site) (answers : List (Bool × Answer)) : Bytes :=
  (answers.map fun a => a.2.bytes (site.header a.1)).flatten

/-- An answer that is the last one on its connection stands last, and so does the handshake of a
WebSocket. -/
structure OneFinal (answers : List (Bool × Answer)) (handshake : Bytes) : Prop where
  last : ∀ a ∈ answers.dropLast, a.2.isFinal = false
  handover : handshake ≠ [] → ∀ a ∈ answers, a.2.isFinal = false

/-- The connection takes all that is still to be written. -/
def Undisturbed {W : Type} (s : State W) : Prop :=
  ∀ polls ∈ s.sends, ∀ p ∈ polls, Smooth p

theorem Undisturbed.next {W : Type} {s : State W} (hs : Undisturbed s) :
    ∀ p ∈ s.sends.headD [], Smooth p := by
  cases hsend : s.sends with
  | nil => exact nofun
  | cons polls _ => exact hs polls (hsend ▸ List.mem_cons_self)

theorem Undisturbed.tail {W : Type} {s : State W} (hs : Undisturbed s) :
    ∀ polls ∈ s.sends.tail, ∀ p ∈ polls, Smooth p :=
  fun polls hpolls => hs polls (List.mem_of_mem_tail hpolls)

/-- Every answer has been written whole, and behind a final one there is no open connection but that of
a WebSocket. -/
structure Settled {W : Type} (site : Site) (s : State W) : Prop where
  writeBuffer : s.socket.writeBuffer = []
  wire : s.wire = site.bytesOf s.answers ++ s.handshake
  oneFinal : OneFinal s.answers s.handshake
  handshake : s.socket.websocketProtocol = false → s.handshake = []
  isOpen : IsOpen s.socket → ∀ a ∈ s.answers, a.2.isFinal = false

/-- The last answer is still being written. -/
structure Pending {W : Type} (site : Site) (s : State W) : Prop where
  wire : s.wire <+: site.bytesOf s.answers ++ s.handshake
  oneFinal : OneFinal s.answers s.handshake

section Answers

variable {W : Type} {site : Site} {h : Handlers W}

theorem bytesOf_concat (answers : List (Bool × Answer)) (a : Bool × Answer) :
    site.bytesOf (answers ++ [a]) = site.bytesOf answers ++ a.2.bytes (site.header a.1) := by
  rw [Site.bytesOf, List.map_append, List.flatten_append]
  simp [Site.bytesOf]

theorem oneFinal_concat {answers : List (Bool × Answer)} (h : ∀ a ∈ answers, a.2.isFinal = false)
    (a : Bool × Answer) : OneFinal (answers ++ [a]) [] where
  last := by
    rw [List.dropLast_concat]
    exact h
  handover hne := absurd rfl hne

theorem oneFinal_of_forall {answers : List (Bool × Answer)}
    (h : ∀ a ∈ answers, a.2.isFinal = false) (handshake : Bytes) : OneFinal answers handshake :=
  ⟨fun a ha => h a (List.dropLast_subset _ ha), fun _ => h⟩

theorem bytes_ne_nil (header : Header) (answer : Answer) : answer.bytes header ≠ [] := by
  have hstart : ascii "HTTP/1.1 " ≠ [] := by decide
  cases answer <;> simp [Answer.bytes, prepareHTTP, hstart]

theorem getHandshakeAnswer_ne_nil (SHA1 : Bytes → Bytes) (s : Socket) :
    getHandshakeAnswer SHA1 s ≠ [] := by
  have hstart : ascii "HTTP/1.1 101 Switching Protocols\r\n" ≠ [] := by decide
  simp [getHandshakeAnswer, hstart]

/-- An answer leaves the protocol of the connection. -/
theorem websocketProtocol_afterSend (answer : Answer) (s : State W) :
    (afterSend site answer s).socket.websocketProtocol = s.socket.websocketProtocol := by
  have hsend : (s.socket.send (answer.bytes (site.header s.authenticated)) false
      (s.sends.headD [])).2.1.websocketProtocol = s.socket.websocketProtocol := by
    rw [Socket.send]
    split
    · rfl
    · dsimp only
      split <;> rfl
  rw [afterSend, sendAnswer]
  dsimp only
  split
  · rfl
  · split
    · rename_i wire socket heq
      rw [heq] at hsend
      dsimp only
      split <;> exact hsend
    · exact hsend

/-- An answer on a closed connection or a WebSocket is no answer. -/
theorem sendAnswer_of_not_isOpen (header : Header) {s : Socket} (hs : ¬ IsOpen s) (answer : Answer)
    (polls : List SendPoll) : ∃ socket, sendAnswer header s answer polls = ([], socket, .returned) ∧
      SameOutput s socket ∧ socket.closed = true := by
  cases hws : s.websocketProtocol with
  | true => exact ⟨s.close, by rw [sendAnswer, if_pos hws], .close s, rfl⟩
  | false =>
    have hclosed : s.closed = true := by
      by_contra hopen
      exact hs ⟨Bool.eq_false_of_not_eq_true hopen, hws⟩
    refine ⟨if answer.isFinal then s.close else s, ?_, ?_, ?_⟩
    · rw [sendAnswer, if_neg (ne_true_of_eq_false hws), Socket.send, if_pos hclosed]
    · split
      · exact .close s
      · exact .refl s
    · split
      · rfl
      · exact hclosed

/-- A send on a settled connection leaves a settled one, or it waits with a part of the answer
written. -/
theorem Settled.send {s : State W} (hs : Settled site s) (hsends : Undisturbed s) (answer : Answer) :
    (sendAnswer (site.header s.authenticated) s.socket answer (s.sends.headD [])).2.2 = .returned ∧
        Settled site (afterSend site answer s) ∨
      (sendAnswer (site.header s.authenticated) s.socket answer (s.sends.headD [])).2.2 = .waiting ∧
        Pending site (afterSend site answer s) := by
  by_cases hisOpen : IsOpen s.socket
  · obtain ⟨hclosed, hws⟩ := hisOpen
    have hnone : ∀ a ∈ s.answers, a.2.isFinal = false := hs.isOpen ⟨hclosed, hws⟩
    have hhandshake : s.handshake = [] := hs.handshake hws
    have hanswers : (afterSend site answer s).answers = s.answers ++ [(s.authenticated, answer)] :=
      if_pos ⟨hclosed, hws⟩
    have hone : OneFinal (afterSend site answer s).answers (afterSend site answer s).handshake := by
      rw [hanswers, show (afterSend site answer s).handshake = [] from hhandshake]
      exact oneFinal_concat hnone _
    have htext : site.bytesOf (afterSend site answer s).answers ++
        (afterSend site answer s).handshake =
          s.wire ++ answer.bytes (site.header s.authenticated) := by
      rw [hanswers, bytesOf_concat, show (afterSend site answer s).handshake = [] from hhandshake,
        hs.wire, hhandshake, List.append_nil, List.append_nil]
    rw [sendAnswer, if_neg (ne_true_of_eq_false hws)]
    rcases send_smooth hclosed hs.writeBuffer (bytes_ne_nil (site.header s.authenticated) answer)
      hsends.next with hsend | ⟨wire, hwire, hsend⟩
    · left
      have hsocket : (afterSend site answer s).socket =
          if answer.isFinal then s.socket.close else s.socket := by
        rw [afterSend, sendAnswer, if_neg (ne_true_of_eq_false hws), hsend]
      have hwritten : (afterSend site answer s).wire =
          s.wire ++ answer.bytes (site.header s.authenticated) := by
        rw [afterSend, sendAnswer, if_neg (ne_true_of_eq_false hws), hsend]
      rw [hsend]
      refine ⟨rfl, ?_, hwritten.trans htext.symm, hone, fun _ => hhandshake, fun hopen a ha => ?_⟩
      · rw [hsocket]
        split <;> exact hs.writeBuffer
      · -- the connection is closed behind a final answer
        have hfinal : answer.isFinal = false := by
          by_contra hfinal
          rw [hsocket, if_pos (Bool.eq_true_of_not_eq_false hfinal)] at hopen
          exact Bool.noConfusion hopen.1
        rw [hanswers] at ha
        rcases List.mem_append.mp ha with ha | ha
        · exact hnone a ha
        · rw [List.mem_singleton.mp ha]
          exact hfinal
    · right
      rw [hsend]
      refine ⟨rfl, ?_, hone⟩
      rw [htext, afterSend, sendAnswer, if_neg (ne_true_of_eq_false hws), hsend]
      exact List.prefix_append_right_inj _ |>.mpr hwire
  · obtain ⟨socket, hsend, houtput, hclosed⟩ := sendAnswer_of_not_isOpen
      (site.header s.authenticated) hisOpen answer (s.sends.headD [])
    refine .inl ⟨by rw [hsend], ?_⟩
    rw [afterSend, hsend, if_neg hisOpen, List.append_nil]
    exact ⟨houtput.writeBuffer.trans hs.writeBuffer, hs.wire, hs.oneFinal,
      fun hws => hs.handshake (houtput.websocketProtocol.symm.trans hws),
      fun hopen => Bool.noConfusion (hclosed.symm.trans hopen.1)⟩

/-- The socket has been handed over, or every answer has been written. -/
def Written (site : Site) (s : State W) : Prop :=
  Undisturbed s ∧ (s.handedOver = true ∨ Settled site s)

/-- So it is, and there is no WebSocket yet. -/
def Answered (site : Site) (s : State W) : Prop :=
  Undisturbed s ∧ (s.handedOver = true ∨ Settled site s ∧ s.socket.websocketProtocol = false)

/-- Where the process still waits, the last answer may be unfinished. -/
def LeftWritten (site : Site) (left : Leave) (s : State W) : Prop :=
  Written site s ∨ left = .waiting ∧ Pending site s

theorem Answered.written {s : State W} (hs : Answered site s) : Written site s :=
  ⟨hs.1, hs.2.imp_right And.left⟩

theorem undisturbed_afterSend {s : State W} (hs : Undisturbed s) (answer : Answer) :
    Undisturbed (afterSend site answer s) :=
  hs.tail

/-- A send keeps what holds of a settled connection, or it is left waiting. -/
theorem send_of_settled {P : State W → Prop} (answer : Answer)
    (hP : ∀ s, P s → P (afterSend site answer s)) :
    Triple (fun s => Undisturbed s ∧ (s.handedOver = true ∨ Settled site s ∧ P s))
      (send site answer)
      (fun _ s => Undisturbed s ∧ (s.handedOver = true ∨ Settled site s ∧ P s))
      (LeftWritten site) := by
  rintro s ⟨hsends, hs⟩
  have hafter : Undisturbed (afterSend site answer s) := undisturbed_afterSend hsends answer
  rw [run_send]
  rcases hs with hover | ⟨hsettled, hs⟩
  · have hwritten : Written site (afterSend site answer s) := ⟨hafter, .inl hover⟩
    cases (sendAnswer (site.header s.authenticated) s.socket answer (s.sends.headD [])).2.2 with
    | returned => exact ⟨hafter, .inl hover⟩
    | raised e => exact .inl hwritten
    | waiting => exact .inl hwritten
  · rcases hsettled.send hsends answer with ⟨ho, hs'⟩ | ⟨ho, hs'⟩
    · rw [ho]
      exact ⟨hafter, .inr ⟨hs', hP s hs⟩⟩
    · rw [ho]
      exact .inr ⟨rfl, hs'⟩

theorem written_send (answer : Answer) :
    Triple (Written site : State W → Prop) (send site answer) (fun _ => Written site)
      (LeftWritten site) := by
  refine (send_of_settled (P := fun _ => True) answer fun _ h => h).weaken (fun s hs => ?_)
    (fun _ s hs => ?_) fun _ _ h => h
  · exact ⟨hs.1, hs.2.imp_right fun h => ⟨h, trivial⟩⟩
  · exact ⟨hs.1, hs.2.imp_right And.left⟩

theorem answered_send (answer : Answer) :
    Triple (Answered site : State W → Prop) (send site answer) (fun _ => Answered site)
      (LeftWritten site) :=
  send_of_settled (P := fun s => s.socket.websocketProtocol = false) answer
    fun s hs => (websocketProtocol_afterSend answer s).trans hs

theorem Settled.read {s : State W} (hs : Settled site s) {socket : Socket} {polls : List RecvPoll}
    (houtput : SameOutput s.socket socket) : Settled site { s with socket, polls } where
  writeBuffer := houtput.writeBuffer.trans hs.writeBuffer
  wire := hs.wire
  oneFinal := hs.oneFinal
  handshake hws := hs.handshake (houtput.websocketProtocol.symm.trans hws)
  isOpen hopen := by
    refine hs.isOpen ⟨?_, houtput.websocketProtocol.symm.trans hopen.2⟩
    by_contra hclosed
    exact Bool.noConfusion ((houtput.closed (Bool.eq_true_of_not_eq_false hclosed)).symm.trans hopen.1)

/-- The handshake on a settled connection leaves a settled one, or it waits with a part of the handshake
written. -/
theorem Settled.openWebSocket {s : State W} (hs : Settled site s)
    (hws : s.socket.websocketProtocol = false) (hsends : Undisturbed s) :
    (s.socket.markWebSocketProtocol.send (getHandshakeAnswer h.SHA1 s.socket.markWebSocketProtocol)
          false (s.sends.headD [])).2.2 = .returned ∧ Settled site (afterHandshake h s) ∨
      (s.socket.markWebSocketProtocol.send (getHandshakeAnswer h.SHA1 s.socket.markWebSocketProtocol)
          false (s.sends.headD [])).2.2 = .waiting ∧ Pending site (afterHandshake h s) := by
  rw [afterHandshake]
  cases hclosed : s.socket.closed with
  | true =>
    rw [Socket.send, if_pos (show s.socket.markWebSocketProtocol.closed = true from hclosed)]
    exact .inl ⟨rfl, hs.writeBuffer, (List.append_nil _).trans hs.wire, hs.oneFinal,
      fun hws => Bool.noConfusion hws, fun hopen => Bool.noConfusion (hclosed.symm.trans hopen.1)⟩
  | false =>
    have hnone : ∀ a ∈ s.answers, a.2.isFinal = false := hs.isOpen ⟨hclosed, hws⟩
    have hone (answer : Bytes) : OneFinal s.answers (s.handshake ++ answer) :=
      oneFinal_of_forall hnone _
    have htext (answer : Bytes) : site.bytesOf s.answers ++ (s.handshake ++ answer) =
        s.wire ++ answer := by
      rw [hs.wire, List.append_assoc]
    rcases send_smooth (s := s.socket.markWebSocketProtocol) hclosed hs.writeBuffer
      (getHandshakeAnswer_ne_nil h.SHA1 _) hsends.next with hsend | ⟨wire, hwire, hsend⟩
    · rw [hsend]
      exact .inl ⟨rfl, hs.writeBuffer, (htext _).symm, hone _, fun hws => Bool.noConfusion hws,
        fun hopen => Bool.noConfusion hopen.2⟩
    · rw [hsend]
      refine .inr ⟨rfl, ?_, hone _⟩
      show s.wire ++ wire <+: site.bytesOf s.answers ++ (s.handshake ++ _)
      rw [htext]
      exact (List.prefix_append_right_inj _).mpr hwire

/-- The handshake is the last answer. -/
theorem written_openWebSocket : Triple (Answered site : State W → Prop) (openWebSocket h)
    (fun _ => Written site) (LeftWritten site) := by
  rintro s ⟨hsends, hs⟩
  rw [run_openWebSocket]
  rcases hs with hover | ⟨hs, hws⟩
  · have hwritten : Written site (afterHandshake h s) := ⟨hsends.tail, .inl hover⟩
    generalize (s.socket.markWebSocketProtocol.send _ false (s.sends.headD [])).2.2 = o
    cases o with
    | returned => exact hwritten
    | raised e => exact .inl hwritten
    | waiting => exact .inl hwritten
  · rcases hs.openWebSocket hws hsends with ⟨ho, hs'⟩ | ⟨ho, hs'⟩
    · rw [ho]
      exact ⟨hsends.tail, .inr hs'⟩
    · rw [ho]
      exact .inr ⟨rfl, hs'⟩

/-- A command on a WebSocket refuses its ticket behind the handshake, or it gets the socket. -/
theorem answered_runCommand {run : Bytes → Socket → W → W × Except Exception Session}
    {event : Bytes → Done} {ticket : Bytes} :
    Triple (Answered site : State W → Prop) (runCommand h run event ticket) (fun _ => Answered site)
      (LeftWritten site) := by
  refine triple_runCommand written_openWebSocket (fun s world e hs => .inl ?_)
    (fun s world session hs _ => ⟨hs.1, .inl rfl⟩) fun s e hs => .inl hs.written
  exact ⟨hs.1, hs.2.imp_right fun ⟨h₁, h₂, h₃, h₄, h₅⟩ => ⟨h₁, h₂, h₃, h₄, h₅⟩⟩

/-- Every step of the process leaves a connection behind on which all answers have been written. -/
theorem stable_answered : Stable site h (Answered site : State W → Prop) (LeftWritten site) where
  send := answered_send
  read := fun _ _ _ hs houtput => ⟨hs.1, hs.2.imp_right fun hs =>
    ⟨hs.1.read houtput, houtput.websocketProtocol.trans hs.2⟩⟩
  authenticated := fun _ hs => ⟨hs.1, hs.2.imp_right fun ⟨⟨h₁, h₂, h₃, h₄, h₅⟩, h₆⟩ =>
    ⟨⟨h₁, h₂, h₃, h₄, h₅⟩, h₆⟩⟩
  work := fun _ _ _ _ hs => ⟨hs.1, hs.2.imp_right fun ⟨⟨h₁, h₂, h₃, h₄, h₅⟩, h₆⟩ =>
    ⟨⟨h₁, h₂, h₃, h₄, h₅⟩, h₆⟩⟩
  handOver := fun _ _ _ _ _ _ hs => ⟨hs.1, .inl rfl⟩
  session := fun _ _ _ _ => answered_runCommand
  leave := fun _ _ _ hs => .inl hs.written

theorem written_recover (e : Exception) : Triple (LeftWritten site (.thrown e) : State W → Prop)
    (recover site e) (fun _ => Written site) (LeftWritten site) := by
  have hwritten (s : State W) (hs : LeftWritten site (.thrown e) s) : Written site s :=
    hs.resolve_right fun hwait => Leave.noConfusion hwait.1
  have hanswer (answer : Answer) (status : ExitStatus) :
      Triple (LeftWritten site (.thrown e) : State W → Prop)
        (do
          send site answer
          throw (.exit status))
        (fun _ : Unit => Written site) (LeftWritten site) :=
    Triple.bind ((written_send answer).weaken hwritten (fun _ _ h => h) fun _ _ h => h) fun _ =>
      Triple.throw fun _ h => .inl h
  cases e <;> exact hanswer _ _

/-- On a connection that is written to undisturbed, a client that is not handed over to a local web
server or to a session behind an accepted ticket gets at most one answer beside those to `Expect`, as the
last: a final answer, or the handshake of a WebSocket. What is written are these answers. Only a process
that waits for its connection may have written less. -/
theorem process_answers (site : Site) (h : Handlers W) (socket : Socket) (world : W)
    (polls : List RecvPoll) (sends : List (List SendPoll)) (hbuffer : socket.writeBuffer = [])
    (hws : socket.websocketProtocol = false)
    (hsends : ∀ polls ∈ sends, ∀ p ∈ polls, Smooth p) :
    let r := (process site h).run.run (start socket world polls sends)
    r.2.handedOver = true ∨
      OneFinal r.2.answers r.2.handshake ∧
        r.2.wire <+: site.bytesOf r.2.answers ++ r.2.handshake ∧
          (r.1 ≠ .error .waiting → r.2.wire = site.bytesOf r.2.answers ++ r.2.handshake) := by
  have hstart : Answered site (start socket world polls sends) :=
    ⟨hsends, .inr ⟨⟨hbuffer, rfl, oneFinal_of_forall (List.forall_mem_nil _) _, fun _ => rfl,
      fun _ => List.forall_mem_nil _⟩, hws⟩⟩
  have hget : Triple (Answered site : State W → Prop) (getPage site h) (fun _ => Answered site)
      (LeftWritten site) :=
    stable_answered.getPage fun s world t g hs => ⟨hs.1, hs.2.imp_right
      fun ⟨⟨h₁, h₂, h₃, h₄, h₅⟩, h₆⟩ => ⟨⟨h₁, h₂, h₃, h₄, h₅⟩, h₆⟩⟩
  have hrun := stable_answered.process hget written_recover (fun _ => Answered.written) _ hstart
  generalize (process site h).run.run (start socket world polls sends) = r at hrun
  obtain ⟨left, s⟩ := r
  have hanswered (hs : Written site s) : s.handedOver = true ∨ OneFinal s.answers s.handshake ∧
      s.wire <+: site.bytesOf s.answers ++ s.handshake ∧
        (left ≠ .error .waiting → s.wire = site.bytesOf s.answers ++ s.handshake) :=
    hs.2.imp_right fun hs => ⟨hs.oneFinal, ⟨[], by rw [hs.wire, List.append_nil]⟩, fun _ => hs.wire⟩
  cases left with
  | ok _ => exact hanswered hrun
  | error left =>
    rcases hrun with hs | ⟨rfl, hpending⟩
    · exact hanswered hs
    · exact .inr ⟨hpending.oneFinal, hpending.wire, fun hne => absurd rfl hne⟩

/-- Commands that refuse whatever they are asked. -/
def refusing : Handlers Unit where
  SHA1 := fun _ => []
  httpPassthrough := fun _ _ w => (w, none)
  grantsPassthrough := fun _ w => (w, false)
  readFile := fun _ => .ok []
  command := fun _ w => (w, some (.error (.http .badRequest (ascii "refused"))))
  monitor := fun _ _ w => (w, .error (.text (ascii "Ticket invalid")))
  execute := fun _ _ w => (w, .error (.text (ascii "Ticket invalid")))
  httpPassthrough_head := fun _ _ _ _ hr => by cases hr
  monitor_head := fun _ _ _ _ hr => by cases hr
  execute_head := fun _ _ _ _ hr => by cases hr

theorem ne_13_of_mem_plainVersion : ∀ b ∈ ascii "5.0.3", b ≠ 13 := by
  decide +kernel

/-- A server with the settings of an empty file, on its plain port. -/
def plainSite : Site :=
  ⟨Configuration.serverDefault, ascii "5.0.3", false, ascii "10.0.0.7", .zero,
    ne_13_of_mem_plainVersion⟩

/-- A browser with a ticket for a local web server that is refused, and which takes the page at `/ok` in
pieces of any size. -/
theorem process_answers_ok :
    let r := (process plainSite refusing).run.run
      (start {} () [.ready { pollin := some (.read
          (ascii "GET /ok HTTP/1.1\r\nCookie: VPL_web=12\r\n\r\n")) }]
        [[.ready { pollout := some (.wrote 7) }, .idle, .ready { pollout := some (.wrote 4096) }]])
    r.2.handedOver = true ∨
      OneFinal r.2.answers r.2.handshake ∧
        r.2.wire <+: plainSite.bytesOf r.2.answers ++ r.2.handshake ∧
          (r.1 ≠ .error .waiting → r.2.wire = plainSite.bytesOf r.2.answers ++ r.2.handshake) :=
  process_answers plainSite refusing {} () _ _ rfl rfl fun polls hpolls p hp => by
    rw [List.mem_singleton.mp hpolls] at hp
    simp only [List.mem_cons, List.not_mem_nil, or_false] at hp
    rcases hp with rfl | rfl | rfl
    · exact .inr ⟨7, by decide, rfl⟩
    · exact .inl rfl
    · exact .inr ⟨4096, by decide, rfl⟩

/-! ## A ticket that is asked for -/

/-- No ticket has been asked for. -/
def NoCookie (done : List Done) : Prop :=
  ∀ t g, Done.cookie t g ∉ done

theorem noCookie_append {done : List Done} (hdone : NoCookie done) {d : Done}
    (hd : ∀ t g, d ≠ .cookie t g) : NoCookie (done ++ [d]) := by
  intro t g hmem
  rcases List.mem_append.mp hmem with hmem | hmem
  · exact hdone t g hmem
  · exact hd t g (List.mem_singleton.mp hmem).symm

/-- Nobody has asked for a ticket, on a connection that takes all that is written. -/
def Unasked (s : State W) : Prop :=
  Undisturbed s ∧ NoCookie s.done

/-- One who has asked for a ticket is told that there is no such page, if not left waiting. -/
def LeftAsked (left : Leave) (s : State W) : Prop :=
  Undisturbed s ∧ (¬ NoCookie s.done → left = .waiting ∨ ∃ c m, left = .thrown (.http c m))

/-- No exception comes of a send on such a connection. -/
theorem undisturbed_send (site : Site) (P : State W → Prop)
    (hP : ∀ s answer, P s → P (afterSend site answer s)) (answer : Answer) :
    Triple (fun s => Undisturbed s ∧ P s) (send site answer) (fun _ s => Undisturbed s ∧ P s)
      (fun left s => (Undisturbed s ∧ P s) ∧ left = .waiting) := by
  rintro s ⟨hsends, hs⟩
  have hafter : Undisturbed (afterSend site answer s) ∧ P (afterSend site answer s) :=
    ⟨undisturbed_afterSend hsends answer, hP s answer hs⟩
  rw [run_send]
  cases ho : (sendAnswer (site.header s.authenticated) s.socket answer (s.sends.headD [])).2.2 with
  | returned => exact hafter
  | waiting => exact ⟨hafter, rfl⟩
  | raised e => exact absurd ho (sendAnswer_smooth_ne_raised _ _ _ hsends.next e)

/-- What is done for others keeps that nobody has asked. -/
theorem stable_unasked : Stable site h (Unasked : State W → Prop) LeftAsked := by
  have hdone (done : List Done) (d : Done) (hd : d.isCookie = false) (hnone : NoCookie done) :
      NoCookie (done ++ [d]) :=
    noCookie_append hnone fun _ _ heq => Bool.noConfusion ((congrArg Done.isCookie heq).symm.trans hd)
  have hleave (s : State W) (left : Leave) (hs : Unasked s) : LeftAsked left s :=
    ⟨hs.1, fun hsome => absurd hs.2 hsome⟩
  exact {
    send := fun answer => (undisturbed_send site _ (fun _ _ h => h) answer).weaken (fun _ h => h)
      (fun _ _ h => h) fun left s h => hleave s left h.1
    read := fun _ _ _ hs _ => hs
    authenticated := fun _ hs => hs
    work := fun s _ d hd hs => ⟨hs.1, hdone s.done d hd hs.2⟩
    handOver := fun s _ _ _ d hd hs => ⟨hs.1, hdone s.done d hd hs.2⟩
    session := fun _ _ _ hevent => runCommand_of_frame (fun _ _ _ _ hs => ⟨hs.1.tail, hs.2⟩)
      (fun s _ d hd hs => ⟨hs.1, hdone s.done d hd hs.2⟩)
      (fun s _ _ _ d hd hs => ⟨hs.1, hdone s.done d hd hs.2⟩) (fun s left _ hs => hleave s left hs)
      hevent
    leave := fun s left _ hs => hleave s left hs }

/-- For a ticket that is asked for there is no page. -/
theorem unasked_getPage : Triple (Unasked : State W → Prop) (getPage site h) (fun _ => Unasked)
    LeftAsked := by
  have hset (ticket : Bytes) : Triple (Unasked : State W → Prop) (setPassthroughCookie site h ticket)
      (fun _ => Undisturbed) LeftAsked := by
    refine Triple.bind_get fun s hs => ?_
    rcases h.grantsPassthrough ticket s.world with ⟨world, granted⟩
    refine Triple.bind (Triple.set (Q := fun _ => Undisturbed) fun _ _ => hs.1) fun _ => ?_
    refine Triple.ite (fun _ => ?_) fun _ => Triple.pure fun _ h => h
    have hsend := undisturbed_send site (fun _ : State W => True) (fun _ _ h => h)
      (.redirect ticket)
    refine Triple.bind (hsend.weaken (fun _ h => ⟨h, trivial⟩) (fun _ _ h => h.1) fun _ _ h => ?_)
      fun _ => Triple.pure fun _ h => h
    exact ⟨h.1.1, fun _ => .inl h.2⟩
  refine Triple.bind_get fun s hs => ?_
  have hfound : Triple (fun s' => s' = s) (cookiePage site h s.socket.getURLPath)
      (fun found s' => Unasked s' ∧ found.2 = .neutral ∨ Undisturbed s' ∧ found.1 = [] ∧
        ∃ ticket, isRequestingCookie s.socket.getURLPath = some ticket) LeftAsked := by
    rw [cookiePage]
    cases hticket : isRequestingCookie s.socket.getURLPath with
    | none => exact Triple.pure fun _ heq => .inl ⟨heq ▸ hs, rfl⟩
    | some ticket =>
      refine Triple.at_state (P := Unasked) (Triple.bind_get fun s' hs' => Triple.ite (fun _ => ?_)
        fun _ => ?_) hs
      · exact Triple.pure fun _ heq => .inl ⟨heq ▸ hs', rfl⟩
      · exact Triple.bind ((hset ticket).at_state hs') fun granted =>
          Triple.pure fun _ hs => .inr ⟨hs, rfl, ticket, rfl⟩
  refine Triple.bind hfound fun found => Triple.of_states fun s' hs' => ?_
  rcases hs' with ⟨hs', hstatus⟩ | ⟨hs', hpage, ticket, hticket⟩
  · rw [hstatus]
    exact (stable_unasked.page ExitStatus.noConfusion _ _).at_state hs'
  · rw [orPredefined, if_pos hpage, predefinedURLResponse_of_ticket hticket, pure_bind, if_pos rfl]
    exact Triple.throw fun _ heq => heq ▸ ⟨hs', fun _ => .inr ⟨_, _, rfl⟩⟩

/-- One who has asked for a ticket leaves with a success, if not left waiting. -/
theorem asked_process : Triple (Unasked : State W → Prop) (process site h)
    (fun _ s => NoCookie s.done)
    (fun left s => NoCookie s.done ∨ left = .exit .success ∨ left = .waiting) := by
  have hserve : Triple (Unasked : State W → Prop) (serve site h) (fun _ => Unasked) LeftAsked :=
    stable_unasked.serve unasked_getPage
  refine Triple.tryCatch (hserve.weaken (fun _ h => h) (fun _ _ h => h.2) fun _ _ h => h)
    fun left => ?_
  have hleft (hcaught : ∀ e, left ≠ .thrown e) : Triple (LeftAsked left : State W → Prop)
      (throw left : ProcessM W Unit) (fun _ s => NoCookie s.done)
      (fun left s => NoCookie s.done ∨ left = .exit .success ∨ left = .waiting) := by
    refine Triple.throw fun s hs => ?_
    by_cases hnone : NoCookie s.done
    · exact .inl hnone
    · rcases hs.2 hnone with hwait | ⟨c, m, hthrown⟩
      · exact .inr (.inr hwait)
      · exact absurd hthrown (hcaught _)
  cases left with
  | thrown e =>
    refine Triple.of_states fun s hs => ?_
    by_cases hnone : NoCookie s.done
    · -- Nobody has asked, and the answer to the exception does not change that.
      have hsend (answer : Answer) (status : ExitStatus) :
          Triple (fun s' => s' = s)
            (do
              send site answer
              throw (.exit status))
            (fun (_ : Unit) s => NoCookie s.done)
            (fun left s => NoCookie s.done ∨ left = .exit .success ∨ left = .waiting) :=
        Triple.bind (((undisturbed_send site (fun s => NoCookie s.done) (fun _ _ h => h)
          answer).at_state ⟨hs.1, hnone⟩).weaken (fun _ h => h) (fun _ _ h => h)
          fun _ _ h => .inl h.1.2) fun _ => Triple.throw fun _ h => .inl h.2
      cases e <;> exact hsend _ _
    · obtain hwait | ⟨c, m, hthrown⟩ := hs.2 hnone
      · cases hwait
      · obtain rfl := Leave.thrown.inj hthrown
        have hsend := undisturbed_send site (fun _ : State W => True) (fun _ _ h => h) (.code c m)
        exact Triple.bind ((hsend.at_state ⟨hs.1, trivial⟩).weaken (fun _ h => h) (fun _ _ h => h)
          fun _ _ h => .inr (.inr h.2)) fun _ => Triple.throw fun _ _ => .inr (.inl rfl)
  | exit status => exact hleft nofun
  | crash => exact hleft nofun
  | waiting => exact hleft nofun

/-- The status of a refusal is left nowhere. -/
theorem stable_status :
    Stable site h (fun _ : State W => True) (fun left _ => left ≠ .exit .httpError) where
  send := fun answer s _ => by
    rw [run_send]
    generalize (sendAnswer (site.header s.authenticated) s.socket answer (s.sends.headD [])).2.2 = o
    cases o with
    | returned => trivial
    | raised e => exact nofun
    | waiting => exact nofun
  read := fun _ _ _ _ _ => trivial
  authenticated := fun _ _ => trivial
  work := fun _ _ _ _ _ => trivial
  handOver := fun _ _ _ _ _ _ _ => trivial
  session := fun _ _ _ hevent => runCommand_of_frame (fun _ _ _ _ _ => trivial)
    (fun _ _ _ _ _ => trivial) (fun _ _ _ _ _ _ _ => trivial) (fun _ _ hleft _ => hleft) hevent
  leave := fun _ _ hleft _ => hleft

/-- The status for a wrong ticket is never that of the process. On a connection that takes all that is
written, asking for a ticket counts as a success, whether the ticket is right or wrong. -/
theorem process_cookie (site : Site) (h : Handlers W) (socket : Socket) (world : W)
    (polls : List RecvPoll) (sends : List (List SendPoll)) :
    let r := (process site h).run.run (start socket world polls sends)
    r.1 ≠ .error (.exit .httpError) ∧
      ((∀ polls ∈ sends, ∀ p ∈ polls, Smooth p) → (∃ t g, Done.cookie t g ∈ r.2.done) →
        r.1 = .error (.exit .success) ∨ r.1 = .error .waiting) := by
  have hprocess : Triple (fun _ : State W => True) (process site h) (fun _ _ => True)
      (fun left _ => left ≠ .exit .httpError) :=
    stable_status.process (stable_status.getPage fun _ _ _ _ h => h)
      (fun e => ((stable_status (h := h)).recover e).weaken (fun _ _ => trivial) (fun _ _ h => h)
        fun _ _ h => h) fun _ h => h
  have hstatus := hprocess (start socket world polls sends) trivial
  have hasked (hsends : ∀ polls ∈ sends, ∀ p ∈ polls, Smooth p) :=
    (asked_process : Triple _ (process site h) _ _) (start socket world polls sends)
      ⟨hsends, fun _ _ => List.not_mem_nil⟩
  generalize (process site h).run.run (start socket world polls sends) = r at hstatus hasked
  obtain ⟨left, s⟩ := r
  refine ⟨?_, fun hsends ⟨t, g, hcookie⟩ => ?_⟩
  · cases left with
    | ok _ => exact nofun
    | error left => exact fun heq => hstatus (Except.error.inj heq)
  · have hasked := hasked hsends
    cases left with
    | ok _ => exact absurd hcookie (hasked t g)
    | error left =>
      rcases hasked with hnone | rfl | rfl
      · exact absurd hcookie (hnone t g)
      · exact .inl rfl
      · exact .inr rfl

end Answers

end VplJail.Jail.Connection
