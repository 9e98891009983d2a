import VplJail.Jail.Connection

/-!
# What a connection gets done

A connection gets at most one thing done beside a try to pass to a local web server, and only what its
request permits (`process_done`): a command needs a `POST` for the path of the server from a client that
may ask for tasks, a session needs a `GET` that asks for a WebSocket.
-/

namespace VplJail.Jail.Connection

open HttpServer PosixRegex Rpc VplJail.Server Socket Util

/-! ## Comparing paths -/

theorem foldl_or_eq_zero_iff (f : ℕ → UInt8) (is : List ℕ) (r : UInt8) :
    is.foldl (fun r i => r ||| f i) r = 0 ↔ r = 0 ∧ ∀ i ∈ is, f i = 0 := by
  induction is generalizing r with
  | nil => simp
  | cons i is ih =>
    rw [List.foldl_cons, ih, UInt8.or_eq_zero_iff, List.forall_mem_cons, and_assoc]

/-- The comparison looks at every byte, and tells whether the strings are the same. -/
theorem compareConstantTime_iff (a b : Bytes) : compareConstantTime a b = true ↔ a = b := by
  have hwork : max a.length b.length ≤ (if max a.length b.length % 32 ≠ 0 then
      max a.length b.length + (32 - max a.length b.length % 32) else max a.length b.length) := by
    split <;> omega
  unfold compareConstantTime
  dsimp only
  generalize (if max a.length b.length % 32 ≠ 0 then
    max a.length b.length + (32 - max a.length b.length % 32) else max a.length b.length) = n at hwork
  rw [beq_iff_eq, UInt8.or_eq_zero_iff, foldl_or_eq_zero_iff]
  constructor
  · rintro ⟨⟨-, hbytes⟩, hlength⟩
    have hlength : a.length = b.length := by
      by_contra hne
      rw [if_pos hne] at hlength
      exact absurd hlength (by decide)
    refine List.ext_getElem hlength fun i ha hb => ?_
    have hi := UInt8.xor_eq_zero_iff.mp (hbytes i (List.mem_range.mpr (by omega)))
    rwa [List.getElem?_eq_getElem ha, List.getElem?_eq_getElem hb] at hi
  · rintro rfl
    refine ⟨⟨rfl, fun i _ => UInt8.xor_eq_zero_iff.mpr rfl⟩, ?_⟩
    rw [if_neg fun h => h rfl]

/-! ## What a request permits -/

/-- A path, where none is that of the root. -/
def pathOrRoot (path : Bytes) : Bytes :=
  if path = [] then ascii "/" else path

/-- The request asks for a WebSocket. -/
def AsksWebSocket (s : Socket) : Prop :=
  toUppercase (s.getHeader (ascii "Upgrade")) = ascii "WEBSOCKET"

/-- What a request whose head is that of `s` may get done. -/
inductive Permits (site : Site) (s : Socket) : Done → Prop
  | cookie {ticket : Bytes} (granted : Bool) (hupgrade : ¬ AsksWebSocket s)
      (hmethod : s.getMethod = ascii "GET")
      (hticket : isRequestingCookie s.getURLPath = some ticket) :
      Permits site s (.cookie ticket granted)
  | command {r : Request} {data : Bytes} (hupgrade : ¬ AsksWebSocket s)
      (hclient : isValidIPforRequest site.cfg.taskOnlyFrom site.IP = true)
      (hmethod : s.getMethod = ascii "POST")
      (hpath : pathOrRoot s.getURLPath = pathOrRoot site.cfg.URLPath)
      (hbody : Request.ofBody site.uninit data = .ok r) : Permits site s (.command r)
  | monitor {slash ticket slash' : Bytes} (hupgrade : AsksWebSocket s)
      (hmethod : s.getMethod = ascii "GET")
      (hpath : searchWhole regWebSocketPath (cstr s.getURLPath) =
        some [slash, ticket, slash', ascii "monitor"]) : Permits site s (.monitor ticket)
  | execute {slash ticket slash' : Bytes} (hupgrade : AsksWebSocket s)
      (hmethod : s.getMethod = ascii "GET")
      (hpath : searchWhole regWebSocketPath (cstr s.getURLPath) =
        some [slash, ticket, slash', ascii "execute"]) : Permits site s (.execute ticket)

/-- What has been done is what the request permits: a try to pass to a local web server, if the browser
has a ticket, and one thing more at most, unless that try was granted. -/
def Orderly (site : Site) (s : Socket) (done : List Done) : Prop :=
  ∃ before after, done = before ++ after ∧
    (before = [] ∨ ∃ granted, before = [.passthrough (s.getCookie (ascii "VPL_web")) granted] ∧
      s.getCookie (ascii "VPL_web") ≠ [] ∧ (granted = true → after = [])) ∧
    (after = [] ∨ ∃ d, after = [d] ∧ Permits site s d)

/-! ## The same head -/

namespace SameHead

variable {s s' s'' : Socket}

theorem refl (s : Socket) : SameHead s s :=
  ⟨rfl, rfl, rfl, rfl, rfl, rfl⟩

theorem trans (h : SameHead s s') (h' : SameHead s' s'') : SameHead s s'' :=
  ⟨h'.method.trans h.method, h'.URLPath.trans h.URLPath, h'.queryString.trans h.queryString,
    h'.headers.trans h.headers, h'.cookies.trans h.cookies, h'.header.trans h.header⟩

theorem getMethod (h : SameHead s s') : s'.getMethod = s.getMethod := h.method

theorem getURLPath (h : SameHead s s') : s'.getURLPath = s.getURLPath := h.URLPath

theorem getHeader (h : SameHead s s') (name : Bytes) : s'.getHeader name = s.getHeader name := by
  rw [Socket.getHeader, Socket.getHeader, h.headers]

theorem getCookie (h : SameHead s s') (name : Bytes) : s'.getCookie name = s.getCookie name := by
  rw [Socket.getCookie, Socket.getCookie, h.cookies]

theorem asksWebSocket (h : SameHead s s') : AsksWebSocket s' ↔ AsksWebSocket s := by
  rw [AsksWebSocket, AsksWebSocket, h.getHeader]

theorem close (s : Socket) : SameHead s s.close :=
  ⟨rfl, rfl, rfl, rfl, rfl, rfl⟩

theorem send (s : Socket) (data : Bytes) (async : Bool) (polls : List SendPoll) :
    SameHead s (s.send data async polls).2.1 := by
  rw [Socket.send]
  split
  · exact refl s
  · dsimp only
    split <;> exact ⟨rfl, rfl, rfl, rfl, rfl, rfl⟩

/-- Nothing is parsed behind the head. -/
theorem recvTurn {n : ℤ} (hheader : s.header ≠ []) (p : RecvPoll) :
    SameHead s (Socket.recvTurn n s p).socket := by
  have hend (s' : Socket) (h : SameHead s s') (r : Readable) :
      SameHead s (endRecv s' r).socket := by
    rw [endRecv]
    split
    · exact h.trans (close s')
    · split
      · split
        · exact h.trans (close s')
        · exact h
      · exact h
  cases p with
  | failed => exact refl s
  | timedOut =>
    rw [Socket.recvTurn]
    split
    · exact refl s
    · split
      · exact close s
      · exact refl s
  | idle =>
    rw [Socket.recvTurn]
    split <;> exact refl s
  | ready r =>
    rw [Socket.recvTurn]
    split
    · exact hend s (refl s) r
    · exact refl s
    · split
      · exact close s
      · exact refl s
    · split
      · exact close s
      · rw [afterRead, if_neg hheader]
        split
        · exact ⟨rfl, rfl, rfl, rfl, rfl, rfl⟩
        · exact hend { s with readBuffer := s.readBuffer ++ _ } ⟨rfl, rfl, rfl, rfl, rfl, rfl⟩ r

theorem recvLoop {n : ℤ} (hheader : s.header ≠ []) (polls : List RecvPoll) :
    SameHead s (Socket.recvLoop n s polls).1 := by
  induction polls generalizing s with
  | nil => exact refl s
  | cons p ps ih =>
    have hturn := recvTurn (n := n) hheader p
    rw [Socket.recvLoop]
    cases hp : Socket.recvTurn n s p with
    | again s' =>
      rw [hp] at hturn
      exact hturn.trans (ih (hturn.header.trans_ne hheader))
    | leave s' =>
      rw [hp] at hturn
      exact hturn.trans ⟨rfl, rfl, rfl, rfl, rfl, rfl⟩
    | done s' =>
      rw [hp] at hturn
      exact hturn
    | raised s' e =>
      rw [hp] at hturn
      exact hturn

theorem receive {n : ℤ} (hheader : s.header ≠ []) (polls : List RecvPoll) :
    SameHead s (Socket.receive s n polls).1 := by
  rw [Socket.receive]
  split
  · exact ⟨rfl, rfl, rfl, rfl, rfl, rfl⟩
  · dsimp only
    split
    · exact ⟨rfl, rfl, rfl, rfl, rfl, rfl⟩
    · exact recvLoop hheader polls

theorem receiveBody (hheader : s.header ≠ []) (requestMaxSize : ℤ) (polls : List RecvPoll) :
    SameHead s (HttpServer.receiveBody s requestMaxSize polls).1 := by
  rw [HttpServer.receiveBody]
  split
  · split
    · exact refl s
    · exact receive hheader polls
  · exact refl s

theorem sendAnswer (h : Header) (s : Socket) (answer : Answer) (polls : List SendPoll) :
    SameHead s (HttpServer.sendAnswer h s answer polls).2.1 := by
  have hsend := send s (answer.bytes h) false polls
  rw [HttpServer.sendAnswer]
  split
  · exact close s
  · split
    · rename_i wire s' heq
      rw [heq] at hsend
      dsimp only
      split
      · exact hsend.trans (close s')
      · exact hsend
    · exact hsend

end SameHead

/-- What is permitted depends on the head only. -/
theorem Permits.of_sameHead {site : Site} {s s' : Socket} (h : SameHead s s') {d : Done}
    (hd : Permits site s d) : Permits site s' d := by
  cases hd with
  | cookie granted hupgrade hmethod hticket =>
    exact .cookie granted (h.asksWebSocket.not.mpr hupgrade) (h.getMethod.trans hmethod)
      (h.getURLPath ▸ hticket)
  | command hupgrade hclient hmethod hpath hbody =>
    exact .command (h.asksWebSocket.not.mpr hupgrade) hclient (h.getMethod.trans hmethod)
      (h.getURLPath ▸ hpath) hbody
  | monitor hupgrade hmethod hpath =>
    exact .monitor (h.asksWebSocket.mpr hupgrade) (h.getMethod.trans hmethod) (h.getURLPath ▸ hpath)
  | execute hupgrade hmethod hpath =>
    exact .execute (h.asksWebSocket.mpr hupgrade) (h.getMethod.trans hmethod) (h.getURLPath ▸ hpath)

theorem Orderly.of_sameHead {site : Site} {s s' : Socket} (h : SameHead s s') {done : List Done}
    (hdone : Orderly site s done) : Orderly site s' done := by
  obtain ⟨before, after, rfl, hbefore, hafter⟩ := hdone
  refine ⟨before, after, rfl, ?_, hafter.imp_right fun ⟨d, hd, hpermits⟩ =>
    ⟨d, hd, hpermits.of_sameHead h⟩⟩
  rw [h.getCookie]
  exact hbefore

/-! ## The functions, one by one -/

section Functions

variable {W : Type} {site : Site} {h : Handlers W} {hd : Socket} {done : List Done}

/-- The process has a request with this head and has done this. -/
def Stands (hd : Socket) (done : List Done) (s : State W) : Prop :=
  SameHead hd s.socket ∧ s.done = done

/-- What has been done is in order, whatever the process does next. -/
def Kept (site : Site) (s : State W) : Prop :=
  Orderly site s.socket s.done

/-- How a send ends. -/
def sent : SendOutcome → Except Leave Unit
  | .returned => .ok ()
  | .raised e => .error (.thrown (.ofSendError e))
  | .waiting => .error .waiting

/-- The process behind a send. -/
def afterSend (site : Site) (answer : Answer) (s : State W) : State W :=
  let r := sendAnswer (site.header s.authenticated) s.socket answer (s.sends.headD [])
  { s with
    socket := r.2.1
    sends := s.sends.tail
    wire := s.wire ++ r.1
    answers := if IsOpen s.socket then s.answers ++ [(s.authenticated, answer)] else s.answers }

theorem run_send (answer : Answer) (s : State W) : (send site answer).run.run s =
    (sent (sendAnswer (site.header s.authenticated) s.socket answer (s.sends.headD [])).2.2,
      afterSend site answer s) := by
  unfold send afterSend
  rw [run_bind_get]
  dsimp only
  generalize sendAnswer (site.header s.authenticated) s.socket answer (s.sends.headD []) = r
  obtain ⟨wire, socket, o⟩ := r
  cases o <;> rfl

theorem keeps_send (answer : Answer) : Keeps (Stands hd done : State W → Prop) (send site answer) := by
  rintro s ⟨hhead, hdone⟩
  have hsend := SameHead.sendAnswer (site.header s.authenticated) s.socket answer (s.sends.headD [])
  have hstands : Stands hd done (afterSend site answer s) := ⟨hhead.trans hsend, hdone⟩
  rw [run_send]
  generalize (sendAnswer (site.header s.authenticated) s.socket answer (s.sends.headD [])).2.2 = o
  cases o <;> exact hstands

theorem keeps_answerExpect : Keeps (Stands hd done : State W → Prop) (answerExpect site) :=
  Triple.bind_get fun _ hs => Triple.ite (fun _ => (keeps_send _).at_state hs)
    fun _ => Triple.pure fun _ heq => heq ▸ hs

theorem keeps_body (hheader : hd.header ≠ []) :
    Keeps (Stands hd done : State W → Prop) (body site) := by
  rintro s ⟨hhead, hdone⟩
  have hbody := SameHead.receiveBody (hhead.header.trans_ne hheader) site.cfg.requestMaxSize s.polls
  unfold body
  rw [run_bind_get]
  dsimp only
  generalize receiveBody s.socket site.cfg.requestMaxSize s.polls = r at hbody
  obtain ⟨socket, o, polls⟩ := r
  have hstands : Stands hd done { s with socket, polls } := ⟨hhead.trans hbody, hdone⟩
  dsimp only
  rw [run_bind_set]
  cases o <;> exact hstands

theorem keeps_receive (hheader : hd.header ≠ []) :
    Keeps (Stands hd done : State W → Prop) (receive site) :=
  Triple.bind keeps_answerExpect fun _ => keeps_body hheader

/-- A request that is accepted is a `POST` for the path of the server. -/
theorem validateRequest_spec (path : Bytes) :
    Triple (Stands hd done : State W → Prop) (validateRequest path)
      (fun _ s => Stands hd done s ∧ hd.getMethod = ascii "POST" ∧
        pathOrRoot hd.getURLPath = pathOrRoot path) (fun _ => Stands hd done) := by
  refine Triple.bind_get fun s hs => Triple.ite (fun _ => Triple.throw fun _ heq => heq ▸ hs)
    fun hmethod => Triple.ite (fun _ => Triple.throw fun _ heq => heq ▸ hs) fun hpath =>
      Triple.pure fun _ heq => heq ▸ ⟨hs, ?_, ?_⟩
  · exact hs.1.getMethod.symm.trans (not_not.mp hmethod)
  · rw [← hs.1.getURLPath]
    exact ((compareConstantTime_iff _ _).mp (Bool.eq_true_of_not_eq_false hpath)).symm

/-- A page changes nothing of what has been done. -/
theorem keeps_predefinedURLResponse (path : Bytes) :
    Keeps (Stands hd done : State W → Prop) (predefinedURLResponse site h path) := by
  have hpure (page : Bytes) :
      Keeps (Stands hd done : State W → Prop) (pure page : ProcessM W Bytes) :=
    Triple.pure fun _ hs => hs
  refine Triple.ite (fun _ => hpure _) fun _ => Triple.ite (fun _ => hpure _) fun _ =>
    Triple.ite (fun _ => hpure _) fun _ => Triple.ite (fun _ => ?_) fun _ => hpure _
  cases h.readFile (site.cfg.certbotWebrootPath ++ path) with
  | ok page => exact hpure page
  | error e => exact Triple.throw fun _ hs => hs

/-! ## What is done -/

/-- A try to pass to a local web server is the only thing that is done where it is granted. -/
theorem passthrough_spec :
    Triple (Stands hd [] : State W → Prop) (passthrough h)
      (fun _ s => ∃ before, Stands hd before s ∧ (before = [] ∨
        before = [.passthrough (hd.getCookie (ascii "VPL_web")) false] ∧
          hd.getCookie (ascii "VPL_web") ≠ []))
      (fun _ => Kept site) := by
  refine Triple.bind_get fun s hs => Triple.ite (fun _ => Triple.pure fun _ heq => ?_) fun hticket => ?_
  · exact ⟨[], heq ▸ hs, .inl rfl⟩
  · have hhead := h.httpPassthrough_head (s.socket.getCookie (ascii "VPL_web")) s.socket s.world
    rw [hs.1.getCookie] at hticket hhead ⊢
    generalize h.httpPassthrough (hd.getCookie (ascii "VPL_web")) s.socket s.world = r at hhead ⊢
    obtain ⟨world, _ | ⟨socket, wire, granted⟩⟩ := r
    · exact Triple.set fun _ _ => ⟨_, ⟨hs.1, by rw [hs.2]; rfl⟩, .inr ⟨rfl, hticket⟩⟩
    · have hsame := hs.1.trans (hhead _ rfl)
      refine Triple.bind (Triple.set (Q := fun _ => Stands hd
        [.passthrough (hd.getCookie (ascii "VPL_web")) granted]) fun _ _ => ?_) fun _ => ?_
      · exact ⟨hsame, by rw [hs.2]; rfl⟩
      · refine Triple.ite (fun hgranted => Triple.throw fun s' hs' => ?_) fun hgranted =>
          Triple.pure fun s' hs' => ⟨_, hs', .inr ⟨?_, hticket⟩⟩
        · refine ⟨_, [], hs'.2.trans (List.append_nil _).symm, .inr ⟨granted, ?_, ?_, fun _ => rfl⟩,
            .inl rfl⟩
          · rw [hs'.1.getCookie]
          · rw [hs'.1.getCookie]
            exact hticket
        · rw [Bool.eq_false_of_not_eq_true hgranted]

/-- The process has done nothing more, or one thing that its request permits. -/
def Worked (site : Site) (hd : Socket) (before : List Done) (s : State W) : Prop :=
  Stands hd before s ∨ ∃ d, Permits site hd d ∧ Stands hd (before ++ [d]) s

variable {before : List Done}

theorem worked_of_stands : ∀ s : State W, Stands hd before s → Worked site hd before s :=
  fun _ => .inl

theorem Triple.worked {α : Type} {m : ProcessM W α} (hm : Keeps (Stands hd before) m) :
    Triple (Stands hd before) m (fun _ => Worked site hd before) (fun _ => Worked site hd before) :=
  hm.weaken (fun _ hs => hs) (fun _ => worked_of_stands) fun _ => worked_of_stands

/-- What changes nothing of what has been done may come behind it. -/
theorem keeps_worked {α : Type} {m : ProcessM W α} (hm : ∀ done, Keeps (Stands hd done) m) :
    Keeps (Worked site hd before : State W → Prop) m := by
  refine Triple.of_states fun s hs => ?_
  rcases hs with hs | ⟨d, hd, hs⟩
  · exact ((hm _).at_state hs).weaken (fun _ h => h) (fun _ _ => .inl) fun _ _ => .inl
  · exact ((hm _).at_state hs).weaken (fun _ h => h) (fun _ _ h => .inr ⟨d, hd, h⟩)
      fun _ _ h => .inr ⟨d, hd, h⟩

theorem worked_setPassthroughCookie {ticket : Bytes}
    (hpermits : ∀ granted, Permits site hd (.cookie ticket granted)) :
    Triple (Stands hd before : State W → Prop) (setPassthroughCookie site h ticket)
      (fun _ => Worked site hd before) (fun _ => Worked site hd before) := by
  refine Triple.bind_get fun s hs => ?_
  rcases h.grantsPassthrough ticket s.world with ⟨world, granted⟩
  refine Triple.bind (Triple.set (Q := fun _ => Worked site hd before) fun _ _ => ?_) fun _ => ?_
  · exact .inr ⟨.cookie ticket granted, hpermits granted, hs.1, by rw [hs.2]⟩
  · exact Triple.ite (fun _ => Triple.bind (keeps_worked fun _ => keeps_send _) fun _ =>
      Triple.pure fun _ h => h) fun _ => Triple.pure fun _ h => h

theorem worked_requestCookie {ticket : Bytes}
    (hpermits : ∀ granted, Permits site hd (.cookie ticket granted)) :
    Triple (Stands hd before : State W → Prop) (requestCookie site h ticket)
      (fun _ => Worked site hd before) (fun _ => Worked site hd before) := by
  refine Triple.bind_get fun s hs => Triple.ite (fun _ => Triple.pure fun _ heq => ?_) fun _ => ?_
  · exact .inl (heq ▸ hs)
  · exact Triple.bind ((worked_setPassthroughCookie hpermits).at_state hs) fun _ =>
      Triple.pure fun _ h => h

theorem worked_getPage (hupgrade : ¬ AsksWebSocket hd) (hmethod : hd.getMethod = ascii "GET") :
    Triple (Stands hd before : State W → Prop) (getPage site h)
      (fun _ => Worked site hd before) (fun _ => Worked site hd before) := by
  refine Triple.bind_get fun s hs => ?_
  refine Triple.bind (Q := fun _ => Worked site hd before) ?_ fun found => ?_
  · rw [hs.1.getURLPath, cookiePage]
    cases hticket : isRequestingCookie hd.getURLPath with
    | none => exact Triple.pure fun _ heq => .inl (heq ▸ hs)
    | some ticket =>
      exact (worked_requestCookie fun granted => .cookie granted hupgrade hmethod hticket).at_state hs
  · refine Triple.bind (Q := fun _ => Worked site hd before) ?_ fun page => ?_
    · exact Triple.ite (fun _ => keeps_worked fun _ => keeps_predefinedURLResponse _)
        fun _ => Triple.pure fun _ h => h
    · exact Triple.ite (fun _ => Triple.throw fun _ h => h) fun _ =>
        Triple.bind (keeps_worked fun _ => keeps_send _) fun _ => Triple.throw fun _ h => h

theorem worked_headPage :
    Triple (Stands hd before : State W → Prop) (headPage site h)
      (fun _ => Worked site hd before) (fun _ => Worked site hd before) := by
  refine Triple.worked (Triple.bind_get fun s hs => ?_)
  exact Triple.bind ((keeps_predefinedURLResponse _).at_state hs) fun _ =>
    Triple.ite (fun _ => Triple.throw fun _ h => h) fun _ =>
      Triple.bind (keeps_send _) fun _ => Triple.throw fun _ h => h

theorem worked_reply {r : Request} (hpermits : Permits site hd (.command r)) :
    Triple (Stands hd before : State W → Prop) (reply site h r)
      (fun _ => Worked site hd before) (fun _ => Worked site hd before) := by
  refine Triple.bind_get fun s hs => ?_
  rcases h.command r s.world with ⟨world, result⟩
  refine Triple.bind (Triple.set (Q := fun _ => Worked site hd before) fun _ _ => ?_) fun _ => ?_
  · exact .inr ⟨.command r, hpermits, hs.1, by rw [hs.2]⟩
  · match result with
    | none => exact Triple.throw fun _ h => h
    | some (.error e) => exact Triple.throw fun _ h => h
    | some (.ok text) => exact keeps_worked fun _ => keeps_send _

theorem worked_request (hheader : hd.header ≠ []) (hupgrade : ¬ AsksWebSocket hd) :
    Triple (Stands hd before : State W → Prop) (request site h)
      (fun _ => Worked site hd before) (fun _ => Worked site hd before) := by
  refine Triple.ite (fun _ => Triple.throw worked_of_stands) fun hclient => ?_
  have hclient := Bool.eq_true_of_not_eq_false hclient
  refine Triple.bind ((validateRequest_spec _).weaken (fun _ h => h) (fun _ _ h => h)
    fun _ => worked_of_stands) fun _ => ?_
  refine Triple.of_states fun s ⟨hs, hmethod, hpath⟩ => ?_
  refine Triple.bind (Triple.modify (Q := fun _ => Stands hd before) fun _ heq => heq ▸ hs)
    fun _ => ?_
  refine Triple.bind ((keeps_receive hheader).weaken (fun _ h => h) (fun _ _ h => h)
    fun _ => worked_of_stands) fun data => ?_
  cases hbody : Request.ofBody site.uninit data with
  | error e => exact Triple.throw worked_of_stands
  | ok r => exact worked_reply (.command hupgrade hclient hmethod hpath hbody)

/-- The process behind the handshake. -/
def afterHandshake (h : Handlers W) (s : State W) : State W :=
  let socket := s.socket.markWebSocketProtocol
  let r := socket.send (getHandshakeAnswer h.SHA1 socket) false (s.sends.headD [])
  { s with
    socket := r.2.1
    sends := s.sends.tail
    wire := s.wire ++ r.1
    handshake :=
      if s.socket.closed then s.handshake else s.handshake ++ getHandshakeAnswer h.SHA1 socket }

theorem run_openWebSocket (s : State W) : (openWebSocket h).run.run s =
    (sent (s.socket.markWebSocketProtocol.send
        (getHandshakeAnswer h.SHA1 s.socket.markWebSocketProtocol) false (s.sends.headD [])).2.2,
      afterHandshake h s) := by
  unfold openWebSocket afterHandshake
  rw [run_bind_get]
  dsimp only
  generalize s.socket.markWebSocketProtocol.send _ false (s.sends.headD []) = r
  obtain ⟨wire, socket, o⟩ := r
  cases o <;> rfl

/-- The handshake changes nothing of what has been done. -/
theorem keeps_openWebSocket : Keeps (Stands hd done : State W → Prop) (openWebSocket h) := by
  rintro s ⟨hhead, hdone⟩
  have hopen : SameHead s.socket s.socket.markWebSocketProtocol := ⟨rfl, rfl, rfl, rfl, rfl, rfl⟩
  have hsend := hopen.trans (SameHead.send _
    (getHandshakeAnswer h.SHA1 s.socket.markWebSocketProtocol) false (s.sends.headD []))
  have hstands : Stands hd done (afterHandshake h s) := ⟨hhead.trans hsend, hdone⟩
  rw [run_openWebSocket]
  generalize (s.socket.markWebSocketProtocol.send _ false (s.sends.headD [])).2.2 = o
  cases o <;> exact hstands

/-- A command on a WebSocket refuses its ticket behind the handshake, or its session gets the socket. -/
theorem triple_runCommand {run : Bytes → Socket → W → W × Except Exception Session}
    {event : Bytes → Done} {ticket : Bytes} {P Q R : State W → Prop} {E : Leave → State W → Prop}
    (hopen : Triple P (openWebSocket h) (fun _ => Q) E)
    (hrefused : ∀ s world e, Q s →
      E (.thrown e) { s with world, done := s.done ++ [event ticket] })
    (haccepted : ∀ s world session, Q s → (run ticket s.socket s.world).2 = .ok session →
      R { s with
        world
        socket := session.1
        wire := s.wire ++ session.2.1
        done := s.done ++ [event ticket]
        handedOver := true })
    (hthrown : ∀ s e, R s → E (.thrown e) s) :
    Triple P (runCommand h run event ticket) (fun _ => R) E := by
  refine Triple.bind hopen fun _ => Triple.bind_get fun s hs => ?_
  have hsession := haccepted s
  generalize run ticket s.socket s.world = r at hsession ⊢
  obtain ⟨world, e | ⟨socket, wire, result⟩⟩ := r
  · exact Triple.bind (Triple.set (Q := fun _ => E (.thrown e)) fun _ _ => hrefused s world e hs)
      fun _ => Triple.throw fun _ h => h
  · refine Triple.bind (Triple.set (Q := fun _ => R) fun _ _ => hsession world _ hs rfl) fun _ => ?_
    cases result with
    | ok _ => exact Triple.pure fun _ h => h
    | error e => exact Triple.throw fun s hs => hthrown s e hs

theorem worked_runCommand {run : Bytes → Socket → W → W × Except Exception Session}
    (hrun : ∀ ticket s w r, (run ticket s w).2 = .ok r → SameHead s r.1) {event : Bytes → Done}
    {ticket : Bytes} (hpermits : Permits site hd (event ticket)) :
    Triple (Stands hd before : State W → Prop) (runCommand h run event ticket)
      (fun _ => Worked site hd before) (fun _ => Worked site hd before) := by
  refine triple_runCommand (keeps_openWebSocket.weaken (fun _ h => h) (fun _ _ h => h)
    fun _ => worked_of_stands) (fun s world e hs => ?_) (fun s world session hs hr => ?_)
    fun _ _ h => h
  · exact .inr ⟨event ticket, hpermits, hs.1, by rw [hs.2]⟩
  · exact .inr ⟨event ticket, hpermits, hs.1.trans (hrun _ _ _ _ hr), by rw [hs.2]⟩

theorem worked_websocket (hupgrade : AsksWebSocket hd) :
    Triple (Stands hd before : State W → Prop) (websocket h)
      (fun _ => Worked site hd before) (fun _ => Worked site hd before) := by
  refine Triple.bind_get fun s hs => Triple.ite (fun _ => Triple.throw fun _ heq => ?_) fun hget => ?_
  · exact .inl (heq ▸ hs)
  have hmethod := hs.1.getMethod.symm.trans (not_not.mp hget)
  have hthrow (e : Exception) : Triple (fun s' => s' = s) (throw (.thrown e) : ProcessM W Unit)
      (fun _ => Worked site hd before) (fun _ => Worked site hd before) :=
    Triple.throw fun _ heq => .inl (heq ▸ hs)
  split
  · rename_i slash ticket slash' command hpath
    rw [hs.1.getURLPath] at hpath
    refine Triple.ite (fun hcommand => ?_) fun _ => Triple.ite (fun hcommand => ?_) fun _ => hthrow _
    · exact (worked_runCommand h.monitor_head
        (.monitor hupgrade hmethod (hcommand ▸ hpath))).at_state hs
    · exact (worked_runCommand h.execute_head
        (.execute hupgrade hmethod (hcommand ▸ hpath))).at_state hs
  · exact hthrow _

theorem worked_dispatch (hheader : hd.header ≠ []) :
    Triple (Stands hd before : State W → Prop) (dispatch site h)
      (fun _ => Worked site hd before) (fun _ => Worked site hd before) := by
  refine Triple.bind_get fun s hs => Triple.ite (fun hupgrade => ?_) fun hupgrade => ?_
  · rw [hs.1.getHeader] at hupgrade
    refine Triple.at_state (P := Stands hd before) ?_ hs
    refine Triple.bind_get fun s hs => Triple.ite (fun hmethod => ?_) fun _ =>
      Triple.ite (fun _ => worked_headPage.at_state hs) fun _ =>
        Triple.ite (fun _ => Triple.throw fun _ heq => .inl (heq ▸ hs)) fun _ =>
          (worked_request hheader hupgrade).at_state hs
    exact (worked_getPage hupgrade (hs.1.getMethod.symm.trans hmethod)).at_state hs
  · rw [hs.1.getHeader, not_not] at hupgrade
    exact (worked_websocket hupgrade).at_state hs

/-- What has been worked behind a try to pass is in order. -/
theorem kept_of_worked (hbefore : before = [] ∨
    before = [.passthrough (hd.getCookie (ascii "VPL_web")) false] ∧
      hd.getCookie (ascii "VPL_web") ≠ []) (s : State W) (hs : Worked site hd before s) :
    Kept site s := by
  have hbefore' : before = [] ∨ ∃ granted,
      before = [.passthrough (hd.getCookie (ascii "VPL_web")) granted] ∧
        hd.getCookie (ascii "VPL_web") ≠ [] ∧ (granted = true → ∀ after : List Done, after = []) :=
    hbefore.imp_right fun ⟨heq, hne⟩ => ⟨false, heq, hne, nofun⟩
  rcases hs with ⟨hhead, hdone⟩ | ⟨d, hpermits, hhead, hdone⟩
  · refine Orderly.of_sameHead hhead ⟨before, [], hdone.trans (List.append_nil _).symm, ?_, .inl rfl⟩
    exact hbefore'.imp_right fun ⟨g, heq, hne, hg⟩ => ⟨g, heq, hne, fun h => hg h _⟩
  · refine Orderly.of_sameHead hhead ⟨before, [d], hdone, ?_, .inr ⟨d, rfl, hpermits⟩⟩
    exact hbefore'.imp_right fun ⟨g, heq, hne, hg⟩ => ⟨g, heq, hne, fun h => hg h _⟩

/-- Before the head has been read nothing has been done. -/
theorem readHeaders_spec : Keeps (fun s : State W => s.done = []) readHeaders := by
  intro s hs
  unfold readHeaders
  rw [run_bind_get]
  dsimp only
  rcases s.socket.readHeaders s.polls with ⟨socket, o, polls⟩
  dsimp only
  rw [run_bind_set]
  cases o <;> exact hs

theorem kept_serve : Triple (fun s : State W => s.done = []) (serve site h) (fun _ => Kept site)
    (fun _ => Kept site) := by
  have hnone (s : State W) (hs : s.done = []) : Kept site s := ⟨[], [], hs, .inl rfl, .inl rfl⟩
  refine Triple.bind (readHeaders_spec.weaken (fun _ h => h) (fun _ _ h => h) fun _ => hnone)
    fun _ => Triple.bind_get fun s hs => Triple.ite (fun _ => Triple.throw fun _ heq => ?_)
      fun hheader => ?_
  · exact hnone _ (heq ▸ hs)
  have hstands : Stands s.socket [] s := ⟨.refl _, hs⟩
  refine Triple.bind (passthrough_spec.at_state hstands) fun _ => ?_
  refine Triple.of_states fun s' ⟨before, hs', hbefore⟩ => ?_
  have hworked : Triple (Stands s.socket before) (dispatch site h)
      (fun _ => Worked site s.socket before) (fun _ => Worked site s.socket before) :=
    worked_dispatch hheader
  have hdispatch := (hworked.at_state hs').weaken (fun _ h => h)
    (fun _ => kept_of_worked hbefore) fun _ => kept_of_worked hbefore
  exact Triple.bind hdispatch fun _ => Triple.throw fun _ h => h

theorem keeps_kept_send (answer : Answer) : Keeps (Kept site : State W → Prop) (send site answer) := by
  refine Triple.of_states fun s hs => ?_
  have hstands : Stands s.socket s.done s := ⟨.refl _, rfl⟩
  have hkept (s' : State W) (hs' : Stands s.socket s.done s') : Kept site s' := by
    rw [Kept, hs'.2]
    exact Orderly.of_sameHead hs'.1 hs
  exact ((keeps_send answer).at_state hstands).weaken (fun _ h => h) (fun _ => hkept) fun _ => hkept

theorem keeps_kept_recover (e : Exception) : Keeps (Kept site : State W → Prop) (recover site e) := by
  cases e <;> exact Triple.bind (keeps_kept_send _) fun _ => Triple.throw fun _ h => h

/-- Whatever the client sends, and however the commands and the socket behave: what has been done in the
end is what the request permits, and one thing at most beside a try to pass to a local web server, which
is the only one if it is granted. -/
theorem process_done (site : Site) (h : Handlers W) (socket : Socket) (world : W)
    (polls : List RecvPoll) (sends : List (List SendPoll)) :
    Orderly site ((process site h).run.run (start socket world polls sends)).2.socket
      ((process site h).run.run (start socket world polls sends)).2.done := by
  have hprocess : Triple (fun s : State W => s.done = []) (process site h) (fun _ => Kept site)
      (fun _ => Kept site) := by
    refine Triple.tryCatch kept_serve fun left => ?_
    cases left with
    | thrown e => exact keeps_kept_recover e
    | exit status => exact Triple.throw fun _ h => h
    | crash => exact Triple.throw fun _ h => h
    | waiting => exact Triple.throw fun _ h => h
  exact hprocess.final rfl

end Functions

end VplJail.Jail.Connection
