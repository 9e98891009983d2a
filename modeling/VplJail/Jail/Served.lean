import VplJail.Jail.Answers
import VplJail.Socket.ReadHeaders

/-!
# A request that is served

A client that may ask for tasks writes a `POST` for the path of the server, with the length of its body,
and its connection is undisturbed. Then its request is run, however what it writes is divided into reads,
and it gets the reply (`process_serves`).
-/

namespace VplJail.Jail.Connection

open HttpServer PosixRegex Rpc VplJail.Server Socket Util

/-! ## The end of the head -/

section End

variable {t : Bytes} {pos : ℕ}

theorem find_cons {b : UInt8} (hb : ¬ crlfcrlf <+: b :: t) (h : find crlfcrlf t = some pos) :
    find crlfcrlf (b :: t) = some (pos + 1) := by
  rw [find, if_neg hb, h]
  rfl

/-- The empty line is not in a line. -/
theorem find_line {line : Bytes} (hline : (13 : UInt8) ∉ line) (h : find crlfcrlf t = some pos) :
    find crlfcrlf (line ++ t) = some (pos + line.length) := by
  induction line with
  | nil => exact h
  | cons b line ih =>
    rw [List.mem_cons, not_or] at hline
    refine (find_cons (fun hprefix => ?_) (ih hline.2)).trans ?_
    · obtain ⟨more, hmore⟩ := hprefix
      exact hline.1 (List.cons.inj hmore).1
    · rw [List.length_cons, Nat.add_assoc]

/-- It is not at the end of a line that another one follows. -/
theorem find_crlf (ht : t.head? ≠ some 13) (h : find crlfcrlf t = some pos) :
    find crlfcrlf (crlf ++ t) = some (pos + 2) := by
  refine find_cons (fun hprefix => ?_) (find_cons (fun hprefix => ?_) h)
  · obtain ⟨more, hmore⟩ := hprefix
    refine ht ?_
    have htail : 10 :: 13 :: 10 :: more = 10 :: t := (List.cons.inj hmore).2
    rw [← (List.cons.inj htail).2]
    rfl
  · obtain ⟨more, hmore⟩ := hprefix
    exact absurd (List.cons.inj hmore).1 (by decide)

end End

variable {head : RequestHead}

theorem notMem_13_line (h : HeaderLine) : (13 : UInt8) ∉ h.line := by
  intro hmem
  simp only [HeaderLine.line, List.mem_append, List.mem_cons] at hmem
  rcases hmem with hname | hcolon | hgap | hvalue
  · exact visible_ne (h.name_visible 13 hname).1 (by decide) rfl
  · exact absurd hcolon (by decide)
  · rcases h.gap_blank 13 hgap with heq | heq <;> exact absurd heq (by decide)
  · exact (h.value_line 13 hvalue).1 rfl

theorem headerText_cons (h : HeaderLine) (hs : List HeaderLine) :
    RequestHead.headerText (h :: hs) = h.line ++ crlf ++ RequestHead.headerText hs := by
  rw [RequestHead.headerText, List.flatMap_cons]
  rfl

/-- The empty line behind the headers is the first one. -/
theorem find_headerText (hs : List HeaderLine) (rest : Bytes) {line : Bytes}
    (hline : (13 : UInt8) ∉ line) : ∃ pos,
      find crlfcrlf (line ++ (crlf ++ (RequestHead.headerText hs ++ (crlf ++ rest)))) = some pos ∧
        pos + 4 = (line ++ (crlf ++ (RequestHead.headerText hs ++ crlf))).length := by
  induction hs generalizing line with
  | nil =>
    have hend : find crlfcrlf (crlf ++ (crlf ++ rest)) = some 0 :=
      find_eq_some.mpr ⟨⟨rest, rfl⟩, fun k hk => absurd hk (Nat.not_lt_zero k)⟩
    exact ⟨_, find_line hline hend, by simp [RequestHead.headerText, crlf]⟩
  | cons h hs ih =>
    obtain ⟨pos, hfind, hpos⟩ := ih (notMem_13_line h)
    have hhead : (h.line ++ (crlf ++ (RequestHead.headerText hs ++ (crlf ++ rest)))).head? ≠
        some 13 := by
      obtain ⟨b, line, hb⟩ := List.exists_cons_of_ne_nil (line_ne_nil h)
      rw [hb]
      intro heq
      exact notMem_13_line h (hb ▸ (Option.some.inj heq) ▸ List.mem_cons_self)
    refine ⟨pos + 2 + line.length, ?_, ?_⟩
    · rw [headerText_cons]
      simp only [List.append_assoc]
      exact find_line hline (find_crlf hhead hfind)
    · have hcrlf : crlf.length = 2 := rfl
      rw [headerText_cons]
      simp only [List.length_append] at hpos ⊢
      omega

/-- A head with one empty line before it at most ends where the first empty line is found. -/
theorem find_head (hempty : head.emptyLines ≤ 1) (hending : head.ending = crlf) (rest : Bytes) :
    ∃ pos, find crlfcrlf (head.text ++ rest) = some pos ∧ pos + 4 = head.text.length := by
  have hline : (13 : UInt8) ∉ head.requestLine := notMem_requestLine head (by decide)
  obtain ⟨pos, hfind, hpos⟩ := find_headerText head.headers rest hline
  have htext : head.text ++ rest = (List.replicate head.emptyLines crlf).flatten ++
      (head.requestLine ++ (crlf ++ (RequestHead.headerText head.headers ++ (crlf ++ rest)))) := by
    rw [RequestHead.text, hending]
    simp only [List.append_assoc]
  have hlength : head.text.length = (List.replicate head.emptyLines crlf).flatten.length +
      (head.requestLine ++ (crlf ++ (RequestHead.headerText head.headers ++ crlf))).length := by
    rw [RequestHead.text, hending]
    simp only [List.length_append]
    omega
  rw [htext, hlength, ← hpos]
  rcases Nat.le_one_iff_eq_zero_or_eq_one.mp hempty with hnone | hone
  · rw [hnone]
    exact ⟨pos, hfind, (Nat.zero_add _).symm⟩
  · have hhead : (head.requestLine ++ (crlf ++ (RequestHead.headerText head.headers ++
        (crlf ++ rest)))).head? ≠ some 13 := by
      obtain ⟨b, method, hb⟩ := List.exists_cons_of_ne_nil head.method_ne
      rw [RequestHead.requestLine, hb]
      intro heq
      obtain rfl : b = 13 := Option.some.inj heq
      exact visible_ne (head.method_visible 13 (hb ▸ List.mem_cons_self)) (by decide) rfl
    rw [hone]
    exact ⟨pos + 2, find_crlf hhead hfind, by simp [crlf]; omega⟩

/-! ## What is read -/

/-- What has not been read is the end of what `poll` will answer. -/
theorem recvLoop_suffix {n : ℤ} (s : Socket) (polls : List RecvPoll) :
    (recvLoop n s polls).2.2 <:+ polls := by
  induction polls generalizing s with
  | nil => exact List.suffix_refl _
  | cons p ps ih =>
    rw [recvLoop]
    cases recvTurn n s p with
    | again s' => exact (ih s').trans (List.suffix_cons p ps)
    | leave s' => exact List.suffix_cons p ps
    | done s' => exact List.suffix_cons p ps
    | raised s' e => exact List.suffix_cons p ps

theorem receive_suffix {n : ℤ} (s : Socket) (polls : List RecvPoll) :
    (Socket.receive s n polls).2.2 <:+ polls := by
  rw [Socket.receive]
  split
  · exact List.suffix_refl _
  · dsimp only
    generalize (if s.header = [] then (headersSizeLimit : ℤ) else n) = size
    split
    · exact List.suffix_refl _
    · exact recvLoop_suffix s polls

theorem readHeaders_suffix (s : Socket) (polls : List RecvPoll) :
    (s.readHeaders polls).2.2 <:+ polls := by
  rw [Socket.readHeaders]
  split
  · exact receive_suffix s polls
  · exact List.suffix_refl _

/-- The headers leave the cookies alone where there is no `Cookie`. -/
theorem cookies_parseHeader {h : HeaderLine} (hname : toUppercase h.name ≠ ascii "COOKIE")
    (s : Socket) : ((parseHeader h.line).run s).2.cookies = s.cookies := by
  unfold parseHeader
  rw [cstr_eq_self (notMem_line h (.inl rfl)), searchWhole_line]
  dsimp only
  rw [if_neg hname]
  rfl

theorem cookies_parseHeaders {input ending : Bytes} (hend : ending = [] ∨ crlf <+: ending)
    {hs : List HeaderLine} (hnames : ∀ h ∈ hs, toUppercase h.name ≠ ascii "COOKIE")
    {turns offset : ℕ} (hdrop : input.drop offset = RequestHead.headerText hs ++ ending)
    (s : Socket) : ((parseHeaders input turns offset).run s).2.cookies = s.cookies := by
  induction hs generalizing turns offset s with
  | nil =>
    have hline : (getLine input offset).1 = [] := by
      rcases hend with rfl | ⟨rest, rfl⟩
      · rw [getLine_of_le (List.drop_eq_nil_iff.mp hdrop)]
      · rw [getLine_of_blank hdrop]
    cases turns with
    | zero => rfl
    | succ turns =>
      rw [parseHeaders]
      dsimp only
      rw [if_pos hline]
      rfl
  | cons h hs ih =>
    cases turns with
    | zero => rfl
    | succ turns =>
      obtain ⟨hname, hnames⟩ := List.forall_mem_cons.mp hnames
      have hhere : input.drop offset = h.line ++ crlf ++ (RequestHead.headerText hs ++ ending) := by
        rw [hdrop, headerText_cons, List.append_assoc]
      have hnext := drop_of_append hhere rfl
      obtain ⟨cookies, hheader⟩ := run_parseHeader h s
      have hkept := cookies_parseHeader hname s
      rw [hheader] at hkept
      rw [parseHeaders, getLine_of_drop hhere (notMem_line h (.inr rfl))]
      dsimp only
      rw [if_neg (line_ne_nil h), Socket.run_bind_of_ok hheader, ih hnames hnext]
      exact hkept

/-- A body that is still to come is read whole. -/
theorem recvLoop_body {s : Socket} (hheader : s.header ≠ []) {body : Bytes} {polls : List RecvPoll}
    (hint : body.length < 2 ^ 31) (hplain : ∀ p ∈ polls, Plain p)
    (hshort : s.readBuffer.length < body.length) (hbody : s.readBuffer ++ stream polls = body) :
    ∃ polls', recvLoop body.length s polls = ({ s with readBuffer := [] }, .returned body, polls') := by
  induction polls generalizing s with
  | nil =>
    rw [stream_nil, List.append_nil] at hbody
    rw [hbody] at hshort
    exact absurd hshort (lt_irrefl _)
  | cons p ps ih =>
    obtain ⟨hp, hps⟩ := List.forall_mem_cons.mp hplain
    have hne : (body.length : ℤ) ≠ 0 := by omega
    cases hp with
    | idle =>
      rw [recvLoop, recvTurn, if_neg hne]
      exact ih hheader hps hshort hbody
    | @read data hdata hsize =>
      rw [stream_cons] at hbody
      have hsplit : (s.readBuffer ++ data) ++ stream ps = body := by
        rw [List.append_assoc]
        exact hbody
      have hturn : recvTurn body.length s (.ready { pollin := some (.read data) }) =
          if Complete body.length (s.readBuffer ++ data) then .leave (s.fill data)
          else .again (s.fill data) := by
        simp only [recvTurn, if_neg hdata, afterRead, if_neg hheader, hne, false_or, endRecv,
          Bool.false_eq_true, if_false, Socket.fill]
      rw [recvLoop, hturn]
      by_cases hend : stream ps = []
      · rw [hend, List.append_nil] at hsplit
        rw [if_pos (complete_of_length_eq hint (congrArg List.length hsplit))]
        refine ⟨ps, ?_⟩
        simp only [Socket.fill, hsplit]
      · have hlength := congrArg List.length hsplit
        rw [List.length_append] at hlength
        have hmore := List.length_pos_iff.mpr hend
        rw [if_neg fun hcomplete => by have := hcomplete.le_length; omega]
        exact ih hheader hps (by rw [Socket.fill]; dsimp only; omega) hsplit

theorem receive_body {s : Socket} (hopen : s.closed = false) (hheader : s.header ≠ []) {body : Bytes}
    {polls : List RecvPoll} (hint : body.length < 2 ^ 31) (hplain : ∀ p ∈ polls, Plain p)
    (hbody : s.readBuffer ++ stream polls = body) (hne : body ≠ []) :
    ∃ polls', Socket.receive s body.length polls =
      ({ s with readBuffer := [] }, .returned body, polls') := by
  have hpos : 0 < body.length := List.length_pos_iff.mpr hne
  have hlength := congrArg List.length hbody
  rw [List.length_append] at hlength
  rw [Socket.receive, if_neg (ne_true_of_eq_false hopen)]
  simp only [if_neg hheader]
  by_cases hall : stream polls = []
  · rw [hall, List.append_nil] at hbody
    rw [if_pos ⟨by omega, complete_of_length_eq hint (congrArg List.length hbody), hheader⟩]
    refine ⟨polls, ?_⟩
    rw [hbody, Int.toNat_natCast, List.drop_length, List.take_length]
  · have hmore := List.length_pos_iff.mpr hall
    rw [if_neg fun hcomplete => by have := hcomplete.2.1.le_length; omega]
    exact recvLoop_body hheader hint hplain (by omega) hbody

/-! ## What is written -/

/-- How many bytes some polls take. -/
def capacity : List SendPoll → ℕ
  | [] => 0
  | .ready { pollout := some (.wrote n), .. } :: ps => min n netBufferSize + capacity ps
  | _ :: ps => capacity ps

/-- The polls take the data. -/
def Carries (data : Bytes) (polls : List SendPoll) : Prop :=
  (∀ p ∈ polls, Smooth p) ∧ data.length ≤ capacity polls

/-- A loop that goes on has used up what its polls take. -/
theorem sendLoop_again {buffer : Bytes} {ps : List SendPoll} (hps : ∀ p ∈ ps, Smooth p)
    {offset o : ℕ} (hoffset : offset < buffer.length)
    (h : (sendLoop false false buffer offset ps).2 = .again o) :
    offset + capacity ps < buffer.length := by
  induction ps generalizing offset with
  | nil => exact hoffset
  | cons p ps ih =>
    obtain ⟨hp, hrest⟩ := List.forall_mem_cons.mp hps
    rcases hp with rfl | ⟨n, hn, rfl⟩
    · exact ih hrest hoffset h
    · have hnet : 0 < netBufferSize := by decide
      have hwritten : min n (min netBufferSize (buffer.length - offset)) ≠ 0 := by omega
      rw [sendLoop] at h
      simp only [sendTurn, Bool.false_eq_true, if_false, if_neg hwritten, endTurn] at h
      by_cases hend : buffer.length ≤ offset + min n (min netBufferSize (buffer.length - offset))
      · rw [if_pos hend] at h
        cases h
      · rw [if_neg hend] at h
        have hrun := ih hrest (Nat.not_le.mp hend) h
        rw [capacity]
        omega

/-- An open connection takes what its polls carry. -/
theorem send_carried {s : Socket} (hopen : s.closed = false) (hpending : s.writeBuffer = [])
    (hws : s.websocketProtocol = false) {data : Bytes} (hdata : data ≠ []) {polls : List SendPoll}
    (hcarries : Carries data polls) : s.send data false polls = (data, s, .returned) := by
  rcases send_smooth hopen hpending hdata hcarries.1 with hsent | ⟨wire, -, hwaiting⟩
  · exact hsent
  · have hlength : 0 < data.length := List.length_pos_iff.mpr hdata
    have hloop := sendLoop_smooth false hlength hcarries.1
    rw [Socket.send, hopen, if_neg Bool.false_ne_true, hpending, hws, List.nil_append] at hwaiting
    rcases hloop with hleave | ⟨o, hagain⟩
    · simp only [hleave] at hwaiting
      cases congrArg (fun r => r.2.2) hwaiting
    · have hover := sendLoop_again hcarries.1 hlength hagain
      rw [Nat.zero_add] at hover
      exact absurd hcarries.2 (Nat.not_le.mpr hover)

/-! ## The request -/

/-- The value of a header of a head. -/
def headerOf (head : RequestHead) (name : Bytes) : Bytes :=
  ((head.headers.find? fun h => toUppercase h.name == toUppercase name).map HeaderLine.value).getD []

/-- A request for the server from a client that may ask for tasks: a `POST` for its path, with the length
of the body, and with no header that asks for something else. -/
structure IsPost (site : Site) (head : RequestHead) (body : Bytes) : Prop where
  client : isValidIPforRequest site.cfg.taskOnlyFrom site.IP = true
  method : head.method = ascii "POST"
  path : head.path = pathOrRoot site.cfg.URLPath
  emptyLines : head.emptyLines ≤ 1
  ending : head.ending = crlf
  size : head.text.length ≤ headersSizeLimit + 1
  length : headerOf head (ascii "Content-Length") = itos body.length
  upgrade : toUppercase (headerOf head (ascii "Upgrade")) ≠ ascii "WEBSOCKET"
  cookie : ∀ h ∈ head.headers, toUppercase h.name ≠ ascii "COOKIE"
  bodySize : body.length ≤ site.cfg.requestMaxSize

theorem getHeader_of_tells {head : RequestHead} {s : Socket} (ht : Tells head s) (name : Bytes) :
    s.getHeader name = headerOf head name := by
  rw [headerOf]
  cases hfind : head.headers.find? fun h => toUppercase h.name == toUppercase name with
  | none =>
    rw [List.find?_eq_none] at hfind
    exact ht.absent name fun h hmem heq => hfind h hmem (beq_iff_eq.mpr heq)
  | some h =>
    have hsome := List.find?_some hfind
    have hname : toUppercase h.name = toUppercase name := beq_iff_eq.mp hsome
    exact ht.header h (List.mem_of_find?_eq_some hfind) name hname.symm

/-- The socket when the head has been read: it tells what the head says, and the body is still to come. -/
structure Ready (head : RequestHead) (body : Bytes) (s : Socket) (polls : List RecvPoll) : Prop where
  tells : Tells head s
  cookies : s.cookies = ∅
  header : s.header ≠ []
  opened : s.closed = false
  writeBuffer : s.writeBuffer = []
  websocketProtocol : s.websocketProtocol = false
  plain : ∀ p ∈ polls, Plain p
  stream : s.readBuffer ++ stream polls = body

/-- The head is read from one end to the other, and leaves no cookies. -/
theorem run_head {head : RequestHead} (hcookie : ∀ h ∈ head.headers, toUppercase h.name ≠ ascii "COOKIE")
    (s : Socket) (hs : s.headers = ∅) :
    ∃ s', (processHeaders head.text).run s = (.ok (), s') ∧ Tells head s' ∧
      s'.cookies = s.cookies ∧ s'.header = s.header ∧ SameOutput s s' ∧ s'.closed = s.closed := by
  obtain ⟨cookies, hrun⟩ := run_processHeaders head s
  have hkeys : ((head.headers.map HeaderLine.entry).map Prod.fst).Nodup := by
    rw [List.map_map]
    exact head.distinct
  refine ⟨_, hrun, ⟨rfl, rfl, rfl, rfl, fun h hmem name hname => ?_, fun name hname => ?_⟩, ?_, rfl,
    ⟨rfl, rfl, fun h => h⟩, rfl⟩
  · have hentry : (toUppercase name, h.value) ∈ head.headers.map HeaderLine.entry := by
      rw [hname]
      exact List.mem_map_of_mem hmem
    rw [Socket.getHeader, getElem?_foldl_insert_of_mem hkeys hentry]
    rfl
  · have hne : ∀ p ∈ head.headers.map HeaderLine.entry, p.1 ≠ toUppercase name := by
      intro p hp
      obtain ⟨h, hmem, rfl⟩ := List.mem_map.mp hp
      exact hname h hmem
    rw [Socket.getHeader, getElem?_foldl_insert_of_ne hne, hs]
    rfl
  · have hempty := le_length_emptyLines head.emptyLines
    have hlength : head.text.length = (List.replicate head.emptyLines crlf).flatten.length +
        (head.requestLine ++ crlf ++ (RequestHead.headerText head.headers ++ head.ending)).length := by
      rw [RequestHead.text, List.length_append]
    obtain ⟨next, hfirst, hrest⟩ := firstLine_of_drop head head.text _ head.emptyLines
      (head.text.length + 1) 0 (by omega) rfl
    have hkept : ((parseHeaders head.text (head.text.length + 1) next).run
        (afterRequestLine head s)).2.cookies = s.cookies :=
      cookies_parseHeaders head.ending_eq hcookie hrest (afterRequestLine head s)
    have hcookies := congrArg (fun r => r.2.cookies) hrun
    unfold processHeaders at hcookies
    rw [hfirst] at hcookies
    dsimp only at hcookies
    rw [Socket.run_bind_of_ok (run_parseRequestLine head s)] at hcookies
    exact hcookies.symm.trans hkept

theorem readHeaders_ready {site : Site} {head : RequestHead} {body : Bytes} (hpost : IsPost site head body)
    {polls : List RecvPoll} (hdivides : Divides (head.text ++ body) polls) :
    ∃ s o polls', Socket.readHeaders {} polls = (s, .returned o, polls') ∧ Ready head body s polls' := by
  obtain ⟨pos, hfind, hpos⟩ := find_head hpost.emptyLines hpost.ending body
  have hnot : ¬ Oversteps (pos + 4) 0 polls := by
    rintro ⟨before, after, -, hlimit, hlt⟩
    have := hpost.size
    omega
  have hfresh : IsFresh {} := ⟨rfl, rfl, rfl⟩
  have hresult := (result_readHeaders hfresh hfind hdivides).2 hnot
  rw [hpos, List.take_left, List.drop_left] at hresult
  obtain ⟨s', hrun, htells, hcookies, hheader, houtput, hclosed⟩ :=
    run_head hpost.cookie { header := head.text } rfl
  rw [accepted, hrun] at hresult
  have hsuffix := readHeaders_suffix {} polls
  generalize Socket.readHeaders {} polls = r at hresult hsuffix
  obtain ⟨s, o, polls'⟩ := r
  cases o with
  | raised e => cases hresult
  | waiting => cases hresult
  | returned data =>
    have hs : { s with readBuffer := s.readBuffer ++ stream polls' } =
        { s' with readBuffer := body } := by
      simpa only [result, Option.some.injEq, Except.ok.injEq] using hresult
    have hheaders (name : Bytes) : s.getHeader name = s'.getHeader name := by
      have hmap := congrArg Socket.headers hs
      dsimp only at hmap
      rw [Socket.getHeader, Socket.getHeader, hmap]
    refine ⟨s, data, polls', rfl, ⟨?_, ?_, ?_, ?_, ?_, ?_, ?_, ?_⟩⟩
    · exact ⟨(congrArg Socket.method hs).trans htells.method,
        (congrArg Socket.version hs).trans htells.version,
        (congrArg Socket.URLPath hs).trans htells.path,
        (congrArg Socket.queryString hs).trans htells.query,
        fun h hmem name hname => (hheaders name).trans (htells.header h hmem name hname),
        fun name hname => (hheaders name).trans (htells.absent name hname)⟩
    · exact (congrArg Socket.cookies hs).trans hcookies
    · have hne : head.text ≠ [] := by
        rw [RequestHead.text, RequestHead.requestLine]
        simp [crlf]
      exact ((congrArg Socket.header hs).trans hheader).trans_ne hne
    · exact (congrArg Socket.closed hs).trans hclosed
    · exact (congrArg Socket.writeBuffer hs).trans houtput.writeBuffer
    · exact (congrArg Socket.websocketProtocol hs).trans houtput.websocketProtocol
    · exact fun p hp => hdivides.plain p (hsuffix.subset hp)
    · exact congrArg Socket.readBuffer hs

/-! ## The process, step by step -/

section Steps

variable {W : Type} {site : Site} {h : Handlers W} {head : RequestHead} {body : Bytes}

/-- The process has read the head of a request, and has done nothing for it. -/
structure HasHead (head : RequestHead) (body : Bytes) (s : State W) : Prop where
  ready : Ready head body s.socket s.polls
  done : s.done = []
  wire : s.wire = []

theorem run_readHeaders (hpost : IsPost site head body) {polls : List RecvPoll}
    (hdivides : Divides (head.text ++ body) polls) (w : W) (sends : List (List SendPoll)) :
    ∃ s, readHeaders.run.run (start {} w polls sends) = (.ok (), s) ∧ HasHead head body s ∧
      s.world = w ∧ s.sends = sends ∧ s.authenticated = false := by
  obtain ⟨socket, o, polls', hread, hready⟩ := readHeaders_ready hpost hdivides
  refine ⟨{ start {} w polls sends with socket, polls := polls' }, ?_, ⟨hready, rfl, rfl⟩, rfl, rfl, rfl⟩
  unfold readHeaders
  rw [run_bind_get, start]
  dsimp only
  rw [hread]
  rfl

/-- A browser without a ticket is not passed on. -/
theorem run_passthrough {s : State W} (hs : HasHead head body s) :
    (passthrough h).run.run s = (.ok (), s) := by
  have hcookie : s.socket.getCookie (ascii "VPL_web") = [] := by
    rw [Socket.getCookie, hs.ready.cookies]
    rfl
  unfold passthrough
  rw [run_bind_get]
  dsimp only
  rw [if_pos hcookie]
  rfl

theorem run_validateRequest (hpost : IsPost site head body) {s : State W} (hs : HasHead head body s) :
    (validateRequest site.cfg.URLPath).run.run s = (.ok (), s) := by
  have hmethod : s.socket.getMethod = ascii "POST" := hs.ready.tells.method.trans hpost.method
  have hpath : s.socket.getURLPath = pathOrRoot site.cfg.URLPath := hs.ready.tells.path.trans hpost.path
  have hroot : pathOrRoot (pathOrRoot site.cfg.URLPath) = pathOrRoot site.cfg.URLPath := by
    rw [pathOrRoot, if_neg]
    rw [pathOrRoot]
    split
    · decide
    · assumption
  have hsame : compareConstantTime (pathOrRoot site.cfg.URLPath) (pathOrRoot s.socket.getURLPath) =
      true := by
    rw [compareConstantTime_iff, hpath, hroot]
  unfold validateRequest
  rw [run_bind_get]
  dsimp only
  rw [if_neg (not_not.mpr hmethod)]
  exact congrArg (fun m : ProcessM W Unit => m.run.run s) (if_neg (ne_false_of_eq_true hsame))

/-- The body is read whole, and the socket is still open for the reply. -/
theorem run_body (hpost : IsPost site head body) {s : State W}
    (hs : Ready head body s.socket s.polls) :
    ∃ socket polls, (Connection.body site).run.run s = (.ok body, { s with socket, polls }) ∧
      socket.closed = false ∧ socket.writeBuffer = [] ∧ socket.websocketProtocol = false := by
  have hmax : body.length < 2 ^ 31 := by
    have hle := hpost.bodySize.trans site.cfg.requestMaxSize_pos.2
    rw [maxInt] at hle
    omega
  have hdigits : (0 : UInt8) ∉ itos body.length := fun hmem => by
    rcases mem_itos hmem with heq | hdigit
    · exact absurd heq (by decide)
    · exact absurd hdigit (by decide)
  have hsize : atoi (cstr (s.socket.getHeader (ascii "Content-Length"))) = body.length := by
    rw [getHeader_of_tells hs.tells, hpost.length, cstr_eq_self hdigits, atoi_itos (by omega) (by omega)]
  have hread : ∃ socket polls, receiveBody s.socket site.cfg.requestMaxSize s.polls =
      (socket, .returned body, polls) ∧ socket.closed = false ∧ socket.writeBuffer = [] ∧
        socket.websocketProtocol = false := by
    rw [receiveBody, hsize]
    by_cases hbody : body = []
    · rw [hbody, List.length_nil, if_neg (not_not.mpr Nat.cast_zero)]
      exact ⟨s.socket, s.polls, rfl, hs.opened, hs.writeBuffer, hs.websocketProtocol⟩
    · have hpos : 0 < body.length := List.length_pos_iff.mpr hbody
      obtain ⟨polls', hreceive⟩ := receive_body hs.opened hs.header hmax hs.plain hs.stream hbody
      rw [if_pos (by omega), if_neg (not_lt.mpr hpost.bodySize), hreceive]
      exact ⟨_, polls', rfl, hs.opened, hs.writeBuffer, hs.websocketProtocol⟩
  obtain ⟨socket, polls, hreceive, hopen⟩ := hread
  refine ⟨socket, polls, ?_, hopen⟩
  unfold Connection.body
  rw [run_bind_get]
  dsimp only
  rw [hreceive]
  rfl

/-- An answer that is carried is written whole. -/
theorem run_send_carried {answer : Answer} {s : State W} (hopen : IsOpen s.socket)
    (hpending : s.socket.writeBuffer = []) {polls : List SendPoll} {more : List (List SendPoll)}
    (hsends : s.sends = polls :: more)
    (hcarries : Carries (answer.bytes (site.header s.authenticated)) polls) :
    (send site answer).run.run s = (.ok (), { s with
      socket := if answer.isFinal then s.socket.close else s.socket
      sends := more
      wire := s.wire ++ answer.bytes (site.header s.authenticated)
      answers := s.answers ++ [(s.authenticated, answer)] }) := by
  have hsend := send_carried hopen.1 hpending hopen.2
    (bytes_ne_nil (site.header s.authenticated) answer) hcarries
  have hanswer : sendAnswer (site.header s.authenticated) s.socket answer polls =
      (answer.bytes (site.header s.authenticated),
        if answer.isFinal then s.socket.close else s.socket, .returned) := by
    rw [sendAnswer, if_neg (ne_true_of_eq_false hopen.2), hsend]
  rw [run_send, afterSend, hsends, List.headD_cons, hanswer, List.tail_cons, if_pos hopen]
  rfl

/-- The answers to a request: one to `Expect`, if it is there, and the reply. -/
def answersTo (head : RequestHead) (text : Bytes) : List Answer :=
  (if headerOf head (ascii "Expect") = ascii "100-continue" then [.code .continue []] else []) ++
    [.reply text]

/-- Each answer is carried by its own polls. -/
def Carried (site : Site) (answers : List Answer) (sends : List (List SendPoll)) : Prop :=
  List.Forall₂ (fun answer polls => Carries (answer.bytes (site.header true)) polls) answers sends

/-- The process behind the checks: it has given these answers on a connection that is open, and has done
this. -/
structure Behind (site : Site) (before : List Answer) (done : List Done) (w : W)
    (sends : List (List SendPoll)) (s : State W) : Prop where
  authenticated : s.authenticated = true
  opened : IsOpen s.socket
  writeBuffer : s.socket.writeBuffer = []
  done : s.done = done
  wire : s.wire = before.flatMap (Answer.bytes (site.header true))
  world : s.world = w
  sends : s.sends = sends

/-- One more answer is written. -/
theorem Behind.send {before : List Answer} {done : List Done} {w : W} {polls : List SendPoll}
    {more : List (List SendPoll)} {s : State W} (hs : Behind site before done w (polls :: more) s)
    {answer : Answer} (hcarries : Carries (answer.bytes (site.header true)) polls) :
    ∃ s', (send site answer).run.run s = (.ok (), s') ∧
      s'.wire = (before ++ [answer]).flatMap (Answer.bytes (site.header true)) ∧
      s'.done = done ∧ s'.world = w ∧ s'.polls = s.polls ∧
      (answer.isFinal = false → s'.socket = s.socket ∧
        Behind site (before ++ [answer]) done w more s') := by
  have hsend := run_send_carried hs.opened hs.writeBuffer hs.sends
    (by rw [hs.authenticated]; exact hcarries)
  have hwire : s.wire ++ answer.bytes (site.header s.authenticated) =
      (before ++ [answer]).flatMap (Answer.bytes (site.header true)) := by
    rw [List.flatMap_append, hs.wire, hs.authenticated, List.flatMap_singleton]
  refine ⟨_, hsend, hwire, hs.done, hs.world, rfl, fun hfinal => ?_⟩
  have hsocket : (if answer.isFinal = true then s.socket.close else s.socket) = s.socket :=
    if_neg (ne_true_of_eq_false hfinal)
  exact ⟨hsocket, hs.authenticated, (congrArg IsOpen hsocket).mpr hs.opened,
    (congrArg Socket.writeBuffer hsocket).trans hs.writeBuffer, hs.done, hwire, hs.world, rfl⟩

/-- The body is received, behind the answer to `Expect`; what is left to write is the reply. -/
theorem run_receive (hpost : IsPost site head body) {text : Bytes} {w : W}
    {sends more : List (List SendPoll)} (hcarried : Carried site (answersTo head text) sends)
    {s : State W} (hready : Ready head body s.socket s.polls)
    (hs : Behind site [] [] w (sends ++ more) s) :
    ∃ s' before polls, (receive site).run.run s = (.ok body, s') ∧
      Behind site before [] w (polls :: more) s' ∧
      Carries ((Answer.reply text).bytes (site.header true)) polls ∧
      before ++ [.reply text] = answersTo head text := by
  have hread {before : List Answer} {sends : List (List SendPoll)} {s : State W}
      (hready : Ready head body s.socket s.polls) (hs : Behind site before [] w sends s) :
      ∃ s', (Connection.body site).run.run s = (.ok body, s') ∧ Behind site before [] w sends s' := by
    obtain ⟨socket, polls, hrun, hopen, hbuffer, hws⟩ := run_body hpost hready
    exact ⟨_, hrun, hs.authenticated, ⟨hopen, hws⟩, hbuffer, hs.done, hs.wire, hs.world, hs.sends⟩
  have hheader := getHeader_of_tells hready.tells (ascii "Expect")
  unfold receive
  by_cases hexpect : headerOf head (ascii "Expect") = ascii "100-continue"
  · rw [answersTo, if_pos hexpect] at hcarried ⊢
    obtain ⟨first, rest, hfirst, hrest, rfl⟩ := List.forall₂_cons_left_iff.mp hcarried
    obtain ⟨polls, none, hreply, hnone, rfl⟩ := List.forall₂_cons_left_iff.mp hrest
    obtain rfl := List.forall₂_nil_left_iff.mp hnone
    obtain ⟨s', hsend, -, -, -, hpolls, hgoes⟩ := hs.send hfirst
    obtain ⟨hsocket, hbehind⟩ := hgoes rfl
    obtain ⟨s'', hbody, hs''⟩ := hread (hsocket ▸ hpolls ▸ hready) hbehind
    refine ⟨s'', _, polls, ?_, hs'', hreply, rfl⟩
    have hanswer : (answerExpect site).run.run s = (.ok (), s') := by
      unfold answerExpect
      rw [run_bind_get, if_pos (hheader.trans hexpect)]
      exact hsend
    rw [run_bind_of_ok hanswer]
    exact hbody
  · rw [answersTo, if_neg hexpect] at hcarried ⊢
    obtain ⟨polls, none, hreply, hnone, rfl⟩ := List.forall₂_cons_left_iff.mp hcarried
    obtain rfl := List.forall₂_nil_left_iff.mp hnone
    obtain ⟨s', hbody, hs'⟩ := hread hready hs
    refine ⟨s', _, polls, ?_, hs', hreply, rfl⟩
    have hanswer : (answerExpect site).run.run s = (.ok (), s) := by
      unfold answerExpect
      rw [run_bind_get, if_neg (hheader.trans_ne hexpect)]
      rfl
    rw [run_bind_of_ok hanswer]
    exact hbody

/-- A request that is in order is run, and the reply is written. -/
theorem run_request (hpost : IsPost site head body) {r : Request}
    (hr : Request.ofBody site.uninit body = .ok r)
    {w w' : W} {text : Bytes} (hcommand : h.command r w = (w', some (.ok text)))
    {sends more : List (List SendPoll)} (hcarried : Carried site (answersTo head text) sends)
    {s : State W} (hs : HasHead head body s) (hworld : s.world = w)
    (hsends : s.sends = sends ++ more) :
    ∃ s', (request site h).run.run s = (.ok (), s') ∧ s'.done = [.command r] ∧ s'.world = w' ∧
      s'.wire = (answersTo head text).flatMap (Answer.bytes (site.header true)) := by
  have hbehind : Behind site [] [] w (sends ++ more) { s with authenticated := true } :=
    ⟨rfl, ⟨hs.ready.opened, hs.ready.websocketProtocol⟩, hs.ready.writeBuffer, hs.done, hs.wire,
      hworld, hsends⟩
  have hready : Ready head body { s with authenticated := true }.socket
      { s with authenticated := true }.polls := hs.ready
  obtain ⟨s', before, polls, hreceive, hs', hcarries, hanswers⟩ :=
    run_receive hpost hcarried hready hbehind
  -- The command is run between the body and the reply.
  have hcommanded : Behind site before [.command r] w' (polls :: more)
      { s' with world := w', done := s'.done ++ [.command r] } :=
    ⟨hs'.authenticated, hs'.opened, hs'.writeBuffer, by rw [hs'.done]; rfl, hs'.wire, rfl, hs'.sends⟩
  obtain ⟨s'', hsend, hwire, hdone, hworld', -, -⟩ := hcommanded.send hcarries
  rw [hanswers] at hwire
  refine ⟨s'', ?_, hdone, hworld', hwire⟩
  unfold request
  rw [if_neg (ne_false_of_eq_true hpost.client), run_bind_of_ok (run_validateRequest hpost hs),
    run_bind_modify, run_bind_of_ok hreceive]
  rw [hr]
  unfold reply
  rw [run_bind_get, hs'.world, hcommand]
  exact hsend

/-- A client that may ask for tasks, with a request for the path of the server whose head is not too
large, on a connection that is undisturbed: however the request is divided into reads, its command is run
once, the reply is written behind the answer to `Expect`, and the process counts as a success. -/
theorem process_serves (hpost : IsPost site head body) {polls : List RecvPoll}
    (hdivides : Divides (head.text ++ body) polls) {r : Request}
    (hr : Request.ofBody site.uninit body = .ok r)
    {w w' : W} {text : Bytes} (hcommand : h.command r w = (w', some (.ok text)))
    {sends more : List (List SendPoll)} (hcarried : Carried site (answersTo head text) sends) :
    ∃ s, (process site h).run.run (start {} w polls (sends ++ more)) = (.error (.exit .success), s) ∧
      s.done = [.command r] ∧ s.world = w' ∧
      s.wire = (answersTo head text).flatMap (Answer.bytes (site.header true)) := by
  obtain ⟨s, hread, hs, hworld, hsends, -⟩ := run_readHeaders hpost hdivides w (sends ++ more)
  obtain ⟨s', hrequest, hdone, hworld', hwire⟩ :=
    run_request hpost hr hcommand hcarried hs hworld hsends
  refine ⟨s', ?_, hdone, hworld', hwire⟩
  have hupgrade : toUppercase (s.socket.getHeader (ascii "Upgrade")) ≠ ascii "WEBSOCKET" := by
    rw [getHeader_of_tells hs.ready.tells]
    exact hpost.upgrade
  have hmethod : s.socket.getMethod = ascii "POST" := hs.ready.tells.method.trans hpost.method
  have hhttp : (http site h).run.run s = (.ok (), s') := by
    unfold http
    rw [run_bind_get, hmethod, if_neg (by decide), if_neg (by decide), if_neg (by decide)]
    exact hrequest
  have hdispatch : (dispatch site h).run.run s = (.ok (), s') := by
    unfold dispatch
    rw [run_bind_get, if_pos hupgrade]
    exact hhttp
  have hserve : (serve site h).run.run (start {} w polls (sends ++ more)) =
      (.error (.exit .success), s') := by
    unfold serve
    rw [run_bind_of_ok hread, run_bind_get, if_neg hs.ready.header,
      run_bind_of_ok (run_passthrough hs), run_bind_of_ok hdispatch]
    rfl
  unfold process
  rw [run_tryCatch_of_error hserve]
  rfl

end Steps

theorem blank_postGap : ∀ b ∈ ascii " ", b = 32 ∨ b = 9 := by
  decide +kernel

theorem postVersion_ne : ascii "HTTP/1.1" ≠ [] := by
  decide

theorem visible_postVersion : ∀ b ∈ ascii "HTTP/1.1", isVisible b = true := by
  decide +kernel

theorem postEnding_eq : crlf = [] ∨ crlf <+: crlf :=
  .inr (List.prefix_refl _)

/-- The head of a request with a body of 54 bytes. -/
def postHead : RequestHead where
  emptyLines := 0
  method := ascii "POST"
  path := ascii "/"
  query := none
  version := ascii "HTTP/1.1"
  headers := [{
    name := ascii "content-length"
    gap := ascii " "
    value := ascii "54"
    name_ne := by decide
    name_visible := by decide +kernel
    gap_blank := blank_postGap
    value_line := by decide +kernel
    value_head := by decide +kernel }]
  ending := crlf
  method_ne := by decide
  method_visible := by decide +kernel
  path_head := by decide
  path_visible := by decide +kernel
  query_visible := by decide
  version_ne := postVersion_ne
  version_visible := visible_postVersion
  distinct := by decide
  ending_eq := postEnding_eq

/-- A request that stops a task. -/
def postBody : Bytes :=
  ascii "\x7b\"jsonrpc\":\"2.0\",\"method\":\"stop\",\"params\":\x7b\x7d,\"id\":\"7\"\x7d"

/-- Commands that do what they are told. -/
def obliging : Handlers Unit :=
  { refusing with command := fun _ w => (w, some (.ok (ascii "\x7b\x7d"))) }

/-- A request that comes byte by byte is served. -/
theorem process_serves_stop : ∃ r s, Request.ofBody plainSite.uninit postBody = .ok r ∧
    (process plainSite obliging).run.run (start {} () (singles (postHead.text ++ postBody))
      ([[.idle, .ready { pollout := some (.wrote 4096) }]] ++ [])) = (.error (.exit .success), s) ∧
      s.done = [.command r] ∧
      s.wire = (answersTo postHead (ascii "\x7b\x7d")).flatMap
        (Answer.bytes (plainSite.header true)) := by
  obtain ⟨r, hr⟩ : ∃ r, Request.ofBody plainSite.uninit postBody = .ok r := by
    have hok : (Request.ofBody plainSite.uninit postBody).toBool = true := by decide
    cases h : Request.ofBody plainSite.uninit postBody with
    | error e =>
      rw [h] at hok
      cases hok
    | ok r => exact ⟨r, rfl⟩
  have hpost : IsPost plainSite postHead postBody := by
    constructor
    all_goals decide
  have hcarries : Carries ((Answer.reply (ascii "\x7b\x7d")).bytes (plainSite.header true))
      [.idle, .ready { pollout := some (.wrote 4096) }] :=
    ⟨List.forall_mem_cons.mpr ⟨.inl rfl, List.forall_mem_singleton.mpr (.inr ⟨4096, by decide, rfl⟩)⟩,
      by decide +kernel⟩
  have hserved : ∃ s, (process plainSite obliging).run.run
      (start {} () (singles (postHead.text ++ postBody))
        ([[.idle, .ready { pollout := some (.wrote 4096) }]] ++ [])) =
        (.error (.exit .success), s) ∧ s.done = [.command r] ∧ s.world = () ∧
      s.wire = (answersTo postHead (ascii "\x7b\x7d")).flatMap
        (Answer.bytes (plainSite.header true)) :=
    process_serves hpost (divides_singles _) hr rfl (.cons hcarries .nil)
  obtain ⟨s, hrun, hdone, -, hwire⟩ := hserved
  exact ⟨r, s, hr, hrun, hdone, hwire⟩

end VplJail.Jail.Connection
