import VplJail.Socket.Receive

/-!
# The limit of the request head

`Socket::readHeaders` looks for the end of the head after every read, and tests the size of what it
has only if there is none. So a head beyond the limit passes when its end comes with the read that
exceeds the limit, and `headersResult_eq_iff` says for which streams the result does not depend on
the reads.
-/

namespace VplJail.Socket

/-- The end of the request head. -/
def crlfcrlf : Bytes :=
  ascii "\r\n\r\n"

/-- A poll of an undisturbed connection: nothing yet, or a read of at most `netBufferSize` bytes. -/
inductive Plain : RecvPoll → Prop
  | idle : Plain .idle
  | read {data : Bytes} (hne : data ≠ []) (hsize : data.length ≤ netBufferSize) :
      Plain (.ready { pollin := some (.read data) })

/-- A division of a stream into reads. -/
structure Divides (st : Bytes) (polls : List RecvPoll) : Prop where
  plain : ∀ p ∈ polls, Plain p
  stream_eq : stream polls = st

/-- A socket before its first read. -/
structure IsFresh (s : Socket) : Prop where
  header : s.header = []
  readBuffer : s.readBuffer = []
  closed : s.closed = false

/-- What a call shows of the division: the socket with all that is still to come in its buffer, or
the exception. -/
def result : Socket × RecvOutcome × List RecvPoll → Option (Except Thrown Socket)
  | (s, .returned _, polls) => some (.ok { s with readBuffer := s.readBuffer ++ stream polls })
  | (_, .raised e, _) => some (.error e)
  | (_, .waiting, _) => none

/-- What becomes of a head and what follows it. -/
def accepted (s : Socket) (header rest : Bytes) : Option (Except Thrown Socket) :=
  match (processHeaders header).run { s with header } with
  | (.ok (), s) => some (.ok { s with readBuffer := rest })
  | (.error e, _) => some (.error e)

/-- The rejection of a head beyond the limit. -/
def tooLarge : Option (Except Thrown Socket) :=
  some (.error (.http requestEntityTooLargeCode "Http headers too large"))

/-- Some read ends behind the limit and before the end of the head, of `size` bytes. `len` bytes
have been read before. -/
def Oversteps (size len : ℕ) (polls : List RecvPoll) : Prop :=
  ∃ before after, polls = before ++ after ∧ headersSizeLimit < len + (stream before).length ∧
    len + (stream before).length < size

theorem oversteps_cons {size len : ℕ} (hlen : len ≤ headersSizeLimit) (p : RecvPoll)
    (ps : List RecvPoll) :
    Oversteps size len (p :: ps) ↔ Oversteps size (len + p.bytes.length) ps := by
  constructor
  · rintro ⟨before, after, h, hlimit, hsize⟩
    cases before with
    | nil =>
      rw [stream_nil, List.length_nil] at hlimit
      omega
    | cons q before =>
      obtain ⟨rfl, rfl⟩ := List.cons.inj h
      rw [stream_cons, List.length_append, ← Nat.add_assoc] at hlimit hsize
      exact ⟨before, after, rfl, hlimit, hsize⟩
  · rintro ⟨before, after, rfl, hlimit, hsize⟩
    refine ⟨p :: before, after, rfl, ?_⟩
    rw [stream_cons, List.length_append, ← Nat.add_assoc]
    exact ⟨hlimit, hsize⟩

/-- The next part of a stream. -/
theorem take_append_of_drop_eq {st data rest : Bytes} {len : ℕ} (h : data ++ rest = st.drop len) :
    st.take len ++ data = st.take (len + data.length) ∧ rest = st.drop (len + data.length) := by
  rw [List.take_add, ← List.drop_drop, ← h, List.take_left, List.drop_left]
  exact ⟨rfl, rfl⟩

/-- The head is a part of the stream. -/
theorem head_le_length {st : Bytes} {pos : ℕ} (hfind : find crlfcrlf st = some pos) :
    pos + 4 ≤ st.length := by
  have hprefix := (find_eq_some.mp hfind).1.length_le
  rw [List.length_drop, show crlfcrlf.length = 4 from rfl] at hprefix
  omega

section Loop

variable {s : Socket} {st : Bytes} {pos : ℕ}

/-- The turn in which the head is complete. -/
theorem afterRead_found (hheader : s.header = []) (hfind : find crlfcrlf st = some pos) {len : ℕ}
    (hlen : pos + 4 ≤ len) {ps : List RecvPoll} (hps : stream ps = st.drop len) (r : Readable) :
    ∃ s' o, (afterRead headersSizeLimit { s with readBuffer := st.take len } r = .done s' ∧
        o = .returned [] ∨
        ∃ e, afterRead headersSizeLimit { s with readBuffer := st.take len } r = .raised s' e ∧
          o = .raised e) ∧
      result (s', o, ps) = accepted s (st.take (pos + 4)) (st.drop (pos + 4)) := by
  have hfound : find (ascii "\r\n\r\n") (st.take len) = some pos :=
    (find_take (by decide) hfind len).trans (if_pos hlen)
  have htake : (st.take len).take (pos + 4) = st.take (pos + 4) := by
    rw [List.take_take, min_eq_left hlen]
  have hblind := (isHeadParser_processHeaders (st.take (pos + 4))).blind
    { s with header := st.take (pos + 4) } (st.take len)
  rw [afterRead, if_pos hheader]
  simp only [hfound, htake, hblind, accepted]
  cases hrun : (processHeaders (st.take (pos + 4))).run { s with header := st.take (pos + 4) } with
  | mk r s' =>
    cases r with
    | error e => exact ⟨_, _, .inr ⟨e, rfl, rfl⟩, rfl⟩
    | ok =>
      refine ⟨_, _, .inl ⟨rfl, rfl⟩, ?_⟩
      have hrest : (st.take len).drop (pos + 4) ++ stream ps = st.drop (pos + 4) := by
        have hjoin := congrArg (List.drop (pos + 4)) (List.take_append_drop len st)
        rw [← hjoin, hps]
        by_cases hshort : st.length ≤ len
        · rw [List.drop_eq_nil_of_le hshort, List.append_nil, List.append_nil]
        · rw [List.drop_append_of_le_length]
          rw [List.length_take]
          omega
      simp only [result, hrest]

/-- What becomes of a stream from a byte within the limit on. -/
theorem result_recvLoop (hheader : s.header = []) (hfind : find crlfcrlf st = some pos) {len : ℕ}
    (hlimit : len ≤ headersSizeLimit) (hsize : len < pos + 4) {polls : List RecvPoll}
    (hplain : ∀ p ∈ polls, Plain p) (hstream : stream polls = st.drop len) :
    (Oversteps (pos + 4) len polls →
        result (recvLoop headersSizeLimit { s with readBuffer := st.take len } polls) = tooLarge) ∧
      (¬ Oversteps (pos + 4) len polls →
        result (recvLoop headersSizeLimit { s with readBuffer := st.take len } polls) =
          accepted s (st.take (pos + 4)) (st.drop (pos + 4))) := by
  have hlength := head_le_length hfind
  induction polls generalizing len with
  | nil =>
    -- the stream ends behind the head
    have hdrop := congrArg List.length hstream
    rw [stream_nil, List.length_nil, List.length_drop] at hdrop
    omega
  | cons p ps ih =>
    obtain ⟨hp, hps⟩ := List.forall_mem_cons.mp hplain
    rw [stream_cons] at hstream
    obtain ⟨htake, hrest⟩ := take_append_of_drop_eq hstream
    rw [oversteps_cons hlimit]
    cases hp with
    | idle => exact ih hlimit hsize hps hstream
    | @read data hne hdata =>
      have hturn : recvTurn headersSizeLimit { s with readBuffer := st.take len }
          (.ready { pollin := some (.read data) }) =
            afterRead headersSizeLimit { s with readBuffer := st.take (len + data.length) }
              { pollin := some (.read data) } := by
        rw [recvTurn]
        dsimp only
        rw [if_neg hne]
        exact congrArg (fun readBuffer => afterRead headersSizeLimit { s with readBuffer } _) htake
      rw [recvLoop, hturn]
      by_cases hfound : pos + 4 ≤ len + data.length
      · obtain ⟨s', o, hcases, hresult⟩ := afterRead_found hheader hfind hfound hrest _
        refine ⟨?_, fun _ => ?_⟩
        · rintro ⟨_, _, -, -, hlt⟩
          rw [RecvPoll.bytes] at hlt
          omega
        · rcases hcases with ⟨hdone, rfl⟩ | ⟨e, hraised, rfl⟩
          · rw [hdone]
            exact hresult
          · rw [hraised]
            exact hresult
      · have hnone : find (ascii "\r\n\r\n") (st.take (len + data.length)) = none :=
          (find_take (by decide) hfind _).trans (if_neg hfound)
        have hlen : (st.take (len + data.length)).length = len + data.length :=
          List.length_take_of_le (by omega)
        rw [afterRead, if_pos hheader]
        simp only [hnone, hlen]
        by_cases hover : len + data.length > headersSizeLimit
        · rw [if_pos hover]
          refine ⟨fun _ => rfl, fun h => absurd ⟨[], ps, rfl, ?_, ?_⟩ h⟩
          · exact hover
          · exact Nat.not_le.mp hfound
        · rw [if_neg hover]
          exact ih (Nat.not_lt.mp hover) (Nat.not_le.mp hfound) hps hrest

/-- What `readHeaders` makes of a division of a stream. -/
theorem result_readHeaders (hs : IsFresh s) (hfind : find crlfcrlf st = some pos)
    {polls : List RecvPoll} (h : Divides st polls) :
    (Oversteps (pos + 4) 0 polls → result (s.readHeaders polls) = tooLarge) ∧
      (¬ Oversteps (pos + 4) 0 polls → result (s.readHeaders polls) =
        accepted s (st.take (pos + 4)) (st.drop (pos + 4))) := by
  have hread : s.readHeaders polls = recvLoop headersSizeLimit s polls := by
    rw [readHeaders, if_pos hs.header, receive, hs.closed, if_neg Bool.false_ne_true]
    simp only [hs.header, if_true, ne_eq, not_true_eq_false, and_false, if_false]
  have hloop := result_recvLoop hs.header hfind (Nat.zero_le _) (Nat.succ_pos _) h.plain h.stream_eq
  have hstart : { s with readBuffer := st.take 0 } = s := by
    rw [List.take_zero, ← hs.readBuffer]
  rw [hstart] at hloop
  rw [hread]
  exact hloop

end Loop

/-! ## Divisions -/

/-- A head that is accepted or a bad request is not too large. -/
theorem accepted_ne_tooLarge (s : Socket) (header rest : Bytes) :
    accepted s header rest ≠ tooLarge := by
  rw [accepted]
  cases hrun : (processHeaders header).run { s with header } with
  | mk r s' =>
    cases r with
    | ok => exact nofun
    | error e =>
      obtain ⟨message, rfl⟩ := (isHeadParser_processHeaders header).throws { s with header } e
        (congrArg Prod.fst hrun)
      intro h
      have hcode := (Thrown.http.inj (Except.error.inj (Option.some.inj h))).1
      exact absurd hcode (by decide)

/-- A division into single bytes. -/
def singles (st : Bytes) : List RecvPoll :=
  st.map fun b => .ready { pollin := some (.read [b]) }

theorem divides_singles (st : Bytes) : Divides st (singles st) := by
  constructor
  · intro p hp
    obtain ⟨b, -, rfl⟩ := List.mem_map.mp hp
    exact .read (List.cons_ne_nil b []) (by rw [List.length_singleton]; decide)
  · induction st with
    | nil => rfl
    | cons b st ih => exact congrArg (b :: ·) ih

/-- A part in one read. -/
theorem divides_read {data : Bytes} (hne : data ≠ []) (hsize : data.length ≤ netBufferSize) :
    Divides data [.ready { pollin := some (.read data) }] :=
  ⟨List.forall_mem_singleton.mpr (.read hne hsize), List.append_nil data⟩

/-- Divisions of two parts of a stream. -/
theorem Divides.append {st st' : Bytes} {polls polls' : List RecvPoll} (h : Divides st polls)
    (h' : Divides st' polls') : Divides (st ++ st') (polls ++ polls') where
  plain := fun p hp => (List.mem_append.mp hp).elim (h.plain p) (h'.plain p)
  stream_eq := by rw [stream_append, h.stream_eq, h'.stream_eq]

/-- Reads that fit the network buffer do not jump over more than it holds. -/
theorem exists_boundary {size len : ℕ} {polls : List RecvPoll} (hplain : ∀ p ∈ polls, Plain p)
    (hlen : len < size) (hsize : size ≤ len + (stream polls).length) :
    ∃ before after, polls = before ++ after ∧ size ≤ len + (stream before).length + netBufferSize ∧
      len + (stream before).length < size := by
  induction polls generalizing len with
  | nil =>
    rw [stream_nil, List.length_nil] at hsize
    omega
  | cons p ps ih =>
    obtain ⟨hp, hps⟩ := List.forall_mem_cons.mp hplain
    rw [stream_cons, List.length_append] at hsize
    by_cases hmore : len + p.bytes.length < size
    · obtain ⟨before, after, rfl, hbound, hlt⟩ := ih hps hmore (by omega)
      refine ⟨p :: before, after, rfl, ?_⟩
      rw [stream_cons, List.length_append, ← Nat.add_assoc]
      exact ⟨hbound, hlt⟩
    · refine ⟨[], p :: ps, rfl, ?_, hlen⟩
      have hp_length : p.bytes.length ≤ netBufferSize := by
        cases hp with
        | idle => exact Nat.zero_le _
        | read hne hdata => exact hdata
      rw [stream_nil, List.length_nil]
      omega

/-- A read from within the limit to the end of the head or behind it does not overstep. -/
theorem not_oversteps_jump {size : ℕ} {st data st' : Bytes} (hst : st.length ≤ headersSizeLimit)
    (hdata : size ≤ st.length + data.length) :
    ¬ Oversteps size 0
      (singles st ++ (.ready { pollin := some (.read data) } :: singles st')) := by
  rintro ⟨before, after, h, hlimit, hlt⟩
  rw [Nat.zero_add] at hlimit hlt
  rcases List.append_eq_append_iff.mp h with ⟨more, rfl, hmore⟩ | ⟨more, hmore, -⟩
  · rw [stream_append, (divides_singles st).stream_eq, List.length_append] at hlimit hlt
    cases more with
    | nil =>
      rw [stream_nil, List.length_nil] at hlimit
      omega
    | cons p more =>
      obtain ⟨rfl, -⟩ := List.cons.inj hmore
      rw [stream_cons, List.length_append, RecvPoll.bytes] at hlt
      omega
  · have hall := congrArg (fun ps => (stream ps).length) hmore
    simp only [(divides_singles st).stream_eq, stream_append, List.length_append] at hall
    omega

/-- Between the limit and what one read may bring beyond it, two divisions differ. -/
theorem exists_divisions {st : Bytes} {pos : ℕ} (hfind : find crlfcrlf st = some pos)
    (hlow : headersSizeLimit + 1 < pos + 4) (hhigh : pos + 4 ≤ headersSizeLimit + netBufferSize) :
    ∃ polls polls', Divides st polls ∧ Divides st polls' ∧ Oversteps (pos + 4) 0 polls ∧
      ¬ Oversteps (pos + 4) 0 polls' := by
  have hlength := head_le_length hfind
  obtain ⟨start, hstart⟩ : ∃ start, start = pos + 4 - netBufferSize := ⟨_, rfl⟩
  obtain ⟨data, hdata⟩ : ∃ data, data = (st.drop start).take netBufferSize := ⟨_, rfl⟩
  have hdata_length : data.length = min netBufferSize (st.length - start) := by
    rw [hdata, List.length_take, List.length_drop]
  have hst : st.take start ++ (data ++ st.drop (start + netBufferSize)) = st := by
    rw [hdata, ← List.drop_drop, List.take_append_drop, List.take_append_drop]
  have hnet : 0 < netBufferSize := by decide
  refine ⟨singles st, singles (st.take start) ++ (.ready { pollin := some (.read data) } ::
    singles (st.drop (start + netBufferSize))), divides_singles st, ?_, ?_, ?_⟩
  · have hread := divides_read (List.length_pos_iff.mp (by omega : 0 < data.length)) (by omega)
    have hall := (divides_singles (st.take start)).append
      (hread.append (divides_singles (st.drop (start + netBufferSize))))
    rwa [hst] at hall
  · -- one byte more than the limit is read
    refine ⟨singles (st.take (headersSizeLimit + 1)), singles (st.drop (headersSizeLimit + 1)),
      ?_, ?_⟩
    · rw [singles, singles, singles, ← List.map_append, List.take_append_drop]
    · rw [(divides_singles _).stream_eq, List.length_take_of_le (by omega)]
      omega
  · have htake : (st.take start).length = start := List.length_take_of_le (by omega)
    exact not_oversteps_jump (by omega) (by omega)

/-- The result of `readHeaders` is the same for all divisions of a stream just when its head is not
longer than the limit by more than one byte, or too long for every division. -/
theorem result_readHeaders_iff {s : Socket} (hs : IsFresh s) {st : Bytes} {pos : ℕ}
    (hfind : find crlfcrlf st = some pos) :
    (∀ polls polls', Divides st polls → Divides st polls' →
        result (s.readHeaders polls) = result (s.readHeaders polls')) ↔
      pos + 4 ≤ headersSizeLimit + 1 ∨ headersSizeLimit + netBufferSize < pos + 4 := by
  constructor
  · intro hall
    by_contra hbetween
    obtain ⟨polls, polls', h, h', hover, hnot⟩ := exists_divisions hfind (by omega) (by omega)
    have heq := hall polls polls' h h'
    rw [(result_readHeaders hs hfind h).1 hover, (result_readHeaders hs hfind h').2 hnot] at heq
    exact accepted_ne_tooLarge _ _ _ heq.symm
  · rintro (hlow | hhigh) polls polls' h h'
    · have hnot (polls : List RecvPoll) : ¬ Oversteps (pos + 4) 0 polls := by
        rintro ⟨before, after, -, hlimit, hlt⟩
        omega
      rw [(result_readHeaders hs hfind h).2 (hnot _), (result_readHeaders hs hfind h').2 (hnot _)]
    · have hover {polls : List RecvPoll} (h : Divides st polls) : Oversteps (pos + 4) 0 polls := by
        have hlength : pos + 4 ≤ 0 + (stream polls).length := by
          rw [h.stream_eq, Nat.zero_add]
          exact head_le_length hfind
        obtain ⟨before, after, heq, hbound, hlt⟩ := exists_boundary h.plain (Nat.succ_pos _) hlength
        exact ⟨before, after, heq, by omega, hlt⟩
      rw [(result_readHeaders hs hfind h).1 (hover h), (result_readHeaders hs hfind h').1 (hover h')]

/-- A head is read alike byte by byte and in two parts of its request line. -/
theorem result_readHeaders_iff_ok :
    result (readHeaders {} (singles (ascii "GET /o" ++ ascii "k HTTP/1.1\r\n\r\n"))) =
      result (readHeaders {} ([.ready { pollin := some (.read (ascii "GET /o")) }] ++
        [.ready { pollin := some (.read (ascii "k HTTP/1.1\r\n\r\n")) }])) := by
  have hfind : find crlfcrlf (ascii "GET /o" ++ ascii "k HTTP/1.1\r\n\r\n") = some 16 := by decide
  exact (result_readHeaders_iff ⟨rfl, rfl, rfl⟩ hfind).mpr (.inl (by decide)) _ _ (divides_singles _)
    ((divides_read (by decide) (by decide)).append (divides_read (by decide) (by decide)))

/-- The end of the head is found behind letters. -/
theorem find_replicate (n : ℕ) : find crlfcrlf (List.replicate n 97 ++ crlfcrlf) = some n := by
  have hdrop (k : ℕ) (hk : k ≤ n) : (List.replicate n (97 : UInt8) ++ crlfcrlf).drop k =
      List.replicate (n - k) 97 ++ crlfcrlf := by
    rw [List.drop_append_of_le_length (by simpa using hk), List.drop_replicate]
  refine find_eq_some.mpr ⟨?_, fun k hk => ?_⟩
  · rw [hdrop n le_rfl, Nat.sub_self]
    exact List.prefix_rfl
  · obtain ⟨m, hm⟩ : ∃ m, n - k = m + 1 := ⟨n - k - 1, by omega⟩
    rw [hdrop k hk.le, hm, List.replicate_succ]
    intro hprefix
    obtain ⟨rest, hrest⟩ := hprefix
    cases (List.cons.inj hrest).1

/-- A head of 8196 bytes is accepted or rejected by where the reads fall. -/
theorem not_result_readHeaders :
    ¬ ∀ (s : Socket) (st : Bytes) (pos : ℕ), IsFresh s → find crlfcrlf st = some pos →
      ∀ polls polls', Divides st polls → Divides st polls' →
        result (s.readHeaders polls) = result (s.readHeaders polls') := by
  intro hall
  have hfind := find_replicate headersSizeLimit
  have hs : IsFresh {} := ⟨rfl, rfl, rfl⟩
  have hnet : 4 ≤ netBufferSize := by decide
  obtain ⟨polls, polls', h, h', hover, hnot⟩ := exists_divisions hfind (by omega) (by omega)
  have heq := hall {} _ _ hs hfind polls polls' h h'
  rw [(result_readHeaders hs hfind h).1 hover, (result_readHeaders hs hfind h').2 hnot] at heq
  exact accepted_ne_tooLarge _ _ _ heq.symm

end VplJail.Socket
