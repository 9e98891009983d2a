import VplJail.Common.Entries
import VplJail.Common.Places
import VplJail.Socket.Headers

/-!
# Request heads that are written

What `processHeaders` reads of a request head that is put together of a request line and headers. The
expressions take each line apart where it was put together (`processHeaders_text`).
-/

namespace VplJail.Socket

open PosixRegex Util

/-- A computation that goes on. -/
theorem run_bind_of_ok {α β : Type} {m : SocketM α} {f : α → SocketM β} {s s' : Socket} {a : α}
    (h : m.run s = (.ok a, s')) : (m >>= f).run s = (f a).run s' := by
  have hcont : (m >>= f).run s = ExceptT.bindCont f (m.run s).1 (m.run s).2 := rfl
  rw [hcont, h]
  rfl

/-! ## Lines -/

/-- The end of a line of a head. -/
def crlf : Bytes := [13, 10]

/-- A line that is not at the end takes its bytes off the text. -/
theorem getLine_progress {s : Bytes} {offset : ℕ} (h : offset < s.length) :
    offset < (getLine s offset).2 ∧ (getLine s offset).2 ≤ s.length := by
  have hle :=
    (List.takeWhile_sublist (fun b : UInt8 => decide (b ≠ 10)) (l := s.drop offset)).length_le
  have hlen : (s.drop offset).length = s.length - offset := List.length_drop ..
  unfold getLine
  dsimp only
  split
  · dsimp only
    omega
  · dsimp only
    omega

/-- Behind the end of the text there is no line. -/
theorem getLine_of_le {s : Bytes} {offset : ℕ} (h : s.length ≤ offset) :
    getLine s offset = ([], offset) := by
  unfold getLine
  rw [List.drop_eq_nil_of_le h]
  rfl

/-- A line with its end. -/
theorem getLine_of_drop {s line rest : Bytes} {offset : ℕ}
    (h : s.drop offset = line ++ crlf ++ rest) (hline : (10 : UInt8) ∉ line) :
    getLine s offset = (line, offset + (line ++ crlf).length) := by
  have hrun : (s.drop offset).takeWhile (fun b => decide (b ≠ 10)) = line ++ [13] := by
    have hjoin : line ++ crlf ++ rest = (line ++ [13]) ++ (10 :: rest) := by simp [crlf]
    rw [h, hjoin]
    refine takeWhile_run (fun b hb => decide_eq_true ?_) fun b hb => ?_
    · rcases List.mem_append.mp hb with hb | hb
      · exact fun heq => hline (heq ▸ hb)
      · obtain rfl := List.mem_singleton.mp hb
        decide
    · obtain rfl := Option.some.inj hb
      rfl
  unfold getLine
  dsimp only
  rw [hrun, if_neg, List.getLast?_concat, if_pos rfl, List.dropLast_concat]
  · simp [crlf, Nat.add_assoc]
  · simp [h, crlf]

/-- An empty line. -/
theorem getLine_of_blank {s rest : Bytes} {offset : ℕ} (h : s.drop offset = crlf ++ rest) :
    getLine s offset = ([], offset + 2) :=
  getLine_of_drop (show s.drop offset = [] ++ crlf ++ rest from h) List.not_mem_nil

/-- The text goes on behind the place where something stands. -/
theorem lt_length_of_drop {s t : Bytes} {offset : ℕ} (h : s.drop offset = t) (ht : t ≠ []) :
    offset < s.length := by
  by_contra hle
  rw [List.drop_eq_nil_of_le (not_lt.mp hle)] at h
  exact ht h.symm

/-! ## Enough turns -/

/-- `processHeaders` with at most the given number of turns of each loop. -/
def processHeadersWithin (turns : ℕ) (input : Bytes) : SocketM Unit := do
  let (line, offset) := firstLine input turns 0
  parseRequestLine line
  parseHeaders input turns offset

theorem firstLine_congr {input : Bytes} {turns turns' offset : ℕ} (h : input.length < turns + offset)
    (h' : input.length < turns' + offset) (hpos : 0 < turns) (hpos' : 0 < turns') :
    firstLine input turns offset = firstLine input turns' offset := by
  induction turns generalizing turns' offset with
  | zero => exact absurd hpos (lt_irrefl 0)
  | succ turns ih =>
    obtain ⟨turns', rfl⟩ := Nat.exists_eq_succ_of_ne_zero hpos'.ne'
    rw [firstLine, firstLine]
    dsimp only
    refine ite_congr rfl (fun hgo => ?_) fun _ => rfl
    have hprogress : offset < (getLine input offset).2 := by
      by_contra hstop
      have hle : input.length ≤ offset := by
        by_contra hlt
        exact hstop (getLine_progress (not_le.mp hlt)).1
      rw [getLine_of_le hle] at hgo
      exact absurd hgo.2 (not_lt.mpr hle)
    have hmore := hgo.2
    exact ih (by omega) (by omega) (by omega) (by omega)

theorem parseHeaders_congr {input : Bytes} {turns turns' offset : ℕ}
    (h : input.length < turns + offset) (h' : input.length < turns' + offset) (hpos : 0 < turns)
    (hpos' : 0 < turns') : parseHeaders input turns offset = parseHeaders input turns' offset := by
  induction turns generalizing turns' offset with
  | zero => exact absurd hpos (lt_irrefl 0)
  | succ turns ih =>
    obtain ⟨turns', rfl⟩ := Nat.exists_eq_succ_of_ne_zero hpos'.ne'
    rw [parseHeaders, parseHeaders]
    dsimp only
    refine ite_congr rfl (fun _ => rfl) fun hline => ?_
    have hlt : offset < input.length := by
      by_contra hle
      exact hline (by rw [getLine_of_le (not_lt.mp hle)])
    obtain ⟨hprogress, hbound⟩ := getLine_progress hlt
    rw [@ih turns' _ (by omega) (by omega) (by omega) (by omega)]

/-- The loops end within as many turns as the input has bytes, and one. -/
theorem processHeadersWithin_eq {turns : ℕ} {input : Bytes} (h : input.length < turns) :
    processHeadersWithin turns input = processHeaders input := by
  have hfirst : firstLine input turns 0 = firstLine input (input.length + 1) 0 :=
    firstLine_congr (by omega) (by omega) (by omega) (by omega)
  have hrest (offset : ℕ) : parseHeaders input turns offset =
      parseHeaders input (input.length + 1) offset :=
    parseHeaders_congr (by omega) (by omega) (by omega) (by omega)
  unfold processHeadersWithin processHeaders
  rw [hfirst]
  simp only [hrest]

/-! ## Heads -/

/-- A byte that is neither a blank nor a control byte. -/
def isVisible (b : UInt8) : Bool :=
  decide (32 < b) && b != 127

/-- A header of a head: its name, the blanks behind the colon, and its value. -/
structure HeaderLine where
  name : Bytes
  gap : Bytes
  value : Bytes
  name_ne : name ≠ []
  name_visible : ∀ b ∈ name, isVisible b = true ∧ b < 128 ∧ b ≠ 58
  gap_blank : ∀ b ∈ gap, b = 32 ∨ b = 9
  value_line : ∀ b ∈ value, b ≠ 13 ∧ b ≠ 10 ∧ b ≠ 0
  value_head : ∀ b ∈ value.head?, b ≠ 32 ∧ b ≠ 9

/-- A request head, with the empty lines before it, and what follows the last header: nothing, or an
empty line with anything behind it. -/
structure RequestHead where
  emptyLines : ℕ
  method : Bytes
  path : Bytes
  query : Option Bytes
  version : Bytes
  headers : List HeaderLine
  ending : Bytes
  method_ne : method ≠ []
  method_visible : ∀ b ∈ method, isVisible b = true
  path_head : path.head? = some 47
  path_visible : ∀ b ∈ path, isVisible b = true ∧ b ≠ 63
  query_visible : ∀ q ∈ query, ∀ b ∈ q, isVisible b = true
  version_ne : version ≠ []
  version_visible : ∀ b ∈ version, isVisible b = true
  distinct : (headers.map fun h => toUppercase h.name).Nodup
  ending_eq : ending = [] ∨ crlf <+: ending

/-- The line of a header. -/
def HeaderLine.line (h : HeaderLine) : Bytes :=
  h.name ++ 58 :: (h.gap ++ h.value)

namespace RequestHead

/-- The path and the query. -/
def URL (head : RequestHead) : Bytes :=
  head.path ++ (head.query.map (63 :: ·)).getD []

/-- The request line. -/
def requestLine (head : RequestHead) : Bytes :=
  head.method ++ 32 :: (head.URL ++ 32 :: head.version)

/-- The text of the headers. -/
def headerText (hs : List HeaderLine) : Bytes :=
  hs.flatMap fun h => h.line ++ crlf

/-- The text of a head. -/
def text (head : RequestHead) : Bytes :=
  (List.replicate head.emptyLines crlf).flatten ++
    (head.requestLine ++ crlf ++ (headerText head.headers ++ head.ending))

end RequestHead

/-! ## The request line -/

section RequestLine

variable (head : RequestHead)

theorem visible_ne {b c : UInt8} (h : isVisible b = true) (hc : c ≤ 32) : b ≠ c := by
  rintro rfl
  rw [isVisible, Bool.and_eq_true, decide_eq_true_eq] at h
  exact absurd hc (UInt8.not_le.mpr h.1)

theorem url_visible : ∀ b ∈ head.URL, isVisible b = true := by
  intro b hb
  rcases List.mem_append.mp hb with hb | hb
  · exact (head.path_visible b hb).1
  · cases hquery : head.query with
    | none =>
      rw [hquery] at hb
      exact absurd hb List.not_mem_nil
    | some q =>
      rw [hquery] at hb
      rcases List.mem_cons.mp hb with rfl | hb
      · rfl
      · exact head.query_visible q hquery b hb

theorem url_ne_nil : head.URL ≠ [] := by
  intro h
  have hpath := head.path_head
  rw [(List.append_eq_nil_iff.mp h).1] at hpath
  cases hpath

/-- The line has no NUL and no end of line. -/
theorem notMem_requestLine {c : UInt8} (hc : c < 32) : c ∉ head.requestLine := by
  have hle : c ≤ 32 := UInt8.le_of_lt hc
  intro hmem
  simp only [RequestHead.requestLine, List.mem_append, List.mem_cons] at hmem
  rcases hmem with h | h | h | h | h
  · exact visible_ne (head.method_visible c h) hle rfl
  · rw [h] at hc
    exact absurd hc (by decide)
  · exact visible_ne (url_visible head c h) hle rfl
  · rw [h] at hc
    exact absurd hc (by decide)
  · exact visible_ne (head.version_visible c h) hle rfl

theorem searchWhole_requestLine : searchWhole regRequestLine head.requestLine =
    some [head.method, [32], head.URL, [32], head.version] := by
  have hvisible {s : Bytes} (h : ∀ b ∈ s, isVisible b = true) : ∀ b ∈ s, (b != 32) = true :=
    fun b hb => bne_iff_ne.mpr (visible_ne (h b hb) (by decide))
  have hblank (rest : Bytes) : ∀ a ∈ (32 :: rest : Bytes).head?, (a != 32) = false := by
    intro a ha
    obtain rfl := Option.some.inj ha
    rfl
  unfold regRequestLine RequestHead.requestLine
  refine searchWhole_plus head.method_ne (hvisible head.method_visible) (hblank _) ?_
  refine searchWhole_one rfl ?_
  refine searchWhole_plus (url_ne_nil head) (hvisible (url_visible head)) (hblank _) ?_
  refine searchWhole_one rfl ?_
  have hlast : searchWhole [.plus (· != 32)] (head.version ++ []) = some [head.version] :=
    searchWhole_plus head.version_ne (hvisible head.version_visible) nofun rfl
  rwa [List.append_nil] at hlast

/-- A path that starts with a slash follows no host. -/
theorem searchWhole_host {url : Bytes} (h : url.head? = some 47) :
    searchWhole ([.star isLetter, .one (· == 58), .one (· == 47), .one (· == 47),
      .plus (· != 47)] ++ regPathQuery) url = none := by
  refine searchWhole_eq_none fun m hm hurl => ?_
  rw [List.cons_append, List.cons_append] at hm
  obtain ⟨protocol, after, hprotocol, hafter, rfl⟩ := List.forall₂_cons_left_iff.mp hm
  obtain ⟨colon, host, hcolon, -, rfl⟩ := List.forall₂_cons_left_iff.mp hafter
  obtain ⟨b, rfl, hb⟩ := exists_of_accepts_one hcolon
  rw [hurl, List.flatten_cons, List.flatten_cons] at h
  cases protocol with
  | nil =>
    obtain rfl := Option.some.inj h
    exact absurd hb (by decide)
  | cons c protocol =>
    obtain rfl := Option.some.inj h
    exact absurd (hprotocol.1 47 List.mem_cons_self) (by decide)

theorem searchWhole_pathQuery : searchWhole ([.star isLetter] ++ regPathQuery) head.URL =
    some [[], head.path, if head.query.isSome then [63] else [], head.query.getD []] := by
  have hpath : ∀ b ∈ head.path, (b != 63) = true := fun b hb =>
    bne_iff_ne.mpr (head.path_visible b hb).2
  have hany (q : Bytes) : searchWhole [.star fun _ => true] q = some [q] := by
    have hstar : searchWhole [.star fun _ => true] (q ++ []) = some [q] :=
      searchWhole_star (fun _ _ => rfl) nofun rfl
    rwa [List.append_nil] at hstar
  have hletter : ∀ b ∈ head.URL.head?, isLetter b = false := by
    intro b hb
    rw [RequestHead.URL, List.head?_append, head.path_head] at hb
    obtain rfl := Option.some.inj hb
    rfl
  have hrest : searchWhole regPathQuery head.URL =
      some [head.path, if head.query.isSome then [63] else [], head.query.getD []] := by
    unfold RequestHead.URL regPathQuery
    cases head.query with
    | none => exact searchWhole_star hpath nofun (searchWhole_opt_nil (hany []))
    | some q =>
      refine searchWhole_star hpath ?_ (searchWhole_opt rfl (hany q))
      intro a ha
      obtain rfl := Option.some.inj ha
      rfl
  exact @searchWhole_star _ _ _ [] _ _ nofun hletter hrest

theorem searchURL_url : searchURL head.URL = some ([], head.path, head.query.getD []) := by
  have hhead : head.URL.head? = some 47 := by
    rw [RequestHead.URL, List.head?_append, head.path_head]
    rfl
  rw [searchURL, searchWhole_host hhead, searchWhole_pathQuery]

/-- What the request line leaves in the socket. -/
def afterRequestLine (s : Socket) : Socket :=
  { s with
    method := head.method
    URL := head.URL
    version := head.version
    protocol := []
    URLPath := head.path
    queryString := head.query.getD [] }

theorem run_parseRequestLine (s : Socket) :
    (parseRequestLine head.requestLine).run s = (.ok (), afterRequestLine head s) := by
  have hzero : (0 : UInt8) ∉ head.requestLine := notMem_requestLine head (by decide)
  have hurl : (0 : UInt8) ∉ head.URL := fun h => visible_ne (url_visible head 0 h) (by decide) rfl
  unfold parseRequestLine
  rw [cstr_eq_self hzero, searchWhole_requestLine]
  dsimp only
  rw [cstr_eq_self hurl, searchURL_url]
  rfl

end RequestLine

/-! ## The headers -/

section Headers

variable (h : HeaderLine)

theorem header_name_ne {b c : UInt8} (hb : b ∈ h.name) (hc : c ≤ 32) : b ≠ c :=
  visible_ne (h.name_visible b hb).1 hc

theorem notMem_line {c : UInt8} (hc : c = 0 ∨ c = 10) : c ∉ h.line := by
  have hle : c ≤ 32 := by
    rcases hc with rfl | rfl <;> decide
  intro hmem
  simp only [HeaderLine.line, List.mem_append, List.mem_cons] at hmem
  rcases hmem with hmem | rfl | hmem | hmem
  · exact header_name_ne h hmem hle rfl
  · exact absurd hc (by decide)
  · rcases h.gap_blank c hmem with rfl | rfl <;> exact absurd hc (by decide)
  · rcases hc with rfl | rfl
    · exact (h.value_line _ hmem).2.2 rfl
    · exact (h.value_line _ hmem).2.1 rfl

theorem line_ne_nil : h.line ≠ [] := by
  intro hnil
  exact h.name_ne (List.append_eq_nil_iff.mp hnil).1

theorem searchWhole_line : searchWhole regHeader h.line =
    some [[], h.name, [58], h.gap, h.value] := by
  have hname : ∀ b ∈ h.name, (b != 32 && b != 9 && b != 58) = true := by
    intro b hb
    have hblank := header_name_ne h hb (by decide : (32 : UInt8) ≤ 32)
    have htab := header_name_ne h hb (by decide : (9 : UInt8) ≤ 32)
    simp [hblank, htab, (h.name_visible b hb).2.2]
  have hstart : ∀ b ∈ h.line.head?, (b == 32 || b == 9) = false := by
    intro b hb
    obtain ⟨c, name, hcons⟩ := List.exists_cons_of_ne_nil h.name_ne
    rw [HeaderLine.line, hcons] at hb
    obtain rfl := Option.some.inj hb
    have hvisible := hname c (hcons ▸ List.mem_cons_self)
    simp only [Bool.and_eq_true, bne_iff_ne] at hvisible
    simp [hvisible.1.1, hvisible.1.2]
  have hgap : ∀ b ∈ h.gap, (b == 32 || b == 9) = true := by
    intro b hb
    rcases h.gap_blank b hb with rfl | rfl <;> rfl
  have hvalue : ∀ b ∈ h.value.head?, (b == 32 || b == 9) = false := by
    intro b hb
    obtain ⟨hblank, htab⟩ := h.value_head b hb
    simp [hblank, htab]
  have hany : searchWhole [.star fun _ => true] (h.value ++ []) = some [h.value] :=
    searchWhole_star (fun _ _ => rfl) nofun rfl
  rw [List.append_nil] at hany
  refine @searchWhole_star _ _ _ [] _ _ nofun hstart ?_
  refine searchWhole_plus h.name_ne hname ?_ ?_
  · intro a ha
    obtain rfl := Option.some.inj ha
    rfl
  · exact searchWhole_one rfl (searchWhole_star hgap hvalue hany)

/-- Cookies are put aside. -/
theorem run_parseCookiesLoop (fuel : ℕ) (rawcookies : Bytes) (s : Socket) :
    ∃ cookies, (parseCookiesLoop fuel rawcookies).run s = (.ok (), { s with cookies }) := by
  induction fuel generalizing rawcookies s with
  | zero => exact ⟨s.cookies, rfl⟩
  | succ fuel ih =>
    rw [parseCookiesLoop]
    cases searchCookie (cstr rawcookies) with
    | none => exact ⟨s.cookies, rfl⟩
    | some found =>
      obtain ⟨all, name, value⟩ := found
      obtain ⟨cookies, hrest⟩ := ih (rawcookies.drop all.length)
        { s with cookies := s.cookies.insert name value }
      exact ⟨cookies, hrest⟩

/-- The entry of a header in the map. -/
def HeaderLine.entry : Bytes × Bytes := (toUppercase h.name, h.value)

theorem run_parseHeader (s : Socket) : ∃ cookies, (parseHeader h.line).run s =
    (.ok (), { s with headers := s.headers.insert h.entry.1 h.entry.2, cookies }) := by
  unfold parseHeader
  rw [cstr_eq_self (notMem_line h (.inl rfl)), searchWhole_line]
  dsimp only
  by_cases hcookie : toUppercase h.name = ascii "COOKIE"
  · obtain ⟨cookies, hrun⟩ := run_parseCookiesLoop h.value.length h.value
      { s with headers := s.headers.insert h.entry.1 h.entry.2 }
    refine ⟨cookies, ?_⟩
    rw [if_pos hcookie]
    exact hrun
  · refine ⟨s.cookies, ?_⟩
    rw [if_neg hcookie]
    rfl

/-- The headers up to the empty line, or to the end of the text. -/
theorem run_parseHeaders {input ending : Bytes} (hend : ending = [] ∨ crlf <+: ending)
    (hs : List HeaderLine) (turns offset : ℕ) (hturns : hs.length < turns)
    (hdrop : input.drop offset = RequestHead.headerText hs ++ ending) (s : Socket) :
    ∃ cookies, (parseHeaders input turns offset).run s =
      (.ok (), { s with
        headers := (hs.map HeaderLine.entry).foldl (fun m p => m.insert p.1 p.2) s.headers
        cookies }) := by
  induction hs generalizing turns offset s with
  | nil =>
    obtain ⟨turns, rfl⟩ := Nat.exists_eq_succ_of_ne_zero (Nat.ne_zero_of_lt hturns)
    have hline : (getLine input offset).1 = [] := by
      rcases hend with rfl | ⟨rest, rfl⟩
      · rw [getLine_of_le (List.drop_eq_nil_iff.mp hdrop)]
      · rw [getLine_of_blank hdrop]
    refine ⟨s.cookies, ?_⟩
    rw [parseHeaders]
    dsimp only
    rw [if_pos hline]
    rfl
  | cons h hs ih =>
    obtain ⟨turns, rfl⟩ := Nat.exists_eq_succ_of_ne_zero (Nat.ne_zero_of_lt hturns)
    have hhere : input.drop offset = h.line ++ crlf ++ (RequestHead.headerText hs ++ ending) := by
      rw [hdrop, RequestHead.headerText, List.flatMap_cons, List.append_assoc (h.line ++ crlf)]
      rfl
    have hnext := drop_of_append hhere rfl
    obtain ⟨cookies, hheader⟩ := run_parseHeader h s
    obtain ⟨cookies', hrest⟩ := ih turns _ (Nat.lt_of_succ_lt_succ hturns) hnext
      { s with headers := s.headers.insert h.entry.1 h.entry.2, cookies }
    refine ⟨cookies', ?_⟩
    rw [parseHeaders, getLine_of_drop hhere (notMem_line h (.inr rfl))]
    dsimp only
    rw [if_neg (line_ne_nil h), run_bind_of_ok hheader]
    exact hrest

end Headers

/-! ## The whole head -/

/-- `getMethod`: the method of the request. -/
def getMethod (s : Socket) : Bytes := s.method

/-- `getVersion`: the version of its protocol. -/
def getVersion (s : Socket) : Bytes := s.version

/-- `getURLPath`: the path in its URL. -/
def getURLPath (s : Socket) : Bytes := s.URLPath

/-- `getQueryString`: what follows the path. -/
def getQueryString (s : Socket) : Bytes := s.queryString

/-- A socket tells what a head says. -/
structure Tells (head : RequestHead) (s : Socket) : Prop where
  method : getMethod s = head.method
  version : getVersion s = head.version
  path : getURLPath s = head.path
  query : getQueryString s = head.query.getD []
  header : ∀ h ∈ head.headers, ∀ name, toUppercase name = toUppercase h.name →
    getHeader s name = h.value
  absent : ∀ name, (∀ h ∈ head.headers, toUppercase h.name ≠ toUppercase name) →
    getHeader s name = []

section Head

variable (head : RequestHead)

/-- The empty lines are skipped. -/
theorem firstLine_of_drop (input rest : Bytes) (k turns offset : ℕ) (hturns : k < turns)
    (h : input.drop offset = (List.replicate k crlf).flatten ++ (head.requestLine ++ crlf ++ rest)) :
    ∃ next, firstLine input turns offset = (head.requestLine, next) ∧ input.drop next = rest := by
  have hline : head.requestLine ≠ [] := fun hnil =>
    head.method_ne (List.append_eq_nil_iff.mp hnil).1
  induction k generalizing turns offset with
  | zero =>
    obtain ⟨turns, rfl⟩ := Nat.exists_eq_succ_of_ne_zero (Nat.ne_zero_of_lt hturns)
    have h : input.drop offset = head.requestLine ++ crlf ++ rest := h
    refine ⟨_, ?_, drop_of_append h rfl⟩
    rw [firstLine, getLine_of_drop h (notMem_requestLine head (by decide))]
    dsimp only
    rw [if_neg fun hempty => hline hempty.1]
  | succ k ih =>
    obtain ⟨turns, rfl⟩ := Nat.exists_eq_succ_of_ne_zero (Nat.ne_zero_of_lt hturns)
    have hblank : input.drop offset = crlf ++ ((List.replicate k crlf).flatten ++
        (head.requestLine ++ crlf ++ rest)) := by
      rw [h, List.replicate_succ, List.flatten_cons, List.append_assoc]
    have hnext := drop_of_append hblank rfl
    have hmore := lt_length_of_drop hnext (by simp [hline])
    rw [firstLine, getLine_of_blank hblank]
    dsimp only
    rw [if_pos ⟨rfl, hmore⟩]
    exact ih turns _ (Nat.lt_of_succ_lt_succ hturns) hnext

theorem le_length_emptyLines (k : ℕ) : k ≤ (List.replicate k crlf).flatten.length := by
  induction k with
  | zero => exact le_rfl
  | succ k ih =>
    rw [List.replicate_succ, List.flatten_cons, List.length_append]
    have hcrlf : crlf.length = 2 := rfl
    omega

theorem length_le_headerText (hs : List HeaderLine) :
    hs.length ≤ (RequestHead.headerText hs).length := by
  induction hs with
  | nil => exact le_rfl
  | cons h hs ih =>
    rw [RequestHead.headerText, List.flatMap_cons, List.length_append, List.length_append,
      List.length_cons]
    have hcrlf : crlf.length = 2 := rfl
    rw [RequestHead.headerText] at ih
    omega

/-- The head is read from one end to the other. -/
theorem run_processHeaders (s : Socket) : ∃ cookies, (processHeaders head.text).run s =
    (.ok (), { afterRequestLine head s with
      headers := (head.headers.map HeaderLine.entry).foldl (fun m p => m.insert p.1 p.2) s.headers
      cookies }) := by
  have hempty := le_length_emptyLines head.emptyLines
  have hheaders := length_le_headerText head.headers
  have hlength : head.text.length = (List.replicate head.emptyLines crlf).flatten.length +
      ((head.requestLine ++ crlf).length + ((RequestHead.headerText head.headers).length +
        head.ending.length)) := by
    simp only [RequestHead.text, List.length_append]
  obtain ⟨next, hfirst, hrest⟩ := firstLine_of_drop head head.text _ head.emptyLines
    (head.text.length + 1) 0 (by omega) rfl
  obtain ⟨cookies, hrun⟩ := run_parseHeaders head.ending_eq head.headers
    (head.text.length + 1) next (by omega) hrest (afterRequestLine head s)
  refine ⟨cookies, ?_⟩
  unfold processHeaders
  rw [hfirst]
  dsimp only
  rw [run_bind_of_ok (run_parseRequestLine head s)]
  exact hrun

/-- A request head is read as it was written. -/
theorem processHeaders_text (s : Socket) (hs : s.headers = ∅) :
    (∀ offset < head.text.length, offset < (getLine head.text offset).2) ∧
      (∀ turns, head.text.length < turns →
        processHeadersWithin turns head.text = processHeaders head.text) ∧
      ∃ s', (processHeaders head.text).run s = (.ok (), s') ∧ Tells head s' := by
  refine ⟨fun offset h => (getLine_progress h).1, fun turns h => processHeadersWithin_eq h, ?_⟩
  obtain ⟨cookies, hrun⟩ := run_processHeaders head s
  have hkeys : ((head.headers.map HeaderLine.entry).map Prod.fst).Nodup := by
    rw [List.map_map]
    exact head.distinct
  refine ⟨_, hrun, ⟨rfl, rfl, rfl, rfl, fun h hmem name hname => ?_, fun name hname => ?_⟩⟩
  · have hentry : (toUppercase name, h.value) ∈ head.headers.map HeaderLine.entry := by
      rw [hname]
      exact List.mem_map_of_mem hmem
    rw [getHeader, getElem?_foldl_insert_of_mem hkeys hentry]
    rfl
  · have hne : ∀ p ∈ head.headers.map HeaderLine.entry, p.1 ≠ toUppercase name := by
      intro p hp
      obtain ⟨h, hmem, rfl⟩ := List.mem_map.mp hp
      exact hname h hmem
    rw [getHeader, getElem?_foldl_insert_of_ne hne, hs]
    rfl

end Head

/-- A request with a query and a header. -/
def getHead : RequestHead where
  emptyLines := 1
  method := ascii "GET"
  path := ascii "/a"
  query := some (ascii "b?c")
  version := ascii "HTTP/1.1"
  headers := [{
    name := ascii "Host"
    gap := ascii " "
    value := ascii "d:8"
    name_ne := by decide +kernel
    name_visible := by decide +kernel
    gap_blank := by decide +kernel
    value_line := by decide +kernel
    value_head := by decide +kernel }]
  ending := crlf
  method_ne := by decide +kernel
  method_visible := by decide +kernel
  path_head := by decide +kernel
  path_visible := by decide +kernel
  query_visible := by decide +kernel
  version_ne := by decide +kernel
  version_visible := by decide +kernel
  distinct := by decide +kernel
  ending_eq := .inr (List.prefix_refl _)

theorem processHeaders_text_getHead :
    ∃ s', (processHeaders (ascii "\r\nGET /a?b?c HTTP/1.1\r\nHost: d:8\r\n\r\n")).run {} =
      (.ok (), s') ∧ Tells getHead s' := by
  have htext : ascii "\r\nGET /a?b?c HTTP/1.1\r\nHost: d:8\r\n\r\n" = getHead.text := by
    decide +kernel
  rw [htext]
  exact (processHeaders_text getHead {} rfl).2.2

end VplJail.Socket
