import VplJail.Common.PosixRegex
import VplJail.Socket.Socket
import VplJail.Util.Text

/-!
# Request heads

`Socket::processHeaders`: the request line and the headers, each taken apart by a regular expression
that sees the line up to its first NUL. What is not matched is rejected; what has been stored before
stays stored.
-/

namespace VplJail

/-- `Util::getLine`: the line that starts at `offset`, without its end, and where the next one
starts. -/
def Util.getLine (s : Bytes) (offset : ℕ) : Bytes × ℕ :=
  let rest := s.drop offset
  let line := rest.takeWhile (· ≠ 10)
  if rest.length = line.length then (line, offset + line.length)
  else (if line.getLast? = some 13 then line.dropLast else line, offset + line.length + 1)

namespace Socket

open PosixRegex

/-- A computation on a socket that may throw. -/
abbrev SocketM := ExceptT Thrown (StateM Socket)

/-- `regRequestLine`, which is `^([^ ]+) ([^ ]+) ([^ ]+)$` -/
def regRequestLine : List (Item UInt8) :=
  [.plus (· != 32), .one (· == 32), .plus (· != 32), .one (· == 32), .plus (· != 32)]

def isLetter (b : UInt8) : Bool :=
  (decide (65 ≤ b) && decide (b ≤ 90)) || (decide (97 ≤ b) && decide (b ≤ 122))

/-- The end of `regURL`, which is `([^?]*)[?]?(.*)` -/
def regPathQuery : List (Item UInt8) :=
  [.star (· != 63), .opt (· == 63), .star fun _ => true]

/-- `regURL`, which is `^([a-zA-Z]+)?(:\/\/[^\/]+)?([^?]*)[?]?(.*)$`: the protocol, the path and the
query. The host is taken where there is one, which leaves the protocol as long as it can be. -/
def searchURL (url : Bytes) : Option (Bytes × Bytes × Bytes) :=
  match searchWhole ([.star isLetter, .one (· == 58), .one (· == 47), .one (· == 47),
      .plus (· != 47)] ++ regPathQuery) url with
  | some [protocol, _, _, _, _, path, _, query] => some (protocol, path, query)
  | _ =>
      match searchWhole ([.star isLetter] ++ regPathQuery) url with
      | some [protocol, path, _, query] => some (protocol, path, query)
      | _ => none

/-- `regHeader`, which is `^[ \t]*([^ \t:]+):[ \t]*(.*)$` -/
def regHeader : List (Item UInt8) :=
  [.star fun b => b == 32 || b == 9, .plus fun b => b != 32 && b != 9 && b != 58, .one (· == 58),
    .star fun b => b == 32 || b == 9, .star fun _ => true]

/-- `regCookie`, which is `([^=]+)=([^;]+)(; )?`: the whole match, the name and the value. A match
with the separator is longer than one without it. -/
def searchCookie (text : Bytes) : Option (Bytes × Bytes × Bytes) :=
  let cookie : List (Item UInt8) := [.plus (· != 61), .one (· == 61), .plus (· != 59)]
  text.tails.findSome? fun s =>
    match search (cookie ++ [.one (· == 59), .one (· == 32)]) s with
    | some [name, eq, value, semicolon, space] =>
        some (name ++ eq ++ value ++ semicolon ++ space, name, value)
    | _ =>
        match search cookie s with
        | some [name, eq, value] => some (name ++ eq ++ value, name, value)
        | _ => none

/-- `Socket::parseRequestLine`: the method, the version and the parts of the URL. -/
def parseRequestLine (line : Bytes) : SocketM Unit := do
  modify ({ · with method := [], URL := [], version := [], protocol := [], URLPath := [] })
  match searchWhole regRequestLine (cstr line) with
  | some [method, _, URL, _, version] =>
      modify ({ · with method, URL, version })
      match searchURL (cstr URL) with
      | some (protocol, URLPath, queryString) =>
          modify ({ · with protocol, URLPath, queryString })
      | none => throw (.http badRequestCode "Erroneous URL")
  | _ => throw (.http badRequestCode "Erroneous request line")

/-- The loop of `parseCookies`. Every match takes three bytes or more off the text. -/
def parseCookiesLoop : ℕ → Bytes → SocketM Unit
  | 0, _ => pure ()
  | fuel + 1, rawcookies =>
      match searchCookie (cstr rawcookies) with
      | some (found, name, value) => do
          modify fun s => { s with cookies := s.cookies.insert name value }
          parseCookiesLoop fuel (rawcookies.drop found.length)
      | none => pure ()

/-- `Socket::parseCookies`: the pairs of a `Cookie` header. -/
def parseCookies (value : Bytes) : SocketM Unit :=
  parseCookiesLoop value.length value

/-- `Socket::parseHeader`: a header with its name in upper case. -/
def parseHeader (line : Bytes) : SocketM Unit :=
  match searchWhole regHeader (cstr line) with
  | some [_, name, _, _, value] => do
      let field := Util.toUppercase name
      modify fun s => { s with headers := s.headers.insert field value }
      if field = ascii "COOKIE" then parseCookies value
  | _ => throw (.http badRequestCode "Erroneous header")

/-- The first line of `input` that is not empty, or the last one. -/
def firstLine (input : Bytes) : ℕ → ℕ → Bytes × ℕ
  | 0, offset => ([], offset)
  | fuel + 1, offset =>
      let (line, offset) := Util.getLine input offset
      if line = [] ∧ offset < input.length then firstLine input fuel offset else (line, offset)

/-- The headers up to an empty line. -/
def parseHeaders (input : Bytes) : ℕ → ℕ → SocketM Unit
  | 0, _ => pure ()
  | fuel + 1, offset =>
      let (line, offset) := Util.getLine input offset
      if line = [] then pure ()
      else do
        parseHeader line
        parseHeaders input fuel offset

/-- `Socket::processHeaders`. A line takes a byte or more off the input. -/
def processHeaders (input : Bytes) : SocketM Unit := do
  let (line, offset) := firstLine input (input.length + 1) 0
  parseRequestLine line
  parseHeaders input (input.length + 1) offset

/-- `Socket::getHeader`: the value of a header, empty if there is none. -/
def getHeader (s : Socket) (name : Bytes) : Bytes :=
  (s.headers[Util.toUppercase name]?).getD []

example : ((processHeaders (ascii "GET /a?b HTTP/1.1\r\nX: c\r\n\r\n")).run {}).2.URLPath =
    ascii "/a" := by
  decide +kernel

/-! ## What a request head cannot do -/

/-- A computation that leaves the receive buffer alone, and throws nothing but bad requests. -/
structure IsHeadParser {α : Type} (m : SocketM α) : Prop where
  blind : ∀ (s : Socket) (buffer : Bytes), m.run { s with readBuffer := buffer } =
    ((m.run s).1, { (m.run s).2 with readBuffer := buffer })
  throws : ∀ s e, (m.run s).1 = .error e → ∃ message, e = .http badRequestCode message

namespace IsHeadParser

variable {α β : Type}

theorem pure (a : α) : IsHeadParser (pure a : SocketM α) :=
  ⟨fun _ _ => rfl, fun _ _ h => by cases h⟩

theorem throw (message : String) :
    IsHeadParser (throw (.http badRequestCode message) : SocketM α) :=
  ⟨fun _ _ => rfl, fun _ _ h => by cases h; exact ⟨message, rfl⟩⟩

theorem modify {f : Socket → Socket}
    (h : ∀ (s : Socket) (buffer : Bytes), f { s with readBuffer := buffer } =
      { f s with readBuffer := buffer }) : IsHeadParser (modify f : SocketM PUnit) :=
  ⟨fun s buffer => Prod.ext rfl (h s buffer), fun _ _ h => by cases h⟩

theorem bind {m : SocketM α} {f : α → SocketM β} (hm : IsHeadParser m)
    (hf : ∀ a, IsHeadParser (f a)) : IsHeadParser (m >>= f) := by
  have hrun (s : Socket) : (m >>= f).run s =
      match m.run s with
      | (.ok a, s') => (f a).run s'
      | (.error e, s') => (.error e, s') := by
    have hcont : (m >>= f).run s = ExceptT.bindCont f (m.run s).1 (m.run s).2 := rfl
    rw [hcont]
    rcases m.run s with ⟨_ | _, _⟩ <;> rfl
  constructor
  · intro s buffer
    rw [hrun, hrun, hm.blind]
    cases h : m.run s with
    | mk r s' =>
      cases r with
      | error e => rfl
      | ok a => exact (hf a).blind s' buffer
  · intro s e h
    rw [hrun] at h
    cases hr : m.run s with
    | mk r s' =>
      rw [hr] at h
      cases r with
      | error e' =>
        obtain rfl := Except.error.inj h
        exact hm.throws s _ (congrArg Prod.fst hr)
      | ok a => exact (hf a).throws s' e h

end IsHeadParser

theorem isHeadParser_parseRequestLine (line : Bytes) : IsHeadParser (parseRequestLine line) := by
  refine .bind (.modify fun _ _ => rfl) fun _ => ?_
  split
  · refine .bind (.modify fun _ _ => rfl) fun _ => ?_
    split
    · exact .modify fun _ _ => rfl
    · exact .throw _
  · exact .throw _

theorem isHeadParser_parseCookies (fuel : ℕ) (rawcookies : Bytes) :
    IsHeadParser (parseCookiesLoop fuel rawcookies) := by
  induction fuel generalizing rawcookies with
  | zero => exact .pure _
  | succ fuel ih =>
    rw [parseCookiesLoop]
    split
    · exact .bind (.modify fun _ _ => rfl) fun _ => ih _
    · exact .pure _

theorem isHeadParser_parseHeader (line : Bytes) : IsHeadParser (parseHeader line) := by
  rw [parseHeader]
  split
  · refine .bind (.modify fun _ _ => rfl) fun _ => ?_
    split
    · exact isHeadParser_parseCookies _ _
    · exact .pure _
  · exact .throw _

theorem isHeadParser_parseHeaders (input : Bytes) (fuel offset : ℕ) :
    IsHeadParser (parseHeaders input fuel offset) := by
  induction fuel generalizing offset with
  | zero => exact .pure _
  | succ fuel ih =>
    rw [parseHeaders]
    dsimp only
    split
    · exact .pure _
    · exact .bind (isHeadParser_parseHeader _) fun _ => ih _

theorem isHeadParser_processHeaders (input : Bytes) : IsHeadParser (processHeaders input) :=
  .bind (isHeadParser_parseRequestLine _) fun _ => isHeadParser_parseHeaders _ _ _

end Socket

end VplJail
