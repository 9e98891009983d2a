import VplJail.Json.Translation
import VplJail.Rpc.JsonRpc
import VplJail.WebSocket.TextParts

/-!
# The text of a reply in JSON

The strings of a JSON reply are escaped byte by byte, so the reply is valid UTF-8 just when all of
them are. The XML replies clean theirs.
-/

namespace VplJail.Rpc

open Json Util WebSocket

variable {u : Uninit}

/-- Escapes are ASCII, and other bytes stay. -/
theorem encodeByte_ascii (b : UInt8) :
    (b < 0x80 → encodeByte b ≠ [] ∧ ∀ b' ∈ encodeByte b, b' < 0x80) ∧
      (¬ b < 0x80 → encodeByte b = [b]) := by
  have hall : ∀ k < 256, (UInt8.ofNat k < 0x80 → encodeByte (UInt8.ofNat k) ≠ [] ∧
      ∀ b' ∈ encodeByte (UInt8.ofNat k), b' < 0x80) ∧
        (¬ UInt8.ofNat k < 0x80 → encodeByte (UInt8.ofNat k) = [UInt8.ofNat k]) := by
    decide +kernel
  have hb := hall b.toNat b.toNat_lt
  rwa [UInt8.ofNat_toNat] at hb

/-- A string is as valid as what is written for it. -/
theorem isValidUTF8_encodeJSONString (s : Bytes) :
    isValidUTF8 (encodeJSONString s) = isValidUTF8 s :=
  isValidUTF8_flatMap (fun b => (encodeByte_ascii b).1) (fun b => (encodeByte_ascii b).2) s

/-! ## An object of an id -/

/-- The tree of a text that starts with a brace. -/
theorem parse_object_eq {raw rest : Bytes} (hraw : raw = 123 :: rest) :
    parse u raw = (fun r => .mk (ascii "object") 0 r.2 r.1) <$>
      processObject u raw (2 * raw.length + 3) 1 := by
  have hdrop : raw.drop 0 = 123 :: rest := hraw
  have hzero : ignoreWhiteSpaces raw 0 = .ok 0 :=
    (ignoreWhiteSpaces_of_drop isWhitespace_nil rfl hdrop).1
  rw [parse, hzero, ok_bind, fuelOf, processNode, charAt_of_drop hdrop, if_pos rfl]
  cases processObject u raw (2 * raw.length + 3) (0 + 1) <;> rfl

/-- Members are parsed alike at the end of any text. -/
theorem processObject_ok_iff {raw s : Bytes} {offset fuel fuel' : ℕ} (hdrop : raw.drop offset = s)
    (hs : s ≠ []) (hfuel : 2 * s.length + 1 < fuel) (hfuel' : 2 * s.length + 1 < fuel') :
    (∃ r, processObject u raw fuel offset = .ok r) ↔
      ∃ r, processObject (u.behind offset) s fuel' 0 = .ok r := by
  have hlength := length_of_drop hdrop hs
  have hbefore : (raw.take offset).length = offset := List.length_take_of_le (by omega)
  have halike := (process_behind (u := u) (raw.take offset) s fuel).2.1 fuel' 0 hfuel hfuel'
  rw [← hdrop, List.take_append_drop, hdrop, hbefore] at halike
  exact halike.exists_iff

/-- The member of an id as a reply ends with it. -/
def idMember (id : Bytes) : Bytes :=
  34 :: (ascii "id" ++ 34 :: 58 :: 34 :: (id ++ [34, 125]))

/-- The parser accepts an object of the id, written as it is. -/
def Completes (id : Bytes) : Prop :=
  ∀ u, ∃ root, parse u (123 :: idMember id) = .ok root

/-- A member with a comma behind it, as the parser takes it. -/
theorem exists_turn {raw k name text rest : Bytes} {v : Value Bytes} {fuel offset : ℕ}
    (hk : Escaped k name) (htext : Text Escaped v text) (hfuel : 2 * text.length ≤ fuel)
    (hdrop : raw.drop offset = 34 :: (name ++ 34 :: 58 :: (text ++ 44 :: rest))) :
    ∃ t next, processObject u raw (fuel + 1) offset = consChild t <$> processObject u raw fuel next ∧
      t.tag = k ∧ Shape u (fun s => s) raw v t ∧ raw.drop next = rest := by
  have hread : ∀ s text : Bytes, Escaped s text → Escaped ((fun s => s) s) text := fun _ _ h => h
  obtain ⟨t, last, hturn, hshape, hlast, -⟩ := member_parses isWhitespace_nil hk isWhitespace_nil
    isWhitespace_nil htext (nodeParses hread htext) isWhitespace_nil hdrop (.inl rfl) hfuel
  rw [if_pos rfl] at hturn
  exact ⟨t.setTag k, last + 1, hturn, ParseNode.tag_setTag _ _, hshape.setTag _, drop_of_cons hlast⟩

theorem completes_iff {id : Bytes} {fuel : ℕ} (n : ℕ)
    (hfuel : 2 * (idMember id).length + 1 < fuel) :
    Completes id ↔ ∀ u : Uninit, ∃ r, processObject (u.behind n) (idMember id) fuel 0 = .ok r := by
  have hlength : (123 :: idMember id).length = (idMember id).length + 1 := List.length_cons
  have hone (u : Uninit) : (∃ root, parse u (123 :: idMember id) = .ok root) ↔
      ∃ r, processObject (u.behind 1) (idMember id) fuel 0 = .ok r := by
    rw [parse_object_eq rfl]
    exact (Alike.map _ _).exists_iff.trans
      (processObject_ok_iff (rfl : (123 :: idMember id).drop 1 = idMember id)
        (List.cons_ne_nil _ _) (by omega) hfuel)
  simp only [Completes, hone]
  rw [Uninit.forall_behind_iff (P := fun u => ∃ r, processObject u (idMember id) fuel 0 = .ok r),
    Uninit.forall_behind_iff (P := fun u => ∃ r, processObject u (idMember id) fuel 0 = .ok r)]

namespace JsonRpc

variable (rpc : JsonRpc)

/-- A reply is accepted if what it ends with is, and then the version and the result come first. -/
theorem parse_response (u : Uninit) {members : List (Bytes × MemberValue)}
    (hnames : ∀ m ∈ members, Escaped m.1 m.1) {raw : Bytes} (hraw : rpc.response members = raw) :
    ((∃ root, parse u raw = .ok root) ↔
        ∃ r, processObject (u.behind (raw.length - (idMember rpc.id).length)) (idMember rpc.id)
          (2 * raw.length + 1) 0 = .ok r) ∧
      ∃ version result, version.tag = ascii "jsonrpc" ∧ result.tag = ascii "result" ∧
        Shape u (fun s => s) raw (resultValue members) result ∧
        ∀ root, parse u raw = .ok root → ∃ ts, root.children = version :: result :: ts := by
  have htext : raw = _ := hraw.symm.trans (rpc.response_eq members)
  have hparse := parse_object_eq (u := u) htext
  have hplain (s : String) (h : ∀ b ∈ ascii s, IsPlain b) : Escaped (ascii s) (ascii s) :=
    escaped_of_isPlain h
  have hlength := congrArg List.length htext
  simp only [List.length_cons, List.length_append] at hlength
  have hversionText : Text Escaped (.string (ascii "2.0")) (34 :: (ascii "2.0" ++ [34])) :=
    .string (hplain "2.0" (by decide +kernel))
  have hresultText : Text Escaped (resultValue members) (123 :: (responseMembers members ++ [125])) :=
    .object (membersText_responseMembers hnames)
  -- the first two members are read whatever the id is; what is left of the text is the id member
  have hversionFuel : 2 * (34 :: (ascii "2.0" ++ [34])).length ≤ 2 * raw.length + 2 := by
    simp only [List.length_cons, List.length_append]
    omega
  have hresultFuel : 2 * (123 :: (responseMembers members ++ [125])).length ≤ 2 * raw.length + 1 := by
    simp only [List.length_cons, List.length_append]
    omega
  obtain ⟨version, next, hfirst, hversion, -, hdrop⟩ :=
    exists_turn (hplain "jsonrpc" (by decide +kernel)) hversionText hversionFuel
      (congrArg (List.drop 1) htext)
  obtain ⟨result, last, hsecond, hresult, hshape, hid⟩ :=
    exists_turn (hplain "result" (by decide +kernel)) hresultText hresultFuel hdrop
  have hmember : raw.drop last = idMember rpc.id := hid
  have hlast : last = raw.length - (idMember rpc.id).length := by
    have := length_of_drop hmember (List.cons_ne_nil _ _)
    omega
  have hshorter : (idMember rpc.id).length < raw.length := by
    rw [idMember]
    simp only [List.length_cons, List.length_append]
    omega
  rw [hfirst, hsecond] at hparse
  refine ⟨?_, version, result, hversion, hresult, hshape, ?_⟩
  · rw [hparse, ← hlast]
    refine (Alike.map _ _).exists_iff.trans ((Alike.map _ _).exists_iff.trans
      ((Alike.map _ _).exists_iff.trans ?_))
    exact processObject_ok_iff hmember (List.cons_ne_nil _ _) (by omega) (by omega)
  · intro root hroot
    rw [hparse] at hroot
    cases hrest : processObject u raw (2 * raw.length + 1) last with
    | error e =>
      rw [hrest] at hroot
      cases hroot
    | ok r =>
      rw [hrest] at hroot
      exact ⟨r.1, congrArg ParseNode.children (Except.ok.inj hroot).symm⟩

/-- A reply is accepted if the id completes it. -/
theorem parses_response_iff {members : List (Bytes × MemberValue)}
    (hnames : ∀ m ∈ members, Escaped m.1 m.1) :
    (∀ u, ∃ root, parse u (rpc.response members) = .ok root) ↔ Completes rpc.id := by
  have hlength := congrArg List.length (rpc.response_eq members)
  rw [← idMember] at hlength
  simp only [List.length_cons, List.length_append] at hlength
  refine (forall_congr' fun u => (rpc.parse_response u hnames rfl).1).trans ?_
  exact (completes_iff _ (show _ < 2 * (rpc.response members).length + 1 by omega)).symm

/-- A string member of the result, as it is read back. -/
def ReadsResult (text : Bytes) (name : String) (value : Bytes) : Prop :=
  ∀ u, ∃ root result node, parse u text = .ok root ∧ root.child "result" = .ok result ∧
    result.child name = .ok node ∧ getString u text node = .ok value

/-- The text of a reply with results is valid, and valid results are read back. -/
structure IsResultText (text compilation execution : Bytes) : Prop where
  valid : isValidUTF8 text = true
  reads_compilation : isValidUTF8 compilation = true → ReadsResult text "compilation" compilation
  reads_execution : isValidUTF8 execution = true → ReadsResult text "execution" execution

section Results

variable (compilation execution : Bytes) (executed interactive : Bool)

theorem escaped_name : ∀ m ∈ (Response.getResult compilation execution executed interactive).members,
    Escaped m.1 m.1 := by
  refine fun m hm => escaped_of_isPlain fun b hb => ?_
  obtain ⟨hlow, hhigh⟩ := Response.isLetter_of_mem_name hm hb
  exact ⟨fun h => absurd (h ▸ hlow) (by decide), fun h => absurd (h ▸ hlow) (by decide)⟩

/-- Both results are read back from a reply that is accepted. -/
theorem readsResult_of_completes (h : Completes rpc.id) :
    ReadsResult (rpc.getResultResponse compilation execution executed interactive) "compilation"
        compilation ∧
      ReadsResult (rpc.getResultResponse compilation execution executed interactive) "execution"
        execution := by
  have hnames := escaped_name compilation execution executed interactive
  rw [← rpc.parses_response_iff hnames] at h
  suffices hreads : ∀ u, _ ∧ _ from ⟨fun u => (hreads u).1, fun u => (hreads u).2⟩
  intro u
  obtain ⟨-, version, result, hversion, hresult, hshape, hchildren⟩ :=
    rpc.parse_response u hnames rfl
  obtain ⟨root, hroot⟩ := h u
  obtain ⟨ts, hts⟩ := hchildren root hroot
  have hchild : root.child "result" = .ok result := by
    refine ParseNode.child_eq_ok (show root.children = [version] ++ result :: ts from hts) ?_ hresult
    intro b hb
    rw [List.mem_singleton.mp hb, hversion]
    decide
  cases hshape with
  | object hmembers =>
    have hreads : List.Forall₂ (Reads u FloatLib.integers _) _ _ := forall₂_reads hmembers
    cases hreads with
    | cons hcompilation hrest =>
      cases hrest with
      | cons hexecution hrest =>
        obtain ⟨htag, -, hread⟩ := hcompilation
        obtain ⟨htag', -, hread'⟩ := hexecution
        refine ⟨⟨root, _, _, hroot, hchild, ?_, hread⟩, root, _, _, hroot, hchild, ?_, hread'⟩
        · exact ParseNode.child_eq_ok (rfl : _ = [] ++ _ :: _) nofun htag
        · refine ParseNode.child_eq_ok (rfl : _ = [_] ++ _ :: _) ?_ htag'
          intro b hb
          rw [List.mem_singleton.mp hb, htag]
          exact (by decide : ascii "compilation" ≠ ascii "execution")

/-- A reply with results is valid if they and the id are. -/
theorem isValidUTF8_getResultResponse :
    isValidUTF8 (rpc.getResultResponse compilation execution executed interactive) =
      (isValidUTF8 compilation && (isValidUTF8 execution && isValidUTF8 rpc.id)) := by
  have hafter : ∀ b ∈ responseMembers [(ascii "executed", boolValue executed),
      (ascii "interactive", boolValue interactive)] ++ ascii "\x7d,\"id\":\"", b < 0x80 := by
    cases executed <;> cases interactive <;> decide +kernel
  have htext : rpc.getResultResponse compilation execution executed interactive =
      ascii "\x7b\"jsonrpc\":\"2.0\",\"result\":\x7b\"compilation\":\"" ++
        (encodeJSONString compilation ++ 34 :: (ascii ",\"execution\":\"" ++
          (encodeJSONString execution ++ 34 :: (ascii "," ++
            ((responseMembers [(ascii "executed", boolValue executed),
              (ascii "interactive", boolValue interactive)] ++ ascii "\x7d,\"id\":\"") ++
                (rpc.id ++ 34 :: [125])))))) := by
    simp [getResultResponse, response, responseWraper, responseMembers, responseMember, ascii]
  rw [htext, isValidUTF8_append_ascii (by decide +kernel), isValidUTF8_append_cons _ (by decide),
    isValidUTF8_encodeJSONString, isValidUTF8_append_ascii (by decide +kernel),
    isValidUTF8_append_cons _ (by decide), isValidUTF8_encodeJSONString,
    isValidUTF8_append_ascii (by decide +kernel), isValidUTF8_append_ascii hafter,
    isValidUTF8_append_cons _ (by decide), isValidUTF8_of_ascii (s := [125]) (by decide +kernel),
    Bool.and_true]

/-- A reply with results is what it should be if and only if they and the id are valid and the id
completes it. -/
theorem isResultText_iff :
    IsResultText (rpc.getResultResponse compilation execution executed interactive) compilation
        execution ↔
      isValidUTF8 compilation = true ∧ isValidUTF8 execution = true ∧ isValidUTF8 rpc.id = true ∧
        Completes rpc.id := by
  have hvalid := rpc.isValidUTF8_getResultResponse compilation execution executed interactive
  constructor
  · rintro ⟨htext, hcompilation, -⟩
    rw [hvalid, Bool.and_eq_true, Bool.and_eq_true] at htext
    obtain ⟨hcompilationValid, hexecutionValid, hid⟩ := htext
    refine ⟨hcompilationValid, hexecutionValid, hid, ?_⟩
    rw [← rpc.parses_response_iff (escaped_name compilation execution executed interactive)]
    intro u
    obtain ⟨root, -, -, hroot, -⟩ := hcompilation hcompilationValid u
    exact ⟨root, hroot⟩
  · rintro ⟨hcompilation, hexecution, hid, hcompletes⟩
    obtain ⟨hreads, hreads'⟩ :=
      rpc.readsResult_of_completes compilation execution executed interactive hcompletes
    refine ⟨?_, fun _ => hreads, fun _ => hreads'⟩
    rw [hvalid, hcompilation, hexecution, hid]
    rfl

end Results

/-- A request for results. -/
def resultRequest : Bytes :=
  ascii "\x7b\"jsonrpc\":\"2.0\",\"method\":\"getresult\",\"params\":\x7b\x7d,\"id\":\"1\"\x7d"

/-- The byte `0xFF` of a compiler's output is written as it is. -/
theorem not_isResultText :
    ¬ ∀ u rawData rpc, ofText u rawData = .ok rpc →
      ∀ compilation execution executed interactive, IsResultText
        (rpc.getResultResponse compilation execution executed interactive) compilation execution := by
  intro h
  cases hrpc : ofText .zero resultRequest with
  | error e =>
    have haccepted : (ofText .zero resultRequest).map JsonRpc.id = .ok (ascii "1") := by decide
    rw [hrpc] at haccepted
    cases haccepted
  | ok rpc =>
    have hvalid := (h _ _ rpc hrpc [0xFF] [] false false).valid
    rw [isValidUTF8_getResultResponse] at hvalid
    cases hvalid

end JsonRpc

end VplJail.Rpc
