import VplJail.Rpc.MessageNodes

/-!
# The two encodings agree

A request reads the same from its XML text as from its JSON text, where `getLong` of an XML node
stops at `INT_MAX` and the name of the method is not decoded: `agree_iff` says when the two objects
return the same.
-/

namespace VplJail.Rpc

open Json Util Xml

/-! ## What is to be the same -/

/-- Two maps have just the members, with nodes that read the same. -/
def SameMembers {V : Type} (same : V → ParseNode → ParseNode → Prop) (ms : List (List Char × V))
    (mx mj : NodeMap) : Prop :=
  (∀ m ∈ ms, ∃ tx tj, mx[utf8 m.1]? = some tx ∧ mj[utf8 m.1]? = some tj ∧ same m.2 tx tj) ∧
    ∀ key, (∀ m ∈ ms, utf8 m.1 ≠ key) → mx[key]? = none ∧ mj[key]? = none

theorem sameMembers_iff {V : Type} {same : V → ParseNode → ParseNode → Prop} {ok : V → Prop}
    {X J : V → ParseNode → Prop} {ms : List (List Char × V)} {px pj : List (Bytes × ParseNode)}
    (hsame : ∀ m ∈ ms, ∀ tx tj, X m.2 tx → J m.2 tj → (same m.2 tx tj ↔ ok m.2))
    (hx : NodesOf X ms px) (hj : NodesOf J ms pj) (hdistinct : DistinctNames ms) :
    SameMembers same ms (mapOf px) (mapOf pj) ↔ ∀ m ∈ ms, ok m.2 := by
  constructor
  · rintro ⟨h, -⟩ m hm
    obtain ⟨tx, hgetx, hX⟩ := hx.get_mem hdistinct hm
    obtain ⟨tj, hgetj, hJ⟩ := hj.get_mem hdistinct hm
    obtain ⟨tx', tj', hgetx', hgetj', h⟩ := h m hm
    obtain rfl := Option.some.inj (hgetx.symm.trans hgetx')
    obtain rfl := Option.some.inj (hgetj.symm.trans hgetj')
    exact (hsame m hm tx tj hX hJ).mp h
  · refine fun h => ⟨fun m hm => ?_, fun key hkey => ⟨hx.get_none hkey, hj.get_none hkey⟩⟩
    obtain ⟨tx, hgetx, hX⟩ := hx.get_mem hdistinct hm
    obtain ⟨tj, hgetj, hJ⟩ := hj.get_mem hdistinct hm
    exact ⟨tx, tj, hgetx, hgetj, (hsame m hm tx tj hX hJ).mpr (h m hm)⟩

section Same

variable (lib : FloatLib) (rx rj : Request)

/-- Two nodes of a value read the same: a string as a string, an integer as both types of it. -/
def sameScalar : Scalar → ParseNode → ParseNode → Prop
  | .string _, tx, tj => ∃ s, rx.getString tx = .ok s ∧ rj.getString tj = .ok s
  | .int _, tx, tj =>
      (∃ n, rx.getInt lib tx = .ok n ∧ rj.getInt lib tj = .ok n) ∧
        ∃ n, rx.getLong lib tx = .ok n ∧ rj.getLong lib tj = .ok n

/-- Two nodes of a member of the parameters. The members of a struct are compared apart. -/
def sameParam : Param → ParseNode → ParseNode → Prop
  | .scalar v, tx, tj => sameScalar lib rx rj v tx tj
  | .struct _, _, _ => True

/-- The maps of a struct, or what happens without it. -/
def SameStruct (msg : Message) (name : String) (x j : Except Stop NodeMap) : Prop :=
  (∀ p ∈ msg.params, utf8 p.1 = ascii name → ∀ members, p.2 = .struct members →
    ∃ mx mj, x = .ok mx ∧ j = .ok mj ∧ SameMembers (sameScalar lib rx rj) members mx mj) ∧
  ((∀ p ∈ msg.params, utf8 p.1 ≠ ascii name) → x = j)

/-- Two objects return the same for a request. -/
structure Agree (msg : Message) : Prop where
  method : rx.methodName = rj.methodName
  data : SameMembers (sameParam lib rx rj) msg.params rx.data rj.data
  files : SameStruct lib rx rj msg "files" rx.getFiles rj.getFiles
  fileencoding : SameStruct lib rx rj msg "fileencoding" (lift rx.getFileEncoding)
    (lift rj.getFileEncoding)
  filestodelete : SameStruct lib rx rj msg "filestodelete" (lift rx.getFileToDelete)
    (lift rj.getFileToDelete)

end Same

/-! ## Values -/

/-- The integers that are read the same: none above `INT_MAX`, and those that do not fit an `int` as
far as the conversion of the `double` gives their low 32 bits. -/
def SameInt (lib : FloatLib) (n : ℤ) : Prop :=
  n ≤ intMax ∧ (n < -2 ^ 31 → lib.toInt n = n.bmod (2 ^ 32))

section Values

variable {lib : FloatLib} {u : Uninit} {raw : Bytes} {n : ℤ} {t : ParseNode}

/-- A JSON integer is read as it is, and as an `int` like any long one. -/
theorem json_int (lib : FloatLib) (hlow : -2 ^ 53 ≤ n) (hhigh : n ≤ 2 ^ 53)
    (h : Shape u utf8 raw (.number (itos n)) t) :
    (t.view .json raw).getInt lib = .ok (if intMax < n then intMax else n.bmod (2 ^ 32)) ∧
      (t.view .json raw).getLong lib = .ok n := by
  cases h with
  | @number literal ws tag offset len hws hcontent =>
    have hatoll : atoll (itos n ++ ws) = n :=
      strtol_itos_append (by omega) (by omega) (JsonRpc.takeWhile_isDigit hws)
    rw [TreeNode.getInt, TreeNode.getLong, TreeNode.intOfText, ParseNode.view, hcontent, hatoll]
    exact ⟨if_pos (.inl rfl), if_pos (.inl rfl)⟩

/-- An XML integer is read from the text of `int` or of `double`. -/
theorem xml_int (hatof : lib.atof (itos n) = n) (hlow : -2 ^ 53 ≤ n) (hhigh : n ≤ 2 ^ 53)
    (htag : t.tag = (intTag n).bytes) (hcontent : t.rawContent raw = itos n) :
    (t.view .xml raw).getInt lib =
        .ok (if intMax < n then intMax else if n < -2 ^ 31 then lib.toInt n else n) ∧
      (t.view .xml raw).getLong lib = .ok (if intMax < n then intMax else n) := by
  have hatoll : atoll (itos n) = n := strtol_itos (by omega) (by omega)
  have hmax : intMax = 2 ^ 31 - 1 := rfl
  rw [intTag] at htag
  rw [TreeNode.getInt, TreeNode.getLong, TreeNode.intOfText, ParseNode.view, hcontent, hatoll]
  split at htag
  · rename_i hfits
    have hint : Encoding.xml = Encoding.json ∨ t.tag = ascii "int" := .inr htag
    have hbmod : n.bmod (2 ^ 32) = n := Int.bmod_eq_of_le (by omega) (by omega)
    have hle : ¬ intMax < n := by omega
    rw [if_pos hint, if_pos hint, if_neg hle, if_neg hle, if_neg hle, if_neg (by omega), hbmod]
    exact ⟨rfl, rfl⟩
  · rename_i hlong
    have hdouble : t.tag = ascii "double" := htag
    have hint : ¬ (Encoding.xml = Encoding.json ∨ t.tag = ascii "int") := by
      rw [hdouble]
      decide
    rw [if_neg hint, if_neg hint, if_pos hdouble, if_pos hdouble, hatof,
      lib.toLong_eq n (by omega) (by omega)]
    by_cases hgt : intMax < n
    · rw [if_pos hgt, if_pos hgt, if_pos hgt]
      exact ⟨rfl, rfl⟩
    · rw [if_neg hgt, if_neg hgt, if_neg hgt, if_pos (by omega)]
      exact ⟨rfl, rfl⟩

end Values

/-- Nodes of a value read the same exactly if its integer does. -/
theorem sameScalar_iff {lib : FloatLib} {rx rj : Request} (hx : rx.encoding = .xml)
    (hj : rj.encoding = .json) (hatof : ∀ n, -2 ^ 53 ≤ n → n ≤ 2 ^ 53 → lib.atof (itos n) = n)
    {v : Scalar} {tx tj : ParseNode} (htx : XmlNode rx.raw v tx) (htj : JsonNode rj.uninit rj.raw v tj) :
    sameScalar lib rx rj v tx tj ↔ v.IntsSatisfy (SameInt lib) := by
  cases v with
  | string s =>
    refine ⟨fun _ => trivial, fun _ => ⟨utf8 s, ?_, ?_⟩⟩
    · rw [Request.getString, hx]
      exact (if_pos (.inl htx.1)).trans htx.2
    · rw [Request.getString, hj]
      cases htj with
      | string h => exact h
  | int n =>
    obtain ⟨n, hlow, hhigh⟩ := n
    obtain ⟨hgetInt, hgetLong⟩ := json_int lib hlow hhigh htj
    obtain ⟨hgetInt', hgetLong'⟩ := xml_int (hatof n hlow hhigh) hlow hhigh htx.1 htx.2
    have hmax : intMax = 2 ^ 31 - 1 := rfl
    have hfits : -2 ^ 31 ≤ n → n ≤ intMax → n.bmod (2 ^ 32) = n := fun h h' =>
      Int.bmod_eq_of_le (by omega) (by omega)
    simp only [sameScalar, Scalar.IntsSatisfy, Request.getInt, Request.getLong, hx, hj, hgetInt,
      hgetLong, hgetInt', hgetLong', Except.ok.injEq, SameInt]
    constructor
    · rintro ⟨⟨m, hm, hm'⟩, k, hk, hk'⟩
      have hle : n ≤ intMax := by
        by_contra hgt
        rw [if_pos (not_le.mp hgt)] at hk
        omega
      refine ⟨hle, fun hlt => ?_⟩
      rw [if_neg (not_lt.mpr hle), if_pos hlt] at hm
      rw [if_neg (not_lt.mpr hle)] at hm'
      rw [hm, hm']
    · rintro ⟨hle, hlong⟩
      simp only [if_neg (not_lt.mpr hle)]
      refine ⟨⟨_, rfl, ?_⟩, n, rfl, rfl⟩
      split
      · exact (hlong ‹_›).symm
      · exact hfits (by omega) hle

/-! ## The two objects -/

/-- What `SameMembers` asks of the values without members. -/
def Param.ScalarSatisfies (P : ℤ → Prop) : Param → Prop
  | .scalar v => v.IntsSatisfy P
  | .struct _ => True

/-- What is asked of the members of a struct. -/
def Message.StructSatisfies (P : ℤ → Prop) (msg : Message) (name : String) : Prop :=
  ∀ p ∈ msg.params, utf8 p.1 = ascii name → ∀ members, p.2 = .struct members →
    ∀ m ∈ members, m.2.IntsSatisfy P

/-- The integers of a request are those of its values without members and of its structs. -/
theorem Message.intsSatisfy_iff (P : ℤ → Prop) (msg : Message) :
    msg.IntsSatisfy P ↔ (∀ p ∈ msg.params, p.2.ScalarSatisfies P) ∧
      msg.StructSatisfies P "files" ∧ msg.StructSatisfies P "fileencoding" ∧
      msg.StructSatisfies P "filestodelete" := by
  constructor
  · intro h
    have hstruct (name : String) : msg.StructSatisfies P name := by
      intro p hp _ members hmembers
      have hints := h p hp
      rw [hmembers] at hints
      exact hints
    refine ⟨fun p hp => ?_, hstruct _, hstruct _, hstruct _⟩
    have hints := h p hp
    revert hints
    cases p.2 with
    | scalar v => exact id
    | struct members => exact fun _ => trivial
  · rintro ⟨hscalar, hfiles, hencoding, hdelete⟩ p hp
    have hints := hscalar p hp
    cases hparam : p.2 with
    | scalar v => rwa [hparam] at hints
    | struct members =>
      have hname := (msg.struct_iff p hp).mpr ⟨members, hparam⟩
      simp only [structNames, List.mem_cons, List.not_mem_nil, or_false] at hname
      rcases hname with hname | hname | hname
      · exact hfiles p hp hname members hparam
      · exact hencoding p hp hname members hparam
      · exact hdelete p hp hname members hparam

/-- The map of a struct is that of its node, and something else without it. -/
def ReadsStruct (r : Request) (name : String) (x without : Except Stop NodeMap) : Prop :=
  (∀ t, r.data[ascii name]? = some t → x = lift (r.getStructMembers t)) ∧
    (r.data[ascii name]? = none → x = without)

theorem readsStruct_getFiles (r : Request) :
    ReadsStruct r "files" r.getFiles (.error .crash) := by
  constructor
  · intro t ht
    rw [Request.getFiles, Request.member, ht]
    rfl
  · intro ht
    rw [Request.getFiles, Request.member, ht]
    rfl

theorem readsStruct_optionalStruct (r : Request) (name : String) :
    ReadsStruct r name (lift (r.optionalStruct name)) (.ok ∅) := by
  constructor
  · intro t ht
    rw [Request.optionalStruct, ht]
  · intro ht
    rw [Request.optionalStruct, ht]
    rfl

section Requests

variable {lib : FloatLib} {msg : Message} {rx rj : Request} {px pj : List (Bytes × ParseNode)}

/-- The members of a struct are read the same exactly if their integers are. -/
theorem sameStruct_iff {name : String} {x j without : Except Stop NodeMap}
    (hx : rx.encoding = .xml) (hj : rj.encoding = .json)
    (hatof : ∀ n, -2 ^ 53 ≤ n → n ≤ 2 ^ 53 → lib.atof (itos n) = n)
    (hdatax : rx.data = mapOf px) (hdataj : rj.data = mapOf pj)
    (hpx : NodesOf (XmlParamNode rx.raw) msg.params px)
    (hpj : NodesOf (fun p t => Shape rj.uninit utf8 rj.raw p.json t) msg.params pj)
    (hreadx : ReadsStruct rx name x without) (hreadj : ReadsStruct rj name j without) :
    SameStruct lib rx rj msg name x j ↔ msg.StructSatisfies (SameInt lib) name := by
  have hiff {p : List Char × Param} (hp : p ∈ msg.params) (hname : utf8 p.1 = ascii name)
      {members : List (List Char × Scalar)} (hmembers : p.2 = .struct members) :
      ∃ mx mj, x = .ok mx ∧ j = .ok mj ∧
        (SameMembers (sameScalar lib rx rj) members mx mj ↔
          ∀ m ∈ members, m.2.IntsSatisfy (SameInt lib)) := by
    obtain ⟨tx, hgetx, hnodex⟩ := hpx.get_mem msg.distinct hp
    obtain ⟨tj, hgetj, hnodej⟩ := hpj.get_mem msg.distinct hp
    rw [hname, ← hdatax] at hgetx
    rw [hname, ← hdataj] at hgetj
    rw [hmembers] at hnodex hnodej
    obtain ⟨ps, hps, hnodesx⟩ := hnodex
    obtain ⟨ps', hps', hnodesj⟩ := getStructMembers_of_shape hnodej
    refine ⟨mapOf ps, mapOf ps', ?_, ?_, ?_⟩
    · rw [hreadx.1 tx hgetx, Request.getStructMembers, hx, hps]
      rfl
    · rw [hreadj.1 tj hgetj, Request.getStructMembers, hj, hps']
      rfl
    · exact sameMembers_iff (fun _ _ _ _ htx htj => sameScalar_iff hx hj hatof htx htj) hnodesx
        hnodesj (msg.distinct_struct p hp members hmembers)
  constructor
  · rintro ⟨h, -⟩ p hp hname members hmembers
    obtain ⟨mx, mj, hmx, hmj, hsame⟩ := h p hp hname members hmembers
    obtain ⟨mx', mj', hmx', hmj', hiff⟩ := hiff hp hname hmembers
    obtain rfl := Except.ok.inj (hmx.symm.trans hmx')
    obtain rfl := Except.ok.inj (hmj.symm.trans hmj')
    exact hiff.mp hsame
  · intro h
    refine ⟨fun p hp hname members hmembers => ?_, fun hnone => ?_⟩
    · obtain ⟨mx, mj, hmx, hmj, hiff⟩ := hiff hp hname hmembers
      exact ⟨mx, mj, hmx, hmj, hiff.mpr (h p hp hname members hmembers)⟩
    · rw [hreadx.2 (hdatax ▸ hpx.get_none hnone), hreadj.2 (hdataj ▸ hpj.get_none hnone)]

theorem sameData_iff (rx rj : Request) (hx : rx.encoding = .xml) (hj : rj.encoding = .json)
    (hatof : ∀ n, -2 ^ 53 ≤ n → n ≤ 2 ^ 53 → lib.atof (itos n) = n)
    (hpx : NodesOf (XmlParamNode rx.raw) msg.params px)
    (hpj : NodesOf (fun p t => Shape rj.uninit utf8 rj.raw p.json t) msg.params pj) :
    SameMembers (sameParam lib rx rj) msg.params (mapOf px) (mapOf pj) ↔
      ∀ p ∈ msg.params, p.2.ScalarSatisfies (SameInt lib) := by
  refine sameMembers_iff (fun p _ tx tj htx htj => ?_) hpx hpj msg.distinct
  obtain ⟨name, p⟩ := p
  cases p with
  | scalar v => exact sameScalar_iff hx hj hatof htx htj
  | struct members => exact Iff.rfl

end Requests

/-- The two texts of a request are accepted, and the objects return the same exactly if nothing is
escaped in the name of the method and every integer is read the same. -/
theorem agree_iff (u : Uninit) (lib : FloatLib)
    (hatof : ∀ n, -2 ^ 53 ≤ n → n ≤ 2 ^ 53 → lib.atof (itos n) = n) {msg : Message}
    {nameText : CharData} {xmlText jsonText : Bytes} (hx : XmlText msg nameText xmlText)
    (hj : JsonText msg jsonText) :
    ∃ rx rj, XmlRpc.ofText xmlText = .ok rx ∧ JsonRpc.ofText u jsonText = .ok rj ∧
      (Agree lib rx.request rj.request msg ↔
        nameText.bytes = utf8 msg.method ∧ msg.IntsSatisfy (SameInt lib)) := by
  obtain ⟨rx, px, hofx, hrawx, hnamex, hdatax, hpx⟩ := xmlRpc_of_text hx
  obtain ⟨rj, pj, hofj, ⟨hrawj, huninit⟩, hnamej, hdataj, hpj⟩ := jsonRpc_of_text (u := u) hj
  refine ⟨rx, rj, hofx, hofj, ?_⟩
  rw [← hrawx] at hpx
  rw [← hrawj, ← huninit] at hpj
  have hstruct {name : String} {x j without : Except Stop NodeMap}
      (hreadx : ReadsStruct rx.request name x without)
      (hreadj : ReadsStruct rj.request name j without) :
      SameStruct lib rx.request rj.request msg name x j ↔
        msg.StructSatisfies (SameInt lib) name :=
    sameStruct_iff rfl rfl hatof hdatax hdataj hpx hpj hreadx hreadj
  have hfiles := hstruct (readsStruct_getFiles _) (readsStruct_getFiles _)
  have hencoding := hstruct (readsStruct_optionalStruct _ "fileencoding")
    (readsStruct_optionalStruct _ "fileencoding")
  have hdelete := hstruct (readsStruct_optionalStruct _ "filestodelete")
    (readsStruct_optionalStruct _ "filestodelete")
  have hdata : SameMembers (sameParam lib rx.request rj.request) msg.params rx.data rj.data ↔ _ :=
    hdatax ▸ hdataj ▸ sameData_iff rx.request rj.request rfl rfl hatof hpx hpj
  rw [msg.intsSatisfy_iff]
  constructor
  · rintro ⟨hmethod, h1, h2, h3, h4⟩
    have hmethod : rx.getMethodName = rj.method := hmethod
    exact ⟨hnamex.symm.trans (hmethod.trans hnamej), hdata.mp h1, hfiles.mp h2, hencoding.mp h3,
      hdelete.mp h4⟩
  · rintro ⟨hmethod, h1, h2, h3, h4⟩
    exact ⟨hnamex.trans (hmethod.trans hnamej.symm), hdata.mpr h1, hfiles.mpr h2,
      hencoding.mpr h3, hdelete.mpr h4⟩

/-! ### A limit of memory -/

/-- A request for a jail with some memory. -/
def memoryRequest (n : DoubleInt) : Message where
  method := "available".toList
  params := [("maxmemory".toList, .scalar (.int n))]
  distinct := List.nodup_singleton _
  distinct_struct p hp members hmembers := by
    rw [List.mem_singleton.mp hp] at hmembers
    cases hmembers
  struct_iff p hp := by
    rw [List.mem_singleton.mp hp]
    constructor
    · intro h
      have hnot : utf8 "maxmemory".toList ∉ structNames := by decide
      exact absurd h hnot
    · rintro ⟨members, h⟩
      cases h

/-- The name of the method. -/
def availableText : CharData :=
  ⟨ascii "available", by decide⟩

/-- The request in XML. -/
def memoryXml (n : DoubleInt) : Xml.Document where
  declaration := ⟨ascii "?xml version=\"1.0\"?", by decide⟩
  text := XmlRpc.newline
  root := element "methodCall"
  inner := .element XmlRpc.newline (element "methodName") (.last availableText)
    (.element XmlRpc.newline (element "params")
      (.element XmlRpc.noText (element "param")
        (.element XmlRpc.noText (element "value")
          (.element XmlRpc.noText (element "struct")
            (.element XmlRpc.newline (element "member")
              (.element XmlRpc.noText (element "name")
                (.last ⟨ascii "maxmemory", by decide⟩)
                (.element XmlRpc.noText (element "value")
                  (.element XmlRpc.noText (intTag n.1) (.last ⟨itos n.1, XmlRpc.no_lt_itos n.1⟩)
                    (.last XmlRpc.noText))
                  (.last XmlRpc.noText)))
              (.last XmlRpc.newline))
            (.last XmlRpc.noText))
          (.last XmlRpc.noText))
        (.last XmlRpc.noText))
      (.last XmlRpc.newline))

/-- The request in JSON. -/
def memoryJson (n : DoubleInt) : Bytes :=
  ascii "\x7b\"jsonrpc\":\"2.0\",\"method\":\"available\",\"params\":\x7b\"maxmemory\":" ++
    itos n.1 ++ ascii "\x7d,\"id\":\"1\"\x7d"

theorem xmlText_memoryXml (n : DoubleInt) :
    XmlText (memoryRequest n) availableText (memoryXml n).render := by
  have hname : Spelled (utf8 "available".toList) (ascii "available") :=
    spelled_self (by decide)
  have hmember : Spelled (utf8 "maxmemory".toList) (ascii "maxmemory") :=
    spelled_self (by decide)
  have h : XmlText (memoryRequest n) availableText ((memoryXml n).render ++ []) :=
    .intro rfl hname (.cons hmember (.scalar (.int rfl)) (.nil _)) rfl
  rwa [List.append_nil] at h

/-- Characters that need not be escaped are written as they are. -/
theorem charsText_utf8 {cs : List Char}
    (h : cs.all fun c => decide (32 ≤ c.toNat ∧ c ≠ '"' ∧ c ≠ '\\')) : CharsText cs (utf8 cs) := by
  induction cs with
  | nil => exact .nil
  | cons c cs ih =>
    rw [List.all_cons, Bool.and_eq_true, decide_eq_true_eq] at h
    exact .unescaped h.1 (ih h.2)

theorem jsonText_memoryJson (n : DoubleInt) : JsonText (memoryRequest n) (memoryJson n) := by
  have hplain (s : String) (h : (s.toList.all fun c => decide (32 ≤ c.toNat ∧ c ≠ '"' ∧ c ≠ '\\')) ∧
      utf8 s.toList = ascii s) : CharsText s.toList (ascii s) := h.2 ▸ charsText_utf8 h.1
  have hnone := isWhitespace_nil
  have hmaxmemory := MembersText.one hnone (hplain "maxmemory" (by decide)) hnone hnone
    (.number (JsonRpc.isNumber_itos n.1)) hnone
  have hid := MembersText.one hnone (hplain "id" (by decide)) hnone hnone
    (.string (hplain "1" (by decide))) hnone
  have hparams := MembersText.more hnone (hplain "params" (by decide)) hnone hnone
    (.object hmaxmemory) hnone hid
  have hmethod := MembersText.more hnone (hplain "method" (by decide)) hnone hnone
    (.string (hplain "available" (by decide))) hnone hparams
  have hversion := MembersText.more hnone (hplain "jsonrpc" (by decide)) hnone hnone
    (.string (hplain "2.0" (by decide))) hnone hmethod
  have hdocument := Json.Document.intro hnone (.object hversion) hnone
  refine .intro (List.Perm.refl ((memoryRequest n).json "1".toList)) ?_
  convert hdocument using 1
  · rfl
  · simp [memoryJson, ascii]

/-- Integers of a double are read back. -/
theorem atof_integers (n : ℤ) (hlow : -2 ^ 53 ≤ n) (hhigh : n ≤ 2 ^ 53) :
    FloatLib.integers.atof (itos n) = n :=
  strtol_itos (by omega) (by omega)

/-- A limit that fits an `int`. -/
theorem agree_iff_small : ∃ rx rj, XmlRpc.ofText (memoryXml ⟨1000, by decide⟩).render = .ok rx ∧
    JsonRpc.ofText .zero (memoryJson ⟨1000, by decide⟩) = .ok rj ∧
    Agree .integers rx.request rj.request (memoryRequest ⟨1000, by decide⟩) := by
  obtain ⟨rx, rj, hx, hj, hiff⟩ := agree_iff .zero .integers atof_integers
    (xmlText_memoryXml ⟨1000, by decide⟩) (jsonText_memoryJson ⟨1000, by decide⟩)
  refine ⟨rx, rj, hx, hj, hiff.mpr ⟨by decide, fun p hp => ?_⟩⟩
  rw [List.mem_singleton.mp hp]
  exact ⟨by decide, fun h => absurd h (by decide)⟩

/-- Four gigabytes, which a `double` of XML is not read as. -/
theorem not_agree_memory : ¬ ∀ (u : Uninit) (msg : Message) (nameText : CharData)
    (xmlText jsonText : Bytes), XmlText msg nameText xmlText → JsonText msg jsonText →
    ∃ rx rj, XmlRpc.ofText xmlText = .ok rx ∧ JsonRpc.ofText u jsonText = .ok rj ∧
      Agree .integers rx.request rj.request msg := by
  intro h
  let n : DoubleInt := ⟨4294967296, by decide⟩
  obtain ⟨rx, rj, hx, hj, hagree⟩ :=
    h .zero _ _ _ _ (xmlText_memoryXml n) (jsonText_memoryJson n)
  obtain ⟨rx', px, hx', hrawx, -, hdatax, hpx⟩ := xmlRpc_of_text (xmlText_memoryXml n)
  obtain ⟨rj', pj, hj', ⟨hrawj, huninit⟩, -, hdataj, hpj⟩ :=
    jsonRpc_of_text (u := .zero) (jsonText_memoryJson n)
  obtain rfl := Except.ok.inj (hx.symm.trans hx')
  obtain rfl := Except.ok.inj (hj.symm.trans hj')
  rw [← hrawx] at hpx
  rw [← hrawj, ← huninit] at hpj
  have hdata : SameMembers (sameParam .integers rx.request rj.request) (memoryRequest n).params
      rx.data rj.data := hagree.data
  rw [hdatax, hdataj] at hdata
  have hsame := (sameData_iff rx.request rj.request rfl rfl atof_integers hpx hpj).mp hdata _
    List.mem_cons_self
  exact absurd hsame.1 (by decide)

end VplJail.Rpc
