import VplJail.Common.Entries
import VplJail.Rpc.Message

/-!
# The nodes of a message

What the two parsers make of the texts of a request: the name of the method, and a map that has just
the members of the parameters, each with a node of its value.
-/

namespace VplJail.Rpc

open Json Util Xml

/-! ## Maps of members -/

/-- The map that members are put into one by one. -/
def mapOf (ps : List (Bytes × ParseNode)) : NodeMap :=
  ps.foldl (fun m p => m.insert p.1 p.2) ∅

/-- Nodes under the names of members, each of which is as `R` says. -/
def NodesOf {V : Type} (R : V → ParseNode → Prop) :
    List (List Char × V) → List (Bytes × ParseNode) → Prop :=
  List.Forall₂ fun m p => p.1 = utf8 m.1 ∧ R m.2 p.2

section NodesOf

variable {V : Type} {R : V → ParseNode → Prop} {ms : List (List Char × V)}
  {ps : List (Bytes × ParseNode)}

theorem NodesOf.map_fst (h : NodesOf R ms ps) :
    ps.map Prod.fst = ms.map fun m => utf8 m.1 := by
  induction h with
  | nil => rfl
  | cons hp _ ih => rw [List.map_cons, List.map_cons, hp.1, ih]

/-- The node of a member is found. -/
theorem NodesOf.get_mem (h : NodesOf R ms ps) (hdistinct : DistinctNames ms)
    {m : List Char × V} (hm : m ∈ ms) : ∃ t, (mapOf ps)[utf8 m.1]? = some t ∧ R m.2 t := by
  have hnodup : (ps.map Prod.fst).Nodup := by
    rw [h.map_fst]
    exact hdistinct
  have hp : ∃ p ∈ ps, p.1 = utf8 m.1 ∧ R m.2 p.2 := by
    clear hnodup hdistinct
    induction h with
    | nil => cases hm
    | cons hp _ ih =>
      rcases List.mem_cons.mp hm with rfl | hm
      · exact ⟨_, List.mem_cons_self, hp⟩
      · obtain ⟨p, hp, hread⟩ := ih hm
        exact ⟨p, List.mem_cons_of_mem _ hp, hread⟩
  obtain ⟨⟨key, t⟩, hp, rfl, ht⟩ := hp
  exact ⟨t, getElem?_foldl_insert_of_mem hnodup hp, ht⟩

/-- Nothing else is found. -/
theorem NodesOf.get_none (h : NodesOf R ms ps) {key : Bytes} (hkey : ∀ m ∈ ms, utf8 m.1 ≠ key) :
    (mapOf ps)[key]? = none := by
  have hne : ∀ p ∈ ps, p.1 ≠ key := by
    intro p hp heq
    have hmem : key ∈ ms.map fun m => utf8 m.1 := by
      rw [← h.map_fst, ← heq]
      exact List.mem_map_of_mem hp
    obtain ⟨m, hm, hname⟩ := List.mem_map.mp hmem
    exact hkey m hm hname
  exact (getElem?_foldl_insert_of_ne hne).trans Std.TreeMap.getElem?_emptyc

end NodesOf

/-! ## Nodes of values -/

/-- The XML node of a value. -/
def XmlNode (raw : Bytes) : Scalar → ParseNode → Prop
  | .string s, t => t.tag = ascii "string" ∧ decodeXML (t.rawContent raw) = .ok (utf8 s)
  | .int n, t => t.tag = (intTag n.1).bytes ∧ t.rawContent raw = itos n.1

/-- The JSON node of a value. -/
def JsonNode (u : Uninit) (raw : Bytes) (v : Scalar) (t : ParseNode) : Prop :=
  Shape u utf8 raw v.json t

/-! ## Reading the XML text -/

section XmlTree

variable {raw : Bytes}

/-- The node in a `value`. -/
theorem xmlNode_of_nodes {v : Scalar} {content : Content} {ts : List ParseNode}
    (h : XmlScalar v content) (hnodes : Nodes raw content ts) : ∃ t, ts = [t] ∧ XmlNode raw v t := by
  cases h with
  | string h =>
    obtain _ | ⟨-, htag, hraw, -, hrest⟩ := hnodes
    cases hrest
    refine ⟨_, rfl, htag, ?_⟩
    rw [hraw]
    exact decodeXML_spelled h
  | int h =>
    obtain _ | ⟨-, htag, hraw, -, hrest⟩ := hnodes
    cases hrest
    exact ⟨_, rfl, htag, hraw.trans h⟩

section Members

variable {V : Type} {value : V → Content → Prop} {R : V → ParseNode → Prop}

/-- A member of a struct is read as its name and the node of its value. -/
theorem structMember_of_nodes
    (hvalue : ∀ v content ts, value v content → Nodes raw content ts → ∃ t, ts = [t] ∧ R v t)
    {k : List Char} {v : V} {inner : Content} {member : ParseNode}
    {before before' name after : CharData} (hname : Spelled (utf8 k) name.bytes)
    (hv : value v inner)
    (h : Nodes raw (.element before (element "name") (.last name)
      (.element before' (element "value") inner (.last after))) member.children) :
    ∃ t, XmlRpc.structMember raw member = .ok (utf8 k, t) ∧ R v t := by
  obtain ⟨nameNode, valueNode, -, hchild, hchild', htag, hrawName, hinner⟩ :=
    XmlRpc.children_of_nodes h rfl rfl (by decide)
  obtain ⟨t, ht, hR⟩ := hvalue v inner _ hv hinner
  have hstring : Xml.getString raw nameNode = .ok (utf8 k) := by
    rw [Xml.getString, if_pos (.inr htag), hrawName]
    exact decodeXML_spelled hname
  have hfirst : valueNode.childAt 0 = .ok t := by
    rw [ParseNode.childAt, ht]
    rfl
  refine ⟨t, ?_, hR⟩
  rw [XmlRpc.structMember, hchild]
  dsimp only [bind, Except.bind]
  rw [hstring]
  dsimp only
  rw [hchild']
  dsimp only
  rw [hfirst]
  rfl

/-- The members of a struct are read in their order. -/
theorem structMembers_of_nodes
    (hvalue : ∀ v content ts, value v content → Nodes raw content ts → ∃ t, ts = [t] ∧ R v t)
    {ms : List (List Char × V)} {content : Content} {ts : List ParseNode}
    (h : XmlMembers value ms content) (hnodes : Nodes raw content ts) :
    ∃ ps, (∀ acc, XmlRpc.structMembers raw ts acc =
      .ok (ps.foldl (fun m p => m.insert p.1 p.2) acc)) ∧ NodesOf R ms ps := by
  induction h generalizing ts with
  | nil text =>
    cases hnodes
    exact ⟨[], fun _ => rfl, .nil⟩
  | @cons k v ms inner rest _ _ _ _ _ hname hv _ ih =>
    obtain _ | ⟨-, -, -, hmember, hrest⟩ := hnodes
    obtain ⟨t, ht, hR⟩ := structMember_of_nodes hvalue hname hv hmember
    obtain ⟨ps, hps, hnodesOf⟩ := ih hrest
    refine ⟨(utf8 k, t) :: ps, fun acc => ?_, .cons ⟨rfl, hR⟩ hnodesOf⟩
    rw [XmlRpc.structMembers, ht]
    exact hps _

theorem getStructMembers_of_nodes {ms : List (List Char × V)} {content : Content} {t : ParseNode}
    (h : XmlMembers value ms content) (hnodes : Nodes raw content t.children)
    (htag : t.tag = ascii "struct")
    (hvalue : ∀ v content ts, value v content → Nodes raw content ts → ∃ t, ts = [t] ∧ R v t) :
    ∃ ps, XmlRpc.getStructMembers raw t = .ok (mapOf ps) ∧ NodesOf R ms ps := by
  obtain ⟨ps, hps, hnodesOf⟩ := structMembers_of_nodes hvalue h hnodes
  exact ⟨ps, (if_pos htag).trans (hps ∅), hnodesOf⟩

end Members

/-- The XML node of a member of the parameters. -/
def XmlParamNode (raw : Bytes) : Param → ParseNode → Prop
  | .scalar v, t => XmlNode raw v t
  | .struct members, t => ∃ ps, XmlRpc.getStructMembers raw t = .ok (mapOf ps) ∧
      NodesOf (XmlNode raw) members ps

theorem xmlParamNode_of_nodes {p : Param} {content : Content} {ts : List ParseNode}
    (h : XmlParam p content) (hnodes : Nodes raw content ts) :
    ∃ t, ts = [t] ∧ XmlParamNode raw p t := by
  cases h with
  | scalar h => exact xmlNode_of_nodes h hnodes
  | struct h =>
    obtain _ | ⟨-, htag, -, hinner, hrest⟩ := hnodes
    cases hrest
    exact ⟨_, rfl, getStructMembers_of_nodes h hinner htag fun _ _ _ => xmlNode_of_nodes⟩

/-- The object that is built from the XML text. -/
theorem xmlRpc_of_text {msg : Message} {nameText : CharData} (h : XmlText msg nameText raw) :
    ∃ rpc ps, XmlRpc.ofText raw = .ok rpc ∧ rpc.raw = raw ∧ rpc.getMethodName = nameText.bytes ∧
      rpc.data = mapOf ps ∧ NodesOf (XmlParamNode raw) msg.params ps := by
  obtain ⟨hroot, -, hmembers, hinner⟩ := h
  rename_i d members after b1 b2 b3 b4 b5 a1 a2 a3 a4
  obtain ⟨root, hparse, htag, -, hnodes⟩ := parse_render_append d after
  replace htag : root.tag = ascii "methodCall" := htag.trans (congrArg Name.bytes hroot)
  rw [hinner] at hnodes
  generalize d.render ++ after = raw at hparse hnodes
  obtain ⟨method, params, hchildren, hmethod, hparams, -, hname, hnodes⟩ :=
    XmlRpc.children_of_nodes hnodes rfl rfl (by decide)
  obtain ⟨param, hparam, -, hnodes⟩ := XmlRpc.child_of_nodes hnodes rfl
  obtain ⟨value, hvalue, -, hnodes⟩ := XmlRpc.child_of_nodes hnodes rfl
  obtain ⟨st, hst, hstTag, hnodes⟩ := XmlRpc.child_of_nodes hnodes rfl
  obtain ⟨ps, hdata, hps⟩ :=
    getStructMembers_of_nodes hmembers hnodes hstTag fun _ _ _ => xmlParamNode_of_nodes
  refine ⟨⟨raw, root, method, mapOf ps⟩, ps, ?_, rfl, hname, rfl, hps⟩
  have hlength : ¬ root.children.length ≠ 2 := by
    rw [hchildren]
    exact fun h => h rfl
  rw [XmlRpc.ofText, hparse]
  dsimp only [bind, Except.bind]
  rw [XmlRpc.processRoot, if_pos htag, if_neg hlength, hmethod]
  dsimp only [bind, Except.bind]
  rw [hparams]
  dsimp only
  rw [hparam]
  dsimp only
  rw [hvalue]
  dsimp only
  rw [hst]
  dsimp only
  rw [hdata]
  rfl

end XmlTree

/-! ## Reading the JSON text -/

section JsonTree

variable {u : Uninit} {raw : Bytes}

/-- Nodes of members under their tags. -/
theorem nodesOf_of_membersShape {ms : List (List Char × Value (List Char))} {ts : List ParseNode}
    (h : MembersShape u utf8 raw ms ts) :
    NodesOf (Shape u utf8 raw) ms (ts.map fun t => (t.tag, t)) := by
  induction ms generalizing ts with
  | nil =>
    cases h
    exact .nil
  | cons m ms ih =>
    cases h with
    | cons htag hshape hrest => exact .cons ⟨htag, hshape⟩ (ih hrest)

/-- The map of a struct. -/
theorem getStructMembers_eq (st : ParseNode) :
    JsonRpc.getStructMembers st = mapOf (st.children.map fun t => (t.tag, t)) := by
  rw [mapOf, List.foldl_map]
  rfl

/-- The members of an object, as the members that the values were made of. -/
theorem getStructMembers_of_shape {V : Type} {json : V → Value (List Char)}
    {ms : List (List Char × V)} {t : ParseNode}
    (h : Shape u utf8 raw (.object (ms.map fun m => (m.1, json m.2))) t) :
    ∃ ps, JsonRpc.getStructMembers t = mapOf ps ∧
      NodesOf (fun v t => Shape u utf8 raw (json v) t) ms ps := by
  refine ⟨_, getStructMembers_eq t, ?_⟩
  cases h with
  | object hmembers => exact List.forall₂_map_left_iff.mp (nodesOf_of_membersShape hmembers)

/-- The child of a member is found wherever the member stands. -/
theorem child_of_membersShape {ms : List (List Char × Value (List Char))} {t : ParseNode}
    {k : List Char} {v : Value (List Char)} {stag : String} (h : MembersShape u utf8 raw ms t.children)
    (hdistinct : DistinctNames ms) (hm : (k, v) ∈ ms) (hk : utf8 k = ascii stag) :
    ∃ c, t.child stag = .ok c ∧ Shape u utf8 raw v c := by
  suffices hfind : ∃ c, t.children.find? (·.tag = ascii stag) = some c ∧ Shape u utf8 raw v c by
    obtain ⟨c, hc, hshape⟩ := hfind
    refine ⟨c, ?_, hshape⟩
    rw [ParseNode.child, hc]
    rfl
  generalize t.children = ts at h
  induction ms generalizing ts with
  | nil => cases hm
  | cons m ms ih =>
    cases h with
    | @cons k' v' _ c ts htag hshape hrest =>
      have hnodup := List.nodup_cons.mp hdistinct
      rcases List.mem_cons.mp hm with heq | hm
      · obtain ⟨rfl, rfl⟩ := Prod.mk.inj heq
        exact ⟨c, List.find?_cons_of_pos (by simpa using htag.trans hk), hshape⟩
      · have hne : c.tag ≠ ascii stag := by
          intro heq
          apply hnodup.1
          show utf8 k' ∈ _
          rw [← htag, heq, ← hk]
          exact List.mem_map_of_mem (f := fun m => utf8 m.1) hm
        rw [List.find?_cons_of_neg (by simpa using hne)]
        exact ih hnodup.2 hm ts hrest

/-- The object that is built from the JSON text. -/
theorem jsonRpc_of_text {msg : Message} (h : JsonText msg raw) :
    ∃ rpc ps, JsonRpc.ofText u raw = .ok rpc ∧ (rpc.raw = raw ∧ rpc.uninit = u) ∧
      rpc.method = utf8 msg.method ∧ rpc.data = mapOf ps ∧ NodesOf (fun p t => Shape u utf8 raw p.json t) msg.params ps := by
  obtain ⟨hperm, hdocument⟩ := h
  rename_i id members
  obtain ⟨root, hparse, htag, hshape⟩ := parse_value u (.object members) hdocument
  have hmembers : MembersShape u utf8 raw members root.children := by
    cases hshape with
    | object h => exact h
  -- `child` looks members up by name, so that the order in the text does not matter
  have hdistinct : DistinctNames members := by
    refine (hperm.map fun m => utf8 m.1).nodup_iff.mpr ?_
    show [utf8 "jsonrpc".toList, utf8 "method".toList, utf8 "params".toList,
      utf8 "id".toList].Nodup
    decide
  have hlength : root.children.length = 4 := by
    have hlength := (nodesOf_of_membersShape hmembers).length_eq
    rw [List.length_map] at hlength
    exact hlength.symm.trans hperm.length_eq
  have hchild {k : String} {v : Value (List Char)} (hmem : (k.toList, v) ∈ msg.json id)
      (hk : utf8 k.toList = ascii k) : ∃ c, root.child k = .ok c ∧ Shape u utf8 raw v c :=
    child_of_membersShape hmembers hdistinct (hperm.mem_iff.mpr hmem) hk
  have hstring {s : List Char} {t : ParseNode} (h : Shape u utf8 raw (.string s) t) :
      Json.getString u raw t = .ok (utf8 s) := by
    cases h with
    | string h => exact h
  obtain ⟨version, hversion, hversionShape⟩ :=
    hchild (k := "jsonrpc") (.head _) (by decide)
  obtain ⟨method, hmethod, hmethodShape⟩ :=
    hchild (k := "method") (.tail _ (.head _)) (by decide)
  obtain ⟨params, hparams, hparamsShape⟩ :=
    hchild (k := "params") (.tail _ (.tail _ (.head _))) (by decide)
  obtain ⟨idNode, hid, hidShape⟩ :=
    hchild (k := "id") (.tail _ (.tail _ (.tail _ (.head _)))) (by decide)
  obtain ⟨ps, hdata, hps⟩ := getStructMembers_of_shape hparamsShape
  refine ⟨⟨raw, root, utf8 msg.method, utf8 id, mapOf ps, u⟩, ps, ?_, ⟨rfl, rfl⟩, rfl, rfl, hps⟩
  have hversion2 : JsonRpc.isVersion2 u raw root = .ok true := by
    rw [JsonRpc.isVersion2, if_pos hlength, hversion]
    dsimp only [bind, Except.bind]
    rw [hstring hversionShape]
    rfl
  -- the members are read in the order of the source: method, params, id
  rw [JsonRpc.ofText, hparse]
  dsimp only [bind, Except.bind]
  rw [JsonRpc.processRoot, if_neg (not_not.mpr (show root.tag = ascii "object" from htag)), hmethod]
  dsimp only [bind, Except.bind]
  rw [hstring hmethodShape]
  dsimp only
  rw [hparams]
  dsimp only
  rw [hid]
  dsimp only
  rw [hstring hidShape]
  dsimp only
  rw [hversion2, hdata]
  rfl

end JsonTree

end VplJail.Rpc
