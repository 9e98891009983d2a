import VplJail.Util.Extraction

/-!
# The clients that may ask for a task

`TASK_ONLY_FROM` lists addresses and nets. `isValidIPforRequest` takes every entry for the start of an
address, so a full address also admits the clients whose last number goes on where its own ends;
`isValidIPforRequest_iff` says for which clients that makes a difference.
-/

namespace VplJail.Jail

open Util

/-! ## The check -/

/-- An IPv4 address, in network order. -/
structure Ipv4 where
  first : UInt8
  second : UInt8
  third : UInt8
  fourth : UInt8
deriving DecidableEq, Repr

/-- `Util::ipToString`: the dot notation. -/
def ipToString (ip : Ipv4) : Bytes :=
  decimal ip.first.toNat ++ 46 :: (decimal ip.second.toNat ++ 46 :: (decimal ip.third.toNat ++
    46 :: decimal ip.fourth.toNat))

/-- The part of `readConfigFile` that reads `TASK_ONLY_FROM`. -/
def readTaskOnlyFrom (value : Bytes) : List Bytes :=
  words value

/-- `isValidIPforRequest`: the list is empty, or an entry is a prefix of the address. -/
def isValidIPforRequest (dirs : List Bytes) (IP : Bytes) : Bool :=
  dirs.isEmpty || dirs.any fun dir => find dir IP == some 0

/-! ## What the setting means -/

/-- An entry of the setting: a full address, or a net, which is text without blanks and a dot. -/
inductive Entry
  | address (ip : Ipv4)
  | net (start : Bytes) (h : ∀ b ∈ start, isSpace b = false)

/-- The text of an entry. -/
def Entry.text : Entry → Bytes
  | address ip => ipToString ip
  | net start _ => start ++ [46]

/-- A setting with the given entries. -/
def setting (entries : List Entry) : Bytes :=
  [32].intercalate (entries.map Entry.text)

/-- An entry is the client's address, or it ends with a dot and the address starts with it. -/
def Lists (entries : List Entry) (ip : Ipv4) : Prop :=
  ∃ e ∈ entries, e.text = ipToString ip ∨
    (e.text.getLast? = some 46 ∧ e.text <+: ipToString ip)

/-- The clients that the setting admits. -/
def Admits (entries : List Entry) (ip : Ipv4) : Prop :=
  entries = [] ∨ Lists entries ip

/-- Another address, which differs in the last number only, and whose last number is the start of that
of `ip`, such as 1 of 10. -/
structure IsStartOf (other ip : Ipv4) : Prop where
  first : other.first = ip.first
  second : other.second = ip.second
  third : other.third = ip.third
  fourth : decimal other.fourth.toNat <+: decimal ip.fourth.toNat
  ne : other ≠ ip

/-! ## Starts of addresses -/

theorem dot_notMem_decimal (n : ℕ) : (46 : UInt8) ∉ decimal n := fun h =>
  Bool.false_ne_true (isDigit_of_mem_decimal h)

theorem decimal_toNat_inj {a b : UInt8} : decimal a.toNat = decimal b.toNat ↔ a = b := by
  refine ⟨fun h => UInt8.toNat_inj.mp ?_, fun h => h ▸ rfl⟩
  rw [← digitsValue_decimal a.toNat, h, digitsValue_decimal]

/-- An address starts with another one if they differ in their last numbers at most. -/
theorem ipToString_prefix_iff {other ip : Ipv4} :
    ipToString other <+: ipToString ip ↔ other.first = ip.first ∧ other.second = ip.second ∧
      other.third = ip.third ∧ decimal other.fourth.toNat <+: decimal ip.fourth.toNat := by
  rw [ipToString, ipToString,
    append_cons_prefix_iff (dot_notMem_decimal _) (dot_notMem_decimal _),
    append_cons_prefix_iff (dot_notMem_decimal _) (dot_notMem_decimal _),
    append_cons_prefix_iff (dot_notMem_decimal _) (dot_notMem_decimal _), decimal_toNat_inj,
    decimal_toNat_inj, decimal_toNat_inj]

/-! ## Reading the setting -/

/-- An entry has no blank. -/
theorem isWord_text (e : Entry) : IsWord e.text := by
  cases e with
  | address ip =>
    refine ⟨List.append_ne_nil_of_right_ne_nil _ (List.cons_ne_nil _ _), fun b hb => ?_⟩
    have hdigit {n : ℕ} (hb : b ∈ decimal n) : isSpace b = false :=
      isSpace_eq_false_of_isDigit (isDigit_of_mem_decimal hb)
    rw [Entry.text, ipToString] at hb
    simp only [List.mem_append, List.mem_cons] at hb
    obtain hb | rfl | hb | rfl | hb | rfl | hb := hb
    all_goals first | exact hdigit hb | rfl
  | net start h =>
    refine ⟨List.append_ne_nil_of_right_ne_nil _ (List.cons_ne_nil _ _), fun b hb => ?_⟩
    obtain hb | hb := List.mem_append.mp hb
    · exact h b hb
    · rw [List.mem_singleton.mp hb]
      rfl

/-- The configuration has the entries of its setting. -/
theorem readTaskOnlyFrom_setting (entries : List Entry) :
    readTaskOnlyFrom (setting entries) = entries.map Entry.text := by
  refine words_intercalate fun w hw => ?_
  obtain ⟨e, -, rfl⟩ := List.mem_map.mp hw
  exact isWord_text e

/-! ## The clients that are let in -/

/-- A client is let in if an entry is the start of its address. -/
theorem isValidIPforRequest_eq_true_iff {dirs : List Bytes} {IP : Bytes} :
    isValidIPforRequest dirs IP = true ↔ dirs = [] ∨ ∃ dir ∈ dirs, dir <+: IP := by
  have hfind (dir : Bytes) : (find dir IP == some 0) = true ↔ dir <+: IP := by
    rw [beq_iff_eq, find_eq_some, List.drop_zero]
    exact and_iff_left fun k hk => absurd hk (Nat.not_lt_zero k)
  simp only [isValidIPforRequest, Bool.or_eq_true, List.isEmpty_iff, List.any_eq_true, hfind]

section Clients

variable {entries : List Entry} {ip : Ipv4}

/-- The clients listed are let in. -/
theorem isValidIPforRequest_of_admits (h : Admits entries ip) :
    isValidIPforRequest (entries.map Entry.text) (ipToString ip) = true := by
  rw [isValidIPforRequest_eq_true_iff]
  obtain rfl | ⟨e, he, htext⟩ := h
  · exact .inl rfl
  · refine .inr ⟨e.text, List.mem_map_of_mem he, ?_⟩
    obtain heq | ⟨-, hstart⟩ := htext
    · exact heq ▸ List.prefix_refl _
    · exact hstart

/-- An entry that starts the address of a client lists the client, or is a start of its address that
ends within the last number. -/
theorem lists_or_isStartOf {e : Entry} (he : e ∈ entries) (h : e.text <+: ipToString ip) :
    Lists entries ip ∨ ∃ other, .address other ∈ entries ∧ IsStartOf other ip := by
  cases e with
  | address other =>
    by_cases hother : other = ip
    · exact .inl ⟨_, he, .inl (congrArg ipToString hother)⟩
    · obtain ⟨h1, h2, h3, h4⟩ := ipToString_prefix_iff.mp h
      exact .inr ⟨other, he, h1, h2, h3, h4, hother⟩
  | net start hstart => exact .inl ⟨_, he, .inr ⟨List.getLast?_concat, h⟩⟩

/-- `isValidIPforRequest` does what the setting means exactly for the clients that it lists, and for
those whose address does not go on behind a full address of the setting. -/
theorem isValidIPforRequest_iff :
    (isValidIPforRequest (readTaskOnlyFrom (setting entries)) (ipToString ip) = true ↔
        Admits entries ip) ↔
      ∀ other, .address other ∈ entries → IsStartOf other ip → Lists entries ip := by
  rw [readTaskOnlyFrom_setting]
  constructor
  · intro h other hother hstart
    have hvalid : isValidIPforRequest (entries.map Entry.text) (ipToString ip) = true :=
      isValidIPforRequest_eq_true_iff.mpr (.inr ⟨_, List.mem_map_of_mem hother,
        ipToString_prefix_iff.mpr ⟨hstart.first, hstart.second, hstart.third, hstart.fourth⟩⟩)
    exact (h.mp hvalid).resolve_left (List.ne_nil_of_mem hother)
  · refine fun h => ⟨fun hvalid => ?_, isValidIPforRequest_of_admits⟩
    obtain hnil | ⟨dir, hdir, hstart⟩ := isValidIPforRequest_eq_true_iff.mp hvalid
    · exact .inl (List.map_eq_nil_iff.mp hnil)
    · obtain ⟨e, he, rfl⟩ := List.mem_map.mp hdir
      obtain hlists | ⟨other, hother, hstart⟩ := lists_or_isStartOf he hstart
      · exact .inr hlists
      · exact .inr (h other hother hstart)

/-- The setting 10.0.0.1 lets in 10.0.0.10. -/
theorem not_admits_of_isValidIPforRequest :
    isValidIPforRequest (readTaskOnlyFrom (setting [.address ⟨10, 0, 0, 1⟩]))
        (ipToString ⟨10, 0, 0, 10⟩) = true ∧
      ¬ Admits [.address ⟨10, 0, 0, 1⟩] ⟨10, 0, 0, 10⟩ := by
  refine ⟨by decide +kernel, ?_⟩
  rintro (h | ⟨e, he, htext⟩)
  · cases h
  · rw [List.mem_singleton.mp he] at htext
    exact absurd htext (by decide +kernel)

end Clients

end VplJail.Jail
