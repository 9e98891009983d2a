import VplJail.Socket.Headers
import VplJail.Common.Entries

/-!
# Cookies

`parseCookies` takes one pair after the other off the header, by the length of the match. A value that
is empty is no match, so the next one is found behind it, with a name that starts with the separator,
and as much is taken off at the wrong end. `storesExactly_iff` says that this is all that goes wrong.
-/

namespace VplJail.Socket

open PosixRegex

/-- `getCookie`: the value of a cookie, empty if there is none. -/
def getCookie (s : Socket) (cookie : Bytes) : Bytes :=
  s.cookies[cookie]?.getD []

/-! ## Cookie headers -/

/-- A cookie: a name without `=` and a value, both without `;` and NUL. -/
structure Cookie where
  name : Bytes
  value : Bytes
  name_ne : name ≠ []
  eq_notMem : (61 : UInt8) ∉ name
  semicolon_notMem_name : (59 : UInt8) ∉ name
  semicolon_notMem_value : (59 : UInt8) ∉ value
  zero_notMem_name : (0 : UInt8) ∉ name
  zero_notMem_value : (0 : UInt8) ∉ value

/-- `name=value`, as it stands in the header. -/
def Cookie.pair (c : Cookie) : Bytes :=
  c.name ++ 61 :: c.value

/-- The value of the header: the pairs joined by `; `. -/
def cookieHeader (cs : List Cookie) : Bytes :=
  (ascii "; ").intercalate (cs.map Cookie.pair)

/-- The value of the last cookie of a name. -/
def lastValue (cs : List Cookie) (key : Bytes) : Option Bytes :=
  (cs.reverse.find? fun c => c.name == key).map Cookie.value

/-- The socket has the cookies and no others. -/
structure StoresExactly (cs : List Cookie) (s : Socket) : Prop where
  cookies_eq : ∀ key, s.cookies[key]? = lastValue cs key
  getCookie_eq : ∀ key value, lastValue cs key = some value → s.getCookie key = value

/-- The loop ends before its turns do, and leaves the cookies in the socket. -/
def ParsesCookies (cs : List Cookie) (s : Socket) : Prop :=
  ∃ s', (∀ fuel, (cookieHeader cs).length ≤ fuel →
      (parseCookiesLoop fuel (cookieHeader cs)).run s = (.ok (), s')) ∧
    (parseCookies (cookieHeader cs)).run s = (.ok (), s') ∧ StoresExactly cs s'

/-! ## The match at one place -/

/-- The items of `regCookie` in front of the separator. -/
def cookieItems : List (Item UInt8) :=
  [.plus (· != 61), .one (· == 61), .plus (· != 59)]

/-- The match of `regCookie` at the start of a text. -/
def cookieAt (s : Bytes) : Option (Bytes × Bytes × Bytes) :=
  match search (cookieItems ++ [.one (· == 59), .one (· == 32)]) s with
  | some [name, eq, value, semicolon, space] =>
      some (name ++ eq ++ value ++ semicolon ++ space, name, value)
  | _ =>
      match search cookieItems s with
      | some [name, eq, value] => some (name ++ eq ++ value, name, value)
      | _ => none

theorem searchCookie_eq (text : Bytes) : searchCookie text = text.tails.findSome? cookieAt :=
  rfl

theorem searchCookie_cons (b : UInt8) (s : Bytes) :
    searchCookie (b :: s) = (cookieAt (b :: s)).or (searchCookie s) := by
  rw [searchCookie_eq, searchCookie_eq, List.tails_cons, List.findSome?_cons]
  cases cookieAt (b :: s) <;> rfl

/-- A match at the start is the one that is found. -/
theorem searchCookie_of_cookieAt {text : Bytes} (htext : text ≠ []) {r : Bytes × Bytes × Bytes}
    (h : cookieAt text = some r) : searchCookie text = some r := by
  obtain ⟨b, text, rfl⟩ := List.exists_cons_of_ne_nil htext
  rw [searchCookie_cons, h, Option.some_or]

section Match

variable {name value rest : Bytes}

/-- Where a name and `=` stand, a match has this name, and a value in front of the next `;`. -/
theorem exists_of_accepts (hname : (61 : UInt8) ∉ name) {items : List (Item UInt8)}
    {m : List Bytes} (hm : List.Forall₂ Item.Accepts (cookieItems ++ items) m) {after : Bytes}
    (h : name ++ 61 :: rest = m.flatten ++ after) :
    ∃ v m', m = name :: [61] :: v :: m' ∧ name ≠ [] ∧ v ≠ [] ∧ (59 : UInt8) ∉ v ∧
      rest = v ++ (m'.flatten ++ after) ∧ List.Forall₂ Item.Accepts items m' := by
  rw [cookieItems, List.cons_append, List.cons_append, List.cons_append, List.nil_append] at hm
  obtain ⟨n, _, hn, hm₁, rfl⟩ := List.forall₂_cons_left_iff.mp hm
  obtain ⟨eq, _, heq, hm₂, rfl⟩ := List.forall₂_cons_left_iff.mp hm₁
  obtain ⟨v, m', hv, hm', rfl⟩ := List.forall₂_cons_left_iff.mp hm₂
  obtain ⟨a, rfl, ha⟩ := exists_of_accepts_one heq
  obtain rfl : a = 61 := beq_iff_eq.mp ha
  have hn61 : (61 : UInt8) ∉ n := fun hmem => absurd (hn.1 61 hmem) (by decide)
  have hsplit : name ++ 61 :: rest = n ++ 61 :: (v ++ (m'.flatten ++ after)) := by
    rw [h]
    simp only [List.flatten_cons, List.append_assoc, List.cons_append, List.nil_append]
  obtain ⟨rfl, hrest⟩ := (append_cons_inj hname hn61).mp hsplit
  exact ⟨v, m', rfl, List.length_pos_iff.mp hn.2.1, List.length_pos_iff.mp hv.2.1,
    fun hmem => absurd (hv.1 59 hmem) (by decide), hrest, hm'⟩

/-- The items match a pair. -/
theorem accepts_pair (hne : name ≠ []) (hname : (61 : UInt8) ∉ name) (hvne : value ≠ [])
    (hvalue : (59 : UInt8) ∉ value) : List.Forall₂ Item.Accepts cookieItems [name, [61], value] := by
  refine .cons (Item.accepts_plus (fun a ha => bne_iff_ne.mpr ?_) hne)
    (.cons (Item.accepts_one rfl) (.cons (Item.accepts_plus (fun a ha => bne_iff_ne.mpr ?_) hvne)
      .nil))
  · exact fun h => hname (h ▸ ha)
  · exact fun h => hvalue (h ▸ ha)

/-- A pair in front of a separator is matched with it. -/
theorem cookieAt_separator (hne : name ≠ []) (hname : (61 : UInt8) ∉ name) (hvne : value ≠ [])
    (hvalue : (59 : UInt8) ∉ value) :
    cookieAt (name ++ 61 :: (value ++ 59 :: 32 :: rest)) =
      some (name ++ [61] ++ value ++ [59] ++ [32], name, value) := by
  have hsearch : search (cookieItems ++ [.one (· == 59), .one (· == 32)])
      (name ++ 61 :: (value ++ 59 :: 32 :: rest)) = some [name, [61], value, [59], [32]] := by
    cases h : search (cookieItems ++ [.one (· == 59), .one (· == 32)])
        (name ++ 61 :: (value ++ 59 :: 32 :: rest)) with
    | none =>
      refine absurd ?_ (search_eq_none.mp h [name, [61], value, [59], [32]] rest ?_)
      · simp
      · exact List.rel_append (accepts_pair hne hname hvne hvalue)
          (.cons (Item.accepts_one rfl) (.cons (Item.accepts_one rfl) .nil))
    | some m =>
      obtain ⟨hm, after, hafter⟩ := accepts_of_search h
      obtain ⟨v, m', rfl, -, -, hv, hrest, hm'⟩ := exists_of_accepts hname hm hafter
      obtain ⟨semicolon, _, hs, hm₁, rfl⟩ := List.forall₂_cons_left_iff.mp hm'
      obtain ⟨space, _, hspace, hm₂, rfl⟩ := List.forall₂_cons_left_iff.mp hm₁
      cases hm₂
      obtain ⟨a, rfl, ha⟩ := exists_of_accepts_one hs
      obtain ⟨b, rfl, hb⟩ := exists_of_accepts_one hspace
      obtain rfl : a = 59 := beq_iff_eq.mp ha
      obtain rfl : b = 32 := beq_iff_eq.mp hb
      obtain ⟨rfl, -⟩ := (append_cons_inj hvalue hv).mp hrest
      rfl
  rw [cookieAt, hsearch]

/-- A pair at the end is matched whole. -/
theorem cookieAt_end (hne : name ≠ []) (hname : (61 : UInt8) ∉ name) (hvne : value ≠ [])
    (hvalue : (59 : UInt8) ∉ value) :
    cookieAt (name ++ 61 :: value) = some (name ++ [61] ++ value, name, value) := by
  have hseparator : search (cookieItems ++ [.one (· == 59), .one (· == 32)])
      (name ++ 61 :: value) = none := by
    refine search_eq_none.mpr fun m after hm hafter => ?_
    obtain ⟨v, m', rfl, -, -, -, hrest, hm'⟩ := exists_of_accepts hname hm hafter
    obtain ⟨semicolon, _, hs, -, rfl⟩ := List.forall₂_cons_left_iff.mp hm'
    obtain ⟨a, rfl, ha⟩ := exists_of_accepts_one hs
    obtain rfl : a = 59 := beq_iff_eq.mp ha
    exact hvalue (hrest ▸ by simp)
  have hsearch : search cookieItems (name ++ 61 :: value) = some [name, [61], value] := by
    cases h : search cookieItems (name ++ 61 :: value) with
    | none =>
      exact absurd (by simp) (search_eq_none.mp h [name, [61], value] []
        (accepts_pair hne hname hvne hvalue))
    | some m =>
      have hpair : name ++ 61 :: value = [name, [61], value].flatten ++ [] := by simp
      obtain ⟨hlength, -⟩ := search_spec h (accepts_pair hne hname hvne hvalue) hpair
      obtain ⟨hm, after, hafter⟩ := accepts_of_search h
      rw [← List.append_nil cookieItems] at hm
      obtain ⟨v, m', rfl, -, -, -, hrest, hm'⟩ := exists_of_accepts hname hm hafter
      cases hm'
      -- the longest value is the whole of it
      have hafter : after = [] := by
        refine List.eq_nil_of_length_eq_zero ?_
        have := congrArg List.length hrest
        simp only [List.flatten_cons, List.flatten_nil, List.length_append, List.length_nil,
          List.length_cons] at hlength this
        omega
      rw [hafter, List.flatten_nil, List.append_nil, List.append_nil] at hrest
      rw [hrest]
  rw [cookieAt, hseparator]
  dsimp only
  rw [hsearch]

/-- Where a value is empty, there is no match. -/
theorem cookieAt_eq_none (hname : (61 : UInt8) ∉ name) (hrest : ∀ b ∈ rest.head?, b = 59) :
    cookieAt (name ++ 61 :: rest) = none := by
  have hnone (items : List (Item UInt8)) :
      search (cookieItems ++ items) (name ++ 61 :: rest) = none := by
    refine search_eq_none.mpr fun m after hm hafter => ?_
    obtain ⟨v, m', rfl, -, hvne, hv, rfl, -⟩ := exists_of_accepts hname hm hafter
    obtain ⟨b, v, rfl⟩ := List.exists_cons_of_ne_nil hvne
    exact hv (hrest b rfl ▸ List.mem_cons_self)
  rw [cookieAt, hnone]
  dsimp only
  rw [← List.append_nil cookieItems, hnone]

/-- The search goes on behind a pair with an empty value. -/
theorem searchCookie_skip (hname : (61 : UInt8) ∉ name) (hrest : ∀ b ∈ rest.head?, b = 59) :
    searchCookie (name ++ 61 :: rest) = searchCookie rest := by
  induction name with
  | nil =>
    have hnone := cookieAt_eq_none hname hrest
    rw [List.nil_append] at hnone
    rw [List.nil_append, searchCookie_cons, hnone, Option.none_or]
  | cons b name ih =>
    have hnone := cookieAt_eq_none hname hrest
    rw [List.cons_append] at hnone
    rw [List.cons_append, searchCookie_cons, hnone, Option.none_or,
      ih fun h => hname (List.mem_cons_of_mem _ h)]

end Match

/-! ## The loop -/

/-- What the loop does to the cookies. -/
def storeCookies : ℕ → Bytes → Std.TreeMap Bytes Bytes compare → Std.TreeMap Bytes Bytes compare
  | 0, _, cookies => cookies
  | fuel + 1, rawcookies, cookies =>
      match searchCookie (cstr rawcookies) with
      | some (found, name, value) =>
          storeCookies fuel (rawcookies.drop found.length) (cookies.insert name value)
      | none => cookies

theorem run_parseCookiesLoop_eq (fuel : ℕ) (rawcookies : Bytes) (s : Socket) :
    (parseCookiesLoop fuel rawcookies).run s =
      (.ok (), { s with cookies := storeCookies fuel rawcookies s.cookies }) := by
  induction fuel generalizing rawcookies s with
  | zero => rfl
  | succ fuel ih =>
    rw [parseCookiesLoop, storeCookies]
    cases searchCookie (cstr rawcookies) with
    | none => rfl
    | some found => exact ih _ _

/-- A name that has been stored stays stored. -/
theorem isSome_storeCookies {key : Bytes} {cookies : Std.TreeMap Bytes Bytes compare}
    (h : cookies[key]?.isSome) (fuel : ℕ) (rawcookies : Bytes) :
    (storeCookies fuel rawcookies cookies)[key]?.isSome := by
  induction fuel generalizing rawcookies cookies with
  | zero => exact h
  | succ fuel ih =>
    rw [storeCookies]
    cases searchCookie (cstr rawcookies) with
    | none => exact h
    | some found =>
      refine ih ?_ _
      rw [Std.TreeMap.getElem?_insert]
      split
      · rfl
      · exact h

/-! ## Headers -/

/-- The cookies put in one by one. -/
def insertCookies (cs : List Cookie) (cookies : Std.TreeMap Bytes Bytes compare) :
    Std.TreeMap Bytes Bytes compare :=
  cs.foldl (fun cookies c => cookies.insert c.name c.value) cookies

/-- The last one of a name is found. -/
theorem getElem?_insertCookies (cs : List Cookie) (cookies : Std.TreeMap Bytes Bytes compare)
    (key : Bytes) : (insertCookies cs cookies)[key]? = (lastValue cs key).or cookies[key]? := by
  induction cs using List.reverseRecOn with
  | nil => rfl
  | append_singleton cs c ih =>
    rw [insertCookies, List.foldl_append, List.foldl_cons, List.foldl_nil,
      Std.TreeMap.getElem?_insert, lastValue, List.reverse_append, List.reverse_singleton,
      List.singleton_append, List.find?_cons]
    by_cases hkey : c.name = key
    · rw [if_pos (Std.LawfulEqOrd.compare_eq_iff_eq.mpr hkey), beq_iff_eq.mpr hkey]
      rfl
    · rw [if_neg fun h => hkey (Std.LawfulEqOrd.eq_of_compare h), beq_false_of_ne hkey]
      exact ih

section Header

variable {c : Cookie} {cs : List Cookie}

theorem zero_notMem_pair (c : Cookie) : (0 : UInt8) ∉ c.pair := by
  rw [Cookie.pair, List.mem_append, List.mem_cons, not_or, not_or]
  exact ⟨c.zero_notMem_name, by decide, c.zero_notMem_value⟩

theorem zero_notMem_cookieHeader (cs : List Cookie) : (0 : UInt8) ∉ cookieHeader cs := by
  induction cs with
  | nil => exact List.not_mem_nil
  | cons c cs ih =>
    cases cs with
    | nil =>
      rw [cookieHeader, List.map_singleton, List.intercalate_singleton]
      exact zero_notMem_pair c
    | cons c' cs =>
      rw [cookieHeader, List.map_cons, List.map_cons, List.intercalate_cons_cons, ← List.map_cons,
        List.mem_append, List.mem_append, not_or, not_or]
      exact ⟨⟨zero_notMem_pair c, by decide⟩, ih⟩

theorem cookieHeader_singleton (c : Cookie) : cookieHeader [c] = c.name ++ 61 :: c.value := by
  rw [cookieHeader, List.map_singleton, List.intercalate_singleton, Cookie.pair]

theorem cookieHeader_cons_cons (c c' : Cookie) (cs : List Cookie) :
    cookieHeader (c :: c' :: cs) =
      c.name ++ 61 :: (c.value ++ 59 :: 32 :: cookieHeader (c' :: cs)) := by
  rw [cookieHeader, List.map_cons, List.map_cons, List.intercalate_cons_cons, Cookie.pair,
    ← List.map_cons]
  simp [cookieHeader, ascii]

/-- The first cookie is taken, with the separator behind it. -/
theorem exists_searchCookie_cookieHeader (hvalue : c.value ≠ []) (cs : List Cookie) :
    ∃ found, found ≠ [] ∧ cookieHeader (c :: cs) = found ++ cookieHeader cs ∧
      searchCookie (cookieHeader (c :: cs)) = some (found, c.name, c.value) := by
  cases cs with
  | nil =>
    refine ⟨c.name ++ [61] ++ c.value, by simp, ?_, searchCookie_of_cookieAt ?_ ?_⟩
    · simp [cookieHeader, Cookie.pair]
    · simp [cookieHeader_singleton]
    · rw [cookieHeader_singleton]
      exact cookieAt_end c.name_ne c.eq_notMem hvalue c.semicolon_notMem_value
  | cons c' cs =>
    refine ⟨c.name ++ [61] ++ c.value ++ [59] ++ [32], by simp, ?_, searchCookie_of_cookieAt ?_ ?_⟩
    · simp [cookieHeader_cons_cons]
    · simp [cookieHeader_cons_cons]
    · rw [cookieHeader_cons_cons]
      exact cookieAt_separator c.name_ne c.eq_notMem hvalue c.semicolon_notMem_value

/-- The cookies with a value are stored one by one. -/
theorem storeCookies_append {good : List Cookie} (hgood : ∀ c ∈ good, c.value ≠ [])
    (cs : List Cookie) (cookies : Std.TreeMap Bytes Bytes compare) {fuel : ℕ}
    (hfuel : (cookieHeader (good ++ cs)).length ≤ fuel) :
    ∃ left, (cookieHeader cs).length ≤ left ∧
      storeCookies fuel (cookieHeader (good ++ cs)) cookies =
        storeCookies left (cookieHeader cs) (insertCookies good cookies) := by
  induction good generalizing cookies fuel with
  | nil => exact ⟨fuel, hfuel, rfl⟩
  | cons c good ih =>
    obtain ⟨hc, hgood⟩ := List.forall_mem_cons.mp hgood
    obtain ⟨found, hne, htext, hfound⟩ := exists_searchCookie_cookieHeader hc (good ++ cs)
    have hlength := List.length_pos_iff.mpr hne
    rw [List.cons_append, htext, List.length_append] at hfuel
    obtain ⟨fuel, rfl⟩ := Nat.exists_eq_add_one_of_ne_zero (by omega : fuel ≠ 0)
    obtain ⟨left, hleft, hstore⟩ := ih hgood (cookies.insert c.name c.value)
      (by omega : (cookieHeader (good ++ cs)).length ≤ fuel)
    refine ⟨left, hleft, ?_⟩
    rw [List.cons_append, storeCookies, cstr_eq_self (zero_notMem_cookieHeader _), hfound]
    dsimp only
    rw [htext, List.drop_left, hstore]
    rfl

/-- Behind a separator, the next pair with a value is found with the separator in its name. -/
theorem searchCookie_separator (c : Cookie) (cs : List Cookie) :
    ((∀ c' ∈ c :: cs, c'.value = []) ∧ searchCookie (59 :: 32 :: cookieHeader (c :: cs)) = none) ∨
      ∃ found name value, searchCookie (59 :: 32 :: cookieHeader (c :: cs)) =
        some (found, name, value) ∧ (59 : UInt8) ∈ name := by
  have hname : (61 : UInt8) ∉ 59 :: 32 :: c.name := by
    simpa [List.mem_cons] using c.eq_notMem
  have hne : (59 :: 32 :: c.name : Bytes) ≠ [] := List.cons_ne_nil _ _
  induction cs generalizing c with
  | nil =>
    rw [cookieHeader_singleton, ← List.cons_append, ← List.cons_append]
    by_cases hvalue : c.value = []
    · refine .inl ⟨List.forall_mem_singleton.mpr hvalue, ?_⟩
      rw [hvalue, searchCookie_skip hname (by simp)]
      rfl
    · exact .inr ⟨_, 59 :: 32 :: c.name, c.value, searchCookie_of_cookieAt (List.cons_ne_nil _ _)
        (cookieAt_end hne hname hvalue c.semicolon_notMem_value), List.mem_cons_self⟩
  | cons c' cs ih =>
    rw [cookieHeader_cons_cons, ← List.cons_append, ← List.cons_append]
    by_cases hvalue : c.value = []
    · rw [hvalue, List.nil_append, searchCookie_skip hname (by simp)]
      obtain ⟨hempty, hnone⟩ | hfound := ih c' (by simpa [List.mem_cons] using c'.eq_notMem)
        (List.cons_ne_nil _ _)
      · exact .inl ⟨List.forall_mem_cons.mpr ⟨hvalue, hempty⟩, hnone⟩
      · exact .inr hfound
    · exact .inr ⟨_, 59 :: 32 :: c.name, c.value, searchCookie_of_cookieAt (List.cons_ne_nil _ _)
        (cookieAt_separator hne hname hvalue c.semicolon_notMem_value), List.mem_cons_self⟩

/-- At a pair with an empty value, what is found is nothing, or it has a `;` in its name. -/
theorem searchCookie_empty (hvalue : c.value = []) (cs : List Cookie) :
    ((∀ c' ∈ c :: cs, c'.value = []) ∧ searchCookie (cookieHeader (c :: cs)) = none) ∨
      ∃ found name value, searchCookie (cookieHeader (c :: cs)) = some (found, name, value) ∧
        (59 : UInt8) ∈ name := by
  cases cs with
  | nil =>
    refine .inl ⟨List.forall_mem_singleton.mpr hvalue, ?_⟩
    rw [cookieHeader_singleton, hvalue, searchCookie_skip c.eq_notMem (by simp)]
    rfl
  | cons c' cs =>
    rw [cookieHeader_cons_cons, hvalue, List.nil_append,
      searchCookie_skip c.eq_notMem (by simp)]
    obtain ⟨hempty, hnone⟩ | hfound := searchCookie_separator c' cs
    · exact .inl ⟨List.forall_mem_cons.mpr ⟨hvalue, hempty⟩, hnone⟩
    · exact .inr hfound

end Header

/-! ## Last values -/

section LastValue

variable {cs : List Cookie} {key value : Bytes}

theorem exists_of_lastValue_eq (h : lastValue cs key = some value) :
    ∃ c ∈ cs, c.name = key ∧ c.value = value := by
  obtain ⟨c, hc, rfl⟩ := Option.map_eq_some_iff.mp h
  have hname := (List.find?_eq_some_iff_append.mp hc).1
  exact ⟨c, List.mem_reverse.mp (List.mem_of_find?_eq_some hc), beq_iff_eq.mp hname, rfl⟩

theorem isSome_lastValue {c : Cookie} (h : c ∈ cs) : (lastValue cs c.name).isSome := by
  rw [lastValue, Option.isSome_map, List.find?_isSome]
  exact ⟨c, List.mem_reverse.mpr h, beq_self_eq_true _⟩

theorem lastValue_append (cs cs' : List Cookie) (key : Bytes) :
    lastValue (cs ++ cs') key = (lastValue cs' key).or (lastValue cs key) := by
  rw [lastValue, List.reverse_append, List.find?_append, Option.map_or]
  rfl

end LastValue

/-! ## What is stored -/

section Stored

variable {cs : List Cookie}

theorem storeCookies_nil (fuel : ℕ) (cookies : Std.TreeMap Bytes Bytes compare) :
    storeCookies fuel [] cookies = cookies := by
  cases fuel <;> rfl

/-- Cookies that all have a value are stored as they are. -/
theorem parsesCookies_of_forall (h : ∀ c ∈ cs, c.value ≠ []) (s : Socket) :
    ParsesCookies cs { s with cookies := ∅ } := by
  have hstore (fuel : ℕ) (hfuel : (cookieHeader cs).length ≤ fuel) :
      (parseCookiesLoop fuel (cookieHeader cs)).run { s with cookies := ∅ } =
        (.ok (), { s with cookies := insertCookies cs ∅ }) := by
    rw [run_parseCookiesLoop_eq]
    rw [← List.append_nil cs] at hfuel
    obtain ⟨left, -, hleft⟩ := storeCookies_append h [] ∅ hfuel
    rw [List.append_nil] at hleft
    dsimp only
    rw [hleft]
    exact congrArg (fun cookies => (_, { s with cookies })) (storeCookies_nil left _)
  have hlast (key : Bytes) : (insertCookies cs ∅)[key]? = lastValue cs key := by
    rw [getElem?_insertCookies, Std.TreeMap.getElem?_emptyc, Option.or_none]
  refine ⟨_, hstore, hstore _ le_rfl, hlast, fun key value hvalue => ?_⟩
  rw [getCookie]
  dsimp only
  rw [hlast, hvalue]
  rfl

/-- Cookies of which one has no value are not. -/
theorem not_parsesCookies {c : Cookie} (hc : c ∈ cs) (hvalue : c.value = []) (s : Socket) :
    ¬ ParsesCookies cs { s with cookies := ∅ } := by
  rintro ⟨s', -, hrun, hstores, -⟩
  -- the first cookie without a value
  obtain ⟨good, bad, rest, rfl, hgood, hbad⟩ : ∃ good bad rest, cs = good ++ bad :: rest ∧
      (∀ c ∈ good, c.value ≠ []) ∧ bad.value = [] := by
    have hfind : (cs.find? fun c => c.value == []).isSome :=
      List.find?_isSome.mpr ⟨c, hc, beq_iff_eq.mpr hvalue⟩
    obtain ⟨bad, hfind⟩ := Option.isSome_iff_exists.mp hfind
    obtain ⟨hbad, good, rest, rfl, hgood⟩ := List.find?_eq_some_iff_append.mp hfind
    refine ⟨good, bad, rest, rfl, fun c hc => ?_, beq_iff_eq.mp hbad⟩
    simpa using hgood c hc
  obtain ⟨left, hleft, hstore⟩ := storeCookies_append hgood (bad :: rest) ∅ le_rfl
  rw [parseCookies, run_parseCookiesLoop_eq] at hrun
  obtain rfl := (Prod.mk.inj hrun).2
  dsimp only at hstores
  rw [hstore] at hstores
  obtain ⟨left, rfl⟩ := Nat.exists_eq_add_one_of_ne_zero (n := left) (by
    have hlength : (cookieHeader (bad :: rest)).length ≠ 0 := by
      rw [ne_eq, List.length_eq_zero_iff]
      cases rest <;> simp [cookieHeader_singleton, cookieHeader_cons_cons]
    omega)
  rw [storeCookies, cstr_eq_self (zero_notMem_cookieHeader _)] at hstores
  obtain ⟨hempty, hnone⟩ | ⟨found, name, value, hfound, hsemicolon⟩ := searchCookie_empty hbad rest
  · -- nothing is stored any more, so the cookie is missing or has an earlier value
    rw [hnone] at hstores
    have hstored := hstores bad.name
    dsimp only at hstored
    obtain ⟨value, hlast⟩ := Option.isSome_iff_exists.mp
      (isSome_lastValue (List.mem_cons_self : bad ∈ bad :: rest))
    rw [getElem?_insertCookies, Std.TreeMap.getElem?_emptyc, Option.or_none, lastValue_append,
      hlast, Option.some_or] at hstored
    obtain ⟨c', hc', -, rfl⟩ := exists_of_lastValue_eq hlast
    obtain ⟨c'', hc'', -, hvalue''⟩ := exists_of_lastValue_eq hstored
    exact hgood c'' hc'' (hvalue''.trans (hempty c' hc'))
  · -- a name with a separator is stored
    rw [hfound] at hstores
    dsimp only at hstores
    have hlast : (lastValue (good ++ bad :: rest) name).isSome := by
      rw [← hstores name]
      refine isSome_storeCookies ?_ left _
      rw [Std.TreeMap.getElem?_insert_self]
      rfl
    obtain ⟨value', hlast⟩ := Option.isSome_iff_exists.mp hlast
    obtain ⟨c', -, rfl, -⟩ := exists_of_lastValue_eq hlast
    exact c'.semicolon_notMem_name hsemicolon

/-- A header is parsed into its cookies exactly if none of them has an empty value. -/
theorem parsesCookies_iff (cs : List Cookie) (s : Socket) :
    ParsesCookies cs { s with cookies := ∅ } ↔ ∀ c ∈ cs, c.value ≠ [] :=
  ⟨fun h _ hc hvalue => not_parsesCookies hc hvalue s h, fun h => parsesCookies_of_forall h s⟩

end Stored

/-! ## An empty value -/

/-- The cookies of `a=; b=2`. -/
def emptyCookie : List Cookie :=
  [⟨ascii "a", [], by decide, by decide, by decide, by decide, by decide, by decide⟩,
    ⟨ascii "b", ascii "2", by decide, by decide, by decide, by decide, by decide, by decide⟩]

/-- The cookie `b` is stored under another name. -/
theorem not_parsesCookies_emptyCookie :
    ((parseCookies (cookieHeader emptyCookie)).run {}).2.cookies[ascii "; b"]? =
        some (ascii "2") ∧
      ¬ ParsesCookies emptyCookie {} := by
  refine ⟨?_, not_parsesCookies List.mem_cons_self rfl {}⟩
  rw [parseCookies, run_parseCookiesLoop_eq, show cookieHeader emptyCookie = ascii "a=; b=2" by rfl]
  decide +kernel

end VplJail.Socket
