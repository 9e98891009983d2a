import VplJail.Json.Completeness

/-!
# Strings written without escapes

What the readers make of bytes that are put between quotation marks as they are: decoding leaves no
more backslashes and, where it leaves as many, no more bytes. It gives back the bytes themselves only
if there is nothing to escape in them.
-/

namespace VplJail.Json

open Rpc Util

variable {u : Uninit}

/-- A byte that stands for itself. -/
def IsPlain (b : UInt8) : Prop :=
  b ≠ 34 ∧ b ≠ 92

instance (b : UInt8) : Decidable (IsPlain b) :=
  inferInstanceAs (Decidable (_ ∧ _))

theorem escaped_of_isPlain {s : Bytes} (h : ∀ b ∈ s, IsPlain b) : Escaped s s := by
  have happend := Escaped.append_plain h .nil
  rwa [List.append_nil] at happend

/-! ## Decoding never grows -/

/-- How what is decoded compares with its text: it has fewer backslashes, or as many and fewer bytes,
or it is the text and has nothing to decode. -/
def Shrinks (out text : Bytes) : Prop :=
  out.count 92 < text.count 92 ∨ (out.count 92 = text.count 92 ∧ out.length < text.length) ∨
    (out = text ∧ ∀ b ∈ text, IsPlain b)

theorem Shrinks.count_le {out text : Bytes} (h : Shrinks out text) :
    out.count 92 ≤ text.count 92 ∧ (out.count 92 = text.count 92 → out.length ≤ text.length) := by
  rcases h with h | ⟨heq, hlength⟩ | ⟨rfl, -⟩
  · exact ⟨h.le, fun heq => absurd heq h.ne⟩
  · exact ⟨heq.le, fun _ => hlength.le⟩
  · exact ⟨le_rfl, fun _ => le_rfl⟩

/-- An escape shrinks: only `\u005c` leaves a backslash, and it leaves nothing else. -/
theorem Shrinks.escape {chars out rest text : Bytes} {e : UInt8} (h : Shrinks out rest)
    (hrest : rest <:+ text) (hchars : 92 ∈ chars → chars = [92]) :
    Shrinks (chars ++ out) (92 :: e :: text) := by
  obtain ⟨hcount, hlength⟩ := h.count_le
  have hsub := hrest.sublist.count_le 92
  have hsub' := hrest.sublist.length_le
  have htext : (92 :: e :: text).count 92 ≥ 1 + text.count 92 := by
    rw [List.count_cons_self, List.count_cons]
    omega
  by_cases hmem : 92 ∈ chars
  · rw [hchars hmem]
    by_cases heq : ([92] ++ out).count 92 = (92 :: e :: text).count 92
    · refine .inr (.inl ⟨heq, ?_⟩)
      have hout : ([92] ++ out).count 92 = out.count 92 + 1 := List.count_cons_self
      have := hlength (by omega)
      simp only [List.singleton_append, List.length_cons]
      omega
    · refine .inl (lt_of_le_of_ne ?_ heq)
      have hout : ([92] ++ out).count 92 = out.count 92 + 1 := List.count_cons_self
      omega
  · refine .inl ?_
    rw [List.count_append, List.count_eq_zero.mpr hmem]
    omega

theorem Shrinks.plain {out text : Bytes} {b : UInt8} (hb : IsPlain b) (h : Shrinks out text) :
    Shrinks (b :: out) (b :: text) := by
  rcases h with h | ⟨heq, hlength⟩ | ⟨rfl, hplain⟩
  · exact .inl (by simpa [List.count_cons] using h)
  · exact .inr (.inl (by simpa [List.count_cons] using ⟨heq, hlength⟩))
  · exact .inr (.inr ⟨rfl, List.forall_mem_cons.mpr ⟨hb, hplain⟩⟩)

/-- A byte of several for one character is none of ASCII. -/
theorem lowByte_ne {n : ℕ} (h : 128 ≤ n ∧ n < 256) : lowByte n ≠ 92 := by
  intro heq
  have hnat := congrArg UInt8.toNat heq
  rw [lowByte, UInt8.toNat_ofNat', Nat.mod_eq_of_lt h.2] at hnat
  have : (92 : UInt8).toNat = 92 := rfl
  omega

/-- A `\u` escape leaves a backslash alone or none, and the reading goes on. -/
theorem decodeHexaUnicode_spec {data : Bytes} {i : ℕ} (hi : i ≤ data.length) :
    (92 ∈ (decodeHexaUnicode u data i).1 → (decodeHexaUnicode u data i).1 = [92]) ∧
      i ≤ (decodeHexaUnicode u data i).2 + 1 := by
  have hreplacement : (92 : UInt8) ∉ replacement := by decide
  rw [decodeHexaUnicode]
  dsimp only
  generalize readHex (u i) ((data.drop i).take 4) = unicode
  generalize readHex (u (i + 6)) ((data.drop (i + 6)).take 4) = lowSu
  split
  · exact ⟨fun h => absurd h hreplacement, by omega⟩
  split
  · exact ⟨fun h => by rw [List.mem_singleton.mp h], by omega⟩
  split
  · refine ⟨fun h => absurd h ?_, by omega⟩
    simp [(lowByte_ne (n := unicode / 64 % 32 + 0xC0) (by omega)).symm,
      (lowByte_ne (n := unicode % 64 + 0x80) (by omega)).symm]
  split
  · split
    · exact ⟨fun h => absurd h hreplacement, by omega⟩
    split
    · exact ⟨fun h => absurd h (fun h => (List.mem_append.mp h).elim hreplacement hreplacement),
        by omega⟩
    · refine ⟨fun h => absurd h ?_, by omega⟩
      generalize 1024 * (unicode % 1024) + lowSu % 1024 + 0x10000 = n
      simp [(lowByte_ne (n := n / 262144 % 8 + 0xF0) (by omega)).symm,
        (lowByte_ne (n := n / 4096 % 64 + 0x80) (by omega)).symm,
        (lowByte_ne (n := n / 64 % 64 + 0x80) (by omega)).symm,
        (lowByte_ne (n := n % 64 + 0x80) (by omega)).symm]
  split
  · exact ⟨fun h => absurd h hreplacement, by omega⟩
  · refine ⟨fun h => absurd h ?_, by omega⟩
    simp [(lowByte_ne (n := unicode / 4096 % 16 + 0xE0) (by omega)).symm,
      (lowByte_ne (n := unicode / 64 % 64 + 0x80) (by omega)).symm,
      (lowByte_ne (n := unicode % 64 + 0x80) (by omega)).symm]

/-- Decoding shrinks. -/
theorem decodeFrom_shrinks {data : Bytes} {limit : ℕ} (hlimit : limit ≤ data.length) {fuel i : ℕ}
    {out : Bytes} (h : decodeFrom u data limit fuel i = .ok out) : Shrinks out (part data i limit) := by
  induction fuel generalizing i out with
  | zero => cases h
  | succ fuel ih =>
    rw [decodeFrom] at h
    split at h
    · obtain rfl := Except.ok.inj h
      rw [part_of_le ‹_›]
      exact .inr (.inr ⟨rfl, fun _ h => absurd h List.not_mem_nil⟩)
    rename_i hi
    rw [part_of_lt (by omega) hlimit]
    split at h
    · rename_i hbackslash
      rw [hbackslash]
      split at h
      · -- a backslash at the end of the text is dropped
        obtain rfl := Except.ok.inj h
        exact .inl (by simp)
      rename_i hi'
      rw [part_of_lt (by omega) hlimit]
      split at h
      · obtain ⟨hchars, hnext⟩ := decodeHexaUnicode_spec (show i + 1 + 1 ≤ data.length by omega)
        generalize decodeHexaUnicode u data (i + 1 + 1) = r at h hchars hnext
        obtain ⟨chars, j⟩ := r
        dsimp only at h hchars hnext
        cases hout : decodeFrom u data limit fuel (j + 1) with
        | error e =>
          rw [hout] at h
          cases h
        | ok rest =>
          rw [hout] at h
          obtain rfl := Except.ok.inj h
          exact (ih hout).escape (part_suffix (by omega)) hchars
      · split at h
        · rename_i b hb
          cases hout : decodeFrom u data limit fuel (i + 1 + 1) with
          | error e =>
            rw [hout] at h
            cases h
          | ok rest =>
            rw [hout] at h
            obtain rfl := Except.ok.inj h
            have hone : 92 ∈ [b] → [b] = [92] := fun hmem => by rw [List.mem_singleton.mp hmem]
            exact (ih hout).escape List.suffix_rfl hone
        · cases h
    · rename_i hbackslash
      split at h
      · -- a quotation mark ends the text
        rename_i hquote
        obtain rfl := Except.ok.inj h
        rw [hquote]
        by_cases hcount : (34 :: part data (i + 1) limit).count 92 = 0
        · exact .inr (.inl ⟨hcount.symm, Nat.succ_pos _⟩)
        · exact .inl (Nat.pos_of_ne_zero hcount)
      · rename_i hquote
        cases hout : decodeFrom u data limit fuel (i + 1) with
        | error e =>
          rw [hout] at h
          cases h
        | ok rest =>
          rw [hout] at h
          obtain rfl := Except.ok.inj h
          exact (ih hout).plain ⟨hquote, hbackslash⟩

/-! ## Between quotation marks -/

/-- The scan ends at a quotation mark. -/
theorem scanString_spec {raw : Bytes} {fuel offset place : ℕ}
    (h : scanString raw fuel offset = .ok place) :
    offset ≤ place ∧ place < raw.length ∧ charAt raw place = 34 := by
  induction fuel generalizing offset with
  | zero => cases h
  | succ fuel ih =>
    rw [scanString] at h
    split at h
    · cases h
    split at h
    · split at h
      · cases h
      split at h
      · obtain ⟨hle, hrest⟩ := ih h
        exact ⟨by omega, hrest⟩
      · obtain ⟨hle, hrest⟩ := ih h
        exact ⟨by omega, hrest⟩
    split at h
    · obtain rfl := Except.ok.inj h
      exact ⟨le_rfl, by omega, ‹_›⟩
    · obtain ⟨hle, hrest⟩ := ih h
      exact ⟨by omega, hrest⟩

/-- The last string of a text, written as it is: if it is read back, there is nothing to escape in
it. -/
theorem isPlain_of_read {raw s : Bytes} {offset place : ℕ} (hdrop : raw.drop offset = s ++ [34, 125])
    (hscan : scanString raw (raw.length + 1) offset = .ok place)
    (hread : decodeJSONString u raw offset (place - offset) = .ok s) : ∀ b ∈ s, IsPlain b := by
  obtain ⟨hle, hlt, hchar⟩ := scanString_spec hscan
  have hlength := length_of_drop hdrop (by simp)
  simp only [List.length_append, List.length_cons, List.length_nil] at hlength
  have hplace : place - offset ≤ s.length := by
    by_contra hgt
    obtain rfl : place = offset + s.length + 1 := by omega
    have hlast : raw.drop (offset + s.length + 1) = [125] :=
      drop_of_cons (drop_of_append hdrop rfl)
    rw [charAt_of_drop hlast] at hchar
    cases hchar
  have hpart : part raw offset place = s.take (place - offset) := by
    rw [part, hdrop, List.take_append_of_le_length hplace]
  have hshrinks : Shrinks s (s.take (place - offset)) := by
    rw [decodeJSONString, Nat.add_sub_cancel' hle] at hread
    rw [← hpart]
    rw [if_pos hlt.le] at hread
    exact decodeFrom_shrinks hlt.le hread
  have hcount := (List.take_sublist (place - offset) s).count_le 92
  have hlen := (List.take_sublist (place - offset) s).length_le
  rcases hshrinks with h | ⟨-, h⟩ | ⟨heq, hplain⟩
  · omega
  · omega
  · rwa [← heq] at hplain

/-- A member whose value starts with a quotation mark: the value ends where the scan finds the next
one. -/
theorem processObject_unescaped {raw key name tail : Bytes} {fuel offset last : ℕ}
    {ts : List ParseNode} (hkey : Escaped key name)
    (hdrop : raw.drop offset = 34 :: (name ++ 34 :: 58 :: 34 :: tail))
    (h : processObject u raw fuel offset = .ok (ts, last)) :
    ∃ start place rest, raw.drop start = tail ∧
      scanString raw (raw.length + 1) start = .ok place ∧
      ts = .mk key start (place - start) [] :: rest := by
  have hok {α β : Type} (a : α) (f : α → Except Thrown β) : (Except.ok a >>= f) = f a := rfl
  have hlength := length_of_drop hdrop (List.cons_ne_nil _ _)
  rw [List.length_cons] at hlength
  have hskip {i : ℕ} {b : UInt8} {rest : Bytes} (hb : isWhiteSpace b = false)
      (hi : raw.drop i = b :: rest) : ignoreWhiteSpaces raw i = .ok i :=
    (ignoreWhiteSpaces_of_drop isWhitespace_nil hb hi).1
  cases fuel with
  | zero => cases h
  | succ fuel =>
  rw [processObject, if_neg (by omega), hskip rfl hdrop, hok, charAt_of_drop hdrop,
    if_neg (by decide), if_pos rfl] at h
  cases fuel with
  | zero => cases h
  | succ fuel =>
  obtain ⟨t, hnode, -, hname, hnext⟩ := processNode_string fuel hkey hdrop
  -- behind the colon the value is read up to the first quote that the scan takes for its end
  have hvalue' := drop_of_cons hnext
  rw [hnode, hok] at h
  dsimp only at h
  rw [hskip rfl hnext, hok, charAt_of_drop hnext, if_neg (by decide), hskip rfl hvalue', hok,
    processNode, charAt_of_drop hvalue', if_neg (by decide), if_neg (by decide), if_pos rfl] at h
  obtain ⟨⟨value, next⟩, hstring, h⟩ := exists_of_bind_eq_ok h
  obtain ⟨place, hscan, hvalue⟩ := exists_of_bind_eq_ok hstring
  obtain ⟨rfl, rfl⟩ := Prod.mk.inj (Except.ok.inj hvalue)
  refine ⟨offset + 1 + name.length + 1 + 1 + 1, place, ?_⟩
  dsimp only at h
  rw [hname, hok] at h
  obtain ⟨o, -, h⟩ := exists_of_bind_eq_ok h
  have hts : ∃ rest, ts = .mk key (offset + 1 + name.length + 1 + 1 + 1)
      (place - (offset + 1 + name.length + 1 + 1 + 1)) [] :: rest := by
    split at h
    · obtain ⟨r, -, h⟩ := exists_of_bind_eq_ok h
      exact ⟨r.1, (Prod.mk.inj (Except.ok.inj h)).1.symm⟩
    split at h
    · cases h
    · obtain ⟨r, -, h⟩ := exists_of_bind_eq_ok h
      exact ⟨r.1, (Prod.mk.inj (Except.ok.inj h)).1.symm⟩
  obtain ⟨rest, hts⟩ := hts
  exact ⟨rest, drop_of_cons hvalue', hscan, hts⟩

/-! ## The turns that led to a tree -/

theorem exists_of_parse_object {raw rest : Bytes} {root : ParseNode} (hraw : raw = 123 :: rest)
    (h : parse u raw = .ok root) :
    ∃ last, processObject u raw (2 * raw.length + 3) 1 = .ok (root.children, last) := by
  have hdrop : raw.drop 0 = 123 :: rest := hraw
  obtain ⟨o, hskip, h⟩ := exists_of_bind_eq_ok h
  have hzero : ignoreWhiteSpaces raw 0 = .ok 0 :=
    (ignoreWhiteSpaces_of_drop isWhitespace_nil rfl hdrop).1
  rw [hzero] at hskip
  obtain rfl := Except.ok.inj hskip
  obtain ⟨⟨root', next⟩, hnode, hroot⟩ := exists_of_bind_eq_ok h
  obtain rfl := Except.ok.inj hroot
  rw [fuelOf, processNode, charAt_of_drop hdrop, if_pos rfl] at hnode
  obtain ⟨⟨children, last⟩, hchildren, hmk⟩ := exists_of_bind_eq_ok hnode
  obtain ⟨rfl, -⟩ := Prod.mk.inj (Except.ok.inj hmk)
  exact ⟨last, hchildren⟩

/-- The first member and what was read behind its comma. -/
theorem exists_of_member {σ : Type} {enc : σ → Bytes} {lit : σ → Bytes → Prop}
    {raw name text rest : Bytes} {k : σ} {v : Value σ} {fuel offset last : ℕ} {ts : List ParseNode}
    (hlit : ∀ s text, lit s text → Escaped (enc s) text) (hk : Escaped (enc k) name)
    (htext : Text lit v text) (hfuel : 2 * text.length ≤ fuel)
    (hdrop : raw.drop offset = 34 :: (name ++ 34 :: 58 :: (text ++ 44 :: rest)))
    (h : processObject u raw (fuel + 1) offset = .ok (ts, last)) :
    ∃ t ts' next, ts = t :: ts' ∧ processObject u raw fuel next = .ok (ts', last) ∧
      raw.drop next = rest := by
  obtain ⟨t, next, hturn, -, hnext, -⟩ := member_parses isWhitespace_nil hk isWhitespace_nil
    isWhitespace_nil htext (nodeParses hlit htext) isWhitespace_nil hdrop (.inl rfl) hfuel
  rw [hturn, if_pos rfl] at h
  cases hrest : processObject u raw fuel (next + 1) with
  | error e =>
    rw [hrest] at h
    cases h
  | ok r =>
    rw [hrest] at h
    obtain ⟨rfl, rfl⟩ := Prod.mk.inj (Except.ok.inj h)
    exact ⟨_, r.1, next + 1, rfl, hrest, drop_of_cons hnext⟩

end VplJail.Json
