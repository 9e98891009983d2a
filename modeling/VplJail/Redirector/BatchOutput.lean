import VplJail.Redirector.Redirector

/-!
# The output of a batch execution

`addOutput` keeps what a program writes in `netbuf`, and cuts the middle out of it when it becomes
too large. However often it cuts, the buffer holds the start of the output, one notice, and the end
(`keeps_addOutputs`).
-/

namespace VplJail

open Util

/-- A redirector without a client, whose buffer may have been cut. -/
structure BatchRedirector extends Redirector Unit where
  outputBufferCuted : Bool := false

namespace BatchRedirector

open Redirector (bufferSizeLimit addMessage)

/-- `Util::bytesToMemSize`: a size in the largest unit that it has 16 of. -/
def bytesToMemSize (bytes : ℤ) : Bytes :=
  if 16 * 1024 ^ 3 ≤ bytes then itos (bytes / 1024 ^ 3) ++ ascii "G"
  else if 16 * 1024 ^ 2 ≤ bytes then itos (bytes / 1024 ^ 2) ++ ascii "M"
  else if 16 * 1024 ≤ bytes then itos (bytes / 1024) ++ ascii "K"
  else itos bytes ++ ascii "B"

/-- `limitStr`: the limit of a buffer, with its unit. -/
def limitStr : Bytes :=
  bytesToMemSize bufferSizeLimit

/-- `text`, the notice of a cut. -/
def notice : Bytes :=
  ascii "\n=============== output cut to " ++ limitStr ++ ascii " =============\n"

/-- The constructor. -/
def initial : BatchRedirector := { client := (), state := .error }

/-- The message of a cut, which is added to the first one only. -/
def reportCut (r : BatchRedirector) : BatchRedirector :=
  if r.outputBufferCuted then r
  else
    ⟨addMessage (ascii "program output has been limited to " ++ limitStr) r.toRedirector, true⟩

@[simp]
theorem reportCut_netbuf (r : BatchRedirector) : (reportCut r).netbuf = r.netbuf := by
  unfold reportCut
  split <;> rfl

@[simp]
theorem reportCut_noOutput (r : BatchRedirector) : (reportCut r).noOutput = r.noOutput := by
  unfold reportCut
  split <;> rfl

theorem reportCut_of_cut {r : BatchRedirector} (h : r.outputBufferCuted = true) :
    reportCut r = r :=
  if_pos h

/-- `addOutput`. The size of the output is converted to `int`. -/
def addOutput (r : BatchRedirector) (toAdd : Bytes) : BatchRedirector :=
  if toAdd = [] then r
  else if 2 * (bufferSizeLimit : ℤ) <
      ((r.netbuf.length + toAdd.length : ℕ) : ℤ).bmod (2 ^ 32) then
    let overflow := r.netbuf ++ toAdd
    let netbuf := overflow.take (bufferSizeLimit / 2) ++ notice ++
      (overflow.drop (overflow.length - bufferSizeLimit / 2)).take (bufferSizeLimit / 2)
    reportCut { r with noOutput := false, netbuf := netbuf }
  else { r with noOutput := false, netbuf := r.netbuf ++ toAdd }

/-! ## What is kept -/

/-- What the object holds once the program has written `S`. -/
structure Keeps (S : Bytes) (r : BatchRedirector) : Prop where
  silent : r.noOutput = true ↔ S = []
  size : r.netbuf.length ≤ 2 * bufferSizeLimit
  whole : S.length ≤ 2 * bufferSizeLimit →
    r.netbuf = S ∧ r.messageBuf = [] ∧ r.outputBufferCuted = false
  cut : 2 * bufferSizeLimit < S.length →
    (∃ tail, tail <:+ S ∧ bufferSizeLimit / 2 ≤ tail.length ∧
      r.netbuf = S.take (bufferSizeLimit / 2) ++ notice ++ tail) ∧
    r.messageBuf = (reportCut initial).messageBuf ∧ r.outputBufferCuted = true

/-- The notice is short. -/
theorem length_notice : notice.length ≤ bufferSizeLimit := by
  decide +kernel

theorem keeps_initial : Keeps [] initial where
  silent := iff_of_true rfl rfl
  size := Nat.zero_le _
  whole := fun _ => ⟨rfl, rfl, rfl⟩
  cut := fun h => absurd h (Nat.not_lt_zero _)

/-- The last bytes of what ends with the end of an output. -/
theorem suffix_drop {S l tail chunk : Bytes} (htail : tail <:+ S) {n : ℕ}
    (hn : n ≤ (tail ++ chunk).length) :
    (l ++ tail ++ chunk).drop ((l ++ tail ++ chunk).length - n) <:+ S ++ chunk := by
  have hlength : (l ++ (tail ++ chunk)).length - n =
      l.length + ((tail ++ chunk).length - n) := by
    rw [List.length_append]
    omega
  rw [List.append_assoc, hlength, List.drop_append, List.drop_eq_nil_of_le (by omega),
    List.nil_append, Nat.add_sub_cancel_left]
  obtain ⟨front, rfl⟩ := htail
  refine (List.drop_suffix _ _).trans ⟨front, ?_⟩
  rw [List.append_assoc]

section Step

variable {S chunk : Bytes} {r : BatchRedirector}

/-- The size of a chunk leaves the size of the output in an `int`. -/
theorem bmod_size (h : Keeps S r) (hchunk : chunk.length < 2 ^ 30) :
    ((r.netbuf.length + chunk.length : ℕ) : ℤ).bmod (2 ^ 32) =
      r.netbuf.length + chunk.length := by
  have hsize := h.size
  have hlimit : bufferSizeLimit = 10 * 1024 * 1024 := rfl
  rw [Nat.cast_add]
  exact Int.bmod_eq_of_le (by omega) (by omega)

/-- The last bytes of the output that a cut keeps. -/
def lastBytes (overflow : Bytes) : Bytes :=
  (overflow.drop (overflow.length - bufferSizeLimit / 2)).take (bufferSizeLimit / 2)

theorem length_lastBytes {overflow : Bytes} (h : bufferSizeLimit / 2 ≤ overflow.length) :
    (lastBytes overflow).length = bufferSizeLimit / 2 := by
  rw [lastBytes, List.length_take, List.length_drop]
  omega

theorem lastBytes_eq (overflow : Bytes) :
    lastBytes overflow = overflow.drop (overflow.length - bufferSizeLimit / 2) := by
  rw [lastBytes, List.take_of_length_le]
  rw [List.length_drop]
  omega

/-- What a cut keeps comes from the output, whether or not the buffer has been cut before. -/
theorem kept_of_keeps (h : Keeps S r) :
    (r.netbuf ++ chunk).take (bufferSizeLimit / 2) = (S ++ chunk).take (bufferSizeLimit / 2) ∧
      lastBytes (r.netbuf ++ chunk) <:+ S ++ chunk := by
  rw [lastBytes_eq]
  by_cases hS : S.length ≤ 2 * bufferSizeLimit
  · obtain ⟨hnetbuf, -, -⟩ := h.whole hS
    rw [hnetbuf]
    exact ⟨rfl, List.drop_suffix _ _⟩
  · obtain ⟨⟨tail, htail, hlength, hnetbuf⟩, -, -⟩ := h.cut (Nat.lt_of_not_le hS)
    have hhead : (S.take (bufferSizeLimit / 2)).length = bufferSizeLimit / 2 := by
      rw [List.length_take]
      omega
    rw [hnetbuf]
    constructor
    · rw [List.append_assoc, List.append_assoc, List.take_left' hhead,
        List.take_append_of_le_length (by omega)]
    · refine suffix_drop htail ?_
      rw [List.length_append]
      omega

/-- A chunk that makes the buffer too large. -/
theorem Keeps.cutOutput (h : Keeps S r)
    (hlarge : 2 * bufferSizeLimit < r.netbuf.length + chunk.length) (hne : S ++ chunk ≠ []) :
    Keeps (S ++ chunk) (reportCut { r with
      noOutput := false
      netbuf := (r.netbuf ++ chunk).take (bufferSizeLimit / 2) ++ notice ++
        lastBytes (r.netbuf ++ chunk) }) := by
  have hnotice := length_notice
  obtain ⟨hhead, htail⟩ := kept_of_keeps h
  have hlast : (lastBytes (r.netbuf ++ chunk)).length = bufferSizeLimit / 2 := by
    apply length_lastBytes
    rw [List.length_append]
    omega
  -- a buffer that has not been cut is the output, and one that has been cut stands for more
  have hbig : 2 * bufferSizeLimit < (S ++ chunk).length := by
    rw [List.length_append]
    by_cases hS : S.length ≤ 2 * bufferSizeLimit
    · rw [← (h.whole hS).1]
      exact hlarge
    · omega
  rw [hhead]
  refine ⟨?_, ?_, fun hsmall => absurd hbig (Nat.not_lt_of_le hsmall), fun _ => ?_⟩
  · exact iff_of_false (by simp) hne
  · have hsize : ((S ++ chunk).take (bufferSizeLimit / 2) ++ notice ++
        lastBytes (r.netbuf ++ chunk)).length ≤ 2 * bufferSizeLimit := by
      rw [List.length_append, List.length_append, List.length_take, hlast]
      omega
    rwa [reportCut_netbuf]
  · by_cases hS : S.length ≤ 2 * bufferSizeLimit
    · obtain ⟨-, hmessage, hcuted⟩ := h.whole hS
      refine ⟨⟨_, htail, hlast.ge, by rw [reportCut_netbuf]⟩, ?_, ?_⟩
      · simp [reportCut, hcuted, addMessage, hmessage, initial]
      · simp [reportCut, hcuted]
    · obtain ⟨-, hmessage, hcuted⟩ := h.cut (Nat.lt_of_not_le hS)
      refine ⟨⟨_, htail, hlast.ge, by rw [reportCut_netbuf]⟩, ?_, ?_⟩
      · rw [← hmessage, reportCut_of_cut]
        exact hcuted
      · rw [reportCut_of_cut] <;> exact hcuted

/-- A chunk that the buffer has room for. -/
theorem Keeps.appendOutput (h : Keeps S r)
    (hsmall : r.netbuf.length + chunk.length ≤ 2 * bufferSizeLimit) (hne : S ++ chunk ≠ []) :
    Keeps (S ++ chunk) { r with noOutput := false, netbuf := r.netbuf ++ chunk } := by
  have hsize : (r.netbuf ++ chunk).length ≤ 2 * bufferSizeLimit := by
    rwa [List.length_append]
  refine ⟨iff_of_false (by simp) hne, hsize, fun hS => ?_, fun hS => ?_⟩
  · rw [List.length_append] at hS
    obtain ⟨hnetbuf, hrest⟩ := h.whole (by omega)
    exact ⟨by rw [hnetbuf], hrest⟩
  · -- the buffer is smaller than the output, so that it has been cut before
    by_cases hbefore : S.length ≤ 2 * bufferSizeLimit
    · rw [← (h.whole hbefore).1] at hS
      omega
    · have hbefore := Nat.lt_of_not_le hbefore
      obtain ⟨⟨tail, htail, hlength, hnetbuf⟩, hrest⟩ := h.cut hbefore
      refine ⟨⟨tail ++ chunk, ?_, ?_, ?_⟩, hrest⟩
      · obtain ⟨front, rfl⟩ := htail
        exact ⟨front, (List.append_assoc ..).symm⟩
      · rw [List.length_append]
        omega
      · rw [hnetbuf, List.append_assoc _ tail, List.take_append_of_le_length (by omega)]

/-- A chunk keeps the invariant. -/
theorem Keeps.addOutput (h : Keeps S r) (hchunk : chunk.length < 2 ^ 30) :
    Keeps (S ++ chunk) (addOutput r chunk) := by
  rw [BatchRedirector.addOutput]
  by_cases hempty : chunk = []
  · rw [if_pos hempty, hempty, List.append_nil]
    exact h
  have hne : S ++ chunk ≠ [] := by
    simp [hempty]
  rw [if_neg hempty, bmod_size h hchunk]
  split
  · exact h.cutOutput (by omega) hne
  · exact h.appendOutput (by omega) hne

end Step

/-- Chunks keep the invariant. -/
theorem Keeps.foldl {S : Bytes} {r : BatchRedirector} (h : Keeps S r) (chunks : List Bytes)
    (hchunks : ∀ chunk ∈ chunks, chunk.length < 2 ^ 30) :
    Keeps (S ++ chunks.flatten) (chunks.foldl BatchRedirector.addOutput r) := by
  induction chunks generalizing S r with
  | nil =>
    rw [List.flatten_nil, List.append_nil]
    exact h
  | cons chunk rest ih =>
    rw [List.flatten_cons, ← List.append_assoc]
    refine ih (h.addOutput (hchunks chunk List.mem_cons_self)) fun chunk' hchunk' => ?_
    exact hchunks chunk' (List.mem_cons_of_mem _ hchunk')

/-- Whatever a program writes, the buffer is the whole output while this is not too large, and then
the start of it, one notice, and the end. -/
theorem keeps_addOutputs (chunks : List Bytes) (h : ∀ chunk ∈ chunks, chunk.length < 2 ^ 30) :
    Keeps chunks.flatten (chunks.foldl addOutput initial) :=
  keeps_initial.foldl chunks h

theorem keeps_addOutputs_hello :
    (∀ chunk ∈ [ascii "Hello, ", ascii "world"], chunk.length < 2 ^ 30) ∧
      Keeps (ascii "Hello, world")
        ([ascii "Hello, ", ascii "world"].foldl addOutput initial) :=
  have h : ∀ chunk ∈ [ascii "Hello, ", ascii "world"], chunk.length < 2 ^ 30 := by
    decide +kernel
  ⟨h, keeps_addOutputs _ h⟩

end BatchRedirector

end VplJail
