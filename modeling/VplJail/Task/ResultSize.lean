import VplJail.Task.Operations

/-!
# The size of results

`getResult` cuts the middle out of an output that is too long. `limitResultSize` measures it by
`REQUEST_MAX_SIZE`, not by `RESULT_MAX_SIZE`, and adds its notice twice to what it keeps, so the two
sizes decide together which results are right (`respectsSizes_iff_fits`).
-/

namespace VplJail.Task

open Util

/-- A configuration with its two sizes, `int`s of 1 Kb or more. -/
structure SizedConfiguration extends Configuration where
  resultMaxSize : ℤ
  requestMaxSize_range : 1024 ≤ requestMaxSize ∧ requestMaxSize < 2 ^ 31
  resultMaxSize_range : 1024 ≤ resultMaxSize ∧ resultMaxSize < 2 ^ 31

/-- The sizes of an empty configuration file. -/
def SizedConfiguration.default : SizedConfiguration :=
  { Configuration.default with
    resultMaxSize := 1024 ^ 2
    requestMaxSize_range := by decide
    resultMaxSize_range := by decide }

/-- The notice of a cut. -/
def cutNotice (cfg : Configuration) (r : Bytes) : Bytes :=
  ascii "\nThis output has been cut to " ++ itos (cfg.requestMaxSize.tdiv 1024) ++
    ascii "Kb, its original size was " ++ itos (r.length / 1024) ++ ascii "Kb\n"

/-- The bytes that a cut keeps at each end. -/
def keptSize (cfg : Configuration) : ℕ :=
  (cfg.requestMaxSize / 2).toNat

/-! ## What a result should be -/

/-- What every notice says. -/
def cutPhrase : Bytes :=
  ascii "This output has been cut to "

/-- A result of at most `limit` bytes that has a start and the end of the output, and says that the
output has been cut. -/
structure IsCutOf (limit : ℤ) (output r : Bytes) : Prop where
  length_le : r.length ≤ limit
  prefix_infix : ∃ p, p ≠ [] ∧ p <+: output ∧ p <:+: r
  suffix_suffix : ∃ s, s ≠ [] ∧ s <:+ output ∧ s <:+ r
  phrase_infix : cutPhrase <:+: r

/-- The result for an output under a limit. -/
def RespectsSize (limit : ℤ) (output r : Bytes) : Prop :=
  if output.length < limit then r = output else IsCutOf limit output r

/-- An output that has the notice in front of its first half and, behind that, of its second half, so
that to cut it changes nothing. -/
def IsOwnCut (cfg : Configuration) (output : Bytes) : Prop :=
  output.length = 2 * (cutNotice cfg output).length + 2 * keptSize cfg ∧
    output.take (2 * (cutNotice cfg output).length + keptSize cfg) =
      cutNotice cfg output ++ output.take (keptSize cfg) ++ cutNotice cfg output

/-- An output for which the two sizes go together: it is shorter than both, or it is cut, and what is
kept of it and the two notices fit into `RESULT_MAX_SIZE`. The two other cases are those of an output
that has the look of a cut one from the start. -/
def Fits (cfg : SizedConfiguration) (output : Bytes) : Prop :=
  if output.length < cfg.requestMaxSize then
    output.length < cfg.resultMaxSize ∨
      (output.length = cfg.resultMaxSize ∧ cutPhrase <:+: output)
  else if output.length < cfg.resultMaxSize then IsOwnCut cfg.toConfiguration output
  else 2 * ((cutNotice cfg.toConfiguration output).length + keptSize cfg.toConfiguration : ℤ) ≤
    cfg.resultMaxSize

/-! ## The cut -/

section Cut

variable {cfg : Configuration} {r : Bytes}

/-- An output without its middle. -/
def cutMiddle (cfg : Configuration) (r : Bytes) : Bytes :=
  cutNotice cfg r ++ r.take (keptSize cfg) ++ cutNotice cfg r ++ r.drop (r.length - keptSize cfg)

theorem limitResultSize_of_lt (hrange : 1024 ≤ cfg.requestMaxSize ∧ cfg.requestMaxSize < 2 ^ 31)
    (h : r.length < cfg.requestMaxSize) : limitResultSize cfg r = .ok r := by
  rw [limitResultSize, if_neg]
  · rfl
  · rw [Int.emod_eq_of_lt (by omega) (by omega)]
    omega

theorem limitResultSize_of_ge (hrange : 1024 ≤ cfg.requestMaxSize ∧ cfg.requestMaxSize < 2 ^ 31)
    (hsize : r.length < 2 ^ 64) (h : cfg.requestMaxSize ≤ r.length) :
    limitResultSize cfg r = .ok (cutMiddle cfg r) := by
  have hhalf : cfg.requestMaxSize.tdiv 2 = keptSize cfg := by
    rw [keptSize, Int.tdiv_eq_ediv_of_nonneg (by omega)]
    omega
  have hkept : keptSize cfg ≤ r.length := by
    rw [keptSize]
    omega
  have hstart : (((r.length : ℤ) - keptSize cfg) % 2 ^ 64).toNat = r.length - keptSize cfg := by
    rw [Int.emod_eq_of_lt (by omega) (by omega)]
    omega
  have htake : ((keptSize cfg : ℤ) % 2 ^ 64).toNat = keptSize cfg := by
    rw [Int.emod_eq_of_lt (by omega) (by omega)]
    omega
  rw [limitResultSize, if_pos]
  · dsimp only
    rw [hhalf, hstart, htake, if_neg (by omega)]
    rfl
  · rw [Int.emod_eq_of_lt (by omega) (by omega)]
    omega

theorem length_cutMiddle (h : keptSize cfg ≤ r.length) :
    (cutMiddle cfg r).length = 2 * (cutNotice cfg r).length + 2 * keptSize cfg := by
  simp only [cutMiddle, List.length_append, List.length_take, List.length_drop]
  omega

/-- A cut leaves an output as it is if the output is its own cut. -/
theorem cutMiddle_eq_iff (h : keptSize cfg ≤ r.length) : cutMiddle cfg r = r ↔ IsOwnCut cfg r := by
  have hfront : (cutNotice cfg r ++ r.take (keptSize cfg) ++ cutNotice cfg r).length =
      2 * (cutNotice cfg r).length + keptSize cfg := by
    simp only [List.length_append, List.length_take]
    omega
  constructor
  · intro heq
    have hlength := congrArg List.length heq
    rw [length_cutMiddle h] at hlength
    refine ⟨hlength.symm, ?_⟩
    calc r.take (2 * (cutNotice cfg r).length + keptSize cfg)
        = (cutMiddle cfg r).take (2 * (cutNotice cfg r).length + keptSize cfg) := by rw [heq]
      _ = _ := by rw [cutMiddle, ← hfront, List.take_left]
  · rintro ⟨hlength, hfirst⟩
    rw [cutMiddle, ← hfirst, show r.length - keptSize cfg =
      2 * (cutNotice cfg r).length + keptSize cfg by omega, List.take_append_drop]

theorem cutPhrase_infix_cutNotice (cfg : Configuration) (r : Bytes) :
    cutPhrase <:+: cutNotice cfg r := by
  have hnotice : cutNotice cfg r = [10] ++ cutPhrase ++ (itos (cfg.requestMaxSize.tdiv 1024) ++
      ascii "Kb, its original size was " ++ itos (r.length / 1024) ++ ascii "Kb\n") := by
    rw [cutNotice, show ascii "\nThis output has been cut to " = [10] ++ cutPhrase by decide]
    simp only [List.append_assoc]
  rw [hnotice]
  exact List.infix_append _ _ _

/-- A cut is one of the output, whatever its length. -/
theorem isCutOf_cutMiddle (hkept : 0 < keptSize cfg) (h : keptSize cfg ≤ r.length) {limit : ℤ}
    (hlimit : (cutMiddle cfg r).length ≤ limit) : IsCutOf limit r (cutMiddle cfg r) where
  length_le := hlimit
  prefix_infix := by
    refine ⟨r.take (keptSize cfg), ?_, List.take_prefix _ _, ?_⟩
    · exact List.ne_nil_of_length_pos (by rw [List.length_take]; omega)
    · rw [cutMiddle, List.append_assoc (cutNotice cfg r ++ _)]
      exact List.infix_append _ _ _
  suffix_suffix := by
    refine ⟨r.drop (r.length - keptSize cfg), ?_, List.drop_suffix _ _, List.suffix_append _ _⟩
    exact List.ne_nil_of_length_pos (by rw [List.length_drop]; omega)
  phrase_infix := by
    refine (cutPhrase_infix_cutNotice cfg r).trans ?_
    rw [cutMiddle, List.append_assoc, List.append_assoc]
    exact (List.prefix_append _ _).isInfix

end Cut

/-! ## The two sizes -/

/-- An output as it is returned is right exactly if it fits. -/
theorem respectsSize_iff_fits {cfg : SizedConfiguration} {output : Bytes}
    (hsize : output.length < 2 ^ 64) :
    (∃ r, limitResultSize cfg.toConfiguration output = .ok r ∧
      RespectsSize cfg.resultMaxSize output r) ↔ Fits cfg output := by
  have hresult := cfg.resultMaxSize_range
  have hrequest := cfg.requestMaxSize_range
  have hkept : 0 < keptSize cfg.toConfiguration := by
    rw [keptSize]
    omega
  rw [Fits]
  split
  · rename_i hshort
    -- the output is returned as it is
    rw [limitResultSize_of_lt hrequest hshort]
    constructor
    · rintro ⟨r, hr, hrespects⟩
      obtain rfl := Except.ok.inj hr
      rw [RespectsSize] at hrespects
      split at hrespects
      · exact .inl ‹_›
      · exact .inr ⟨by have := hrespects.length_le; omega, hrespects.phrase_infix⟩
    · intro hfits
      refine ⟨output, rfl, ?_⟩
      rw [RespectsSize]
      split
      · rfl
      · obtain h | ⟨hlength, hphrase⟩ := hfits
        · omega
        · have hne : output ≠ [] := List.ne_nil_of_length_pos (by omega)
          exact ⟨hlength.le, ⟨output, hne, List.prefix_refl _, List.infix_refl _⟩,
            ⟨output, hne, List.suffix_refl _, List.suffix_refl _⟩, hphrase⟩
  · rename_i hlong
    have hhalf : keptSize cfg.toConfiguration ≤ output.length := by
      rw [keptSize]
      omega
    have hlength := length_cutMiddle hhalf
    rw [limitResultSize_of_ge hrequest hsize (not_lt.mp hlong)]
    split
    · rename_i hunder
      rw [← cutMiddle_eq_iff hhalf]
      simp only [RespectsSize, if_pos hunder]
      exact ⟨fun ⟨r, hr, heq⟩ => (Except.ok.inj hr).trans heq, fun h => ⟨_, rfl, h⟩⟩
    · rename_i hover
      simp only [RespectsSize, if_neg hover]
      constructor
      · rintro ⟨r, hr, hcut⟩
        obtain rfl := Except.ok.inj hr
        have := hcut.length_le
        omega
      · exact fun hfits => ⟨_, rfl, isCutOf_cutMiddle hkept hhalf (by omega)⟩

/-! ## The results -/

/-- A finished task, asked with its admin ticket, that has stored both outputs. -/
structure StoresOutputs (cfg : Configuration) (pm : ProcessMonitor) (w : World)
    (compilation execution : Bytes) : Prop where
  security : pm.security = .admin
  interactive : pm.info.interactive = false
  compilation_file : w.files (processControlPath cfg pm.prisoner ++ ascii "/" ++
    ascii "compilation") = some compilation
  execution_file : w.files (processControlPath cfg pm.prisoner ++ ascii "/" ++
    ascii "execution") = some execution
  compilation_size : compilation.length < 2 ^ 64
  execution_size : execution.length < 2 ^ 64

/-- Both strings that `getResult` returns respect `RESULT_MAX_SIZE`. -/
def RespectsSizes (cfg : SizedConfiguration) (pm : ProcessMonitor) (w : World)
    (compilation execution : Bytes) : Prop :=
  ∃ w' c e, getResult cfg.toConfiguration pm w = (w', .ok (c, e, true)) ∧
    RespectsSize cfg.resultMaxSize compilation c ∧ RespectsSize cfg.resultMaxSize execution e

section Results

variable {cfg : SizedConfiguration} {pm : ProcessMonitor} {w : World}
  {compilation execution : Bytes}

/-- The limits never fail. -/
theorem exists_limitResultSize (cfg : SizedConfiguration) {output : Bytes} (hsize : output.length < 2 ^ 64) :
    ∃ r, limitResultSize cfg.toConfiguration output = .ok r := by
  by_cases h : output.length < cfg.requestMaxSize
  · exact ⟨_, limitResultSize_of_lt cfg.requestMaxSize_range h⟩
  · exact ⟨_, limitResultSize_of_ge cfg.requestMaxSize_range hsize (not_lt.mp h)⟩

/-- The output of the execution is still there when that of the compilation has been taken. -/
theorem deletePath_compilation (path : Bytes) (files : Files) :
    deletePath (path ++ ascii "compilation") files (path ++ ascii "execution") =
      files (path ++ ascii "execution") := by
  have hne : path ++ ascii "execution" ≠ cstr (path ++ ascii "compilation") := by
    intro heq
    have hprefix : path ++ ascii "execution" <+: path ++ ascii "compilation" :=
      heq ▸ List.takeWhile_prefix _
    exact absurd ((List.prefix_append_right_inj path).mp hprefix) (by decide)
  rw [deletePath]
  split
  · exact Function.update_of_ne hne _ _
  · rfl

/-- A stored output is taken with its limited text. -/
theorem takeOutput_eq {cfg : Configuration} {uid : ℕ} {name content r : Bytes} {w : World}
    (hfile : w.files (processControlPath cfg uid ++ ascii "/" ++ name) = some content)
    (hr : limitResultSize cfg content = .ok r) :
    takeOutput cfg uid name w =
      ({ w with files := deletePath (processControlPath cfg uid ++ ascii "/" ++ name) w.files },
        .ok (some r)) := by
  rw [takeOutput, hfile]
  dsimp only
  rw [hr]
  rfl

/-- `getResult` returns the limited outputs. -/
theorem getResult_eq (h : StoresOutputs cfg.toConfiguration pm w compilation execution) {c e : Bytes}
    (hc : limitResultSize cfg.toConfiguration compilation = .ok c)
    (he : limitResultSize cfg.toConfiguration execution = .ok e) :
    ∃ w', getResult cfg.toConfiguration pm w = (w', .ok (c, e, true)) := by
  have hcompilation := takeOutput_eq h.compilation_file hc
  have hexecution := takeOutput_eq
    (w := { w with files := deletePath (processControlPath cfg.toConfiguration pm.prisoner ++
      ascii "/" ++ ascii "compilation") w.files })
    ((deletePath_compilation _ _).trans h.execution_file) he
  rw [getResult, if_neg (not_not.mpr h.security), h.interactive, if_neg Bool.false_ne_true,
    hcompilation]
  dsimp only
  rw [hexecution]
  refine ⟨_, Prod.ext rfl (congrArg Except.ok (Prod.ext ?_ rfl))⟩
  exact if_neg fun hempty => Bool.false_ne_true hempty.2

/-- The results are the limited outputs. -/
theorem respectsSizes_iff (h : StoresOutputs cfg.toConfiguration pm w compilation execution) :
    RespectsSizes cfg pm w compilation execution ↔
      (∃ r, limitResultSize cfg.toConfiguration compilation = .ok r ∧
        RespectsSize cfg.resultMaxSize compilation r) ∧
      ∃ r, limitResultSize cfg.toConfiguration execution = .ok r ∧
        RespectsSize cfg.resultMaxSize execution r := by
  obtain ⟨c, hc⟩ := exists_limitResultSize cfg h.compilation_size
  obtain ⟨e, he⟩ := exists_limitResultSize cfg h.execution_size
  obtain ⟨w', hresult⟩ := getResult_eq h hc he
  rw [hc, he, RespectsSizes, hresult]
  constructor
  · rintro ⟨w'', c', e', heq, hrespects, hrespects'⟩
    obtain ⟨hc', heq⟩ := Prod.mk.inj (Except.ok.inj (Prod.mk.inj heq).2)
    exact ⟨⟨c', congrArg Except.ok hc', hrespects⟩,
      ⟨e', congrArg Except.ok (Prod.mk.inj heq).1, hrespects'⟩⟩
  · rintro ⟨⟨c', hc', hrespects⟩, ⟨e', he', hrespects'⟩⟩
    obtain rfl := Except.ok.inj hc'
    obtain rfl := Except.ok.inj he'
    exact ⟨w', c, e, rfl, hrespects, hrespects'⟩

/-- The results are wrong if the output of the compilation does not fit. -/
theorem not_respectsSizes_of_not_fits
    (h : StoresOutputs cfg.toConfiguration pm w compilation execution)
    (hfits : ¬ Fits cfg compilation) : ¬ RespectsSizes cfg pm w compilation execution := fun hsizes =>
  hfits ((respectsSize_iff_fits h.compilation_size).mp ((respectsSizes_iff h).mp hsizes).1)

/-- The results of a finished task are right exactly if its outputs fit. -/
theorem respectsSizes_iff_fits (h : StoresOutputs cfg.toConfiguration pm w compilation execution) :
    RespectsSizes cfg pm w compilation execution ↔ Fits cfg compilation ∧ Fits cfg execution := by
  rw [respectsSizes_iff h, respectsSize_iff_fits h.compilation_size,
    respectsSize_iff_fits h.execution_size]

end Results

/-! ## A long output -/

/-- A finished task of the default configuration. -/
def storedOutputs (compilation execution : Bytes) : World where
  files path :=
    if path = processControlPath .default 10001 ++ ascii "/" ++ ascii "compilation" then
      some compilation
    else some execution
  homes _ := none
  processes _ := []

/-- The process that asks for its results. -/
def batchMonitor : ProcessMonitor :=
  ⟨10001, .admin, { Info.ofData ∅ with interactive := false }⟩

theorem storesOutputs_storedOutputs {compilation execution : Bytes}
    (hcompilation : compilation.length < 2 ^ 64) (hexecution : execution.length < 2 ^ 64) :
    StoresOutputs .default batchMonitor (storedOutputs compilation execution) compilation
      execution where
  security := rfl
  interactive := rfl
  compilation_file := by
    dsimp only [storedOutputs, batchMonitor]
    rw [if_pos rfl]
  execution_file := by
    dsimp only [storedOutputs, batchMonitor]
    rw [if_neg fun heq => absurd (List.append_cancel_left heq) (by decide)]
  compilation_size := hcompilation
  execution_size := hexecution

theorem respectsSizes_iff_fits_short :
    RespectsSizes .default batchMonitor (storedOutputs (ascii "warning") (ascii "42"))
      (ascii "warning") (ascii "42") ↔
        Fits .default (ascii "warning") ∧ Fits .default (ascii "42") :=
  respectsSizes_iff_fits (storesOutputs_storedOutputs (by decide) (by decide))

/-- An output of 2 Mb. -/
def longOutput : Bytes :=
  List.replicate (2 * 1024 ^ 2) 97

theorem length_longOutput : longOutput.length = 2 * 1024 ^ 2 := by
  rw [longOutput, List.length_replicate]

/-- The output is longer than the results of the default configuration may be, and shorter than its
requests. -/
theorem not_fits_longOutput : ¬ Fits .default longOutput := by
  have hrequest : SizedConfiguration.default.requestMaxSize = 128 * 1024 ^ 2 := rfl
  have hresult : SizedConfiguration.default.resultMaxSize = 1024 ^ 2 := rfl
  rw [Fits, length_longOutput, hrequest, hresult, if_pos (by norm_num)]
  rintro (h | h)
  · norm_num at h
  · norm_num at h

/-- The output is returned as it is. -/
theorem not_respectsSizes :
    StoresOutputs .default batchMonitor (storedOutputs longOutput []) longOutput [] ∧
      ¬ RespectsSizes .default batchMonitor (storedOutputs longOutput []) longOutput [] := by
  have hsize : longOutput.length < 2 ^ 64 := by
    rw [length_longOutput]
    norm_num
  have hstores : StoresOutputs .default batchMonitor (storedOutputs longOutput []) longOutput [] :=
    storesOutputs_storedOutputs hsize (by decide)
  exact ⟨hstores, not_respectsSizes_of_not_fits hstores not_fits_longOutput⟩

end VplJail.Task
