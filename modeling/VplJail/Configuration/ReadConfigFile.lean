import VplJail.Configuration.ConfigFile
import VplJail.Configuration.Settings
import VplJail.Util.Extraction
import VplJail.Util.MemSize

/-!
# Reading the configuration of the server

`readConfigFile` takes every parameter from the environment, from the configuration file or from a
table of defaults, in this order, and checks those that the safety of the host depends on. A
`ServerConfiguration` carries what the checks give.
-/

namespace VplJail

open Util ConfigurationFile

/-- All that `Configuration` keeps. -/
structure ServerConfiguration extends Configuration where
  taskOnlyFrom : List Bytes
  interface : Bytes
  port : ℤ
  sport : ℤ
  URLPath : Bytes
  cleanPATH : Bytes
  fail2ban : ℤ
  SSLCipherList : Bytes
  SSLCipherSuites : Bytes
  HSTSMaxAge : ℤ
  SSLCertFile : Bytes
  SSLKeyFile : Bytes
  useCgroup : Bool
  useNamespace : Bool
  resultMaxSize : ℤ
  certbotWebrootPath : Bytes
  jailPath_absolute : jailPath = [] ∨ jailPath.head? = some 47
  controlPath_absolute : controlPath.head? = some 47
  taskOnlyFrom_isWord : ∀ ipnet ∈ taskOnlyFrom, IsWord ipnet
  URLPath_absolute : URLPath = [] ∨ URLPath.head? = some 47
  HSTSMaxAge_port : HSTSMaxAge ≠ -1 → 0 < port
  requestMaxSize_pos : 0 < requestMaxSize ∧ requestMaxSize ≤ maxInt
  resultMaxSize_pos : 0 < resultMaxSize ∧ resultMaxSize ≤ maxInt

namespace Configuration

/-- What `readConfigFile` throws: the `HttpException` of a line that is no parameter, or a text. -/
inductive ConfigError
  | incorrectLine
  | incorrect (message : Bytes)
deriving DecidableEq, Repr

/-! ## The parameters -/

/-- `configDefault`, with the path of the environment. -/
def configDefault (path : Bytes) : ConfigData :=
  Std.TreeMap.ofList [
    (ascii "PORT", ascii "80"),
    (ascii "SECURE_PORT", ascii "443"),
    (ascii "INTERFACE", []),
    (ascii "SSL_CIPHER_LIST", []),
    (ascii "SSL_CIPHER_SUITES", []),
    (ascii "HSTS_MAX_AGE", []),
    (ascii "SSL_CERT_FILE", ascii "/etc/vpl/cert.pem"),
    (ascii "SSL_KEY_FILE", ascii "/etc/vpl/key.pem"),
    (ascii "CERTBOT_WEBROOT_PATH", []),
    (ascii "URLPATH", ascii "/"),
    (ascii "TASK_ONLY_FROM", []),
    (ascii "ALLOWSUID", ascii "false"),
    (ascii "FAIL2BAN", ascii "0"),
    (ascii "FIREWALL", ascii "0"),
    (ascii "LOGLEVEL", ascii "0"),
    (ascii "JAILPATH", ascii "/jail"),
    (ascii "CONTROLPATH", ascii "/var/vpl-jail-system"),
    (ascii "USETMPFS", []),
    (ascii "HOMESIZE", []),
    (ascii "SHMSIZE", []),
    (ascii "MAXTIME", ascii "1200"),
    (ascii "MAXFILESIZE", ascii "64 Mb"),
    (ascii "MAXMEMORY", ascii "2000 Mb"),
    (ascii "MAXPROCESSES", ascii "500"),
    (ascii "REQUEST_MAX_SIZE", ascii "128 Mb"),
    (ascii "RESULT_MAX_SIZE", ascii "1 Mb"),
    (ascii "MIN_PRISONER_UGID", ascii "10000"),
    (ascii "MAX_PRISONER_UGID", ascii "20000"),
    (ascii "ENVPATH", path),
    (ascii "USE_CGROUP", ascii "true"),
    (ascii "USE_NAMESPACE", ascii "true")]

/-- `Util::getEnv`, with the strings of `environ`. -/
def getEnv (environ : List Bytes) (name : Bytes) : Bytes :=
  match environ.find? fun raw => (cstr name ++ [61]).isPrefixOf raw with
  | some raw => raw.drop ((cstr name).length + 1)
  | none => []

/-- `readEnvironmentConfigVars`: a variable of the environment overrides a parameter. -/
def readEnvironmentConfigVars (environ : List Bytes) (data : ConfigData) : ConfigData :=
  data.map fun parameter value =>
    let newValue := getEnv environ (ascii "VPL_JAIL_" ++ parameter)
    if newValue = [] then value else newValue

/-- `data[key]`: a parameter, empty if there is none. -/
def value (data : ConfigData) (key : String) : Bytes :=
  data.getD (ascii key) []

/-! ## The checks -/

/-- The conversion of an `int` to `uid_t`. -/
def toUid (n : ℤ) : ℕ :=
  (n % 2 ^ 32).toNat

/-- A path with a slash in front. -/
def withSlash (path : Bytes) : Bytes :=
  if path.head? = some 47 then path else 47 :: path

/-- `jailPath`, which is empty for the root. -/
def jailPathOf (path : Bytes) : Bytes :=
  if withSlash path = [47] then [] else withSlash path

/-- `URLPath`: a path gets a slash in front. -/
def urlPathOf (path : Bytes) : Bytes :=
  if path = [] then path else withSlash path

/-- `HSTSMaxAge`: -1 where there is no secure port or no age. -/
def maxAgeOf (port : ℤ) (maxAge : Bytes) : ℤ :=
  if 0 < port ∧ maxAge ≠ [] then atoi maxAge else -1

theorem withSlash_absolute (path : Bytes) : (withSlash path).head? = some 47 := by
  unfold withSlash
  split_ifs with hhead
  · exact hhead
  · rfl

theorem jailPathOf_absolute (path : Bytes) :
    jailPathOf path = [] ∨ (jailPathOf path).head? = some 47 := by
  unfold jailPathOf
  split_ifs
  · exact .inl rfl
  · exact .inr (withSlash_absolute path)

theorem urlPathOf_absolute (path : Bytes) :
    urlPathOf path = [] ∨ (urlPathOf path).head? = some 47 := by
  unfold urlPathOf
  split_ifs with hnil
  · exact .inl hnil
  · exact .inr (withSlash_absolute path)

theorem maxAgeOf_port {port : ℤ} {maxAge : Bytes} (h : maxAgeOf port maxAge ≠ -1) : 0 < port := by
  unfold maxAgeOf at h
  split_ifs at h with hport
  · exact hport.1
  · exact absurd rfl h

theorem memSizeToBytesi_pos (s : Bytes) : 0 < memSizeToBytesi s ∧ memSizeToBytesi s ≤ maxInt := by
  rw [memSizeToBytesi]
  split
  · exact ⟨by decide, le_rfl⟩
  · rename_i h
    rw [not_or, not_lt, not_le] at h
    exact h.symm

/-- The loop gives words. -/
theorem isWord_of_mem_words {s w : Bytes} (h : w ∈ words s) : IsWord w := by
  rw [words] at h
  generalize s.length = fuel at h
  induction fuel generalizing s with
  | zero => exact absurd h List.not_mem_nil
  | succ fuel ih =>
    rw [wordsLoop, extract] at h
    split at h
    · exact absurd h List.not_mem_nil
    · rename_i word rest hextract
      split_ifs at hextract with hnil
      obtain ⟨rfl, rfl⟩ := Prod.mk.inj (Option.some.inj hextract)
      rcases List.mem_cons.mp h with rfl | h
      · refine ⟨fun hw => ?_, fun b hb => by simpa using List.mem_takeWhile_imp hb⟩
        have hhead := List.head?_dropWhile_not isSpace s
        cases hs : s.dropWhile isSpace with
        | nil => exact hnil hs
        | cons b rest =>
          rw [hs] at hw hhead
          rw [List.takeWhile_cons_of_pos (by simpa using hhead)] at hw
          cases hw
      · exact ih h

/-- What `readConfigFile` does with the values of the parameters. -/
def settings (value : String → Bytes) : Except ConfigError ServerConfiguration :=
  let minPrisoner := toUid (atoi (value "MIN_PRISONER_UGID"))
  let maxPrisoner := toUid (atoi (value "MAX_PRISONER_UGID"))
  let jailPath := jailPathOf (value "JAILPATH")
  let controlPath := withSlash (value "CONTROLPATH")
  let port := atoi (value "PORT")
  if hmin : minPrisoner < minPrisonerUid ∨ maxPrisonerUid < minPrisoner then
    throw (.incorrect
      (ascii "Incorrect MIN_PRISONER_UGID config value" ++ value "MIN_PRISONER_UGID"))
  else if hmax : maxPrisonerUid < maxPrisoner ∨ maxPrisoner < minPrisonerUid then
    throw (.incorrect
      (ascii "Incorrect MAX_PRISONER_UGID config value" ++ value "MAX_PRISONER_UGID"))
  else if hrange : maxPrisoner ≤ minPrisoner ∨ maxPrisoner - minPrisoner < 100 then
    throw (.incorrect (ascii "Incorrect config file, prisoner uid inconsistency, min range 100"))
  else if hjail : jailPath ≠ [] ∧ correctPath jailPath = false then
    throw (.incorrect (ascii "Incorrect Jail path " ++ jailPath))
  else if hcontrol : correctPath controlPath = false then
    throw (.incorrect (ascii "Incorrect control path " ++ controlPath))
  else
    pure {
      jailLimits := ⟨atoi (value "MAXTIME"), memSizeToBytesl (value "MAXFILESIZE"),
        memSizeToBytesl (value "MAXMEMORY"), atoi (value "MAXPROCESSES")⟩
      jailPath := jailPath
      controlPath := controlPath
      minPrisoner := minPrisoner
      maxPrisoner := maxPrisoner
      logLevel := atoi (value "LOGLEVEL")
      requestMaxSize := memSizeToBytesi (value "REQUEST_MAX_SIZE")
      taskOnlyFrom := words (value "TASK_ONLY_FROM")
      interface := value "INTERFACE"
      port := port
      sport := atoi (value "SECURE_PORT")
      URLPath := urlPathOf (value "URLPATH")
      cleanPATH := value "ENVPATH"
      fail2ban := atoi (value "FAIL2BAN")
      SSLCipherList := value "SSL_CIPHER_LIST"
      SSLCipherSuites := value "SSL_CIPHER_SUITES"
      HSTSMaxAge := maxAgeOf port (value "HSTS_MAX_AGE")
      SSLCertFile := value "SSL_CERT_FILE"
      SSLKeyFile := value "SSL_KEY_FILE"
      useCgroup := toUppercase (value "USE_CGROUP") == ascii "TRUE"
      useNamespace := toUppercase (value "USE_NAMESPACE") == ascii "TRUE"
      resultMaxSize := memSizeToBytesi (value "RESULT_MAX_SIZE")
      certbotWebrootPath := value "CERTBOT_WEBROOT_PATH"
      jailPath_correct := by simpa [or_iff_not_imp_left] using hjail
      controlPath_correct := by simpa using hcontrol
      minPrisoner_ge := not_lt.mp fun h => hmin (.inl h)
      maxPrisoner_le := not_lt.mp fun h => hmax (.inl h)
      range := by omega
      jailPath_absolute := jailPathOf_absolute _
      controlPath_absolute := withSlash_absolute _
      taskOnlyFrom_isWord := fun _ => isWord_of_mem_words
      URLPath_absolute := urlPathOf_absolute _
      HSTSMaxAge_port := maxAgeOf_port
      requestMaxSize_pos := memSizeToBytesi_pos _
      resultMaxSize_pos := memSizeToBytesi_pos _ }

/-- `readConfigFile`, with the content of the file and the environment. -/
def readConfigFile (content : Bytes) (environ : List Bytes) :
    Except ConfigError ServerConfiguration :=
  match readConfiguration content (configDefault (getEnv environ (ascii "PATH"))) with
  | none => throw .incorrectLine
  | some data => settings (value (readEnvironmentConfigVars environ data))

/-! ## The parameter in force -/

/-- The value of a parameter: that of the environment unless it is empty, or else the last one of the
file, or else the default. The environment counts for parameters of the file and defaults only. -/
def effective (params : List (Bytes × Bytes)) (environ : List Bytes) (key : String) : Bytes :=
  match (lastValue params (ascii key)).or
      (configDefault (getEnv environ (ascii "PATH")))[ascii key]? with
  | none => []
  | some value =>
      let newValue := getEnv environ (ascii "VPL_JAIL_" ++ ascii key)
      if newValue = [] then value else newValue

/-- The first entry with a key in the list of a map is the entry of the map. -/
theorem find?_toList (data : ConfigData) (key : Bytes) :
    (data.toList.find? (·.1 == key)).map Prod.snd = data[key]? := by
  cases hdata : data[key]? with
  | none =>
    rw [Option.map_eq_none_iff, List.find?_eq_none]
    intro p hp hkey
    rw [beq_iff_eq] at hkey
    rw [← hkey, Std.TreeMap.mem_toList_iff_getElem?_eq_some.mp hp] at hdata
    cases hdata
  | some value =>
    have hmem : (key, value) ∈ data.toList := Std.TreeMap.mem_toList_iff_getElem?_eq_some.mpr hdata
    cases hfind : data.toList.find? (·.1 == key) with
    | none => exact absurd (List.find?_eq_none.mp hfind _ hmem) (by simp)
    | some p =>
      have hkey : p.1 = key := by simpa using List.find?_some hfind
      have hp := Std.TreeMap.mem_toList_iff_getElem?_eq_some.mp (List.mem_of_find?_eq_some hfind)
      rw [hkey, hdata] at hp
      exact hp.symm

/-- Defaults with keys in upper case stand where the data have nothing. -/
theorem getElem?_addDefaults_eq {defaultData : ConfigData}
    (hupper : ∀ p ∈ defaultData.toList, toUppercase p.1 = p.1) (data : ConfigData) (key : Bytes) :
    (addDefaults data defaultData)[key]? = data[key]?.or defaultData[key]? := by
  rw [addDefaults, ← find?_toList defaultData key]
  generalize defaultData.toList = ps at hupper
  induction ps generalizing data with
  | nil => simp
  | cons p ps ih =>
    obtain ⟨hp, hps⟩ := List.forall_mem_cons.mp hupper
    rw [List.foldl_cons, hp, ih _ hps, List.find?_cons]
    by_cases hmem : p.1 ∈ data
    · rw [if_pos hmem]
      by_cases hkey : p.1 = key
      · -- the data have the key, so the default is of no matter
        obtain ⟨value, hvalue⟩ := Option.isSome_iff_exists.mp
          (Std.TreeMap.mem_iff_isSome_getElem?.mp (hkey ▸ hmem))
        rw [hvalue, Option.some_or, Option.some_or]
      · rw [beq_false_of_ne hkey]
    · rw [if_neg hmem, Std.TreeMap.getElem?_insert]
      by_cases hkey : p.1 = key
      · have hnone : data[key]? = none := Std.TreeMap.getElem?_eq_none (hkey ▸ hmem)
        simp [hkey, hnone]
      · simp [hkey, beq_false_of_ne hkey]

/-- The keys of the defaults are in upper case. -/
theorem upper_configDefault (path : Bytes) :
    ∀ p ∈ (configDefault path).toList, toUppercase p.1 = p.1 := by
  intro p hp
  have hmem : p.1 ∈ configDefault path := Std.TreeMap.mem_iff_isSome_getElem?.mpr
    (by rw [Std.TreeMap.mem_toList_iff_getElem?_eq_some.mp hp]; rfl)
  rw [configDefault, Std.TreeMap.mem_ofList, List.contains_iff_mem] at hmem
  revert hmem
  simp only [List.map_cons, List.map_nil]
  generalize p.1 = key
  revert key
  decide +kernel

/-- The configuration is read with the parameters in force, or not at all. -/
theorem readConfigFile_eq (content : Bytes) (environ : List Bytes) :
    readConfigFile content environ = match assignments (lines content) with
      | none => throw .incorrectLine
      | some params => settings (effective params environ) := by
  rw [readConfigFile, readConfiguration, foldlM_parseConfigLine, Option.map_map]
  cases assignments (lines content) with
  | none => rfl
  | some params =>
    refine congrArg settings (funext fun key => ?_)
    rw [value, Std.TreeMap.getD_eq_getD_getElem?, readEnvironmentConfigVars,
      Std.TreeMap.getElem?_map, Function.comp_apply,
      getElem?_addDefaults_eq (upper_configDefault _), getElem?_foldl_insert]
    have hempty : (∅ : ConfigData)[ascii key]? = none := by simp
    rw [hempty, Option.or_none, effective]
    cases (lastValue params (ascii key)).or (configDefault (getEnv environ (ascii "PATH")))[ascii key]? <;>
      rfl

/-! ## The parameters that are accepted -/

/-- The parameters that the checks let pass. -/
structure Acceptable (value : String → Bytes) : Prop where
  minPrisoner : minPrisonerUid ≤ atoi (value "MIN_PRISONER_UGID")
  maxPrisoner : atoi (value "MAX_PRISONER_UGID") ≤ maxPrisonerUid
  range : atoi (value "MIN_PRISONER_UGID") + 100 ≤ atoi (value "MAX_PRISONER_UGID")
  jailPath : value "JAILPATH" = [] ∨ value "JAILPATH" = ascii "/" ∨
    correctPath (withSlash (value "JAILPATH")) = true
  controlPath : correctPath (withSlash (value "CONTROLPATH")) = true

/-- The settings that the parameters stand for. -/
structure Describes (value : String → Bytes) (cfg : ServerConfiguration) : Prop where
  limits : cfg.jailLimits = ⟨atoi (value "MAXTIME"), memSizeToBytesl (value "MAXFILESIZE"),
    memSizeToBytesl (value "MAXMEMORY"), atoi (value "MAXPROCESSES")⟩
  jailPath : cfg.jailPath = jailPathOf (value "JAILPATH")
  controlPath : cfg.controlPath = withSlash (value "CONTROLPATH")
  minPrisoner : cfg.minPrisoner = atoi (value "MIN_PRISONER_UGID")
  maxPrisoner : cfg.maxPrisoner = atoi (value "MAX_PRISONER_UGID")
  logLevel : cfg.logLevel = atoi (value "LOGLEVEL")
  requestMaxSize : cfg.requestMaxSize = memSizeToBytesi (value "REQUEST_MAX_SIZE")
  resultMaxSize : cfg.resultMaxSize = memSizeToBytesi (value "RESULT_MAX_SIZE")
  taskOnlyFrom : cfg.taskOnlyFrom = words (value "TASK_ONLY_FROM")
  interface : cfg.interface = value "INTERFACE"
  port : cfg.port = atoi (value "PORT")
  sport : cfg.sport = atoi (value "SECURE_PORT")
  URLPath : cfg.URLPath = urlPathOf (value "URLPATH")
  cleanPATH : cfg.cleanPATH = value "ENVPATH"
  fail2ban : cfg.fail2ban = atoi (value "FAIL2BAN")
  HSTSMaxAge : cfg.HSTSMaxAge = maxAgeOf (atoi (value "PORT")) (value "HSTS_MAX_AGE")
  SSLCipherList : cfg.SSLCipherList = value "SSL_CIPHER_LIST"
  SSLCipherSuites : cfg.SSLCipherSuites = value "SSL_CIPHER_SUITES"
  SSLCertFile : cfg.SSLCertFile = value "SSL_CERT_FILE"
  SSLKeyFile : cfg.SSLKeyFile = value "SSL_KEY_FILE"
  certbotWebrootPath : cfg.certbotWebrootPath = value "CERTBOT_WEBROOT_PATH"
  useCgroup : cfg.useCgroup = (toUppercase (value "USE_CGROUP") == ascii "TRUE")
  useNamespace : cfg.useNamespace = (toUppercase (value "USE_NAMESPACE") == ascii "TRUE")

/-- A number in the range of the prisoners is not changed by its conversion, and no other number is
brought into the range. -/
theorem toUid_atoi_mem_iff (s : Bytes) :
    (¬ (toUid (atoi s) < minPrisonerUid ∨ maxPrisonerUid < toUid (atoi s))) ↔
      (minPrisonerUid : ℤ) ≤ atoi s ∧ atoi s ≤ maxPrisonerUid := by
  have hlow : -2 ^ 31 ≤ atoi s := Int.le_bmod (by decide)
  have hhigh : atoi s < 2 ^ 31 := Int.bmod_lt (by decide)
  rw [toUid, minPrisonerUid, maxPrisonerUid]
  omega

theorem toUid_atoi {s : Bytes} (h : 0 ≤ atoi s) : (toUid (atoi s) : ℤ) = atoi s := by
  have hhigh : atoi s < 2 ^ 31 := Int.bmod_lt (by decide)
  rw [toUid]
  omega

/-- The jail path is refused where it is neither the root nor correct. -/
theorem jailPathOf_refused_iff (path : Bytes) :
    (¬ (jailPathOf path ≠ [] ∧ correctPath (jailPathOf path) = false)) ↔
      path = [] ∨ path = ascii "/" ∨ correctPath (withSlash path) = true := by
  have hroot : withSlash path = [47] ↔ path = [] ∨ path = ascii "/" := by
    unfold withSlash
    split_ifs with hhead
    · refine ⟨.inr, ?_⟩
      rintro (rfl | rfl)
      · cases hhead
      · rfl
    · simp only [List.cons.injEq, true_and]
      refine ⟨.inl, ?_⟩
      rintro (rfl | rfl)
      · rfl
      · exact absurd rfl hhead
  rw [jailPathOf, ← or_assoc, ← hroot]
  split_ifs with h
  · exact iff_of_true (fun h => h.1 rfl) (.inl h)
  · rw [not_and, Bool.not_eq_false]
    have hne : withSlash path ≠ [] := by
      intro hnil
      have hhead := withSlash_absolute path
      rw [hnil] at hhead
      cases hhead
    exact ⟨fun himp => .inr (himp hne), fun hor _ => hor.resolve_left h⟩

/-- What is accepted, and what for. -/
theorem settings_eq_ok_iff (value : String → Bytes) (cfg : ServerConfiguration) :
    settings value = .ok cfg ↔ Acceptable value ∧ Describes value cfg := by
  constructor
  · intro h
    unfold settings at h
    dsimp only at h
    split_ifs at h with hmin hmax hrange hjail hcontrol
    obtain rfl := Except.ok.inj h
    obtain ⟨hminLow, hminHigh⟩ := (toUid_atoi_mem_iff _).mp hmin
    obtain ⟨hmaxLow, hmaxHigh⟩ := (toUid_atoi_mem_iff _).mp (hmax ∘ Or.symm)
    have hminUid := toUid_atoi ((Int.natCast_nonneg _).trans hminLow)
    have hmaxUid := toUid_atoi ((Int.natCast_nonneg _).trans hmaxLow)
    refine ⟨⟨hminLow, hmaxHigh, by omega, (jailPathOf_refused_iff _).mp hjail,
      by simpa using hcontrol⟩, ?_⟩
    constructor <;> first | rfl | assumption
  · rintro ⟨⟨hminLow, hmaxHigh, hbetween, hjail, hcontrol⟩, hdescribes⟩
    have hmin := (toUid_atoi_mem_iff (value "MIN_PRISONER_UGID")).mpr ⟨hminLow, by omega⟩
    have hmax := (toUid_atoi_mem_iff (value "MAX_PRISONER_UGID")).mpr ⟨by omega, hmaxHigh⟩
    have hminUid : (toUid (atoi (value "MIN_PRISONER_UGID")) : ℤ) = _ := toUid_atoi (by omega)
    have hmaxUid : (toUid (atoi (value "MAX_PRISONER_UGID")) : ℤ) = _ := toUid_atoi (by omega)
    have hrange : ¬ (toUid (atoi (value "MAX_PRISONER_UGID")) ≤
        toUid (atoi (value "MIN_PRISONER_UGID")) ∨ toUid (atoi (value "MAX_PRISONER_UGID")) -
          toUid (atoi (value "MIN_PRISONER_UGID")) < 100) := by omega
    have hminEq : cfg.minPrisoner = toUid (atoi (value "MIN_PRISONER_UGID")) := by
      have := hdescribes.minPrisoner
      omega
    have hmaxEq : cfg.maxPrisoner = toUid (atoi (value "MAX_PRISONER_UGID")) := by
      have := hdescribes.maxPrisoner
      omega
    unfold settings
    dsimp only
    rw [dif_neg hmin, dif_neg (hmax ∘ Or.symm), dif_neg hrange,
      dif_neg ((jailPathOf_refused_iff _).mpr hjail), dif_neg (by simpa using hcontrol)]
    refine congrArg Except.ok ?_
    obtain ⟨hlimits, hjailPath, hcontrolPath, -, -, hlogLevel, hrequest, hresult, honly, hinterface,
      hport, hsport, hurl, hpath, hban, hage, hciphers, hsuites, hcert, hkey, hwebroot, hcgroup,
      hnamespace⟩ := hdescribes
    obtain ⟨⟨⟩⟩ := cfg
    dsimp only at *
    subst_vars
    rfl

/-- The server starts with the settings that the parameters in force describe, where these are
acceptable and every line of the file is a comment or a parameter, and with no other. -/
theorem readConfigFile_eq_ok_iff (content : Bytes) (environ : List Bytes)
    (cfg : ServerConfiguration) :
    readConfigFile content environ = .ok cfg ↔
      ∃ params, assignments (lines content) = some params ∧
        Acceptable (effective params environ) ∧ Describes (effective params environ) cfg := by
  rw [readConfigFile_eq]
  cases assignments (lines content) with
  | none => exact iff_of_false (fun h => by cases h) fun ⟨_, h, _⟩ => by cases h
  | some params =>
    rw [settings_eq_ok_iff]
    exact ⟨fun h => ⟨params, rfl, h⟩, fun ⟨_, h, hsettings⟩ => by cases h; exact hsettings⟩

/-- The settings of an empty file in an empty environment. -/
def serverDefault : ServerConfiguration where
  toConfiguration := default
  taskOnlyFrom := []
  interface := []
  port := 80
  sport := 443
  URLPath := ascii "/"
  cleanPATH := []
  fail2ban := 0
  SSLCipherList := []
  SSLCipherSuites := []
  HSTSMaxAge := -1
  SSLCertFile := ascii "/etc/vpl/cert.pem"
  SSLKeyFile := ascii "/etc/vpl/key.pem"
  useCgroup := true
  useNamespace := true
  resultMaxSize := 1024 ^ 2
  certbotWebrootPath := []
  jailPath_absolute := .inr rfl
  controlPath_absolute := rfl
  taskOnlyFrom_isWord := fun _ h => absurd h List.not_mem_nil
  URLPath_absolute := .inr rfl
  HSTSMaxAge_port := fun h => absurd rfl h
  requestMaxSize_pos := by decide
  resultMaxSize_pos := by decide

end Configuration

end VplJail
