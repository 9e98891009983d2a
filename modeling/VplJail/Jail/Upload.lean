import VplJail.Rpc.TreeNode
import VplJail.Task.Home
import VplJail.Util.Base64

/-!
# The files of a request

`saveParseFiles` writes the files of a request into the prisoner's home and decodes those sent in
base64, which lose their extension `.b64`. `deleteFilesMarkedForDeletion` removes the files that the
request marks, by the names they were sent with. `marked_gone_iff` says when this removes every file
marked.
-/

namespace VplJail.Jail

open Rpc VplJail.Task Util

/-! ## The files of a request -/

/-- The name without its extension `.b64`. -/
def stripB64 (name : Bytes) : Bytes :=
  if 4 < name.length ∧ name.drop (name.length - 4) = ascii ".b64" then name.take (name.length - 4)
  else name

/-- The file is sent in base64. -/
def isEncoded (lib : FloatLib) (fileencoding : Mapstruct) (name : Bytes) : Except Thrown Bool :=
  match fileencoding[name]? with
  | none => pure false
  | some node => do pure (decide ((← node.getInt lib) = 1))

/-- The name and the content that a file of the request is written with. `getString` is the virtual
method of the nodes. -/
def decodeFile (lib : FloatLib) (getString : TreeNode → Except Thrown Bytes)
    (fileencoding : Mapstruct) (file : Bytes × TreeNode) : Except Thrown (Bytes × Bytes) := do
  let data ← getString file.2
  if ← isEncoded lib fileencoding file.1 then
    match Base64.decode data with
    | none => throw (.std "length_error")
    | some data => pure (stripB64 file.1, data)
  else pure (file.1, data)

/-- One turn of the loop of `saveParseFiles`. -/
def saveFile (lib : FloatLib) (getString : TreeNode → Except Thrown Bytes) (homePath : Bytes)
    (fileencoding : Mapstruct) (file : Bytes × TreeNode) (home : Home) :
    Home × Except Thrown Unit :=
  match decodeFile lib getString fileencoding file with
  | .error e => (home, .error e)
  | .ok (name, data) => writeFile homePath name data home

/-- The loop of `saveParseFiles`. -/
def saveFiles (lib : FloatLib) (getString : TreeNode → Except Thrown Bytes) (homePath : Bytes)
    (fileencoding : Mapstruct) : List (Bytes × TreeNode) → Home → Home × Except Thrown Unit
  | [], home => (home, pure ())
  | file :: files, home =>
      match saveFile lib getString homePath fileencoding file home with
      | (home, .error e) => (home, .error e)
      | (home, .ok ()) => saveFiles lib getString homePath fileencoding files home

/-- `saveParseFiles`. An exception in the child process is reported by its exit status. -/
def saveParseFiles (lib : FloatLib) (getString : TreeNode → Except Thrown Bytes) (homePath : Bytes)
    (files fileencoding : Mapstruct) (home : Home) : Home × Except Thrown Unit :=
  match saveFiles lib getString homePath fileencoding files.toList home with
  | (home, .error _) => (home, throw (.http internalServerErrorCode "Error saving files"))
  | (home, .ok ()) => (home, pure ())

/-- `deleteFilesMarkedForDeletion`: the marked ones of the files that have been sent. -/
def deleteFilesMarkedForDeletion (homePath : Bytes) (files filestodelete : Mapstruct)
    (home : Home) : Home :=
  filestodelete.toList.foldl
    (fun home p => if p.1 ∈ files then deleteFile homePath p.1 home else home) home

/-- The name under which a file of the request is written. -/
def uploadedName (lib : FloatLib) (fileencoding : Mapstruct) (name : Bytes) : Bytes :=
  match isEncoded lib fileencoding name with
  | .ok true => stripB64 name
  | _ => name

/-! ## What is written and what is removed -/

section Files

variable {lib : FloatLib} {getString : TreeNode → Except Thrown Bytes} {homePath : Bytes}
  {fileencoding : Mapstruct} {home home' : Home}

/-- The name that a file is decoded with. -/
theorem decodeFile_eq_ok {file : Bytes × TreeNode} {name data : Bytes}
    (h : decodeFile lib getString fileencoding file = .ok (name, data)) :
    name = uploadedName lib fileencoding file.1 := by
  rw [decodeFile] at h
  cases hdata : getString file.2 with
  | error e =>
    rw [hdata] at h
    cases h
  | ok text =>
    cases hencoded : isEncoded lib fileencoding file.1 with
    | error e =>
      rw [hdata, hencoded] at h
      cases h
    | ok encoded =>
      rw [hdata, hencoded] at h
      rw [uploadedName, hencoded]
      cases encoded with
      | false => exact (Prod.mk.inj (Except.ok.inj h)).1.symm
      | true =>
        cases hdecode : Base64.decode text with
        | none =>
          simp only [bind, Except.bind, if_true, hdecode] at h
          cases h
        | some decoded =>
          simp only [bind, Except.bind, if_true, hdecode] at h
          exact (Prod.mk.inj (Except.ok.inj h)).1.symm

/-- One turn writes the file under its name. -/
theorem saveFile_eq_ok {file : Bytes × TreeNode}
    (h : saveFile lib getString homePath fileencoding file home = (home', .ok ())) :
    correctPath (fullName homePath (uploadedName lib fileencoding file.1)) = true ∧
      ∀ k, k ∈ home'.files ↔ uploadedName lib fileencoding file.1 = k ∨ k ∈ home.files := by
  rw [saveFile] at h
  split at h
  · cases h
  · rename_i name data hdecode
    obtain rfl := decodeFile_eq_ok hdecode
    exact writeFile_eq_ok h

/-- The files saved are there under their names. -/
theorem saveFiles_eq_ok {entries : List (Bytes × TreeNode)}
    (h : saveFiles lib getString homePath fileencoding entries home = (home', .ok ())) :
    (∀ p ∈ entries, correctPath (fullName homePath (uploadedName lib fileencoding p.1)) = true ∧
        uploadedName lib fileencoding p.1 ∈ home'.files) ∧
      ∀ k ∈ home.files, k ∈ home'.files := by
  induction entries generalizing home with
  | nil =>
    obtain rfl := (Prod.mk.inj h).1
    exact ⟨fun p hp => absurd hp List.not_mem_nil, fun k hk => hk⟩
  | cons p entries ih =>
    rw [saveFiles] at h
    split at h
    · cases h
    · rename_i home₁ hp
      obtain ⟨hcorrect, hmem⟩ := saveFile_eq_ok hp
      obtain ⟨hentries, hkeep⟩ := ih h
      refine ⟨List.forall_mem_cons.mpr ⟨⟨hcorrect, ?_⟩, hentries⟩, fun k hk => ?_⟩
      · exact hkeep _ ((hmem _).mpr (.inl rfl))
      · exact hkeep _ ((hmem _).mpr (.inr hk))

/-- The file cannot be decoded, or not written under its name. -/
def Unwritable (lib : FloatLib) (getString : TreeNode → Except Thrown Bytes) (homePath : Bytes)
    (fileencoding : Mapstruct) (home : Home) (file : Bytes × TreeNode) : Prop :=
  match decodeFile lib getString fileencoding file with
  | .error _ => True
  | .ok (name, _) => correctPath (fullName homePath name) = false ∨ isBlocked home name = true

/-- One turn writes its file, or leaves the home as it is. -/
theorem saveFile_cases (lib : FloatLib) (getString : TreeNode → Except Thrown Bytes)
    (homePath : Bytes) (fileencoding : Mapstruct) (home : Home) (file : Bytes × TreeNode) :
    Unwritable lib getString homePath fileencoding home file ∧
        (∃ e, saveFile lib getString homePath fileencoding file home = (home, .error e)) ∨
      ¬ Unwritable lib getString homePath fileencoding home file ∧
        ∃ home', saveFile lib getString homePath fileencoding file home = (home', .ok ()) ∧
          home.touched.length < home'.touched.length := by
  rw [Unwritable, saveFile]
  cases hdecode : decodeFile lib getString fileencoding file with
  | error e => exact .inl ⟨trivial, e, rfl⟩
  | ok decoded =>
    obtain ⟨name, data⟩ := decoded
    rcases writeFile_cases homePath name data home with ⟨hno, e, heq⟩ | ⟨hyes, home', heq, htouched⟩
    · exact .inl ⟨hno, e, heq⟩
    · refine .inr ⟨hyes, home', heq, ?_⟩
      rw [htouched, List.length_append, List.length_singleton]
      exact Nat.lt_succ_self _

/-- The loop forgets no path touched. -/
theorem length_touched_saveFiles_le (lib : FloatLib) (getString : TreeNode → Except Thrown Bytes)
    (homePath : Bytes) (fileencoding : Mapstruct) (entries : List (Bytes × TreeNode)) (home : Home) :
    home.touched.length ≤
      (saveFiles lib getString homePath fileencoding entries home).1.touched.length := by
  induction entries generalizing home with
  | nil => exact Nat.le_refl _
  | cons file entries ih =>
    rw [saveFiles]
    rcases saveFile_cases lib getString homePath fileencoding home file with
      ⟨-, e, heq⟩ | ⟨-, home', heq, htouched⟩
    · rw [heq]
    · rw [heq]
      exact htouched.le.trans (ih home')

/-- A request without files changes nothing. -/
theorem saveParseFiles_of_nil {files : Mapstruct} (h : files.toList = []) (home : Home) :
    saveParseFiles lib getString homePath files fileencoding home = (home, .ok ()) := by
  rw [saveParseFiles, h]
  rfl

/-- The first file decides whether anything is written. -/
theorem saveParseFiles_of_cons (lib : FloatLib) {files : Mapstruct} {file : Bytes × TreeNode}
    {entries : List (Bytes × TreeNode)} (h : files.toList = file :: entries) (home : Home) :
    Unwritable lib getString homePath fileencoding home file ∧
        (∃ e, saveParseFiles lib getString homePath files fileencoding home = (home, .error e)) ∨
      ¬ Unwritable lib getString homePath fileencoding home file ∧ home.touched.length <
        (saveParseFiles lib getString homePath files fileencoding home).1.touched.length := by
  rw [saveParseFiles, h, saveFiles]
  rcases saveFile_cases lib getString homePath fileencoding home file with
    ⟨hno, e, heq⟩ | ⟨hyes, home', heq, htouched⟩
  · rw [heq]
    exact .inl ⟨hno, _, rfl⟩
  · rw [heq]
    refine .inr ⟨hyes, htouched.trans_le ?_⟩
    have hle := length_touched_saveFiles_le lib getString homePath fileencoding entries home'
    dsimp only
    split
    · rename_i heq'
      rw [heq'] at hle
      exact hle
    · rename_i heq'
      rw [heq'] at hle
      exact hle

/-- The deletion forgets no path touched. -/
theorem length_touched_deleteFilesMarkedForDeletion_le (files filestodelete : Mapstruct)
    (home : Home) : home.touched.length ≤
      (deleteFilesMarkedForDeletion homePath files filestodelete home).touched.length := by
  rw [deleteFilesMarkedForDeletion]
  generalize filestodelete.toList = entries
  induction entries generalizing home with
  | nil => exact Nat.le_refl _
  | cons p entries ih =>
    rw [List.foldl_cons]
    refine le_trans ?_ (ih _)
    split
    · exact length_touched_deleteFile_le homePath p.1 home
    · exact Nat.le_refl _

/-- Only uploads are deleted. -/
theorem deleteFilesMarkedForDeletion_of_nil {files : Mapstruct} (h : files.toList = [])
    (filestodelete : Mapstruct) :
    deleteFilesMarkedForDeletion homePath files filestodelete home = home := by
  have hfiles (name : Bytes) : name ∉ files := by
    rw [← Std.TreeMap.mem_keys, ← Std.TreeMap.map_fst_toList_eq_keys, h]
    exact List.not_mem_nil
  rw [deleteFilesMarkedForDeletion]
  generalize filestodelete.toList = entries
  induction entries with
  | nil => rfl
  | cons p entries ih =>
    rw [List.foldl_cons, if_neg (hfiles p.1)]
    exact ih

/-- What remains after the deletion. -/
theorem mem_deleteFilesMarkedForDeletion {files filestodelete : Mapstruct} {name : Bytes} :
    name ∈ (deleteFilesMarkedForDeletion homePath files filestodelete home).files ↔
      name ∈ home.files ∧ ¬ (name ∈ filestodelete ∧ name ∈ files ∧
        correctPath (fullName homePath name) = true) := by
  have hfold (entries : List (Bytes × TreeNode)) (home : Home) :
      name ∈ (entries.foldl
          (fun home p => if p.1 ∈ files then deleteFile homePath p.1 home else home) home).files ↔
        name ∈ home.files ∧ ¬ (name ∈ entries.map Prod.fst ∧ name ∈ files ∧
          correctPath (fullName homePath name) = true) := by
    induction entries generalizing home with
    | nil => simp
    | cons p entries ih =>
      have hstep : name ∈ (if p.1 ∈ files then deleteFile homePath p.1 home else home).files ↔
          name ∈ home.files ∧ ¬ (name = p.1 ∧ name ∈ files ∧
            correctPath (fullName homePath name) = true) := by
        split
        · rename_i hfiles
          rw [mem_deleteFile]
          refine and_congr_right fun _ => not_congr (and_congr_right fun heq => ?_)
          exact (and_iff_right (heq ▸ hfiles)).symm
        · rename_i hfiles
          refine (and_iff_left ?_).symm
          rintro ⟨heq, hmem, -⟩
          exact hfiles (heq ▸ hmem)
      rw [List.foldl_cons, ih, hstep, List.map_cons, List.mem_cons]
      tauto
  have hkeys : name ∈ filestodelete.toList.map Prod.fst ↔ name ∈ filestodelete := by
    rw [Std.TreeMap.map_fst_toList_eq_keys, Std.TreeMap.mem_keys]
  rw [deleteFilesMarkedForDeletion, hfold, hkeys]

end Files

/-- After a request has been saved, the deletion leaves no file of an upload that is marked exactly
when every marked upload is written under a name that is uploaded and marked. -/
theorem marked_gone_iff {lib : FloatLib} {getString : TreeNode → Except Thrown Bytes}
    {homePath : Bytes} {files fileencoding filestodelete : Mapstruct} {home home' : Home}
    (hsave : saveParseFiles lib getString homePath files fileencoding home = (home', .ok ())) :
    (∀ name ∈ files, name ∈ filestodelete → uploadedName lib fileencoding name ∉
        (deleteFilesMarkedForDeletion homePath files filestodelete home').files) ↔
      ∀ name ∈ files, name ∈ filestodelete → uploadedName lib fileencoding name ∈ files ∧
        uploadedName lib fileencoding name ∈ filestodelete := by
  have hwritten : ∀ name ∈ files,
      correctPath (fullName homePath (uploadedName lib fileencoding name)) = true ∧
        uploadedName lib fileencoding name ∈ home'.files := by
    rw [saveParseFiles] at hsave
    split at hsave
    · cases hsave
    · rename_i home₁ hfiles
      obtain rfl := (Prod.mk.inj hsave).1
      intro name hname
      have hnode : (name, files[name]) ∈ files.toList :=
        Std.TreeMap.mem_toList_iff_getElem?_eq_some.mpr (Std.TreeMap.getElem?_eq_some_getElem hname)
      exact (saveFiles_eq_ok hfiles).1 _ hnode
  refine forall_congr' fun name => forall_congr' fun hname => forall_congr' fun _ => ?_
  obtain ⟨hcorrect, hmem⟩ := hwritten name hname
  rw [mem_deleteFilesMarkedForDeletion]
  tauto

/-! ## Requests -/

/-- The home of prisoner 10001. -/
def exampleHome : Bytes := homePath .default 10001

/-- A request of one file that is marked, saved in an empty home. -/
def saveMarked (fileencoding : Mapstruct) (name text : String) : Home × Except Thrown Unit :=
  saveParseFiles .integers (fun node => pure node.rawContent) exampleHome
    (.single name "string" text) fileencoding ⟨∅, []⟩

/-- What remains of it. -/
def remaining (name text : String) (home : Home) : Home :=
  deleteFilesMarkedForDeletion exampleHome (.single name "string" text) (.single name "number" "1")
    home

/-- A plain file that is marked is removed. -/
theorem marked_gone_iff_plain :
    ascii "key.txt" ∉ (remaining "key.txt" "42" (saveMarked ∅ "key.txt" "42").1).files := by
  have hsave : saveMarked ∅ "key.txt" "42" = ((saveMarked ∅ "key.txt" "42").1, .ok ()) :=
    Prod.ext rfl (by decide +kernel)
  have hname {name : Bytes} (h : name ∈ Mapstruct.single "key.txt" "string" "42") :
      name = ascii "key.txt" := by
    rw [Mapstruct.single, Std.TreeMap.mem_insert, Std.LawfulEqCmp.compare_eq_iff_eq] at h
    rcases h with h | h
    · exact h.symm
    · exact absurd h Std.TreeMap.not_mem_emptyc
  refine (marked_gone_iff hsave).mpr (fun name hfiles _ => ?_) (ascii "key.txt")
    (by decide +kernel) (by decide +kernel)
  obtain rfl := hname hfiles
  exact ⟨by decide +kernel, by decide +kernel⟩

/-- A file sent in base64 is written without its extension and stays when it is marked. -/
theorem decoded_file_remains :
    (saveMarked (.single "key.b64" "number" "1") "key.b64" "NDI=").2 = .ok () ∧
      ¬ uploadedName .integers (.single "key.b64" "number" "1") (ascii "key.b64") ∉
        (remaining "key.b64" "NDI="
          (saveMarked (.single "key.b64" "number" "1") "key.b64" "NDI=").1).files :=
  ⟨by decide +kernel, by decide +kernel⟩

end VplJail.Jail
