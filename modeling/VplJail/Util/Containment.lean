import VplJail.Util.TrustedPath

/-!
# Containment

Behind `pos` the walks of `createDir` and `openFileWithinTrustedPath` only take entries of
directories, so that what they create, chown or open is beneath the directory that the part before
`pos` names (`contained_createDir`, `contained_openFileWithinTrustedPath`).
-/

namespace VplJail.Util

open FileTree

/-! ## What the calls do -/

/-- The directory that a home path names. -/
def IsHome (w : Disk) (home : Bytes) (top : ℕ) : Prop :=
  Names w.tree (startOf w.cwd (home ++ [47])) (components home) top

/-- Nothing has happened yet. -/
structure Same (w w' : Disk) : Prop where
  tree : w'.tree = w.tree
  cwd : w'.cwd = w.cwd
  touched : w'.touched = w.touched

/-- The nodes that are touched or changed are all among some. -/
def Within (w w' : Disk) (nodes : ℕ → Prop) : Prop :=
  ∃ touched, w'.touched = w.touched ++ touched ∧
    ∀ n, n ∈ touched ∨ w'.tree.nodes[n]? ≠ w.tree.nodes[n]? → nodes n

/-- Everything that is touched or changed is beneath a directory. -/
def Inside (w : Disk) (top : ℕ) (w' : Disk) : Prop :=
  Within w w' (Beneath w'.tree top)

/-- The walk is in a directory beneath another. -/
def At (w : Disk) (top d : ℕ) (w' : Disk) : Prop :=
  Inside w top w' ∧ Beneath w'.tree top d

theorem Same.within {w w' : Disk} (h : Same w w') (nodes : ℕ → Prop) : Within w w' nodes := by
  refine ⟨[], by rw [h.touched, List.append_nil], fun n hn => ?_⟩
  rcases hn with hmem | hne
  · cases hmem
  · exact absurd (by rw [h.tree]) hne

theorem triple_permitted {P : Disk → Prop} {E : Unit → Disk → Prop}
    (h : ∀ w calls, P w → P { w with calls }) (hE : ∀ w, P w → E () w) :
    Triple P permitted (fun _ => P) E := by
  refine .bind_get fun w hw => ?_
  refine .bind (Q := fun _ => P) (.set fun _ _ => h w _ hw) fun _ => ?_
  exact .ite (fun _ => .pure fun _ hw => hw) fun _ => .throw fun w hw => hE w hw

/-! ## The trusted part -/

section Trusted

variable {w : Disk}

theorem same_permitted : Triple (Same w) permitted (fun _ => Same w) (fun _ => Same w) :=
  triple_permitted (fun _ _ h => ⟨h.tree, h.cwd, h.touched⟩) fun _ h => h

/-- `open` finds what the path names. -/
theorem same_openDirectory (path : Bytes) :
    Triple (Same w) (openDirectory path)
      (fun d w' => Same w w' ∧ Names w.tree (startOf w.cwd path) (components path) d)
      (fun _ => Same w) := by
  refine .bind same_permitted fun _ => .bind_get fun w' hw => ?_
  rw [hw.tree, hw.cwd]
  cases hresolve : w.tree.resolve linkLimit (startOf w.cwd path) (components path) with
  | none => exact .throw fun _ h => h ▸ hw
  | some d =>
    refine .ite (fun _ => .pure fun _ h => ?_) fun _ => .throw fun _ h => h ▸ hw
    exact ⟨h ▸ hw, names_of_resolve hresolve⟩

/-- `openat` finds what the component names. -/
theorem same_openatFollowing (d : ℕ) (c : Bytes) :
    Triple (Same w) (openatFollowing d c)
      (fun d' w' => Same w w' ∧ Names w.tree d [componentOf c] d') (fun _ => Same w) := by
  refine .bind same_permitted fun _ => .bind_get fun w' hw => ?_
  rw [hw.tree]
  cases hresolve : w.tree.resolve linkLimit d [componentOf c] with
  | none => exact .throw fun _ h => h ▸ hw
  | some d' =>
    refine .ite (fun _ => .pure fun _ h => ?_) fun _ => .throw fun _ h => h ▸ hw
    exact ⟨h ▸ hw, names_of_resolve hresolve⟩

end Trusted

/-! ## The part behind `pos` -/

section Untrusted

variable {w : Disk} {top d : ℕ} {c : Bytes} {x : Bytes}

theorem inside_permitted :
    Triple (At w top d) permitted (fun _ => At w top d) (fun _ => Inside w top) :=
  triple_permitted (fun _ _ h => h) fun _ h => h.1

/-- A component that is a name leads on to an entry. -/
theorem inside_openatNofollow (hc : componentOf c = .name x) :
    Triple (At w top d) (openatNofollow d c) (fun d' => At w top d') (fun _ => Inside w top) := by
  refine .bind inside_permitted fun _ => .bind_get fun w' hw => ?_
  rw [lookup, hc]
  dsimp only
  cases hentry : w'.tree.entry d x with
  | none => exact .throw fun _ h => h ▸ hw.1
  | some d' =>
    refine .ite (fun hdir => .pure fun _ h => ?_) fun _ => .throw fun _ h => h ▸ hw.1
    subst h
    refine ⟨hw.1, .entry hw.2 hentry ?_⟩
    obtain ⟨parent, entries, hnode⟩ := exists_of_isDirectory hdir
    rw [FileTree.target, hnode]

/-- A node added in a directory beneath `top`. -/
theorem At.add {w' : Disk} (h : At w top d w') (hdir : w'.tree.isDirectory d = true)
    (hfree : w'.tree.entry d x = none) (node : Node Bytes)
    (hnode : ∀ absolute target, node ≠ .link absolute target) :
    let w'' : Disk :=
      { w' with
        tree := w'.tree.add d x node
        touched := w'.touched ++ [w'.tree.nodes.length] }
    At w top d w'' ∧ w''.tree.entry d x = some w'.tree.nodes.length ∧
      Beneath w''.tree top w'.tree.nodes.length := by
  obtain ⟨⟨touched, htouched, hall⟩, hd⟩ := h
  have hnew := hd.new hdir hfree hnode
  refine ⟨⟨⟨touched ++ [w'.tree.nodes.length], ?_, fun n hn => ?_⟩, hd.add hdir hfree hnode⟩,
    entry_add_self hdir, hnew⟩
  · rw [htouched, List.append_assoc]
  · by_cases hself : n = d
    · exact hself ▸ hd.add hdir hfree hnode
    by_cases hlength : n = w'.tree.nodes.length
    · exact hlength ▸ hnew
    refine (hall n ?_).add hdir hfree hnode
    rcases hn with hmem | hne
    · rcases List.mem_append.mp hmem with hold | hone
      · exact .inl hold
      · exact absurd (List.mem_singleton.mp hone) hlength
    · exact .inr fun heq => hne ((nodes_add_of_ne hdir hself hlength).trans heq)

/-- A node beneath `top` is touched. -/
theorem At.touch {w' : Disk} (h : At w top d w') {n : ℕ} (hn : Beneath w'.tree top n) :
    At w top d { w' with touched := w'.touched ++ [n] } := by
  obtain ⟨⟨touched, htouched, hall⟩, hd⟩ := h
  refine ⟨⟨touched ++ [n], ?_, fun m hm => ?_⟩, hd⟩
  · rw [htouched, List.append_assoc]
  · rcases hm with hmem | hne
    · rcases List.mem_append.mp hmem with hold | hone
      · exact hall m (.inl hold)
      · exact List.mem_singleton.mp hone ▸ hn
    · exact hall m (.inr hne)

/-- A directory that has been created is an entry. -/
theorem inside_mkdirat (hc : componentOf c = .name x) :
    Triple (At w top d) (mkdirat d c)
      (fun created w' => At w top d w' ∧ (created = true →
        ∃ n, w'.tree.entry d x = some n ∧ Beneath w'.tree top n))
      (fun _ => Inside w top) := by
  refine .bind inside_permitted fun _ => .bind_get fun w' hw => ?_
  rw [hc]
  dsimp only
  refine .ite (fun _ => .pure fun _ h => ?_) fun hfree => ?_
  · refine ⟨h ▸ hw, fun htrue => ?_⟩
    cases htrue
  refine .ite (fun hdir => ?_) fun _ => .throw fun _ h => h ▸ hw.1
  rw [Bool.and_eq_true] at hdir
  have hadd := hw.add hdir.1 (by simpa using hfree) (.directory d fun _ => none)
    (fun _ _ h => by cases h)
  refine .bind (Q := fun _ w'' => At w top d w'' ∧
    ∃ n, w''.tree.entry d x = some n ∧ Beneath w''.tree top n)
    (.set fun _ _ => ⟨hadd.1, _, hadd.2⟩) fun _ => ?_
  exact .pure fun _ h => ⟨h.1, fun _ => h.2⟩

/-- Only what has just been created is chowned. -/
theorem inside_makeComponent (user : ℕ) (hc : componentOf c = .name x) :
    Triple (At w top d) (makeComponent user d c) (fun _ => At w top d) (fun _ => Inside w top) := by
  refine .bind (inside_mkdirat hc) fun created => ?_
  refine .ite (fun hcreated => ?_) fun _ => .pure fun _ h => h.1
  have hchown : Triple (fun w' => At w top d w' ∧
      ∃ n, w'.tree.entry d x = some n ∧ Beneath w'.tree top n) (fchownat d c)
      (fun _ => At w top d) (fun _ => Inside w top) := by
    refine .bind (triple_permitted (fun _ _ h => h) fun _ h => h.1.1) fun _ => ?_
    refine .bind_get fun w' ⟨hw, n, hn, hbeneath⟩ => ?_
    rw [lookup, hc]
    dsimp only
    rw [hn]
    exact .modify fun _ h => h ▸ hw.touch hbeneath
  exact hchown.weaken
    (fun _ h => ⟨h.1, h.2 (Bool.and_eq_true _ _ ▸ hcreated).1⟩) (fun _ _ h => h) fun _ _ h => h

/-- The final file is an entry. -/
theorem inside_openatFile (create : Bool) (hc : componentOf c = .name x) :
    Triple (At w top d) (openatFile create d c) (fun n => At w top n) (fun _ => Inside w top) := by
  refine .bind inside_permitted fun _ => .bind_get fun w' hw => ?_
  rw [lookup, hc]
  dsimp only
  cases hentry : w'.tree.entry d x with
  | none =>
    refine .ite (fun hdir => ?_) fun _ => .throw fun _ h => h ▸ hw.1
    rw [Bool.and_eq_true, Bool.and_eq_true] at hdir
    have hadd := hw.add hdir.1.2 hentry .file (fun _ _ h => by cases h)
    exact .bind (Q := fun _ => At w top w'.tree.nodes.length)
      (.set fun _ _ => ⟨hadd.1.1, hadd.2.2⟩) fun _ => .pure fun _ h => h
  | some n =>
    refine .ite (fun _ => .throw fun _ h => h ▸ hw.1) fun hlink => ?_
    have hn : Beneath w'.tree top n := .entry hw.2 hentry (by simpa using hlink)
    exact .bind (Q := fun _ => At w top n) (.modify fun _ h => h ▸ ⟨(hw.touch hn).1, hn⟩) fun _ =>
      .pure fun _ h => h

end Untrusted

/-! ## The walks -/

/-- The length of some pieces with the separators behind them. -/
def spanOf (pieces : List Bytes) : ℕ :=
  (pieces.map fun c => c.length + 1).sum

/-- The components of some pieces. -/
def componentsOf (pieces : List Bytes) : List (Component Bytes) :=
  (pieces.filter (· ≠ [])).map componentOf

/-- The trusted pieces are walked as the system walks them. -/
theorem triple_createDirLoop {w : Disk} {user pos : ℕ} {rest : List Bytes} {Q : Disk → Prop}
    {E : Disk → Prop} (hE : ∀ w', Same w w' → E w') (pieces : List Bytes) {start d : ℕ}
    (hpos : start + spanOf pieces = pos)
    (hrest : ∀ d', Names w.tree d (componentsOf pieces) d' →
      Triple (Same w) (createDirLoop user pos pos rest d') (fun _ => Q) (fun _ => E)) :
    Triple (Same w) (createDirLoop user pos start (pieces ++ rest) d) (fun _ => Q) (fun _ => E) := by
  induction pieces generalizing start d with
  | nil =>
    have hstart : start = pos := hpos
    subst hstart
    exact hrest d (.nil d)
  | cons c pieces ih =>
    have hspan : spanOf (c :: pieces) = c.length + 1 + spanOf pieces := rfl
    rw [hspan] at hpos
    rw [List.cons_append, createDirLoop]
    by_cases hc : c = []
    · -- an empty piece is passed over
      subst hc
      rw [if_pos rfl]
      exact ih (by rw [← hpos]; simp; omega) hrest
    · have hcomponents : componentsOf (c :: pieces) = componentOf c :: componentsOf pieces := by
        rw [componentsOf, List.filter_cons_of_pos (by simpa using hc)]
        rfl
      rw [if_neg hc, if_neg (by omega)]
      refine .bind ((same_openatFollowing d c).weaken (fun _ h => h) (fun _ _ h => h)
        fun _ _ h => hE _ h) fun next => ?_
      refine .of_states fun w' hw => ?_
      have hpos' : start + c.length + 1 + spanOf pieces = pos := by omega
      refine (ih hpos' fun d' hd' => hrest d' ?_).at_state hw.1
      rw [hcomponents]
      exact Names.append hw.2 hd'

/-- The other pieces are walked through entries. -/
theorem inside_createDirLoop {w : Disk} {top user pos : ℕ} (pieces : List Bytes) {start d : ℕ}
    (hpos : pos ≤ start) (hnames : ∀ c ∈ pieces, ∃ x, componentOf c = .name x) :
    Triple (At w top d) (createDirLoop user pos start pieces d) (fun _ => Inside w top)
      (fun _ => Inside w top) := by
  induction pieces generalizing start d with
  | nil => exact .pure fun _ h => h.1
  | cons c pieces ih =>
    obtain ⟨⟨x, hc⟩, hrest⟩ := List.forall_mem_cons.mp hnames
    rw [createDirLoop]
    refine .ite (fun _ => ih (by omega) hrest) fun _ => ?_
    rw [if_pos (by omega)]
    refine .bind (inside_makeComponent user hc) fun _ => ?_
    exact .bind (inside_openatNofollow hc) fun next => ih (by omega) hrest

/-- The pieces of the fallback are walked through entries. -/
theorem inside_openLoop {w : Disk} {top : ℕ} (pieces : List Bytes) {d : ℕ}
    (hnames : ∀ c ∈ pieces, c ≠ [] → ∃ x, componentOf c = .name x) :
    Triple (At w top d) (openLoop pieces d) (fun d' => At w top d') (fun _ => Inside w top) := by
  induction pieces generalizing d with
  | nil => exact .pure fun _ h => h
  | cons c pieces ih =>
    obtain ⟨hname, hrest⟩ := List.forall_mem_cons.mp hnames
    rw [openLoop]
    refine .ite (fun _ => ih hrest) fun hc => ?_
    obtain ⟨x, hx⟩ := hname hc
    exact .bind (inside_openatNofollow hx) fun next => ih hrest

/-! ## Pieces of a path -/

theorem spanOf_splitOn (s : Bytes) : spanOf (s.splitOn 47) = s.length + 1 := by
  induction s with
  | nil => rfl
  | cons b s ih =>
    rw [List.splitOn_cons_eq_if_modifyHead]
    split
    · show 0 + 1 + spanOf _ = _
      rw [ih, List.length_cons]
      omega
    · cases hs : s.splitOn 47 with
      | nil => exact absurd hs (List.splitOn_ne_nil _ _)
      | cons c cs =>
        rw [hs] at ih
        have hspan (c : Bytes) : spanOf (c :: cs) = c.length + 1 + spanOf cs := rfl
        rw [List.modifyHead_cons, hspan, List.length_cons, List.length_cons, ← ih, hspan]
        omega

theorem components_append (s s' : Bytes) :
    components (s ++ 47 :: s') = components s ++ components s' := by
  rw [components, List.splitOn_append_cons_self, List.filter_append, List.map_append]
  rfl

theorem components_append_slashes (s : Bytes) {slashes : Bytes} (h : ∀ b ∈ slashes, b = 47) :
    components (s ++ slashes) = components s := by
  induction slashes generalizing s with
  | nil => rw [List.append_nil]
  | cons b slashes ih =>
    obtain ⟨rfl, hrest⟩ := List.forall_mem_cons.mp h
    have hnil : components ([] ++ slashes) = components [] := ih [] hrest
    rw [components_append, ← List.nil_append slashes, hnil]
    exact List.append_nil _

/-! ## Correct paths -/

/-- A correct file name is a name. -/
theorem componentOf_of_correctFileName {c : Bytes} (h : correctFileName c = true) :
    c ≠ [] ∧ componentOf c = .name (cstr c) := by
  simp only [correctFileName, findsIncorrect, Bool.and_eq_true, decide_eq_true_eq,
    Bool.not_eq_true', Bool.or_eq_false_iff, beq_eq_false_iff_ne] at h
  obtain ⟨⟨⟨hlen, -⟩, -⟩, ⟨-, hdotdot⟩, hdot⟩ := h
  refine ⟨List.ne_nil_of_length_pos hlen, ?_⟩
  rw [componentOf, if_neg hdot, if_neg hdotdot]

section CorrectPath

variable {home name : Bytes}

variable (name) in
/-- What stands behind a place of the part before the name. -/
theorem splitOn_drop {k : ℕ} (hk : k ≤ home.length + 1) :
    ∃ front, ((home ++ 47 :: name).drop k).splitOn 47 = front ++ name.splitOn 47 ∧
      k + spanOf front = home.length + 1 ∧ componentsOf front = components (home.drop k) := by
  rcases Nat.lt_or_ge home.length k with hlt | hle
  · refine ⟨[], ?_, ?_, ?_⟩
    · have hone : (home ++ 47 :: name).drop k = name := by
        have hk' : k = home.length + 1 := by omega
        rw [hk', List.drop_append, List.drop_eq_nil_of_le (by omega), List.nil_append,
          Nat.add_sub_cancel_left]
        rfl
      rw [hone, List.nil_append]
    · show k + 0 = home.length + 1
      omega
    · rw [List.drop_eq_nil_of_le hlt.le]
      rfl
  · refine ⟨(home.drop k).splitOn 47, ?_, ?_, rfl⟩
    · rw [List.drop_append_of_le_length hle, List.splitOn_append_cons_self]
    · rw [spanOf_splitOn, List.length_drop]
      omega

/-- The pieces of the name are names. -/
theorem correctFileName_of_correctPath (h : correctPath (home ++ 47 :: name) = true) :
    ∀ c ∈ name.splitOn 47, correctFileName c = true := by
  have hstart : pathStart (home ++ 47 :: name) ≤ home.length + 1 := by
    rw [pathStart]
    split
    · rename_i htake
      cases home with
      | nil => cases htake
      | cons b home =>
        rw [List.length_cons]
        omega
    · split <;> omega
  simp only [correctPath, Bool.and_eq_true, List.all_eq_true] at h
  obtain ⟨front, hfront, -⟩ := splitOn_drop name hstart
  intro c hc
  exact h.2 c (hfront ▸ List.mem_append_right front hc)

/-- Where a path starts. -/
theorem head?_append_slash (home name : Bytes) :
    (home ++ 47 :: name).head? = (home ++ [47]).head? := by
  cases home <;> rfl

end CorrectPath

/-- The directory of a path is what stands before its last slash. -/
theorem getDirectory_append (directory : Bytes) {last : Bytes} (h : (47 : UInt8) ∉ last) :
    getDirectory (directory ++ 47 :: last) = directory := by
  have hskip : ∀ b ∈ last.reverse, decide (b ≠ 47) = true := by
    intro b hb
    rw [decide_eq_true_eq]
    rintro rfl
    exact h (List.mem_reverse.mp hb)
  have hdrop : (directory ++ 47 :: last).reverse.dropWhile (· ≠ 47) = 47 :: directory.reverse := by
    rw [List.reverse_append, List.reverse_cons, List.append_assoc,
      List.dropWhile_append_of_pos hskip]
    rfl
  rw [getDirectory, hdrop, List.drop_one, List.tail_cons, List.reverse_reverse]

/-- A path without a slash has no directory. -/
theorem getDirectory_of_not_mem {name : Bytes} (h : (47 : UInt8) ∉ name) :
    getDirectory name = [] := by
  have hdrop : name.reverse.dropWhile (· ≠ 47) = [] := by
    rw [List.dropWhile_eq_nil_iff]
    intro b hb
    rw [decide_eq_true_eq]
    rintro rfl
    exact h (List.mem_reverse.mp hb)
  rw [getDirectory, hdrop]
  rfl

/-- The last piece of a path. -/
theorem exists_last_of_mem {name : Bytes} (h : (47 : UInt8) ∈ name) :
    ∃ directory last, name = directory ++ 47 :: last ∧ (47 : UInt8) ∉ last := by
  obtain ⟨last, directory, hsplit, hlast⟩ := List.eq_append_cons_of_mem (List.mem_reverse.mpr h)
  refine ⟨directory.reverse, last.reverse, ?_, fun hmem => hlast (List.mem_reverse.mp hmem)⟩
  rw [← List.reverse_reverse name, hsplit, List.reverse_append, List.reverse_cons,
    List.append_assoc]
  rfl

/-! ## The two calls -/

/-- Everything that is touched or changed is beneath the directory that a path names. -/
def Contained (home : Bytes) (w w' : Disk) : Prop :=
  Within w w' fun n => ∃ top, IsHome w home top ∧ Beneath w'.tree top n

theorem Inside.contained {home : Bytes} {w w' : Disk} {top : ℕ} (htop : IsHome w home top)
    (h : Inside w top w') : Contained home w w' := by
  obtain ⟨touched, htouched, hall⟩ := h
  exact ⟨touched, htouched, fun n hn => ⟨top, htop, hall n hn⟩⟩

theorem Same.at_top {w w' : Disk} (h : Same w w') (top : ℕ) : At w top top w' :=
  ⟨h.within _, .top⟩

section Calls

variable {home name : Bytes} {w : Disk}

/-- The opening of the directory that a walk starts from. -/
theorem contained_openDirectory (home path : Bytes) :
    Triple (fun w' => w' = w) (openDirectory path)
      (fun d w' => Same w w' ∧ Names w.tree (startOf w.cwd path) (components path) d)
      (fun _ => Contained home w) :=
  (same_openDirectory path).weaken (fun _ h => h ▸ ⟨rfl, rfl, rfl⟩) (fun _ _ h => h)
    fun _ _ h => h.within _

/-- An absolute home directory is named from the root on. -/
theorem isHome_of_absolute (habsolute : (home ++ [47]).head? = some 47) {d top : ℕ}
    (hd : Names w.tree (startOf w.cwd (ascii "/")) (components (ascii "/")) d)
    (htop : Names w.tree d (components (home.drop 1)) top) : IsHome w home top := by
  have hroot : startOf w.cwd (ascii "/") = 0 := if_pos (by decide)
  have hnone : components (ascii "/") = [] := by decide
  rw [hroot, hnone] at hd
  cases hd
  have hdrop : components (home.drop 1) = components home := by
    cases home with
    | nil => rfl
    | cons b home =>
      obtain rfl : b = 47 := Option.some.inj habsolute
      exact (components_append [] home).symm
  rw [IsHome, startOf, if_pos habsolute, ← hdrop]
  exact htop

/-- Another home directory is named from the current directory on. -/
theorem isHome_of_relative (hrelative : (home ++ [47]).head? ≠ some 47) {d top : ℕ}
    (hd : Names w.tree (startOf w.cwd (ascii ".")) (components (ascii ".")) d)
    (htop : Names w.tree d (components home) top) : IsHome w home top := by
  have hcwd : startOf w.cwd (ascii ".") = w.cwd := if_neg (by decide)
  have hhere : components (ascii ".") = [.here] := by decide
  rw [hcwd, hhere] at hd
  cases hd with
  | here _ hd =>
    cases hd
    rw [IsHome, startOf, if_neg hrelative]
    exact htop

/-- The walk of `createDir` from a place of the trusted part. -/
theorem contained_walk (hcorrect : correctPath (home ++ 47 :: name) = true) (user : ℕ) {k d : ℕ}
    (hk : k ≤ home.length + 1)
    (hhome : ∀ top, Names w.tree d (components (home.drop k)) top → IsHome w home top) :
    Triple (Same w) (createDirLoop user (home.length + 1) k
      (((home ++ 47 :: name).drop k).splitOn 47) d)
      (fun _ => Contained home w) (fun _ => Contained home w) := by
  have hnames : ∀ c ∈ name.splitOn 47, ∃ x, componentOf c = .name x := fun c hc =>
    ⟨_, (componentOf_of_correctFileName (correctFileName_of_correctPath hcorrect c hc)).2⟩
  obtain ⟨front, hfront, hspan, hcomponents⟩ := splitOn_drop name hk
  rw [hfront]
  refine triple_createDirLoop (fun w' h => h.within _) front hspan fun top hnamed => ?_
  have htop : IsHome w home top := hhome top (hcomponents ▸ hnamed)
  exact (inside_createDirLoop (name.splitOn 47) (Nat.le_refl _) hnames).weaken
    (fun _ h => h.at_top top) (fun _ _ h => h.contained htop) fun _ _ h => h.contained htop

/-- What `createDir` creates and chowns is beneath the home directory. -/
theorem contained_createDir (hcorrect : correctPath (home ++ 47 :: name) = true) (user : ℕ) :
    Triple (fun w' => w' = w) (createDir (home ++ 47 :: name) user (home.length + 1))
      (fun _ => Contained home w) (fun _ => Contained home w) := by
  rw [createDir, head?_append_slash]
  by_cases habsolute : (home ++ [47]).head? = some 47
  · simp only [habsolute, if_true]
    refine .bind (contained_openDirectory home _) fun d => .of_states fun w' hw => ?_
    have hwalk := contained_walk (k := 1) hcorrect user (by omega) fun top =>
      isHome_of_absolute habsolute hw.2
    exact hwalk.at_state hw.1
  · simp only [habsolute, if_false]
    refine .bind (contained_openDirectory home _) fun d => .of_states fun w' hw => ?_
    have hwalk := contained_walk (k := 0) hcorrect user (by omega) fun top =>
      isHome_of_relative habsolute hw.2
    exact hwalk.at_state hw.1

/-- A path is its stripped part with slashes behind it. -/
theorem exists_slashes (s : Bytes) :
    ∃ slashes, s = (s.reverse.dropWhile (· = 47)).reverse ++ slashes ∧ ∀ b ∈ slashes, b = 47 := by
  refine ⟨(s.reverse.takeWhile (· = 47)).reverse, ?_, fun b hb => ?_⟩
  · rw [← List.reverse_append, List.takeWhile_append_dropWhile, List.reverse_reverse]
  · have hslash := List.mem_takeWhile_imp (List.mem_reverse.mp hb)
    exact of_decide_eq_true hslash

/-- The base of the path names the home directory. -/
theorem basePath_spec (home name : Bytes) :
    (basePath (home ++ 47 :: name) (home.length + 1)).head? = (home ++ [47]).head? ∧
      components (basePath (home ++ 47 :: name) (home.length + 1)) = components home := by
  have htake : (home ++ 47 :: name).take (home.length + 1) = home ++ [47] := by
    rw [List.take_append, List.take_of_length_le (by omega), Nat.add_sub_cancel_left]
    rfl
  have hhome : components (home ++ [47]) = components home :=
    components_append_slashes home fun b hb => List.mem_singleton.mp hb
  obtain ⟨slashes, hbase, hslashes⟩ := exists_slashes (home ++ [47])
  have hstripped := components_append_slashes
    ((home ++ [47]).reverse.dropWhile (· = 47)).reverse hslashes
  rw [← hbase, hhome] at hstripped
  rw [basePath, htake]
  split
  · rename_i hne
    rw [hstripped]
    refine ⟨?_, rfl⟩
    cases hs : ((home ++ [47]).reverse.dropWhile (· = 47)).reverse with
    | nil => exact absurd hs hne
    | cons b rest =>
      rw [hbase, hs]
      rfl
  · rename_i hnil
    -- there are only slashes
    rw [not_not.mp hnil] at hbase hstripped
    rw [if_pos (List.append_ne_nil_of_right_ne_nil _ (List.cons_ne_nil _ _)), hstripped]
    rw [List.nil_append] at hbase
    cases hcons : home ++ [47] with
    | nil => exact absurd hcons (List.append_ne_nil_of_right_ne_nil _ (List.cons_ne_nil _ _))
    | cons b rest =>
      obtain rfl : b = 47 := hslashes b (hbase ▸ hcons ▸ List.mem_cons_self)
      exact ⟨rfl, rfl⟩

/-- The pieces of the directory and the name of the file are pieces of the name. -/
theorem mem_splitOn_of_getDirectory {name : Bytes} (hname : ∀ c ∈ name.splitOn 47, c ≠ []) :
    (∀ c ∈ (getDirectory name).splitOn 47, c ≠ [] → c ∈ name.splitOn 47) ∧
      (if getDirectory name = [] then name else name.drop ((getDirectory name).length + 1)) ∈
        name.splitOn 47 := by
  by_cases hmem : (47 : UInt8) ∈ name
  · obtain ⟨directory, last, rfl, hlast⟩ := exists_last_of_mem hmem
    have hdirectory : directory ≠ [] := by
      rintro rfl
      exact hname [] (by rw [List.splitOn_append_cons_self]; exact List.mem_cons_self) rfl
    rw [getDirectory_append directory hlast, List.splitOn_append_cons_self, if_neg hdirectory,
      List.splitOn_eq_singleton hlast, List.drop_append, List.drop_eq_nil_of_le (by omega),
      Nat.add_sub_cancel_left]
    exact ⟨fun c hc _ => List.mem_append_left _ hc, List.mem_append_right _ List.mem_cons_self⟩
  · rw [getDirectory_of_not_mem hmem, if_pos rfl, List.splitOn_eq_singleton hmem]
    exact ⟨fun c hc hne => absurd (List.mem_singleton.mp hc) hne, List.mem_cons_self⟩

/-- What the fallback of `openFileWithinTrustedPath` creates and opens is beneath the home
directory. -/
theorem contained_openFileWithinTrustedPath (hcorrect : correctPath (home ++ 47 :: name) = true)
    (trusted : Bytes → DiskM ℕ) (create : Bool) :
    Triple (fun w' => w' = w)
      (openFileWithinTrustedPath trusted create (home ++ 47 :: name) (home.length + 1))
      (fun n w' => Contained home w w' ∧ ∃ top, IsHome w home top ∧ Beneath w'.tree top n)
      (fun _ => Contained home w) := by
  have hpieces := correctFileName_of_correctPath hcorrect
  have hnonempty : ∀ c ∈ name.splitOn 47, c ≠ [] := fun c hc =>
    (componentOf_of_correctFileName (hpieces c hc)).1
  have hnamed : ∀ c ∈ name.splitOn 47, ∃ x, componentOf c = .name x := fun c hc =>
    ⟨_, (componentOf_of_correctFileName (hpieces c hc)).2⟩
  obtain ⟨hdirectory, hfile⟩ := mem_splitOn_of_getDirectory hnonempty
  -- no piece is empty, so `name` does not begin with the slashes that the source skips
  have hrelative : ((home ++ 47 :: name).drop (home.length + 1)).dropWhile (· = 47) = name := by
    rw [List.drop_append, List.drop_eq_nil_of_le (by omega), Nat.add_sub_cancel_left,
      List.nil_append, List.drop_one, List.tail_cons]
    cases name with
    | nil => rfl
    | cons b name =>
      have hb : b ≠ 47 := by
        rintro rfl
        have hfirst : [] ∈ ([] ++ 47 :: name : Bytes).splitOn 47 := by
          rw [List.splitOn_append_cons_self]
          exact List.mem_cons_self
        exact hnonempty [] hfirst rfl
      exact List.dropWhile_cons_of_neg (by simpa using hb)
  have hne : name ≠ [] := by
    rintro rfl
    exact hnonempty [] List.mem_cons_self rfl
  obtain ⟨hstart, hcomponents⟩ := basePath_spec home name
  rw [openFileWithinTrustedPath, hrelative, if_neg (by simp [hne])]
  refine .bind (contained_openDirectory home _) fun top => .of_states fun w' hw => ?_
  have htop : IsHome w home top := by
    rw [IsHome, ← hcomponents, startOf, ← hstart]
    exact hw.2
  have hwalk : Triple (At w top top) (do
      let last ← openLoop ((getDirectory name).splitOn 47) top
      openatFile create last (if getDirectory name = [] then name
        else name.drop ((getDirectory name).length + 1)))
      (fun n => At w top n) (fun _ => Inside w top) := by
    obtain ⟨x, hx⟩ := hnamed _ hfile
    exact .bind (inside_openLoop _ fun c hc hne => hnamed c (hdirectory c hc hne)) fun last =>
      inside_openatFile create hx
  exact (hwalk.weaken (fun _ h => h) (fun _ _ h => ⟨h.1.contained htop, top, htop, h.2⟩)
    fun _ _ h => h.contained htop).at_state (hw.1.at_top top)

end Calls

/-- Whatever links there are, an upload stays in the home directory. -/
theorem contained_upload {home name : Bytes} (hcorrect : correctPath (home ++ 47 :: name) = true)
    (w : Disk) (user : ℕ) (trusted : Bytes → DiskM ℕ) (create : Bool) :
    Triple (fun w' => w' = w) (createDir (home ++ 47 :: name) user (home.length + 1))
      (fun _ => Contained home w) (fun _ => Contained home w) ∧
    Triple (fun w' => w' = w)
      (openFileWithinTrustedPath trusted create (home ++ 47 :: name) (home.length + 1))
      (fun n w' => Contained home w w' ∧ ∃ top, IsHome w home top ∧ Beneath w'.tree top n)
      (fun _ => Contained home w) :=
  ⟨contained_createDir hcorrect user, contained_openFileWithinTrustedPath hcorrect trusted create⟩

/-- A home directory `/h` with a link `l` to the root. -/
def linkedDisk : Disk where
  tree := ⟨[.directory 0 fun x => if x = ascii "h" then some 1 else none,
    .directory 0 fun x => if x = ascii "l" then some 2 else none, .link true []]⟩
  cwd := 0
  permits := fun _ => true

theorem contained_upload_link :
    Triple (fun w' => w' = linkedDisk) (createDir (ascii "/h" ++ 47 :: ascii "l/d") 5 3)
      (fun _ => Contained (ascii "/h") linkedDisk) (fun _ => Contained (ascii "/h") linkedDisk) ∧
    Triple (fun w' => w' = linkedDisk)
      (openFileWithinTrustedPath (fun _ => throw ()) true (ascii "/h" ++ 47 :: ascii "l/d") 3)
      (fun n w' => Contained (ascii "/h") linkedDisk w' ∧
        ∃ top, IsHome linkedDisk (ascii "/h") top ∧ Beneath w'.tree top n)
      (fun _ => Contained (ascii "/h") linkedDisk) :=
  @contained_upload (ascii "/h") (ascii "l/d") (by decide +kernel) linkedDisk 5
    (fun _ => throw ()) true

end VplJail.Util
