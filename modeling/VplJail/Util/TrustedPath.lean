import VplJail.Common.FileTree
import VplJail.Common.Triple
import VplJail.Util.Paths

/-!
# Paths into a home directory

`createDir` and the fallback of `openFileWithinTrustedPath` walk a path component by component. The
part before `pos` is trusted and may go through links; behind it no link is followed. The system
calls are those of a file tree, and any of them may fail for reasons of its own.
-/

namespace VplJail.Util

open FileTree

/-! ## The file system -/

/-- `40`, the number of links that a path may go through. -/
def linkLimit : ℕ := 40

/-- The file system of a process, with its current directory, the nodes that have been created,
chowned or opened, and which of its system calls will be permitted. -/
structure Disk where
  tree : FileTree Bytes
  cwd : ℕ
  touched : List ℕ := []
  permits : ℕ → Bool
  calls : ℕ := 0

/-- A computation on the file system that may fail. -/
abbrev DiskM := ExceptT Unit (StateM Disk)

/-- A component as the system reads it, up to its first NUL. -/
def componentOf (c : Bytes) : Component Bytes :=
  if cstr c = ascii "." then .here
  else if cstr c = ascii ".." then .up
  else .name (cstr c)

/-- The components of a path. -/
def components (path : Bytes) : List (Component Bytes) :=
  ((path.splitOn 47).filter (· ≠ [])).map componentOf

/-- The directory that a path starts from. -/
def startOf (cwd : ℕ) (path : Bytes) : ℕ :=
  if path.head? = some 47 then 0 else cwd

/-- A system call that the system may refuse. -/
def permitted : DiskM Unit := do
  let w ← get
  set { w with calls := w.calls + 1 }
  if w.permits w.calls then pure () else throw ()

/-- The node is created, chowned or opened. -/
def touch (n : ℕ) : DiskM Unit :=
  modify fun w => { w with touched := w.touched ++ [n] }

/-- `open(path, O_PATH | O_DIRECTORY)` -/
def openDirectory (path : Bytes) : DiskM ℕ := do
  permitted
  let w ← get
  match w.tree.resolve linkLimit (startOf w.cwd path) (components path) with
  | none => throw ()
  | some d => if w.tree.isDirectory d then pure d else throw ()

/-- `openat(d, component, O_PATH | O_DIRECTORY)` -/
def openatFollowing (d : ℕ) (component : Bytes) : DiskM ℕ := do
  permitted
  let w ← get
  match w.tree.resolve linkLimit d [componentOf component] with
  | none => throw ()
  | some d' => if w.tree.isDirectory d' then pure d' else throw ()

/-- The node of a component, where a link is not followed. -/
def lookup (t : FileTree Bytes) (d : ℕ) (component : Bytes) : Option ℕ :=
  match componentOf component with
  | .here => some d
  | .up => t.parent d
  | .name x => t.entry d x

/-- `openat(d, component, O_PATH | O_DIRECTORY | O_NOFOLLOW)` -/
def openatNofollow (d : ℕ) (component : Bytes) : DiskM ℕ := do
  permitted
  let w ← get
  match lookup w.tree d component with
  | none => throw ()
  | some d' => if w.tree.isDirectory d' then pure d' else throw ()

/-- `mkdirat(d, component, 0700)`: whether the directory has been created. Else it exists, unless
there is another error. -/
def mkdirat (d : ℕ) (component : Bytes) : DiskM Bool := do
  permitted
  let w ← get
  match componentOf component with
  | .name x =>
      if (w.tree.entry d x).isSome then pure false
      else if w.tree.isDirectory d && !x.isEmpty then do
        set { w with
          tree := w.tree.add d x (.directory d fun _ => none)
          touched := w.touched ++ [w.tree.nodes.length] }
        pure true
      else throw ()
  | _ => pure false

/-- `fchownat(d, component, user, user, AT_SYMLINK_NOFOLLOW)` -/
def fchownat (d : ℕ) (component : Bytes) : DiskM Unit := do
  permitted
  let w ← get
  match lookup w.tree d component with
  | none => throw ()
  | some n => touch n

/-- `openat(d, fileName, flags | O_NOFOLLOW, mode)`, where `create` is the flag `O_CREAT`. -/
def openatFile (create : Bool) (d : ℕ) (fileName : Bytes) : DiskM ℕ := do
  permitted
  let w ← get
  match lookup w.tree d fileName, componentOf fileName with
  | some n, _ =>
      if (w.tree.target n).isSome then throw ()
      else do
        touch n
        pure n
  | none, .name x =>
      if create && w.tree.isDirectory d && !x.isEmpty then do
        set { w with
          tree := w.tree.add d x .file
          touched := w.touched ++ [w.tree.nodes.length] }
        pure w.tree.nodes.length
      else throw ()
  | none, _ => throw ()

/-! ## `createDir` -/

/-- The creation of a component behind `pos`. -/
def makeComponent (user d : ℕ) (component : Bytes) : DiskM Unit := do
  let created ← mkdirat d component
  if created && decide (user ≠ 0) then fchownat d component else pure ()

/-- The loop of `createDir` over the pieces between the separators of the path, the first of which
is at `componentStart`. -/
def createDirLoop (user pos : ℕ) : ℕ → List Bytes → ℕ → DiskM Unit
  | _, [], _ => pure ()
  | componentStart, component :: rest, d =>
      let separator := componentStart + component.length
      if component = [] then createDirLoop user pos (separator + 1) rest d
      else if pos ≤ separator then do
        makeComponent user d component
        let next ← openatNofollow d component
        createDirLoop user pos (separator + 1) rest next
      else do
        let next ← openatFollowing d component
        createDirLoop user pos (separator + 1) rest next

/-- `createDir`: the directories of a path are made for a user. -/
def createDir (path : Bytes) (user pos : ℕ) : DiskM Unit := do
  let absolute := path.head? = some 47
  let d ← openDirectory (ascii (if absolute then "/" else "."))
  let componentStart := if absolute then 1 else 0
  createDirLoop user (if pos = 0 then 1 else pos) componentStart
    ((path.drop componentStart).splitOn 47) d

/-! ## `openFileWithinTrustedPath` -/

/-- `getDirectory`: the path in front of the last slash. -/
def getDirectory (filePath : Bytes) : Bytes :=
  ((filePath.reverse.dropWhile (· ≠ 47)).drop 1).reverse

/-- The loop of the fallback over the pieces of the directory. -/
def openLoop : List Bytes → ℕ → DiskM ℕ
  | [], d => pure d
  | component :: rest, d =>
      if component = [] then openLoop rest d
      else do
        let next ← openatNofollow d component
        openLoop rest next

/-- `base`, the path before `pos` without the slashes at its end. -/
def basePath (name : Bytes) (pos : ℕ) : Bytes :=
  let base := name.take pos
  let stripped := (base.reverse.dropWhile (· = 47)).reverse
  if stripped ≠ [] then stripped
  else if base ≠ [] then base.take 1
  else ascii (if name.head? = some 47 then "/" else ".")

/-- `openFileWithinTrustedPath` without `openat2`. A path that is trusted as a whole is opened by
`trusted`. -/
def openFileWithinTrustedPath (trusted : Bytes → DiskM ℕ) (create : Bool) (name : Bytes) (pos : ℕ) :
    DiskM ℕ := do
  let relative := (name.drop pos).dropWhile (· = 47)
  if pos = 0 ∨ relative = [] then trusted name
  else do
    let d ← openDirectory (basePath name pos)
    let directory := getDirectory relative
    let fileName := if directory = [] then relative else relative.drop (directory.length + 1)
    let last ← openLoop (directory.splitOn 47) d
    openatFile create last fileName

end VplJail.Util
