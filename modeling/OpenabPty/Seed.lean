import OpenabPty.Basic
import OpenabPty.Core.Disk

/-!
# Seeding the workspace (`seed.rs`)

An archive is unpacked into a directory of its own below the target and its entries are then
moved, one by one, to where they belong. What reads the gzipped tar and writes one of its entries
is the `tar` crate's; everything else is here. A file name is its bytes.
-/

namespace OpenabPty

open Paths Halfway

namespace Seed

/-- A file name. -/
abbrev Name := List UInt8

/-- What is in a file. -/
abbrev Contents := List UInt8

/-- `DEFAULT_MAX_EXTRACTED_BYTES`. -/
def defaultMaxExtractedBytes : Nat := 500 * 1024 * 1024

/-- `DEFAULT_MAX_FILE_COUNT`. -/
def defaultMaxFileCount : Nat := 10000

/-- Why a seed fails, an `anyhow::Error`. -/
inductive Failure where
  | io (e : Errno)
  /-- `seed: archive is not gzipped tar (bad magic bytes)` -/
  | badMagic
  /-- `seed: tarball contains too many entries ({count}, max {max})` -/
  | tooManyEntries (count max : Nat)
  /-- `seed: timed out during tarball extraction at entry {count}` -/
  | timedOutAtEntry (count : Nat)
  /-- `seed: extracted size exceeds limit ({total} > {max})` -/
  | tooLarge (total max : Nat)
  /-- `seed: timed out before applying to target` -/
  | timedOutBeforeApplying
  /-- `seed: timed out during move to target` -/
  | timedOutDuringMove
  /-- `seed: rejecting symlink with absolute target: {target}` -/
  | absoluteTarget (target : Path Name)
  /-- `seed: cannot read {dir}` -/
  | cannotRead (dir : Path Name) (cause : Failure)
  /-- `seed: cannot read archive {name}` -/
  | cannotReadArchive (name : Name) (cause : Failure)
  /-- `seed: applying {name} failed` -/
  | applying (name : Name) (cause : Failure)
  /-- The program's stack has an end. -/
  | stackOverflow

instance : FromErrno Failure := ⟨.io⟩

/-- A step of the seed. -/
abbrev Io := Paths.Io Name Contents Failure

/-! ### Paths -/

/-- One turn of the loop of `normalize_path`. -/
def normalizeStep (components : Path Name) (component : Component Name) : Path Name :=
  match component with
  | .parentDir =>
    -- Only pop if there is something to pop and it is not the root.
    match components.getLast? with
    | none => components
    | some .rootDir => components
    | some _ => components.dropLast
  | .curDir => components
  | _ => components ++ [component]

/-- `normalize_path`. -/
def normalizePath (path : Path Name) : Path Name := path.foldl normalizeStep []

/-- `Path::starts_with`. -/
def startsWith (path base : Path Name) : Bool := base.isPrefixOf path

/-- `symlink_escapes`. -/
def symlinkEscapes (root linkPath linkTarget : Path Name) : Bool :=
  if isAbsolute linkTarget then true
  else
    let parent := (parent linkPath).getD root
    let resolved := normalizePath (join parent linkTarget)
    let rootNormalized := normalizePath root
    !startsWith resolved rootNormalized

/-! ### Extraction -/

/-- `tar::EntryType`, as far as it is asked for. -/
inductive EntryType where
  | regular
  | symlink
  | hardLink
  deriving DecidableEq

/-- An entry of an archive: what its header says. -/
structure Entry where
  /-- `Entry::path` -/
  path : Option (Path Name)
  /-- `Entry::size` -/
  size : Nat
  entryType : EntryType
  /-- `Entry::link_name`, where it is `Ok(Some(_))` -/
  linkName : Option (Path Name)
  /-- `Header::mode` -/
  mode : Option Nat

/-- What the `flate2`, `tar` and `tempfile` crates do. -/
structure Crates where
  /-- `tar::Archive::entries` over the decompressed bytes, so many of them at most. -/
  entries : Contents → Nat → Except Errno (List (Except Errno Entry))
  /-- `Entry::unpack_in`, as the call of this number: whether it wrote, and what is then there. -/
  unpackIn : Nat → Entry → Path Name → Tree Name Contents → Except Errno Bool × Tree Name Contents
  /-- The name that `tempfile` draws. -/
  tempName : Nat → Name

variable (crates : Crates) (host : Host Name Contents)

/-- `Entry::unpack_in`. -/
def unpackIn (entry : Entry) (dest : Path Name) : Io Bool :=
  step fun d =>
    let (written, t) := crates.unpackIn d.calls entry dest d.tree
    (written.mapError .io, d.called t)

/-- Whether an entry is a link whose target escapes `dest`. -/
def linkEscapes (dest : Path Name) (entry : Entry) : Bool :=
  match entry.entryType, entry.linkName, entry.path with
  | .hardLink, some linkTarget, some _ =>
    -- Relative to the root of the archive.
    let resolved := normalizePath (join dest linkTarget)
    let rootNormalized := normalizePath dest
    !startsWith resolved rootNormalized
  | .symlink, some linkTarget, some entryPath =>
    symlinkEscapes dest (join dest entryPath) linkTarget
  | _, _, _ => false

/-- The permission pass of an entry that was written. -/
def setPermissions (dest : Path Name) (entry : Entry) : Io Unit := do
  match entry.path with
  | none => return ()
  | some path =>
    let outPath := join dest path
    let contained := startsWith (normalizePath outPath) (normalizePath dest)
    -- `unwrap_or(false)`
    let isFile := match ← look host.fails (lstat · outPath) with
      | .ok node => node.isFile
      | .error _ => false
    if contained && isFile then
      let mode := (entry.mode.getD 0o644) &&& 0o777
      -- `let _ =`: what becomes of it is not asked.
      let _ ← attempt host (chmod · outPath mode) whole

/-- What the loop does with an entry that is within the budgets. -/
def extractEntry (dest : Path Name) (entry : Entry) : Io Unit := do
  if linkEscapes dest entry then return ()
  if ← unpackIn crates entry dest then
    setPermissions host dest entry

/-- The loop of `extract_tarball_budgeted`. The sum of the sizes wraps. -/
def extractEntries (dest : Path Name) (maxFileCount maxExtractedBytes : Nat) :
    Nat → Nat → List (Except Errno Entry) → Io Unit
  | _, _, [] => return ()
  | _, _, .error e :: _ => raise e
  | fileCount, totalExtracted, .ok entry :: rest => do
    let fileCount := fileCount + 1
    if fileCount > maxFileCount then
      throw (.tooManyEntries fileCount maxFileCount)
    if fileCount % 10 = 0 then
      if ← expired host then
        throw (.timedOutAtEntry fileCount)
    let totalExtracted := (totalExtracted + entry.size) % 2 ^ 64
    if totalExtracted > maxExtractedBytes then
      throw (.tooLarge totalExtracted maxExtractedBytes)
    extractEntry crates host dest entry
    extractEntries dest maxFileCount maxExtractedBytes fileCount totalExtracted rest

/-- `extract_tarball_budgeted`. -/
def extractTarballBudgeted (data : Contents) (dest : Path Name)
    (maxFileCount maxExtractedBytes : Nat) : Io Unit := do
  let metadataHeadroom := min (maxFileCount * 1024) u64Max
  let ceiling := satAdd maxExtractedBytes metadataHeadroom
  match crates.entries data ceiling with
  | .error e => raise e
  | .ok entries => extractEntries crates host dest maxFileCount maxExtractedBytes 0 0 entries

/-! ### Applying -/

/-- `create_symlink`. -/
def createSymlink (linkTarget dst : Path Name) : Io Unit := do
  if isAbsolute linkTarget then
    throw (.absoluteTarget linkTarget)
  makeSymlink host linkTarget dst

/-- A link at the destination is removed before anything is written through it, `if let Ok` it is
seen. -/
def replaceSymlink (dstPath : Path Name) : Io Unit := do
  match ← look host.blind (lstat · dstPath) with
  | .ok (.link _) => removeFile host dstPath
  | _ => return ()

/-- What is at the destination is removed, a directory with all that is in it, `if let Ok` it is
seen. -/
def clear (dstPath : Path Name) : Io Unit := do
  match ← look host.blind (lstat · dstPath) with
  | .ok .dir => removeDirAll host dstPath
  | .ok _ => removeFile host dstPath
  | .error _ => return ()

/-- The branch of `move_recursive` for a link. -/
def moveSymlink (srcPath dstPath : Path Name) : Io Unit := do
  let linkTarget ← query host (readLink · srcPath)
  clear host dstPath
  createSymlink host linkTarget dstPath

/-- The branch of `move_recursive` for a file. -/
def moveFile (srcPath dstPath : Path Name) : Io Unit := do
  match ← rename host srcPath dstPath with
  | .ok () => return ()
  | .error _ =>
    copy host srcPath dstPath
    removeFile host srcPath

/-- The body of the loop of `move_recursive`. -/
def moveEntry (recur : Path Name → Path Name → Io Unit) (src dst : Path Name) (name : Name) :
    Io Unit := do
  if ← expired host then
    throw .timedOutDuringMove
  -- `entry?`: the directory is read on.
  query host fun _ => .ok ()
  let srcPath := join src [.normal name]
  let dstPath := join dst [.normal name]
  let node ← query host (lstat · srcPath)
  replaceSymlink host dstPath
  match node with
  | .link _ => moveSymlink host srcPath dstPath
  | .dir =>
    createDirAll host dstPath
    recur srcPath dstPath
  | .file _ _ => moveFile host srcPath dstPath

/-- `move_recursive`, so many directories deep at most. -/
def moveRecursive : Nat → Path Name → Path Name → Io Unit
  | 0, _, _ => throw .stackOverflow
  | depth + 1, src, dst => do
    let names ← query host (readDir · src)
    names.forM (moveEntry host (moveRecursive depth) src dst)

/-- `tempfile::tempdir_in`. -/
def tempdirIn (target : Path Name) : Io (Path Name) := do
  let name ← step fun d => (.ok (crates.tempName d.calls), d)
  let path := join target [.normal name]
  orRaise (attempt host (mkdir · path) whole)
  return path

/-- The magic bytes of gzip. -/
def startsWithMagic (data : Contents) : Bool := [0x1f, 0x8b].isPrefixOf data

/-- `extract_and_apply`. The temporary directory goes when the function returns. -/
def extractAndApply (depth : Nat) (data : Contents) (target : Path Name) : Io Unit := do
  createDirAll host target
  let tempDir ← tempdirIn crates host target
  ensure (do
    if !startsWithMagic data then
      throw .badMagic
    extractTarballBudgeted crates host data tempDir defaultMaxFileCount defaultMaxExtractedBytes
    if ← expired host then
      throw .timedOutBeforeApplying
    moveRecursive host depth tempDir target) (removeDirAll host tempDir)

/-- `Seeded`. -/
structure Seeded where
  archives : List Name
  bytes : Nat

/-- `.tar.gz` -/
def archiveSuffix : Name := ".tar.gz".toUTF8.toList

/-- What `apply_dir` takes an entry of the directory for. -/
def isArchive (dir : Path Name) (name : Name) : Io Bool := do
  -- `e.ok()`: an entry that cannot be read is passed over.
  match ← look host.fails fun _ => .ok () with
  | .error _ => return false
  | .ok () =>
    -- `Path::is_file`
    match ← look host.fails (stat · (join dir [.normal name])) with
    | .ok node => return node.isFile && archiveSuffix.isSuffixOf name
    | .error _ => return false

/-- The iterator of `apply_dir` over the directory. -/
def collectArchives (dir : Path Name) : List Name → Io (List Name)
  | [] => return []
  | name :: rest => do
    let found ← isArchive host dir name
    let archives ← collectArchives dir rest
    return if found then name :: archives else archives

/-- `archives.sort()`. -/
def sortArchives (names : List Name) : List Name := names.mergeSort fun a b => decide (a ≤ b)

/-- `std::fs::read`. -/
def readFile (t : Tree Name Contents) (p : Path Name) : Except Errno Contents := do
  match ← stat t p with
  | .file contents _ => .ok contents
  | _ => .error .isDir

/-- The loop of `apply_dir`. -/
def applyArchives (depth : Nat) (dir target : Path Name) : Seeded → List Name → Io Seeded
  | applied, [] => return applied
  | applied, name :: rest => do
    let data ← context (.cannotReadArchive name)
      (query host (readFile · (join dir [.normal name])))
    context (.applying name) (extractAndApply crates host depth data target)
    applyArchives depth dir target
      { archives := applied.archives ++ [name], bytes := applied.bytes + data.length } rest

/-- `apply_dir`. -/
def applyDir (depth : Nat) (dir target : Path Name) : Io Seeded := do
  -- `Path::exists`
  match ← look host.fails (stat · dir) with
  | .error _ => return { archives := [], bytes := 0 }
  | .ok _ =>
    let names ← context (.cannotRead dir) (query host (readDir · dir))
    let archives ← collectArchives host dir names
    applyArchives crates host depth dir target { archives := [], bytes := 0 }
      (sortArchives archives)

end Seed

end OpenabPty
