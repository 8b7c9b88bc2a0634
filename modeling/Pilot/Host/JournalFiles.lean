import Mathlib.Algebra.Order.Field.Rat
import Mathlib.Data.List.Sort
import Mathlib.Data.String.Basic
import Pilot.Lib.Dict
import Pilot.Lib.Transitions

/-!
# Journal files

A closed journal is compressed beside itself and its raw file removed, a few files a sweep. The
process may die and the file system may fail at every point between. Readers take the raw file of
a journal where it exists and the compressed one otherwise. The compression is any lossless one.
-/

namespace Pilot.Host

/-! ### Files -/

/-- What a file of a journal's stem is: `.jsonl`, `.jsonl.gz` or `.jsonl.gz.tmp`. -/
inductive FileKind where
  | raw
  | gz
  | tmp
  deriving DecidableEq

def FileKind.suffix : FileKind → String
  | .raw => ".jsonl"
  | .gz => ".jsonl.gz"
  | .tmp => ".jsonl.gz.tmp"

/-- A file name: its stem and its kind. -/
abbrev FilePath := String × FileKind

def FilePath.name (path : FilePath) : String := path.1 ++ path.2.suffix

structure JournalFile (β : Type) where
  bytes : β
  mtime : ℚ

abbrev Directory (β : Type) := Dict FilePath (JournalFile β)

/-- A lossless compression of file contents. -/
structure Gzip (β : Type) where
  compress : β → β
  decompress : β → Option β
  size : β → ℕ
  lossless : ∀ b, decompress (compress b) = some b

/-- The stem of the summary, which is no journal. -/
def summaryStem : String := "summary"

/-- A pattern leaves out the names that start with a dot. -/
def shown (stem : String) : Bool := stem.toList.head?.any (· ≠ '.')

section Files

variable {β : Type}

/-- The stems of the files a pattern finds for a kind, by their names. -/
def stemsOf (dir : Directory β) (kind : FileKind) : List String :=
  ((dir.keys.filter fun path => path.2 = kind ∧ shown path.1).map Prod.fst).insertionSort
    fun a b => FilePath.name (a, kind) ≤ FilePath.name (b, kind)

/-! ### Readers -/

/-- The file a reader takes for each stem: the compressed ones first, then the raw ones over
them. -/
def chosen (dir : Directory β) : Dict String FileKind :=
  let zipped := (stemsOf dir .gz).foldl (fun d s =>
    if s = summaryStem ∨ d.contains s then d else d.set s .gz) .empty
  (stemsOf dir .raw).foldl (fun d s => if s = summaryStem then d else d.set s .raw) zipped

/-- The journals of a directory, by their names. -/
def journalPaths (dir : Directory β) : List FilePath :=
  (chosen dir).entries.insertionSort fun a b => FilePath.name a ≤ FilePath.name b

/-- The text of a journal. -/
def openJournal (z : Gzip β) (dir : Directory β) (path : FilePath) : Option β :=
  match path.2 with
  | .gz => (dir.get? path).bind fun f => z.decompress f.bytes
  | _ => (dir.get? path).map JournalFile.bytes

/-- What a reader of the whole directory gets. -/
def readAll (z : Gzip β) (dir : Directory β) : List (String × Option β) :=
  (journalPaths dir).map fun path => (path.1, openJournal z dir path)

/-! ### Rotation -/

/-- How the compression of a file goes: it ends, with the raw file removed or locked; the size of
the raw file cannot be read; it fails or is interrupted, with the temporary file left or cleaned
up; the size of the renamed file cannot be read; or the process dies, while it copies, before the
rename or before the raw file is removed. -/
inductive GzipOutcome (β : Type) where
  | done (rawRemoved : Bool)
  | unread
  | failed (tmpLeft : Option β)
  | interrupted (tmpLeft : Option β)
  | unmeasured
  | killedCopying (half : β)
  | killedCopied
  | killedRenamed

/-- What the file system answers for one file of a sweep. -/
structure FileFate (β : Type) where
  statFails : Bool
  /-- The time since the sweep started. -/
  elapsed : ℚ
  /-- The retried removal of a raw file whose compressed one exists. -/
  leftoverRemoved : Bool
  gzip : GzipOutcome β

structure RotationConfig where
  excludeBasenames : List String
  keep : List String
  minAgeS : ℚ := 30 * 60
  maxFiles : ℕ := 3
  maxSeconds : ℚ := 60

/-- A sweep: the directory, whether the process lives, and the summary. -/
structure Sweep (β : Type) where
  dir : Directory β
  alive : Bool
  rotated : List String
  errors : List String
  bytesSaved : ℤ
  kept : List String
  deferred : ℕ
  scanned : ℕ

/-- The temporary file of a failed compression is removed, or left with what was copied. -/
def cleanUp (dir : Directory β) (stem : String) (now : ℚ) : Option β → Directory β
  | none => dir.pop (stem, .tmp)
  | some half => dir.set (stem, .tmp) ⟨half, now⟩

/-- The finished temporary file becomes the compressed one. -/
def renamed (z : Gzip β) (dir : Directory β) (stem : String) (now : ℚ) (file : JournalFile β) :
    Directory β := (dir.pop (stem, .tmp)).set (stem, .gz) ⟨z.compress file.bytes, now⟩

/-- Compress a raw journal into a temporary file, rename it and remove the raw file. -/
def gzipOneCrashSafe (z : Gzip β) (now : ℚ) (s : Sweep β) (stem : String) (file : JournalFile β) :
    GzipOutcome β → Sweep β
  | .unread => { s with errors := s.errors ++ [FilePath.name (stem, .raw)] }
  | .failed tmp => { s with
      dir := cleanUp s.dir stem now tmp
      errors := s.errors ++ [FilePath.name (stem, .raw)] }
  | .interrupted tmp => { s with dir := cleanUp s.dir stem now tmp, alive := false }
  | .unmeasured => { s with
      dir := renamed z s.dir stem now file
      errors := s.errors ++ [FilePath.name (stem, .raw)] }
  | .killedCopying half => { s with dir := cleanUp s.dir stem now (some half), alive := false }
  | .killedCopied => { s with
      dir := cleanUp s.dir stem now (some (z.compress file.bytes))
      alive := false }
  | .killedRenamed => { s with dir := renamed z s.dir stem now file, alive := false }
  | .done rawRemoved =>
    let dir := renamed z s.dir stem now file
    { s with
      dir := if rawRemoved then dir.pop (stem, .raw) else dir
      rotated := s.rotated ++ [FilePath.name (stem, .raw)]
      bytesSaved := s.bytesSaved + (z.size file.bytes - z.size (z.compress file.bytes) : ℤ) }

/-- A raw journal that no compressed one accompanies: compress it if it is old enough and the
sweep's budget is not spent. -/
def rotateRaw (z : Gzip β) (cfg : RotationConfig) (now : ℚ) (fate : FileFate β) (s : Sweep β)
    (stem : String) : Sweep β :=
  let base := FilePath.name (stem, .raw)
  match s.dir.get? (stem, .raw) with
  | none => { s with errors := s.errors ++ [base] }
  | some file =>
    if fate.statFails then { s with errors := s.errors ++ [base] }
    else if now - file.mtime < cfg.minAgeS then { s with kept := s.kept ++ [base] }
    else if cfg.maxFiles ≤ s.rotated.length ∨ cfg.maxSeconds ≤ fate.elapsed then
      { s with deferred := s.deferred + 1 }
    else gzipOneCrashSafe z now s stem file fate.gzip

/-- One raw journal of a sweep. -/
def rotateOne (z : Gzip β) (cfg : RotationConfig) (now : ℚ) (fate : String → FileFate β)
    (s : Sweep β) (stem : String) : Sweep β :=
  let base := FilePath.name (stem, .raw)
  if !s.alive ∨ stem = summaryStem then s
  else
    let s := { s with scanned := s.scanned + 1 }
    if base ∈ cfg.excludeBasenames ∨ base ∈ cfg.keep then { s with kept := s.kept ++ [base] }
    else if s.dir.contains (stem, .gz) then
      { s with
        kept := s.kept ++ [base]
        dir := if (fate stem).leftoverRemoved then s.dir.pop (stem, .raw) else s.dir }
    else rotateRaw z cfg now (fate stem) s stem

/-- A sweep over the raw journals found at its start. -/
def rotateClosedJournals (z : Gzip β) (cfg : RotationConfig) (now : ℚ)
    (fate : String → FileFate β) (dir : Directory β) : Sweep β :=
  (stemsOf dir .raw).foldl (rotateOne z cfg now fate) ⟨dir, true, [], [], 0, [], 0, 0⟩

end Files

end Pilot.Host
