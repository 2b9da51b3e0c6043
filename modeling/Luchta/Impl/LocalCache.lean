import Luchta.Framework.Bincode
import Luchta.Framework.System
import Luchta.Framework.Text
import Luchta.Framework.Volume

/-!
# The local cache

The directory of one task in the local cache (`store.rs`, `shared/atomicio.rs`): threads of any number of
processes write runs into it, `open` removes old temporary files, processes are killed, and the power fails.
A step is one system call, or the counter of temporary names. An operation may fail with an I/O error at
any of them.

* `LocalCache.isValidReportFilename`, `RunArtifacts.files`: what `Cache::write` puts in place, and in which order.
* `tmpPath`: the name under which a file is written first.
* `LocalCache.threadStep`: `Cache::write` and `streaming_atomic_write`.
* `localCache`: any interleaving.

The record is encoded by a parameter. Ages are left open: a temporary file may be removed at any time.
Left out: the directories themselves, the `.gitignore`, and that a report named `.` leads out of the directory.
-/

namespace Luchta.Impl

open Luchta.Framework

def metaFileName : String := "meta.bincode"
def stdoutFileName : String := "stdout.log"
def stderrFileName : String := "stderr.log"
def tmpSuffix : String := ".tmp"

/-- `str::ends_with`. -/
def endsWithStr (s suffix : String) : Bool := suffix.toList.isSuffixOf s.toList

structure ReportInput where
  filename : String
  mimeType : String
  content : String
  deriving DecidableEq

structure RunArtifacts (ρ : Type*) where
  record : ρ
  stdout : Bytes
  stderr : Bytes
  reports : List ReportInput
  deriving DecidableEq

def LocalCache.isValidReportFilename (filename : String) : Bool :=
  filename ≠ "" && !startsWithStr filename "/" && !containsStr filename "/" && !containsStr filename "\\" &&
    !containsStr filename ".." && filename ≠ metaFileName && filename ≠ stdoutFileName &&
    filename ≠ stderrFileName

/-- The loop over the reports: those that are written, and the error that ends it. -/
def reportFiles : List ReportInput → List (String × Bytes) × Option String
  | [] => ([], none)
  | report :: reports =>
    if !LocalCache.isValidReportFilename report.filename then
      ([], some s!"invalid cached report filename: {report.filename}")
    else
      let (files, err) := reportFiles reports
      ((report.filename, utf8 report.content) :: files, err)

section Files

variable {ρ : Type*} (encode : ρ → Bytes) (artifacts : RunArtifacts ρ)

/-- The files that `Cache::write` writes one after the other, and the error that it returns if all goes well
with them. -/
def RunArtifacts.files : List (String × Bytes) × Option String :=
  match reportFiles artifacts.reports with
  | (files, some err) => (files, some err)
  | (files, none) =>
    (files ++ [(stdoutFileName, artifacts.stdout), (stderrFileName, artifacts.stderr),
      (metaFileName, encode artifacts.record)], none)

end Files

def tmpPath (name : String) (pid nonce : Nat) : String := s!"{name}.{pid}.{nonce}{tmpSuffix}"

/-- A file that a call of `Cache::write` puts in place. -/
structure Placing where
  write : Nat
  index : Nat
  name : String
  content : Bytes
  deriving DecidableEq

/-- Where a thread is in `Cache::write`. -/
inductive WritePhase
  | idle
  /-- Before the file with this index. -/
  | next (write index : Nat)
  | create (p : Placing) (tmp : String)
  /-- With what is still to be written. -/
  | fill (p : Placing) (tmp : String) (file : Nat) (rest : Bytes)
  | sync (p : Placing) (tmp : String) (file : Nat)
  | rename (p : Placing) (tmp : String) (file : Nat)
  | syncDir (p : Placing)
  /-- The temporary file is to be removed, as writing it failed. -/
  | discard (tmp : String)
  deriving DecidableEq

/-- A thread of a process. -/
abbrev ThreadId := Nat × Nat

structure LocalCache (ρ : Type*) where
  volume : Volume String UInt8
  /-- `TMP_PATH_NONCE` of each process. -/
  nonce : Nat → Nat
  threads : ThreadId → WritePhase
  /-- The calls of `Cache::write`, in the order in which they began. -/
  writes : List (RunArtifacts ρ)
  /-- Those that returned `Ok`. -/
  returned : List Nat
  /-- The file of which call an inode was created for. -/
  owner : Nat → Nat × Nat
  /-- The files that were put in place, in the order in which they were. -/
  placed : List (Nat × Nat)
  /-- When an inode was put in place. -/
  stamp : Nat → Nat

inductive StoreLabel (ρ : Type*)
  | write (i : ThreadId) (artifacts : RunArtifacts ρ)
  | thread (i : ThreadId)
  /-- So many bytes are written. -/
  | fill (i : ThreadId) (n : Nat)
  | fail (i : ThreadId)
  | cleanTmp (name : String)
  | kill (pid : Nat)
  | powerFailure (version : Nat) (torn : Nat → Bytes)

namespace LocalCache

variable {ρ : Type*} (encode : ρ → Bytes) (s : LocalCache ρ)

def new : LocalCache ρ :=
  ⟨.empty, fun _ => 0, fun _ => .idle, [], [], fun _ => (0, 0), [], fun _ => 0⟩

def setThread (i : ThreadId) (phase : WritePhase) : LocalCache ρ :=
  { s with threads := Function.update s.threads i phase }

/-- A file of a call. -/
def file (write index : Nat) : Option (String × Bytes) :=
  s.writes[write]?.bind fun artifacts => (artifacts.files encode).1[index]?

def write (i : ThreadId) (artifacts : RunArtifacts ρ) : Option (LocalCache ρ) :=
  match s.threads i with
  | .idle => some { s.setThread i (.next s.writes.length 0) with writes := s.writes ++ [artifacts] }
  | _ => none

def threadStep (i : ThreadId) : Option (LocalCache ρ) :=
  match s.threads i with
  | .next write index =>
    match s.file encode write index with
    | some (name, content) =>
      some { s.setThread i (.create ⟨write, index, name, content⟩ (tmpPath name i.1 (s.nonce i.1))) with
        nonce := Function.update s.nonce i.1 (s.nonce i.1 + 1) }
    | none =>
      some { s.setThread i .idle with
        returned := s.returned ++
          if s.writes[write]?.any fun artifacts => (artifacts.files encode).2.isNone then [write] else [] }
  | .create p tmp =>
    some { s.setThread i (.fill p tmp (s.volume.opened tmp) p.content) with
      volume := s.volume.create tmp
      owner := Function.update s.owner (s.volume.opened tmp) (p.write, p.index) }
  | .fill p tmp file [] => some (s.setThread i (.sync p tmp file))
  | .sync p tmp file => some { s.setThread i (.rename p tmp file) with volume := s.volume.sync file }
  | .rename p tmp file =>
    match s.volume.rename tmp p.name with
    | some volume =>
      some { s.setThread i (.syncDir p) with
        volume := volume
        placed := s.placed ++ [(p.write, p.index)]
        stamp := Function.update s.stamp file s.placed.length }
    | none => some (s.setThread i .idle)
  | .syncDir p => some { s.setThread i (.next p.write (p.index + 1)) with volume := s.volume.syncDir }
  | .discard tmp => some { s.setThread i .idle with volume := s.volume.remove tmp }
  | _ => none

def fill (i : ThreadId) (n : Nat) : Option (LocalCache ρ) :=
  match s.threads i with
  | .fill p tmp file rest =>
    some { s.setThread i (.fill p tmp file (rest.drop n)) with volume := s.volume.append file (rest.take n) }
  | _ => none

/-- An operation fails: a write that does is followed by the removal of the temporary file. -/
def fail (i : ThreadId) : Option (LocalCache ρ) :=
  match s.threads i with
  | .idle | .next _ _ => none
  | .fill _ tmp _ _ => some (s.setThread i (.discard tmp))
  | _ => some (s.setThread i .idle)

def cleanTmp (name : String) : Option (LocalCache ρ) :=
  if endsWithStr name tmpSuffix then some { s with volume := s.volume.remove name } else none

def kill (pid : Nat) : LocalCache ρ :=
  { s with
    threads := fun i => if i.1 = pid then .idle else s.threads i
    nonce := Function.update s.nonce pid 0 }

def powerFailure (version : Nat) (torn : Nat → Bytes) : LocalCache ρ :=
  { s with volume := s.volume.powerFailure version torn, threads := fun _ => .idle, nonce := fun _ => 0 }

def step : StoreLabel ρ → Option (LocalCache ρ)
  | .write i artifacts => s.write i artifacts
  | .thread i => s.threadStep encode i
  | .fill i n => s.fill i n
  | .fail i => s.fail i
  | .cleanTmp name => s.cleanTmp name
  | .kill pid => some (s.kill pid)
  | .powerFailure version torn => some (s.powerFailure version torn)

end LocalCache

def localCache {ρ : Type*} (encode : ρ → Bytes) : System (LocalCache ρ) (StoreLabel ρ) where
  init s := s = .new
  step s l := s.step encode l

end Luchta.Impl
