import Luchta.Impl.Hashing

/-!
# The streams behind the cache hashes

Every stream the cache hashes determines what was written into it, as long as its lengths fit the
eight bytes they are written in.

* `taskSpecStream_inj`: the task specification, across its three layouts.
* `envStream_inj`, `pkgDepStream_inj`, `depOutputsStream_inj`, `inputKeyStream_inj`.
* `combinedEntriesStream_iff`: a stream of file entries is the sorted list of their keys, and
  `sortedKeys_eq_iff`: for distinct paths, that list is the set of the keys.
-/

namespace Luchta.Proof.Cache

open Luchta.Framework Luchta.Impl

/-! ## Digests -/

theorem framed_digest : FramedOn (fun _ => True) fun d : Digest => d.toList :=
  framed_fixed 32 (fun _ _ => Vector.length_toList) fun _ _ h => Vector.toList_inj.1 h

/-! ## File entries -/

/-- What a combined hash sees of an entry. -/
def entryKey (e : FileEntry) : String × Bool × Digest := (e.path, e.absent, e.hash)

def sortedKeys (entries : List FileEntry) : List (String × Bool × Digest) :=
  (sortByPath entries).map entryKey

def PathsDistinct (entries : List FileEntry) : Prop := (entries.map FileEntry.path).Nodup

/-- The number of entries and the length of each path fit the bytes they are written in. -/
def EntriesFit (entries : List FileEntry) : Prop := SeqFits (fun e => StrFits e.path) entries

instance : DecidablePred EntriesFit := fun _ => inferInstanceAs (Decidable (SeqFits _ _))

theorem mem_sortedKeys {entries : List FileEntry} {k : String × Bool × Digest} :
    k ∈ sortedKeys entries ↔ ∃ e ∈ entries, entryKey e = k := by
  simp [sortedKeys, sortByPath]

/-- Sorting leaves no trace of the order in which path-distinct entries were supplied. -/
theorem sortedKeys_eq_iff {l m : List FileEntry} (hl : PathsDistinct l) (hm : PathsDistinct m) :
    sortedKeys l = sortedKeys m ↔
      ∀ k, (∃ e ∈ l, entryKey e = k) ↔ ∃ e ∈ m, entryKey e = k := by
  have hsort : ∀ {l}, PathsDistinct l → (sortedKeys l).Pairwise fun a b => a.1 < b.1 := fun hl =>
    List.pairwise_map.2 (pairwise_lt_sortBy hl)
  refine ⟨fun h k => ?_, fun h => eq_of_strictly_sorted (hsort hl) (hsort hm) fun k => ?_⟩
  · rw [← mem_sortedKeys, h, mem_sortedKeys]
  · rw [mem_sortedKeys, h, mem_sortedKeys]

def encodeKey (k : String × Bool × Digest) : Bytes :=
  encodeStr k.1 ++ (encodeBool k.2.1 ++ k.2.2.toList)

theorem framed_key : FramedOn (fun k : String × Bool × Digest => StrFits k.1) encodeKey :=
  (framed_str.append (framed_bool.append framed_digest)).mono fun _ h => ⟨h, trivial, trivial⟩

theorem combinedEntriesStream_eq (domain : Bytes) (entries : List FileEntry) :
    combinedEntriesStream domain entries = domain ++ encodeSeq encodeKey (sortedKeys entries) := by
  rw [combinedEntriesStream, encodeSeq, encodeSeq, sortedKeys, List.length_map, List.flatMap_map]
  rfl

theorem EntriesFit.sortedKeys {entries : List FileEntry} (h : EntriesFit entries) :
    SeqFits (fun k : String × Bool × Digest => StrFits k.1) (sortedKeys entries) := by
  refine ⟨?_, fun k hk => ?_⟩
  · simpa [Cache.sortedKeys, sortByPath] using h.1
  · obtain ⟨e, he, rfl⟩ := mem_sortedKeys.1 hk
    exact h.2 e he

theorem combinedEntriesStream_iff {domain : Bytes} {l m : List FileEntry} (hl : EntriesFit l)
    (hm : EntriesFit m) : combinedEntriesStream domain l = combinedEntriesStream domain m ↔
      sortedKeys l = sortedKeys m := by
  rw [combinedEntriesStream_eq, combinedEntriesStream_eq, List.append_right_inj]
  exact ⟨fun h => (framed_seq framed_key).inj hl.sortedKeys hm.sortedKeys h, fun h => by rw [h]⟩

/-! ## Task specifications -/

/-- The tracked fields of a task specification, in the order of `taskSpecBytes`. -/
def specFields (taskDef : TaskDefinition) (nonce : Option String) :=
  (taskDef.command, taskDef.worker, taskDef.weight,
    taskDef.dependsOn.map DependsOn.asConfigString, taskDef.cacheEnabled, taskDef.inputs,
    taskDef.outputs, nonce)

structure SpecFits (t : TaskDefinition) (n : Option String) : Prop where
  command : OptFits StrFits t.command
  worker : OptFits StrFits t.worker
  dependsOn : SeqFits StrFits (t.dependsOn.map DependsOn.asConfigString)
  inputs : SeqFits StrFits t.inputs
  outputs : SeqFits StrFits t.outputs
  nonce : OptFits StrFits n
  cacheFiles : SeqFits StrFits t.cacheFiles
  toolVersion : OptFits StrFits t.toolVersion
  /-- The two buffers that are framed as a whole. -/
  bytes : (taskSpecBytes t n).length < 2 ^ 64
  cacheFileBytes : (encodeSeq encodeStr t.cacheFiles).length < 2 ^ 64

theorem taskSpecBytes_split {t t' : TaskDefinition} {n n' : Option String} {r s : Bytes}
    (h : SpecFits t n) (h' : SpecFits t' n')
    (heq : taskSpecBytes t n ++ r = taskSpecBytes t' n' ++ s) :
    specFields t n = specFields t' n' ∧ r = s := by
  have hopt := framed_option framed_str
  have hseq := framed_seq framed_str
  have hframed := hopt.append (hopt.append (framed_u32.append (hseq.append (framed_bool.append
    (hseq.append (hseq.append hopt))))))
  exact hframed.split (a := specFields t n) (b := specFields t' n')
    ⟨h.command, h.worker, trivial, h.dependsOn, trivial, h.inputs, h.outputs, h.nonce⟩
    ⟨h'.command, h'.worker, trivial, h'.dependsOn, trivial, h'.inputs, h'.outputs, h'.nonce⟩ heq

/-- A bincode struct that starts with an option starts with 0 or 1, which no domain tag does. -/
theorem taskSpecBytes_ne_domain {t : TaskDefinition} {n : Option String} {r s : Bytes} :
    taskSpecBytes t n ++ r ≠ TASK_SPEC_CACHE_FILES_DOMAIN ++ s := by
  have hdom : TASK_SPEC_CACHE_FILES_DOMAIN.head? = some 108 := by decide
  intro h
  have := congrArg List.head? h
  rw [List.head?_append, List.head?_append, hdom] at this
  cases hc : t.command <;> simp [taskSpecBytes, encodeOption, hc] at this

/-- The stream without its tool version. -/
def specBase (t : TaskDefinition) (n : Option String) : Bytes :=
  if t.cacheFiles = [] then taskSpecBytes t n
  else TASK_SPEC_CACHE_FILES_DOMAIN ++ encodeBytes (taskSpecBytes t n) ++
    encodeBytes (encodeSeq encodeStr t.cacheFiles)

def versionTail : Option String → Bytes
  | none => []
  | some version => TASK_SPEC_TOOL_VERSION_DOMAIN ++ encodeBytes (utf8 version)

theorem taskSpecStream_eq (t : TaskDefinition) (n : Option String) :
    taskSpecStream t n = specBase t n ++ versionTail t.toolVersion := by
  cases hv : t.toolVersion <;> by_cases hc : t.cacheFiles = [] <;>
    simp [taskSpecStream, specBase, versionTail, hv, hc]

theorem specBase_split {t t' : TaskDefinition} {n n' : Option String} {r s : Bytes}
    (h : SpecFits t n) (h' : SpecFits t' n') (heq : specBase t n ++ r = specBase t' n' ++ s) :
    specFields t n = specFields t' n' ∧ t.cacheFiles = t'.cacheFiles ∧ r = s := by
  by_cases hc : t.cacheFiles = [] <;> by_cases hc' : t'.cacheFiles = []
  · rw [specBase, specBase, if_pos hc, if_pos hc'] at heq
    obtain ⟨hf, hrs⟩ := taskSpecBytes_split h h' heq
    exact ⟨hf, hc.trans hc'.symm, hrs⟩
  · rw [specBase, specBase, if_pos hc, if_neg hc', List.append_assoc, List.append_assoc] at heq
    exact absurd heq taskSpecBytes_ne_domain
  · rw [specBase, specBase, if_neg hc, if_pos hc', List.append_assoc, List.append_assoc] at heq
    exact absurd heq.symm taskSpecBytes_ne_domain
  · rw [specBase, specBase, if_neg hc, if_neg hc'] at heq
    simp only [List.append_assoc, List.append_right_inj] at heq
    obtain ⟨hbytes, hrest⟩ := framed_bytes.split h.bytes h'.bytes heq
    obtain ⟨hfiles, hrs⟩ := framed_bytes.split h.cacheFileBytes h'.cacheFileBytes hrest
    exact ⟨(taskSpecBytes_split h h' (congrArg (· ++ []) hbytes)).1,
      (framed_seq framed_str).inj h.cacheFiles h'.cacheFiles hfiles, hrs⟩

theorem versionTail_inj {v v' : Option String} (h : OptFits StrFits v) (h' : OptFits StrFits v')
    (heq : versionTail v = versionTail v') : v = v' := by
  have hdom : TASK_SPEC_TOOL_VERSION_DOMAIN ≠ [] := by decide
  match v, v' with
  | none, none => rfl
  | none, some v' => exact absurd (List.append_eq_nil_iff.1 heq.symm).1 hdom
  | some v, none => exact absurd (List.append_eq_nil_iff.1 heq).1 hdom
  | some v, some v' =>
    rw [versionTail, versionTail, List.append_right_inj] at heq
    rw [framed_str.inj (h v rfl) (h' v' rfl) heq]

theorem taskSpecStream_inj {t t' : TaskDefinition} {n n' : Option String} (h : SpecFits t n)
    (h' : SpecFits t' n') (heq : taskSpecStream t n = taskSpecStream t' n') :
    specFields t n = specFields t' n' ∧ t.cacheFiles = t'.cacheFiles ∧
      t.toolVersion = t'.toolVersion := by
  rw [taskSpecStream_eq, taskSpecStream_eq] at heq
  obtain ⟨hf, hc, htail⟩ := specBase_split h h' heq
  exact ⟨hf, hc, versionTail_inj h.toolVersion h'.toolVersion htail⟩

/-! ## Environment and package dependencies -/

def EnvFits (env : List (String × Option String)) : Prop :=
  SeqFits (fun e => StrFits e.1 ∧ OptFits StrFits e.2) env

instance : DecidablePred EnvFits := fun _ => inferInstanceAs (Decidable (SeqFits _ _))

theorem framed_resolvedEnvValue : FramedOn (OptFits StrFits) encodeResolvedEnvValue := by
  refine ⟨fun {a b r s} ha hb heq => ?_⟩
  match a, b with
  | none, none => exact ⟨rfl, List.append_cancel_left heq⟩
  | some a, some b =>
    simp only [encodeResolvedEnvValue, List.append_assoc, List.append_right_inj] at heq
    obtain ⟨rfl, hrs⟩ := framed_str.split (ha a rfl) (hb b rfl) heq
    exact ⟨rfl, hrs⟩
  | none, some b =>
    simp only [encodeResolvedEnvValue, List.append_assoc] at heq
    exact absurd (framed_u32.split trivial trivial heq).1 (by decide)
  | some a, none =>
    simp only [encodeResolvedEnvValue, List.append_assoc] at heq
    exact absurd (framed_u32.split trivial trivial heq).1 (by decide)

theorem envStream_inj {env env' : List (String × Option String)} (h : EnvFits env)
    (h' : EnvFits env') (heq : encodeSeq encodeEnvEntry env = encodeSeq encodeEnvEntry env') :
    env = env' :=
  (framed_seq (framed_str.append framed_resolvedEnvValue)).inj h h' heq

def PairsFit (pairs : List (String × String)) : Prop :=
  SeqFits (fun p => StrFits p.1 ∧ StrFits p.2) pairs

instance : DecidablePred PairsFit := fun _ => inferInstanceAs (Decidable (SeqFits _ _))

theorem mem_canonicalPairs {pairs : List (String × String)} {p : String × String} :
    p ∈ canonicalPairs pairs ↔ p ∈ pairs := by
  rw [canonicalPairs, mem_dedup, mem_sortBy]

/-- Sorting and removing duplicates leaves the set of pairs. -/
theorem canonicalPairs_eq_iff {ps qs : List (String × String)} :
    canonicalPairs ps = canonicalPairs qs ↔ ∀ p, p ∈ ps ↔ p ∈ qs := by
  have hsort : ∀ ps : List (String × String),
      (canonicalPairs ps).Pairwise fun a b => toLex a < toLex b := fun ps =>
    pairwise_dedup toLex.injective (pairwise_le_sortBy toLex ps)
  refine ⟨fun h p => ?_, fun h => eq_of_strictly_sorted (hsort ps) (hsort qs) fun p => ?_⟩
  · rw [← mem_canonicalPairs, h, mem_canonicalPairs]
  · rw [mem_canonicalPairs, h, mem_canonicalPairs]

theorem pkgDepStream_inj {ps qs : List (String × String)} (h : PairsFit (canonicalPairs ps))
    (h' : PairsFit (canonicalPairs qs))
    (heq : encodeSeq encodePair (canonicalPairs ps) = encodeSeq encodePair (canonicalPairs qs)) :
    canonicalPairs ps = canonicalPairs qs :=
  (framed_seq (framed_str.append framed_str)).inj h h' heq

/-! ## Dependency outputs and input keys -/

/-- The separator does not occur in a task id. -/
def NulFree (id : String) : Prop := DEP_OUTPUTS_HASH_SEPARATOR ∉ utf8 id

instance : DecidablePred NulFree := fun _ => inferInstanceAs (Decidable (_ ∉ _))

/-- A name, a digest, and after each of them a separator that the name does not contain. -/
theorem framed_separated (sep : UInt8) :
    FramedOn (fun e : String × Digest => sep ∉ utf8 e.1)
      fun e => utf8 e.1 ++ sep :: (e.2.toList ++ [sep]) := by
  refine ⟨fun {a b r s} ha hb heq => ?_⟩
  simp only [List.append_assoc, List.cons_append] at heq
  obtain ⟨hid, hrest⟩ := append_separator_inj ha hb heq
  obtain ⟨hhash, htail⟩ := framed_digest.split trivial trivial hrest
  exact ⟨Prod.ext (utf8_injective hid) hhash, List.tail_eq_of_cons_eq htail⟩

/-- Maps whose entries are so written one after the other. -/
theorem separated_inj {sep : UInt8} {m m' : BTreeMap String Digest} (h : ∀ id ∈ m.keys, sep ∉ utf8 id)
    (h' : ∀ id ∈ m'.keys, sep ∉ utf8 id)
    (heq : m.entries.flatMap (fun e => utf8 e.1 ++ sep :: (e.2.toList ++ [sep])) =
      m'.entries.flatMap fun e => utf8 e.1 ++ sep :: (e.2.toList ++ [sep])) : m = m' := by
  have hmem : ∀ {m : BTreeMap String Digest}, (∀ id ∈ m.keys, sep ∉ utf8 id) →
      ∀ e ∈ m.entries, sep ∉ utf8 e.1 := fun h e he => h e.1 (List.mem_map_of_mem he)
  have hne : ∀ e : String × Digest, utf8 e.1 ++ sep :: (e.2.toList ++ [sep]) ≠ [] := fun e h => by simp at h
  exact BTreeMap.ext (flatMap_inj (framed_separated sep) hne (hmem h) (hmem h') heq)

theorem depOutputsStream_inj {m m' : BTreeMap String Digest} (h : ∀ id ∈ m.keys, NulFree id)
    (h' : ∀ id ∈ m'.keys, NulFree id) (heq : depOutputsStream m = depOutputsStream m') :
    m = m' :=
  separated_inj h h' (List.append_cancel_left heq)

theorem inputKeyStream_inj {a b c d e a' b' c' d' e' : Digest}
    (heq : inputKeyStream a b c d e = inputKeyStream a' b' c' d' e') :
    a = a' ∧ b = b' ∧ c = c' ∧ d = d' ∧ e = e' := by
  have hframed := framed_digest.append (framed_digest.append (framed_digest.append
    (framed_digest.append framed_digest)))
  have := hframed.inj (a := (a, b, c, d, e)) (b := (a', b', c', d', e'))
    ⟨trivial, trivial, trivial, trivial, trivial⟩ ⟨trivial, trivial, trivial, trivial, trivial⟩ heq
  simpa using this

end Luchta.Proof.Cache
