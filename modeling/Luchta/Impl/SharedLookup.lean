import Luchta.Impl.RunRecord

/-!
# Looking up the shared cache

Before a task runs, its inputs are resolved through the listings that the tasks of the run share,
and the shared cache is asked for the key that they hash to.

* `PackageDirResolver.at`: the resolver that decisions are made with.
* `trySharedCachePrepare`: the lookup of one task.
-/

namespace Luchta.Impl

open Luchta.Framework

/-! ## The resolver -/

structure PackageDirResolver where
  packageDir : Path
  repoRoot : Path
  sourcePkg : PackageName
  packageGraph : PackageGraph

section Lookup

variable (env : RunEnv)

/-- The entries, and the listings that the run goes on with. -/
def PackageDirResolver.resolveInputs (r : PackageDirResolver) (listing : ListingCache)
    (patterns : List String) (priorEntries : List FileEntry) :
    Except CacheError (List FileEntry) × Option ListingCache :=
  match expandInputPatterns env.toposort env.order patterns r.sourcePkg r.packageGraph r.repoRoot with
  | .error e =>
    (.error (.InputExpansion ("input \"" ++ e.pattern ++ "\": " ++ e.message)), some listing)
  | .ok requests =>
    resolveInputsWithSemanticsAndOptions env.disk env.globs requests priorEntries (some listing)

/-- The resolver, with these listings of input directories and none of output directories. -/
def PackageDirResolver.at (r : PackageDirResolver) (listing : ListingCache) :
    Decide.FileStateResolver where
  resolveInputs patterns priorEntries :=
    (r.resolveInputs env listing patterns priorEntries).1.toOption
  resolveOutputs patterns priorEntries :=
    (resolveOutputsWithOptions env.disk env.globs r.packageDir patterns priorEntries).toOption

/-- The resolver of `cache_state_context`. -/
def CacheWriteContext.resolver (ctx : CacheWriteContext) : PackageDirResolver :=
  ⟨ctx.packagePath, ctx.repoRoot, ctx.sourcePkg, ctx.packageGraph⟩

/-- `build_cache_current_state`, whose hashes the context of a later write keeps. -/
def CacheWriteContext.currentState (ctx : CacheWriteContext) (listing : ListingCache) :
    Decide.CurrentState where
  taskSpecHash := ctx.taskSpecHash
  envHash := ctx.envHash
  pkgDepHash := ctx.pkgDepHash
  depOutputs := ctx.depOutputs
  cacheNonce := ctx.cacheNonce
  declaredInputPatterns := ctx.taskDef.inputs
  declaredOutputPatterns := ctx.taskDef.outputs
  resolver := ctx.resolver.at env listing

end Lookup

/-! ## The lookup -/

/-- Absolute patterns and patterns with a parent traversal are not looked up. -/
def outputsLexicallyInPackage (outputPatterns : List String) : Bool :=
  outputPatterns.all fun pattern =>
    let text := pattern.toList
    !(['/'].isPrefixOf text) &&
      !(['.', '.', '/'].isPrefixOf text || ['/', '.', '.', '/'] <:+: text) &&
      !(text = ['.', '.'] || ['/', '.', '.'].isSuffixOf text)

/-- The hash of the inputs and the key of the lookup, where there is one. -/
def sharedLookupKey (blake3 : Bytes → Digest) (sharedCache : Option SharedCache)
    (taskDef : TaskDefinition) (current : Decide.CurrentState) (localRecord : Option TaskRunRecord) :
    Option (Digest × Digest) := do
  let _ ← sharedCache
  guard (outputsLexicallyInPackage taskDef.outputs)
  let resolvedInputs ← current.resolver.resolveInputs current.declaredInputPatterns
    (localRecord.elim [] (·.inputs))
  let inputsHash := combinedInputsHash blake3 resolvedInputs
  return (inputsHash, deriveInputKey blake3 current.taskSpecHash current.envHash current.pkgDepHash
    (combinedDepOutputsHash blake3 current.depOutputs) inputsHash)

structure PreparedSharedCacheHit where
  inputKey : Digest
  record : TaskRunRecord

/-- `prepareRestore` stages the entry of a key and reads its record. -/
def trySharedCachePrepare (blake3 : Bytes → Digest) (prepareRestore : Digest → Option TaskRunRecord)
    (sharedCache : Option SharedCache) (taskDef : TaskDefinition) (current : Decide.CurrentState)
    (localRecord : Option TaskRunRecord) : Option PreparedSharedCacheHit := do
  let (inputsHash, inputKey) ← sharedLookupKey blake3 sharedCache taskDef current localRecord
  let record ← prepareRestore inputKey
  guard (Decide.decideSharedRestore blake3 record current inputsHash)
  return ⟨inputKey, record⟩

end Luchta.Impl
