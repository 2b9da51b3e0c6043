import Luchta.Framework.LexicalPath
import Luchta.Impl.InputPattern

/-!
# Input expansion

How the input patterns of a task become resolve requests: each pattern is parsed, sent to the
packages it names, and checked against escaping from their directories before any escape in it is
removed.
-/

namespace Luchta.Impl

open Luchta.Framework

structure ResolveRequest where
  baseDir : Path
  pattern : String
  semantics : InputSemantics
  /-- True when the source pattern carried a leading `!`. -/
  negated : Bool
  deriving DecidableEq

inductive InputExpansionError
  | UnknownPackage (package : PackageName) (pattern : String)
  | PathEscape (sourcePkg : PackageName) (pattern : String)
  | InvalidPattern (sourcePkg : PackageName) (pattern reason : String)
  deriving DecidableEq

/-- The synthetic workspace root is never shown. -/
def displayPackage (package : PackageName) : String :=
  if package.isRoot then "the workspace root" else "package '" ++ package.name ++ "'"

def InputExpansionError.message : InputExpansionError → String
  | UnknownPackage package pattern =>
    "unknown " ++ displayPackage package ++ " in input pattern '" ++ pattern ++ "'"
  | PathEscape sourcePkg pattern =>
    "path escape in input pattern '" ++ pattern ++ "' from " ++ displayPackage sourcePkg ++
      ": resolved path escapes base directory"
  | InvalidPattern sourcePkg pattern reason =>
    "invalid input pattern '" ++ pattern ++ "' from " ++ displayPackage sourcePkg ++ ": " ++ reason

/-! ## Validation -/

/-- The pattern up to its first glob character. -/
def extractLiteralPrefix (pattern : String) : String :=
  String.ofList (pattern.toList.takeWhile (· ∉ GLOB_CHARS))

/-- The raw text, up to the first glob character, must not lead out of the base. -/
def validatePath (baseDir : Path) (pattern : String) (sourcePkg : PackageName)
    (originalPattern : String) : Except InputExpansionError Unit :=
  if (baseDir.join (.ofStr (extractLiteralPrefix pattern))).lexicalNormalize.startsWith baseDir then
    .ok ()
  else .error (.PathEscape sourcePkg originalPattern)

/-! ## Requests -/

structure ExpansionCtx where
  sourcePkg : PackageName
  graph : PackageGraph
  repoRoot : Path
  directUpstreams : List PackageName
  transitiveUpstreams : List PackageName

variable (ts : Toposort PackageNode)

def packageDir (graph : PackageGraph) (pkgName : PackageName) (pattern : String) :
    Except InputExpansionError Path :=
  if pkgName.isRoot then .error (.UnknownPackage pkgName pattern)
  else
    match graph.topologicalOrder ts with
    | .error _ => .error (.UnknownPackage pkgName pattern)
    | .ok nodes =>
      match nodes.find? fun node => node.name = pkgName with
      | some node => .ok (.ofStr node.path)
      | none => .error (.UnknownPackage pkgName pattern)

def ExpansionCtx.resolveRequest (ctx : ExpansionCtx) (package : PackageName)
    (path originalPattern : String) (semantics : InputSemantics) :
    Except InputExpansionError ResolveRequest := do
  let baseDir ←
    (if package.isRoot then .ok ctx.repoRoot else packageDir ts ctx.graph package originalPattern)
  validatePath baseDir path ctx.sourcePkg originalPattern
  return ⟨baseDir, path, semantics, false⟩

def ExpansionCtx.resolveRequests (ctx : ExpansionCtx) (path originalPattern : String)
    (semantics : InputSemantics) : List PackageName → Except InputExpansionError (List ResolveRequest)
  | [] => .ok []
  | package :: packages => do
    let request ← ctx.resolveRequest ts package path originalPattern semantics
    return request :: (← resolveRequests ctx path originalPattern semantics packages)

/-- Upstream patterns are globs even where they look literal. -/
def buildRequestsForPattern (ctx : ExpansionCtx) (parsed : InputPattern) (originalPattern : String) :
    Except InputExpansionError (List ResolveRequest) :=
  let path := parsed.path
  match parsed with
  | .SamePackage _ =>
    ctx.resolveRequests ts path originalPattern (classifyPattern path) [ctx.sourcePkg]
  | .Root _ => ctx.resolveRequests ts path originalPattern (classifyPattern path) [rootPackageName]
  | .Specific pkg _ => ctx.resolveRequests ts path originalPattern (classifyPattern path) [pkg]
  | .DirectUpstream _ =>
    ctx.resolveRequests ts path originalPattern .Wildcard ctx.directUpstreams
  | .TransitiveUpstream _ =>
    ctx.resolveRequests ts path originalPattern .Wildcard ctx.transitiveUpstreams

/-- A negation is one global filter, which gets no package prefix and is not checked. -/
def expandPattern (ctx : ExpansionCtx) (pattern : String) :
    Except InputExpansionError (List ResolveRequest) :=
  match splitNegation pattern with
  | (true, body) => .ok [⟨ctx.repoRoot, body, .Wildcard, true⟩]
  | (false, _) => do
    let parsed ← (InputPattern.fromStr pattern).mapError (.InvalidPattern ctx.sourcePkg pattern)
    buildRequestsForPattern ts ctx parsed pattern

def expandPatterns (ctx : ExpansionCtx) :
    List String → Except InputExpansionError (List ResolveRequest)
  | [] => .ok []
  | pattern :: patterns => do
    let requests ← expandPattern ts ctx pattern
    return requests ++ (← expandPatterns ctx patterns)

/-- The upstream packages of a source: none for the root without a root package. -/
def upstreams (rs : RandomState) (sourcePkg : PackageName) (graph : PackageGraph) :
    Except InputExpansionError (List PackageName × List PackageName) :=
  let upstreamSource :=
    if sourcePkg.isRoot then graph.rootPackage.getD sourcePkg else sourcePkg
  if sourcePkg.isRoot && upstreamSource.isRoot then .ok ([], [])
  else do
    let direct ← (dependencyNames graph upstreamSource).mapError fun _ =>
      .UnknownPackage upstreamSource ""
    let transitive ← (transitiveUpstreamPackages graph upstreamSource).mapError fun _ =>
      .UnknownPackage sourcePkg ""
    return (direct, rs.permute transitive)

def expandInputPatterns (rs : RandomState) (patterns : List String) (sourcePkg : PackageName)
    (graph : PackageGraph) (repoRoot : Path) : Except InputExpansionError (List ResolveRequest) := do
  let (direct, transitive) ← upstreams rs sourcePkg graph
  expandPatterns ts ⟨sourcePkg, graph, repoRoot, direct, transitive⟩ patterns

end Luchta.Impl
