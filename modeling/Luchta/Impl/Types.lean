import Luchta.Framework.BTreeMap
import Luchta.Framework.Text
import Mathlib.Data.String.Basic

/-!
# Shared domain types

Package names, task names, task ids, dependency references and task definitions, as the crates
share them. Strings are compared by code point, which is the byte order of their UTF-8 text.
-/

namespace Luchta.Impl

open Luchta.Framework

/-- Synthetic package id used for workspace-root (`#task`) tasks. -/
def ROOT_PACKAGE_NAME : String := "//root"

structure PackageName where
  name : String
  deriving DecidableEq, Repr

structure TaskName where
  name : String
  deriving DecidableEq, Repr

def PackageName.isRoot (p : PackageName) : Bool := p.name = ROOT_PACKAGE_NAME

structure TaskId where
  package : PackageName
  task : TaskName
  deriving DecidableEq, Repr

def TaskId.isRoot (id : TaskId) : Bool := id.package.isRoot

def rootPackageName : PackageName := ⟨ROOT_PACKAGE_NAME⟩

def rootTaskId (task : TaskName) : TaskId := ⟨rootPackageName, task⟩

/-- Root tasks render with the `#task` config syntax; the synthetic package is never shown. -/
def TaskId.toString (id : TaskId) : String :=
  if id.isRoot then "#" ++ id.task.name else id.package.name ++ "#" ++ id.task.name

/-- Dependency reference used in task pipeline definitions. -/
inductive DependsOn
  /-- `^task`: task on direct upstream workspace packages. -/
  | DirectUpstream (task : TaskName)
  /-- `^^task`: task on transitive upstream workspace packages. -/
  | TransitiveUpstream (task : TaskName)
  /-- `task`: task in same package. -/
  | SamePackage (task : TaskName)
  /-- `pkg#task`: task in specific package. -/
  | Specific (id : TaskId)
  /-- `#task`: singleton root task. -/
  | Root (task : TaskName)
  deriving DecidableEq, Repr

def DependsOn.asConfigString : DependsOn → String
  | .DirectUpstream task => "^" ++ task.name
  | .TransitiveUpstream task => "^^" ++ task.name
  | .SamePackage task => task.name
  | .Specific id => id.toString
  | .Root task => "#" ++ task.name

structure EnvSpec where
  value : Option String
  default : Option String
  input : Bool
  deriving DecidableEq

/-- The explicit value, else the inherited one, else the default. -/
def EnvSpec.resolveEnvValue (spec : EnvSpec) (ambient : Option String) : Option String :=
  match spec.value with
  | some v => some v
  | none =>
    match ambient with
    | some v => some v
    | none => spec.default

structure CacheConfig where
  cacheNonce : Option String
  deriving DecidableEq

structure TaskDefinition where
  dependsOn : List DependsOn
  weight : UInt32
  command : Option String
  description : Option String
  worker : Option String
  cache : Option CacheConfig
  inputs : List String
  outputs : List String
  cacheFiles : List String
  dependencies : List String
  env : BTreeMap String EnvSpec
  toolVersion : Option String
  deriving DecidableEq

/-- `TaskDefinition::new`: explicit dependencies and weight, the defaults otherwise. -/
def TaskDefinition.new (dependsOn : List DependsOn) (weight : UInt32) : TaskDefinition where
  dependsOn := dependsOn
  weight := weight
  command := none
  description := none
  worker := none
  cache := none
  inputs := []
  outputs := []
  cacheFiles := []
  dependencies := ["**/*"]
  env := .empty
  toolVersion := none

/-- Connectors, with no worker and no command but white space, do not count. -/
def TaskDefinition.countsInProgress (definition : TaskDefinition) : Bool :=
  definition.worker.isSome || (definition.command.map trim).any fun command => !command.isEmpty

def TaskDefinition.cacheEnabled (definition : TaskDefinition) : Bool := definition.cache.isSome

end Luchta.Impl
