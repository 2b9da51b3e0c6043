import Luchta.Framework.Text
import Luchta.Impl.Pipeline

/-!
# Dependency references

The syntax of the dependencies of a task: `^^task`, `^task`, `#task`, `pkg#task` and `task`, tried in
this order.
-/

namespace Luchta.Impl

open Luchta.Framework

structure ParseDependsOnError where
  message : String
  deriving DecidableEq

/-- No result when the value lacks the prefix, so that the caller tries the next form. -/
def parseUpstream (value pre : String) (construct : TaskName → DependsOn) (emptyMessage : String) :
    Option (Except ParseDependsOnError DependsOn) :=
  (stripPrefixStr value pre).map fun task =>
    if task = "" then .error ⟨emptyMessage⟩ else .ok (construct ⟨task⟩)

/-- `^^` is tried before `^`, since the latter is a prefix of the former. -/
def DependsOn.fromStr (value : String) : Except ParseDependsOnError DependsOn :=
  match parseUpstream value "^^" .TransitiveUpstream
    "transitive upstream dependency must include task name" with
  | some parsed => parsed
  | none =>
    match parseUpstream value "^" .DirectUpstream
      "direct upstream dependency must include task name" with
    | some parsed => parsed
    | none =>
      match stripPrefix '#' value with
      | some task =>
        if task = "" then .error ⟨"root dependency must include task name"⟩ else .ok (.Root ⟨task⟩)
      | none =>
        match splitOnce '#' value with
        | some (package, task) =>
          if package = "" ∨ task = "" then .error ⟨"specific dependency must be `package#task`"⟩
          else .ok (.Specific ⟨⟨package⟩, ⟨task⟩⟩)
        | none =>
          if value = "" then .error ⟨"same-package dependency must include task name"⟩
          else .ok (.SamePackage ⟨value⟩)

example : DependsOn.fromStr "@repo/api#codegen" = .ok (.Specific ⟨⟨"@repo/api"⟩, ⟨"codegen"⟩⟩) := by
  decide

end Luchta.Impl
