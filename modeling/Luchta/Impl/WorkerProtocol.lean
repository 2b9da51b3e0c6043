import Luchta.Impl.Types

/-!
# The worker protocol

What the engine and its workers write to each other, one message a line. A response belongs to the
message with its id; `Done` and `Resolved` are the last one for it.
-/

namespace Luchta.Impl

inductive LogStream
  | Stdout
  | Stderr
  deriving DecidableEq

structure TaskModification where
  command : Option String
  dependsOn : Option (List DependsOn)
  weight : Option UInt32
  dependencies : Option (List String)
  inputs : Option (List String)
  toolVersion : Option String
  deriving DecidableEq

/-- What the worker leaves out stays as it is. -/
def TaskModification.applyTo (modification : TaskModification) (definition : TaskDefinition) :
    TaskDefinition :=
  { definition with
    command := modification.command.or definition.command
    dependsOn := modification.dependsOn.getD definition.dependsOn
    weight := modification.weight.getD definition.weight
    dependencies := modification.dependencies.getD definition.dependencies
    inputs := modification.inputs.getD definition.inputs
    toolVersion := modification.toolVersion.or definition.toolVersion }

inductive ResolveDecision
  | Accept
  | Modify (modification : TaskModification)
  | Prune (reason : Option String)
  | Reject (message : String)
  deriving DecidableEq

abbrev ResolveResult := ResolveDecision

structure WorkerRequest where
  id : String
  command : String
  progress : Bool
  deriving DecidableEq

inductive ResolveMode
  | Run
  | Check
  deriving DecidableEq

structure ResolveTask where
  id : String
  name : String
  command : String
  package : String
  cwd : Option String
  scripts : List String
  inputs : List String
  mode : ResolveMode
  deriving DecidableEq

inductive WorkerMessage
  | Run (request : WorkerRequest)
  | ResolveTask (resolve : ResolveTask)
  deriving DecidableEq

def WorkerMessage.id : WorkerMessage → String
  | Run request => request.id
  | ResolveTask resolve => resolve.id

inductive WorkerResponse
  | Log (id : String) (stream : LogStream) (line : String)
  | Report (id filename mimeType content : String)
  | Progress (id : String) (completed pending : Nat)
  | Done (id : String) (exitCode : Int32) (outputs : Option (List String))
  | Resolved (id : String) (result : ResolveResult)
  deriving DecidableEq

def WorkerResponse.id : WorkerResponse → String
  | Log id _ _ | Report id _ _ _ | Progress id _ _ | Done id _ _ | Resolved id _ => id

/-- `is_terminal`: nothing else is answered to the message. -/
def WorkerResponse.isTerminal : WorkerResponse → Bool
  | Done _ _ _ | Resolved _ _ => true
  | _ => false

end Luchta.Impl
