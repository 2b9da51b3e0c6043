import Luchta.Framework.Action
import Luchta.Framework.HashMap
import Luchta.Framework.System
import Luchta.Impl.WorkerProtocol

/-!
# The router of the worker watcher

The router hands messages to the current generation of a worker. When a watched file changes, a busy
generation is drained: messages are queued until it has answered what it was sent, and its
replacement gets them. Events are handled one after the other. What a handler asks of the outside
may fail; the error ends the router.

* `MessageRouter`: the router, and what happened to it.
* `handleEvent`: the handlers of `router.rs`.
* `routerSystem`: any sequence of events.

Left out: the logs, and the throttle of restarts and the timers, which only wait.
-/

namespace Luchta.Impl

open Luchta.Framework

inductive InFlightKind
  | Run
  | Resolve
  deriving DecidableEq

def inFlightKind : WorkerMessage → InFlightKind
  | .Run _ => .Run
  | .ResolveTask _ => .Resolve

inductive ProxyError
  | Io
  deriving DecidableEq

/-- What the outside does while an event is handled. -/
structure Surroundings where
  /-- `Generation::new`. -/
  spawn : Bool
  /-- Whether the stdin of a worker still takes a line, by the number of lines tried before. -/
  sendLine : Nat → Bool
  /-- Whether a generation is shut down without an error. -/
  shutdown : Nat → Bool
  /-- Whether stdout takes a response, by the number of responses written before. -/
  write : Nat → Bool
  /-- The order in which the in-flight table is iterated. -/
  order : RandomState

/-! ## Generations -/

structure Generation where
  id : Nat
  inFlight : HashMap String InFlightKind
  stdinOpen : Bool

namespace Generation

def new (id : Nat) : Generation := ⟨id, ∅, true⟩

def send (g : Generation) (taken : Bool) (msg : WorkerMessage) : Option Generation :=
  if g.stdinOpen && taken then
    some { g with inFlight := g.inFlight.insert msg.id (inFlightKind msg) }
  else none

def onResponse (g : Generation) (resp : WorkerResponse) : Generation :=
  if resp.isTerminal then { g with inFlight := g.inFlight.erase resp.id } else g

def inFlightLen (g : Generation) : Nat := g.inFlight.entries.length

def drainInFlight (g : Generation) (order : RandomState) : List (String × InFlightKind) :=
  order.permute (g.inFlight.entries.map fun e => (e.1, e.2))

def closeStdin (g : Generation) : Generation := { g with stdinOpen := false }

end Generation

/-! ## The router -/

inductive RouterEvent
  | Inbound (message : WorkerMessage)
  | Response (genId : Nat) (response : WorkerResponse)
  | StdoutClosed (genId : Nat)
  | FileChanged
  | DrainTimeout (genId : Nat)
  | ShutdownAll
  | ShutdownTimeout

structure MessageRouter where
  current : Option Generation
  draining : Option Generation
  pending : List WorkerMessage
  nextGenId : Nat
  shuttingDown : Bool
  /-- What was written. -/
  stdout : List WorkerResponse
  /-- How many messages were handed to a generation, or would have been. -/
  tries : Nat
  /-- The messages that were not ignored, as they came. -/
  accepted : List WorkerMessage
  /-- The messages that a generation took, as they were sent. -/
  sent : List (Nat × WorkerMessage)
  /-- The last responses that the generations wrote. -/
  heard : List (Nat × String)

def MessageRouter.new : MessageRouter where
  current := some (.new 0)
  draining := none
  pending := []
  nextGenId := 1
  shuttingDown := false
  stdout := []
  tries := 0
  accepted := []
  sent := []
  heard := []

abbrev RouterM := Action MessageRouter ProxyError

def failedSendResponse (id : String) : InFlightKind → WorkerResponse
  | .Run => .Done id 1 none
  | .Resolve => .Resolved id (.Reject "worker restarted before resolve completed")

section Handlers

variable (env : Surroundings)

def writeResponse (response : WorkerResponse) : RouterM Unit := do
  if env.write (← get).stdout.length then
    modify fun s => { s with stdout := s.stdout ++ [response] }
  else throw .Io

def synthesizeTerminalForFailedSend (id : String) (kind : InFlightKind) : RouterM Unit :=
  writeResponse env (failedSendResponse id kind)

def synthesizeTerminalsFor (generation : Generation) : RouterM Unit :=
  (generation.drainInFlight env.order).forM fun e => synthesizeTerminalForFailedSend env e.1 e.2

/-- `Generation::shutdown`. -/
def shutdownGeneration (generation : Generation) : RouterM Unit :=
  if env.shutdown generation.id then pure () else throw .Io

def sendToCurrent (message : WorkerMessage) : RouterM Unit := do
  let s ← get
  modify fun s => { s with tries := s.tries + 1 }
  match s.current with
  | some current =>
    match current.send (env.sendLine s.tries) message with
    | some current =>
      modify fun s => { s with
        current := some current
        sent := s.sent ++ [(current.id, message)] }
    | none => synthesizeTerminalForFailedSend env message.id (inFlightKind message)
  | none => synthesizeTerminalForFailedSend env message.id (inFlightKind message)

def spawnCurrent : RouterM Unit :=
  if env.spawn then
    modify fun s => { s with
      current := some (.new s.nextGenId)
      nextGenId := s.nextGenId + 1 }
  else throw .Io

/-- The queue is replayed to the replacement. -/
def replayPending : RouterM Unit := do
  spawnCurrent env
  let s ← get
  modify fun s => { s with pending := [] }
  s.pending.forM (sendToCurrent env)
  modify fun s =>
    if s.shuttingDown then { s with current := s.current.map Generation.closeStdin } else s

def completeDrain : RouterM Unit := do
  let s ← get
  if s.shuttingDown && s.pending.isEmpty then pure ()
  else replayPending env

def handleInbound (message : WorkerMessage) : RouterM Unit := do
  let s ← get
  if s.shuttingDown then pure ()
  else do
    modify fun s => { s with accepted := s.accepted ++ [message] }
    if s.current.isSome then sendToCurrent env message
    else modify fun s => { s with pending := s.pending ++ [message] }

/-- `draining` is taken away before it is shut down. -/
def finishDrain (draining : Generation) : RouterM Unit := do
  modify fun s => { s with draining := none }
  shutdownGeneration env draining
  completeDrain env

def handleResponse (genId : Nat) (response : WorkerResponse) : RouterM Unit := do
  modify fun s =>
    if response.isTerminal then { s with heard := s.heard ++ [(genId, response.id)] } else s
  let s ← get
  match s.current.filter (·.id = genId) with
  | some current => do
    modify fun s => { s with current := some (current.onResponse response) }
    writeResponse env response
  | none =>
    match s.draining.filter (·.id = genId) with
    | some draining => do
      modify fun s => { s with draining := some (draining.onResponse response) }
      writeResponse env response
      if (draining.onResponse response).inFlightLen = 0 then
        finishDrain env (draining.onResponse response)
      else pure ()
    -- from a generation that is gone: what it was sent was answered then
    | none => pure ()

/-- What a generation leaves open is answered for it. -/
def reapDraining (draining : Generation) : RouterM Unit := do
  modify fun s => { s with draining := none }
  synthesizeTerminalsFor env draining
  shutdownGeneration env draining
  completeDrain env

def handleStdoutClosed (genId : Nat) : RouterM Unit := do
  let s ← get
  match s.current.filter (·.id = genId) with
  | some current => do
    modify fun s => { s with current := none }
    synthesizeTerminalsFor env current
    shutdownGeneration env current
    if s.shuttingDown then pure () else spawnCurrent env
  | none =>
    match s.draining.filter (·.id = genId) with
    | some draining => reapDraining env draining
    | none => pure ()

def restart : RouterM Unit := do
  let s ← get
  if s.shuttingDown then pure ()
  else if s.draining.isSome then pure ()
  else
    match s.current with
    | none => pure ()
    | some old => do
      modify fun s => { s with current := none }
      if old.inFlightLen = 0 then do
        shutdownGeneration env old
        completeDrain env
      else modify fun s => { s with draining := some old }

def handleDrainTimeout (genId : Nat) : RouterM Unit := do
  let s ← get
  match s.draining.filter (·.id = genId) with
  | some draining => reapDraining env draining
  | none => pure ()

def handleShutdownAll : RouterM Unit :=
  modify fun s =>
    if s.shuttingDown then s
    else { s with shuttingDown := true, current := s.current.map Generation.closeStdin }

def terminateCurrent : RouterM Unit := do
  let s ← get
  match s.current with
  | some current => do
    modify fun s => { s with current := none }
    synthesizeTerminalsFor env current
    shutdownGeneration env current
  | none => pure ()

def terminateDraining : RouterM Unit := do
  let s ← get
  match s.draining with
  | some draining => do
    modify fun s => { s with draining := none }
    synthesizeTerminalsFor env draining
    shutdownGeneration env draining
  | none => pure ()

def handleShutdownTimeout : RouterM Unit := do
  terminateCurrent env
  terminateDraining env
  modify fun s => { s with pending := [] }

def handleEvent : RouterEvent → RouterM Unit
  | .Inbound message => handleInbound env message
  | .Response genId response => handleResponse env genId response
  | .StdoutClosed genId => handleStdoutClosed env genId
  | .FileChanged => restart env
  | .DrainTimeout genId => handleDrainTimeout env genId
  | .ShutdownAll => handleShutdownAll
  | .ShutdownTimeout => handleShutdownTimeout env

end Handlers

def MessageRouter.shouldStop (s : MessageRouter) : Bool :=
  s.shuttingDown && s.current.isNone && s.draining.isNone && s.pending.isEmpty

/-! ## Runs -/

/-- The router in its loop, or with its result. -/
structure RouterRun where
  router : MessageRouter
  result : Option (Except ProxyError Unit)

/-- One turn of `run`. Once it should stop there is no generation left to shut down. -/
def RouterRun.step (s : RouterRun) (l : RouterEvent × Surroundings) : Option RouterRun :=
  if s.result.isSome then none
  else
    match handleEvent l.2 l.1 s.router with
    | (.error e, router) => some ⟨router, some (.error e)⟩
    | (.ok _, router) => some ⟨router, if router.shouldStop then some (.ok ()) else none⟩

def routerSystem : System RouterRun (RouterEvent × Surroundings) where
  init s := s = ⟨.new, none⟩
  step := RouterRun.step

end Luchta.Impl
