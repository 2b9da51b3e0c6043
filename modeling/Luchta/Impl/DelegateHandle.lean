import Luchta.Framework.HashMap
import Luchta.Framework.System
import Luchta.Impl.RunRecord
import Mathlib.Logic.Function.Basic

/-!
# A delegate behind a proxy stage

A stage of a worker pipeline forwards messages to its delegate, a child process (`proxy.rs`). Any number
of `send` calls share one table of waiters: a call registers under the id of its message, writes the
message to the delegate's stdin under a lock and waits for what comes through its one-shot channel. One
task reads the delegate's stdout, line by line; where it stops it fails all waiters in the table. A step
is one access to what is shared: a lock, the pipe, a channel.

* `sendStep`: `send`, without a timeout. `readerStep`: `read_delegate_stdout`.
* `delegateHandle`: any interleaving of calls, of the reader and of what the delegate does.

Left out: shutting down, timeouts, stderr, and what is only printed.
-/

namespace Luchta.Impl

open Luchta.Framework

inductive DelegateHandle.ProxyError
  | MissingDelegateCommand
  | MissingPipe (name : String)
  | DuplicateInflightId (id : String)
  | DelegateClosed (message : String)
  | Io (message : String)
  deriving DecidableEq

/-- What `next_line` yields, and what it turns out to be. -/
inductive DelegateLine
  | response (response : WorkerResponse)
  | invalid (error : String)
  | unreadable (error : String)
  deriving DecidableEq

/-- A one-shot channel, from the receiver's side. -/
inductive Oneshot
  | waiting
  | sent (result : Except String WorkerResponse)
  /-- The sender is gone without a word. -/
  | dropped
  deriving DecidableEq

inductive SendPhase
  | idle
  | ensureSpawned (message : WorkerMessage)
  | notSpawned (message : WorkerMessage) (error : DelegateHandle.ProxyError)
  | register (message : WorkerMessage)
  | lockStdin (message : WorkerMessage)
  /-- It holds the lock of stdin, and so many bytes are still to be written. -/
  | write (message : WorkerMessage) (remaining : Nat)
  | unregister (message : WorkerMessage)
  | await (message : WorkerMessage)
  | returned (message : WorkerMessage) (result : Except DelegateHandle.ProxyError WorkerResponse)
  deriving DecidableEq

inductive DelegateReader
  | reading
  | write (response : WorkerResponse)
  | deliver (response : WorkerResponse)
  | eof
  /-- It reports the failure, and then fails all waiters. -/
  | log (message : String)
  | failAll (message : String)
  | stopped
  deriving DecidableEq

/-- The channels, when the one of the call that is registered under the id, if any, has come to this. -/
def settled {n : Nat} (waiters : HashMap String (Fin n)) (channels : Fin n → Oneshot) (id : String)
    (channel : Oneshot) : Fin n → Oneshot :=
  (waiters.lookup id).elim channels fun i => Function.update channels i channel

/-- The handle, its `n` calls, and as much of the delegate as they see. -/
structure DelegateHandle (n : Nat) where
  spawned : Bool
  waiters : HashMap String (Fin n)
  /-- The channel of each call. -/
  channels : Fin n → Oneshot
  stdin : Option (Fin n)
  /-- What the pipe to the delegate takes before someone reads it. -/
  room : Nat
  /-- Nobody reads that pipe any more. -/
  stdinClosed : Bool
  stdout : List DelegateLine
  stdoutClosed : Bool
  exitStatus : Option ExitStatus
  reader : DelegateReader
  sends : Fin n → SendPhase

namespace DelegateHandle

variable {n : Nat}

def initial (n capacity : Nat) : DelegateHandle n where
  spawned := false
  waiters := ∅
  channels := fun _ => .waiting
  stdin := none
  room := capacity
  stdinClosed := false
  stdout := []
  stdoutClosed := false
  exitStatus := none
  reader := .reading
  sends := fun _ => .idle

variable (s : DelegateHandle n)

def setSend (i : Fin n) (phase : SendPhase) : DelegateHandle n :=
  { s with sends := Function.update s.sends i phase }

/-- `waiters.insert`: whoever was registered under the id loses its sender. -/
def insertWaiter (id : String) (i : Fin n) : DelegateHandle n :=
  { s with waiters := s.waiters.insert id i, channels := settled s.waiters s.channels id .dropped }

/-- `waiters.remove`. -/
def removeWaiter (id : String) (channel : Oneshot) : DelegateHandle n :=
  { s with waiters := s.waiters.erase id, channels := settled s.waiters s.channels id channel }

def failAllWaiters (message : String) : DelegateHandle n :=
  { s with
    waiters := ∅
    channels := fun i =>
      if s.waiters.entries.any (·.2 = i) then .sent (.error message) else s.channels i }

section Calls

variable (lineBytes : WorkerMessage → Nat) (exitText : ExitStatus → String)

def closedMessage : String :=
  match s.exitStatus with
  | some status => "delegate stdout closed (delegate exit: " ++ exitText status ++ ")"
  | none => "delegate stdout closed"

def register (i : Fin n) (message : WorkerMessage) : DelegateHandle n :=
  (s.insertWaiter message.id i).setSend i
    (if (s.waiters.lookup message.id).isSome then
      .returned message (.error (.DuplicateInflightId message.id))
    else .lockStdin message)

/-- `write_all`, one write at a time; writing to a pipe that nobody reads fails. -/
def writeStdin (i : Fin n) (message : WorkerMessage) (remaining : Nat) : Option (DelegateHandle n) :=
  if remaining = 0 then some { s.setSend i (.await message) with stdin := none }
  else if s.stdinClosed then some { s.setSend i (.unregister message) with stdin := none }
  else if s.room = 0 then none
  else some { s.setSend i (.write message (remaining - s.room)) with room := s.room - remaining }

def received (message : WorkerMessage) : Oneshot → Option SendPhase
  | .waiting => none
  | .sent (.ok response) => some (.returned message (.ok response))
  | .sent (.error reason) => some (.returned message (.error (.DelegateClosed reason)))
  | .dropped => some (.returned message (.error (.DelegateClosed "delegate response channel closed")))

/-- The next step of a call; `spawnError` is what keeps the delegate from being spawned. -/
def sendStep (i : Fin n) (spawnError : Option ProxyError) : Option (DelegateHandle n) :=
  match s.sends i with
  | .idle | .notSpawned _ _ | .returned _ _ => none
  | .ensureSpawned message =>
    if s.spawned then some (s.setSend i (.register message))
    else
      match spawnError with
      | none => some { s.setSend i (.register message) with spawned := true }
      | some error => some (s.setSend i (.notSpawned message error))
  | .register message => some (s.register i message)
  | .lockStdin message =>
    if s.stdin = none then
      some { s.setSend i (.write message (lineBytes message + 1)) with stdin := some i }
    else none
  | .write message remaining => s.writeStdin i message remaining
  | .unregister message =>
    some ((s.removeWaiter message.id .dropped).setSend i
      (.returned message (.error (.DelegateClosed (s.closedMessage exitText)))))
  | .await message => (received message (s.channels i)).map (s.setSend i)

end Calls

/-- The waiters are those in flight, and the exit status is waited for only briefly. -/
def eofIsDirty : Bool :=
  !s.waiters.entries.isEmpty || !(s.exitStatus.any (·.success))

/-- The next step of the reader; `failure` is the error of what the proxy itself writes. -/
def readerStep (failure : Option String) : Option (DelegateHandle n) :=
  match s.reader with
  | .reading =>
    match s.stdout with
    | [] => if s.stdoutClosed then some { s with reader := .eof } else none
    | .response response :: stdout => some { s with stdout := stdout, reader := .write response }
    | .invalid error :: stdout => some { s with
        stdout := stdout
        reader := .log ("delegate stdout contained invalid JSON: " ++ error) }
    | .unreadable error :: stdout => some { s with
        stdout := stdout
        reader := .log ("delegate stdout read failed: " ++ error) }
  | .write response =>
    match failure with
    | none => some { s with reader := .deliver response }
    | some error => some { s with reader := .failAll ("proxy stdout write failed: " ++ error) }
  | .deliver response =>
    if response.isTerminal then
      some { s.removeWaiter response.id (.sent (.ok response)) with reader := .reading }
    else some { s with reader := .reading }
  | .eof =>
    some { s with reader :=
      if s.eofIsDirty then .log "delegate stdout closed" else .failAll "delegate stdout closed" }
  | .log message => some { s with reader := if failure.isSome then .stopped else .failAll message }
  | .failAll message => some { s.failAllWaiters message with reader := .stopped }
  | .stopped => none

end DelegateHandle

inductive DelegateStep (n : Nat)
  | call (i : Fin n) (message : WorkerMessage)
  | send (i : Fin n) (spawnError : Option DelegateHandle.ProxyError)
  | reader (failure : Option String)
  /-- The delegate writes a line, or closes its stdout. -/
  | emit (line : DelegateLine)
  | closeStdout
  /-- The delegate reads from its stdin, or closes it. -/
  | drain (bytes : Nat)
  | closeStdin
  | exit (status : ExitStatus)
  deriving DecidableEq

/-- A delegate that was spawned does what it likes; its pipe holds `capacity` bytes. A message is written
as a line of `lineBytes` bytes and its end. -/
def delegateStep {n : Nat} (lineBytes : WorkerMessage → Nat) (exitText : ExitStatus → String)
    (capacity : Nat) (s : DelegateHandle n) : DelegateStep n → Option (DelegateHandle n)
  | .call i message =>
    match s.sends i with
    | .idle => some (s.setSend i (.ensureSpawned message))
    | _ => none
  | .send i spawnError => s.sendStep lineBytes exitText i spawnError
  | .reader failure => if s.spawned then s.readerStep failure else none
  | .emit line =>
    if s.spawned ∧ s.stdoutClosed = false then some { s with stdout := s.stdout ++ [line] } else none
  | .closeStdout => if s.spawned then some { s with stdoutClosed := true } else none
  | .drain bytes =>
    if s.spawned ∧ s.room + bytes ≤ capacity then some { s with room := s.room + bytes } else none
  | .closeStdin => if s.spawned then some { s with stdinClosed := true } else none
  | .exit status => if s.spawned then some { s with exitStatus := some status } else none

def delegateHandle (n : Nat) (lineBytes : WorkerMessage → Nat) (exitText : ExitStatus → String)
    (capacity : Nat) : System (DelegateHandle n) (DelegateStep n) where
  init := (· = .initial n capacity)
  step := delegateStep lineBytes exitText capacity

end Luchta.Impl
