import Moxy.RespWire
import Moxy.Service

/-!
# Moxy: commands over the wire

A connection is a loop: read a value, turn it into a command, run the command on
the service, turn the result into a reply, write the reply.  The loop ends at the
end of the input, or with one error reply when the input breaks the format.

What a command takes from its surroundings is an argument of the request that
carries it: the UUID it generates, the instant, what opening a journal returns,
and the order in which the engine map is visited.
-/

namespace Moxy

open Lib Lib.CrashM

/-- A command and its arguments. -/
structure Command where
  name : GoString
  args : List GoString
deriving DecidableEq, Repr

def enqueueName : GoString :=
  goString "MOXY.ENQUEUE"

def fetchName : GoString :=
  goString "MOXY.FETCH"

def ackName : GoString :=
  goString "MOXY.ACK"

def statsName : GoString :=
  goString "MOXY.STATS"

def pingName : GoString :=
  goString "PING"

/-- The longest lease that a client may ask for, in milliseconds. -/
def maxLeaseTimeoutMS : Int :=
  86400000

/--
Upper case, as far as the comparison with an ASCII name can see it.  Apart from
the ASCII letters, exactly two runes have an ASCII letter as their upper case: the
dotless i and the long s.  Every other rune outside ASCII stays outside ASCII.
-/
def toUpper : GoString → GoString
  | [] => []
  | 0xC4 :: 0xB1 :: rest => 73 :: toUpper rest
  | 0xC5 :: 0xBF :: rest => 83 :: toUpper rest
  | b :: rest => (if 97 ≤ b ∧ b ≤ 122 then b - 32 else b) :: toUpper rest

/-- The result of a command. -/
structure Response where
  ok : Bool
  taskID : GoString
  leaseID : GoString
  payload : Bytes
  expiresAt : Int
  stats : Stats
deriving DecidableEq, Repr

/-- The counts of a queue that does not exist. -/
def Stats.zero : Stats :=
  ⟨0, 0, 0, 0, 0⟩

/-- A result without any data. -/
def Response.done : Response :=
  ⟨true, [], [], [], zeroTime, Stats.zero⟩

/-- What a request takes from its surroundings. -/
structure RequestEnv (γ : Type) where
  opening : Opening γ
  newID : GoString
  now : Int
  order : List GoString

/-- The parts of a command, if all of them are bulk strings. -/
def bulkParts : List Value → Option (List GoString)
  | [] => some []
  | .bulkString s :: rest => (bulkParts rest).map (s :: ·)
  | _ :: _ => none

/-- The command that a value stands for. -/
def commandFromRESP : Value → Except GoError Command
  | .array [] => .error (.sentinel .errInvalidArguments)
  | .array items =>
      match bulkParts items with
      | none => .error (.text (goString "command elements must be bulk strings"))
      | some parts => .ok ⟨toUpper (parts.headD []), parts.tail⟩
  | _ => .error (.text (goString "expected array command"))

/-- A count as a signed integer of 64 bits. -/
def toInt64 (n : Nat) : Int :=
  Int.bmod n (2 ^ 64)

def errorReply (err : GoError) : Value :=
  .error (goString "ERR " ++ err.message)

/-- A named count in a reply. -/
def countReply (name : String) (n : Nat) : List Value :=
  [.bulkString (goString name), .integer (toInt64 n)]

def responseToRESP (name : GoString) (response : Response) : Value :=
  if name = enqueueName then
    .array [.bulkString (goString "task_id"), .bulkString response.taskID]
  else if name = fetchName then
    .array [.bulkString (goString "lease_id"), .bulkString response.leaseID,
      .bulkString (goString "task_id"), .bulkString response.taskID,
      .bulkString (goString "payload"), .bulkString response.payload]
  else if name = ackName then .simpleString (goString "OK")
  else if name = statsName then
    .array (countReply "ready" response.stats.ready ++
      countReply "processing" response.stats.processing ++
      countReply "dead" response.stats.dead ++
      countReply "active_leases" response.stats.activeLeases ++
      countReply "heap" response.stats.expirationHeap)
  else errorReply (.sentinel .errUnknownCommand)

section Handler

variable {β γ : Type} [Backend β] [Journal γ]

def handleEnqueue (env : RequestEnv γ) : List GoString → ServiceM β γ Response
  | [queueName, payload] => do
      let task ← Service.enqueue env.opening queueName env.newID payload
      pure { Response.done with taskID := task.id }
  | _ => fail (.sentinel .errInvalidArguments)

def handleFetch (env : RequestEnv γ) : List GoString → ServiceM β γ Response
  | [queueName, timeout] =>
      match parseInt64 timeout with
      | none => fail (.sentinel .errCommandTimeout)
      | some timeoutMS =>
          if timeoutMS < 1 ∨ maxLeaseTimeoutMS < timeoutMS then
            fail (.sentinel .errCommandTimeout)
          else do
            let lease ← Service.fetch env.opening queueName env.newID env.now
              (timeoutMS * 1000000)
            pure { Response.done with
              taskID := lease.task.id
              leaseID := lease.leaseID
              payload := lease.task.payload
              expiresAt := lease.expiresAt }
  | _ => fail (.sentinel .errInvalidArguments)

def handleAck (env : RequestEnv γ) : List GoString → ServiceM β γ Response
  | [leaseID] => do
      Service.ack env.order leaseID
      pure Response.done
  | _ => fail (.sentinel .errInvalidArguments)

def handleStats : List GoString → ServiceM β γ Response
  | [queueName] => do
      let s ← read
      pure { Response.done with stats := (s.stats queueName).getD Stats.zero }
  | _ => fail (.sentinel .errInvalidArguments)

/-- Validate and execute a command. -/
def handleCommand (env : RequestEnv γ) (command : Command) : ServiceM β γ Response :=
  let name := toUpper command.name
  if name = enqueueName then handleEnqueue env command.args
  else if name = fetchName then handleFetch env command.args
  else if name = ackName then handleAck env command.args
  else if name = statsName then handleStats command.args
  else fail (.sentinel .errUnknownCommand)

/-- The reply to a request. -/
def handle (env : RequestEnv γ) (request : Value) : ServiceM β γ Value :=
  match commandFromRESP request with
  | .error err => pure (errorReply err)
  | .ok command =>
      if command.name = pingName then pure (.simpleString (goString "PONG"))
      else do
        match ← attempt (handleCommand env command) with
        | .error err =>
            if err.is .errQueueEmpty then pure .nullBulkString
            else pure (errorReply err)
        | .ok response => pure (responseToRESP command.name response)

/-- The replies to a sequence of requests, the first of which has number `i`. -/
def serve (envs : Nat → RequestEnv γ) : Nat → List Value → ServiceM β γ (List Value)
  | _, [] => pure []
  | i, request :: rest => do
      let reply ← handle (envs i) request
      let replies ← serve envs (i + 1) rest
      pure (reply :: replies)

/-- The error reply that ends a connection whose input breaks the format. -/
def ReadEnd.replies : ReadEnd → List Value
  | .eof => []
  | .fails err => [errorReply err]

/-- Serve a connection: the replies of the requests, and the bytes written. -/
def handleConn (envs : Nat → RequestEnv γ) (input : Bytes) :
    ServiceM β γ (List Value × Bytes) := do
  let replies ← serve envs 0 (readAll input).1
  pure (replies, writeValues (replies ++ (readAll input).2.replies))

end Handler

end Moxy
