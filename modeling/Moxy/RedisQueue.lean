import Moxy.MemoryQueue
import Moxy.Lib.CrashProgram
import Moxy.Lib.Decimal

/-!
# Moxy: the Redis backend

`RedisQueue` keeps ready and dead tasks in Redis lists and in-flight tasks in two
hashes, one from task ID to the encoded task and one from task ID to the lease that
fences it.  Every transition is a Lua script.

Redis runs a script without interruption, but it does not undo the writes of a
script that aborts: a script is a program whose errors keep the state.  The texts
in the lists and in the first hash are written by Go's JSON package or by `cjson`
and read by both.  These two libraries are parameters (`TaskCodec`), and
`TaskCodec.Faithful` is what is assumed about them.
-/

namespace Moxy

open Lib Lib.CrashM

/-- A task as a Lua table. -/
structure LuaTask where
  id : GoString
  payload : Bytes
  attempts : Option Int
deriving DecidableEq, Repr

/-- The table of a task. -/
def Task.toLua (task : Task) : LuaTask :=
  ⟨task.id, task.payload, some task.attempts⟩

/-- `task["attempts"] = (task["attempts"] or 0) + 1` -/
def LuaTask.charged (task : LuaTask) : LuaTask :=
  { task with attempts := some (task.attempts.getD 0 + 1) }

/-- Go's JSON package and `cjson`, as far as tasks are concerned. -/
structure TaskCodec where
  marshal : Task → Except GoError GoString
  unmarshal : GoString → Except GoError Task
  unmarshalDead : GoString → Except GoError DeadTask
  formatTime : Int → GoString
  decode : GoString → Except GoError LuaTask
  encode : LuaTask → Except GoError GoString
  encodeDead : LuaTask → GoString → GoString → Except GoError GoString

/-- The tasks that JSON represents exactly, if numbers are exact up to `limit`. -/
def Task.Exact (limit : Int) (task : Task) : Prop :=
  ValidUTF8 task.id ∧ 0 ≤ task.attempts ∧ task.attempts ≤ limit

namespace TaskCodec

/-- Both libraries read the task off the text. -/
def Holds (codec : TaskCodec) (text : GoString) (task : Task) : Prop :=
  codec.unmarshal text = .ok task ∧ codec.decode text = .ok task.toLua

/-- The text is read as the dead task, up to the time of its death. -/
def HoldsDead (codec : TaskCodec) (text : GoString) (dead : DeadTask) : Prop :=
  ∃ found,
    codec.unmarshalDead text = .ok found ∧
    found.task = dead.task ∧
    (ValidUTF8 dead.reason → found.reason = dead.reason)

/-- What either library writes, both of them read. -/
structure Faithful (codec : TaskCodec) (limit : Int) : Prop where
  marshal :
    ∀ task, Task.Exact limit task →
      ∃ text, codec.marshal task = .ok text ∧ codec.Holds text task
  encode :
    ∀ task, Task.Exact limit task →
      ∃ text, codec.encode task.toLua = .ok text ∧ codec.Holds text task
  encodeDead :
    ∀ task reason time deadAt, Task.Exact limit task →
      ∃ text,
        codec.encodeDead task.toLua reason (codec.formatTime time) = .ok text ∧
        codec.HoldsDead text ⟨task, reason, deadAt⟩

end TaskCodec

/-- The four keys of one queue.  The left end of a list is its head. -/
structure Database where
  ready : List GoString
  processing : Map GoString GoString
  processingLeases : Map GoString GoString
  dead : List GoString
deriving DecidableEq

/-- One element of an array reply. -/
inductive ReplyItem where
  | integer (n : Int)
  | bulk (text : GoString)
deriving DecidableEq, Repr

/-- What a script returns. -/
inductive ScriptReply where
  | null
  | integer (n : Int)
  | bulk (text : GoString)
  | array (items : List ReplyItem)
deriving DecidableEq, Repr

/-- The value of a library call; its error ends the program. -/
def ofExcept {σ α : Type} (result : Except GoError α) : CrashM GoError σ α :=
  match result with
  | .ok a => pure a
  | .error err => fail err

namespace Database

/-- Nothing is stored under the four keys. -/
def empty : Database :=
  ⟨[], ∅, ∅, []⟩

def lpushReady (text : GoString) (db : Database) : Database :=
  { db with ready := text :: db.ready }

def lpushDead (text : GoString) (db : Database) : Database :=
  { db with dead := text :: db.dead }

/-- Take the last element of the ready list. -/
def rpopReady : CrashM GoError Database (Option GoString) := do
  let db ← read
  match db.ready.getLast? with
  | none => pure none
  | some text => do
      update (fun db => { db with ready := db.ready.dropLast })
      pure (some text)

/-- Store a task and its fence. -/
def hset (id text leaseID : GoString) (db : Database) : Database :=
  { db with
    processing := db.processing.insert id text
    processingLeases := db.processingLeases.insert id leaseID }

/-- Delete a task and its fence. -/
def hdel (id : GoString) (db : Database) : Database :=
  { db with
    processing := db.processing.erase id
    processingLeases := db.processingLeases.erase id }

/-- Move the oldest ready task into the processing hashes. -/
def acquireTaskScript (codec : TaskCodec) (leaseID : GoString) :
    CrashM GoError Database ScriptReply := do
  match ← rpopReady with
  | none => pure .null
  | some encoded => do
      let task ← ofExcept (codec.decode encoded)
      update (hset task.id encoded leaseID)
      pure (.bulk encoded)

/-- The check that three scripts share, and the deletion; then place the task. -/
def fencedScript (id leaseID : GoString) (place : GoString → CrashM GoError Database Unit) :
    CrashM GoError Database ScriptReply := do
  let db ← read
  match db.processing.lookup id with
  | none => pure (.integer 0)
  | some encoded =>
      -- A missing fence reads as `false`, which differs from every lease ID.
      if db.processingLeases.lookup id ≠ some leaseID then
        pure (.integer (-1))
      else do
        update (hdel id)
        place encoded
        pure (.integer 1)

def completeTaskScript (id leaseID : GoString) : CrashM GoError Database ScriptReply :=
  fencedScript id leaseID (fun _ => pure ())

def requeueTaskScript (codec : TaskCodec) (id leaseID : GoString) :
    CrashM GoError Database ScriptReply :=
  fencedScript id leaseID (fun encoded => do
    let task ← ofExcept (codec.decode encoded)
    let text ← ofExcept (codec.encode task.charged)
    update (lpushReady text))

def deadLetterTaskScript (codec : TaskCodec) (id leaseID reason deadAt : GoString) :
    CrashM GoError Database ScriptReply :=
  fencedScript id leaseID (fun encoded => do
    let task ← ofExcept (codec.decode encoded)
    let text ← ofExcept (codec.encodeDead task.charged reason deadAt)
    update (lpushDead text))

/-- The keys of the `active` table: task ID and lease ID around a NUL byte. -/
def activeKeys : List GoString → List GoString
  | id :: leaseID :: args => (id ++ 0 :: leaseID) :: activeKeys args
  | _ => []

/-- The loop over the entries of the processing hash. -/
def recoverLoop (active : List GoString) :
    List (GoString × GoString) → Nat → List GoString →
      CrashM GoError Database (Nat × List GoString)
  | [], moved, matched => pure (moved, matched)
  | (id, encoded) :: entries, moved, matched => do
      let db ← read
      match (db.processingLeases.lookup id).filter (fun leaseID => id ++ 0 :: leaseID ∈ active) with
      | some leaseID => recoverLoop active entries moved (matched ++ [leaseID])
      | none => do
          update (fun db => (db.hdel id).lpushReady encoded)
          recoverLoop active entries (moved + 1) matched

/-- Redis lists the entries of a hash in an order of its own. -/
def recoverOrphanedProcessingScript (order : List GoString) (args : List GoString) :
    CrashM GoError Database ScriptReply := do
  let db ← read
  let (moved, matched) ← recoverLoop (activeKeys args) (Map.range order db.processing) 0 []
  pure (.array (.integer moved :: matched.map .bulk))

end Database

namespace RedisQueue

open Database

/-- The client library cannot convert the reply of a script. -/
def unexpectedReply : GoError :=
  .text (goString "redis: unexpected type")

def enqueue (codec : TaskCodec) (task : Task) : CrashM GoError Database Unit := do
  let encoded ← ofExcept (codec.marshal task)
  update (lpushReady encoded)

def acquire (codec : TaskCodec) (leaseID : GoString) : CrashM GoError Database Task := do
  match ← acquireTaskScript codec leaseID with
  | .null => fail (.sentinel .errQueueEmpty)
  | .bulk encoded => ofExcept (codec.unmarshal encoded)
  | _ => fail unexpectedReply

def transitionResultError (result : Int) : Except GoError Unit :=
  if result = 1 then .ok ()
  else if result = 0 then .error (.sentinel .errTaskNotProcessing)
  else if result = -1 then .error (.sentinel .errLeaseFenceMismatch)
  else
    .error (.text (goString "redis script returned unexpected transition result " ++
      formatInt result))

def runTaskScript (script : CrashM GoError Database ScriptReply) :
    CrashM GoError Database Unit := do
  match ← script with
  | .integer result => ofExcept (transitionResultError result)
  | _ => fail unexpectedReply

def complete (taskID leaseID : GoString) : CrashM GoError Database Unit :=
  runTaskScript (completeTaskScript taskID leaseID)

def requeue (codec : TaskCodec) (taskID leaseID : GoString) :
    CrashM GoError Database Unit :=
  runTaskScript (requeueTaskScript codec taskID leaseID)

def deadLetter (codec : TaskCodec) (taskID leaseID reason : GoString) (now : Int) :
    CrashM GoError Database Unit :=
  runTaskScript (deadLetterTaskScript codec taskID leaseID reason (codec.formatTime now))

/-- The lease IDs behind the count. -/
def decodeMatched : List ReplyItem → Except GoError (Finset GoString)
  | [] => .ok ∅
  | .integer _ :: _ => .error (.text (goString "redis recovery lease id has type int64"))
  | .bulk leaseID :: items => do
      let matched ← decodeMatched items
      pure (insert leaseID matched)

def decodeRecoveryResult : List ReplyItem → Except GoError RecoveryResult
  | [] => .error (.text (goString "redis recovery script returned no result"))
  | .bulk _ :: _ => .error (.text (goString "redis recovery moved count has type string"))
  | .integer moved :: items => do
      let matched ← decodeMatched items
      pure ⟨moved.toNat, matched⟩

/-- The arguments of the recovery script. -/
def fenceArgs (activeLeases : List LeaseFence) : List GoString :=
  activeLeases.flatMap (fun fence => [fence.taskID, fence.leaseID])

def recoverOrphanedProcessing (order : List GoString) (activeLeases : List LeaseFence) :
    CrashM GoError Database RecoveryResult := do
  match ← recoverOrphanedProcessingScript order (fenceArgs activeLeases) with
  | .array items => ofExcept (decodeRecoveryResult items)
  | _ => fail unexpectedReply

end RedisQueue

/--
A call on a backend.  A dead letter carries the instants at which the two backends
read their clocks, a recovery the order in which they visit the processing entries.
-/
inductive BackendCall where
  | enqueue (task : Task)
  | acquire (leaseID : GoString)
  | complete (taskID leaseID : GoString)
  | requeue (taskID leaseID : GoString)
  | deadLetter (taskID leaseID reason : GoString) (memoryNow redisNow : Int)
  | recoverOrphanedProcessing (order : List GoString) (activeLeases : List LeaseFence)
deriving DecidableEq, Repr

/-- What a call returns. -/
inductive BackendReply where
  | done
  | task (task : Task)
  | recovery (result : RecoveryResult)
deriving DecidableEq

/-- The memory backend's answer. -/
def MemoryQueue.answer (call : BackendCall) (q : MemoryQueue) :
    Except GoError BackendReply × MemoryQueue :=
  match call with
  | .enqueue task =>
      ((q.enqueue task).1.map (fun _ => .done), (q.enqueue task).2)
  | .acquire leaseID =>
      ((q.acquire leaseID).1.map .task, (q.acquire leaseID).2)
  | .complete taskID leaseID =>
      ((q.complete taskID leaseID).1.map (fun _ => .done), (q.complete taskID leaseID).2)
  | .requeue taskID leaseID =>
      ((q.requeue taskID leaseID).1.map (fun _ => .done), (q.requeue taskID leaseID).2)
  | .deadLetter taskID leaseID reason now _ =>
      ((q.deadLetter taskID leaseID reason now).1.map (fun _ => .done),
        (q.deadLetter taskID leaseID reason now).2)
  | .recoverOrphanedProcessing order activeLeases =>
      ((q.recoverOrphanedProcessing order activeLeases).1.map .recovery,
        (q.recoverOrphanedProcessing order activeLeases).2)

/-- The Redis backend's answer. -/
def RedisQueue.answer (codec : TaskCodec) :
    BackendCall → CrashM GoError Database BackendReply
  | .enqueue task => do
      RedisQueue.enqueue codec task
      pure .done
  | .acquire leaseID => do
      let task ← RedisQueue.acquire codec leaseID
      pure (.task task)
  | .complete taskID leaseID => do
      RedisQueue.complete taskID leaseID
      pure .done
  | .requeue taskID leaseID => do
      RedisQueue.requeue codec taskID leaseID
      pure .done
  | .deadLetter taskID leaseID reason _ now => do
      RedisQueue.deadLetter codec taskID leaseID reason now
      pure .done
  | .recoverOrphanedProcessing order activeLeases => do
      let result ← RedisQueue.recoverOrphanedProcessing order activeLeases
      pure (.recovery result)

/-- The script that a call runs; `Enqueue` is a single command. -/
def RedisQueue.script (codec : TaskCodec) :
    BackendCall → Option (CrashM GoError Database ScriptReply)
  | .enqueue _ => none
  | .acquire leaseID => some (Database.acquireTaskScript codec leaseID)
  | .complete taskID leaseID => some (Database.completeTaskScript taskID leaseID)
  | .requeue taskID leaseID => some (Database.requeueTaskScript codec taskID leaseID)
  | .deadLetter taskID leaseID reason _ now =>
      some (Database.deadLetterTaskScript codec taskID leaseID reason (codec.formatTime now))
  | .recoverOrphanedProcessing order activeLeases =>
      some (Database.recoverOrphanedProcessingScript order (RedisQueue.fenceArgs activeLeases))

end Moxy
