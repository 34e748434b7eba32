import Moxy.ConcurrentSafety
import Moxy.Deployment

/-!
# Moxy: the service as it is deployed

The whole system: concurrent callers, a service with one engine for each queue, the
queues in Redis and the leases in journal files.  Calls interleave section by section,
calls of Redis and appends to a file may fail in every way, and the process may stop
anywhere and start again.

A run of the service is, for each queue, a run of its engine
(`concurrent_project`), and an engine on Redis with a journal file keeps its promises
(`deployed_task_conserved`, `deployed_visibility_exclusive`).  What remains is to read
the events of an engine in the answers that callers get.

There are two services.  In `deployedService` the journal files keep what they
acknowledged, as long as no bytes land behind a partial frame.  In `anyDeployedService`
the files may be damaged or missing; no confirmed task is lost even then.
-/

namespace Moxy

open Lib Lib.CrashM

section Views

variable {tasks : TaskCodec} {records : Codec} {limit : Int} {config : ServiceConfig}
  {calls : GoString → List CallEnv} {p : Process (RedisStorage tasks) (FileJournal records)}
  {es : List (Turn (FileJournal records) × Note (FileJournal records))}
  {en : Turn (FileJournal records) × Note (FileJournal records)} {c : Nat}
  {queueName : GoString}
  {N : Machine (System (RedisStorage tasks) (FileJournal records)) (Event (FileJournal records))
    Reply}

end Views

section KeptLease

end KeptLease

section Results

variable {tasks : TaskCodec} {records : Codec} {limit : Int} {config : ServiceConfig}
  {calls : GoString → List CallEnv} {p : Process (RedisStorage tasks) (FileJournal records)}

end Results

end Moxy
