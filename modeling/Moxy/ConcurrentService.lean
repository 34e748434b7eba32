import Moxy.ServiceHost

/-!
# Moxy: concurrent calls of a service

Every connection and the reaper call the service from goroutines of their own.  The
service locks its map of engines only while it looks up or creates an engine, and
each engine locks its own state for one operation.  So a call is a sequence of
critical sections, and the sections of different calls interleave.  A scan of
`Ack` or of `ReapExpired` works on the engines that existed when it began.

A `Process` holds the service and, for every call in progress, the section that comes
next (`Stage`).  An event is a new call, a section of one call, or the end or the
start of the process.  If the process stops inside a section, other calls may be
inside theirs, on other engines: these stop too, each at a point of its own
(`Life.dying`), and the locks they hold are never released.

The definitions follow the source section by section.  A note says which engine
operation a section performed; it is what the later modules reason about.
-/

namespace Moxy

open Lib Lib.CrashM

/-- The calls of a service. -/
inductive Call where
  | enqueue (queueName : GoString) (payload : Bytes)
  | fetch (queueName : GoString) (timeout : Int)
  | ack (leaseID : GoString)
  | reap (now : Int)
  | stats (queueName : GoString)
deriving DecidableEq

/-- What a call returns. -/
inductive Answer where
  | reply (reply : Reply)
  | stats (stats : Option Stats)
deriving DecidableEq

/-- The critical section that a call comes to next. -/
inductive Stage where
  | entered (call : Call)
  | enqueuing (queueName : GoString) (payload : Bytes)
  | fetching (queueName : GoString) (timeout : Int)
  | acking (leaseID : GoString) (queueName : GoString) (rest : List GoString)
  | reaping (now : Int) (queueName : GoString) (rest : List GoString) (total : Nat)
      (errs : List GoError)
  | counting (queueName : GoString)
deriving DecidableEq

namespace Stage

/-- The call that a section belongs to. -/
def call : Stage → Call
  | .entered call => call
  | .enqueuing queueName payload => .enqueue queueName payload
  | .fetching queueName timeout => .fetch queueName timeout
  | .acking leaseID _ _ => .ack leaseID
  | .reaping now _ _ _ _ => .reap now
  | .counting queueName => .stats queueName

/-- The engines that a call still has pointers to. -/
def engines : Stage → List GoString
  | .entered _ => []
  | .enqueuing queueName _ | .fetching queueName _ | .counting queueName => [queueName]
  | .acking _ queueName rest | .reaping _ queueName rest _ _ => queueName :: rest

end Stage

/-- What a section takes from its surroundings. -/
structure TurnEnv (γ : Type) where
  newID : GoString
  now : Int
  opening : Opening γ
  order : List GoString

/-- Whether the process runs, and which locks it died with. -/
inductive Life where
  | up
  | dying (stuck : List GoString) (locked : Bool)
  | down
deriving DecidableEq

namespace Life

/-- The engines whose locks are never released. -/
def stuck : Life → List GoString
  | .dying stuck _ => stuck
  | _ => []

/-- A call stops inside a section of an engine, or of the service if `locked`. -/
def stopAt (queueName : GoString) (locked : Bool) : Life → Life
  | .dying stuck locked' => .dying (queueName :: stuck) (locked || locked')
  | _ => .dying [queueName] locked

/--
Whether a section can take place.  A process that is dying only stops inside further
sections, on engines that nobody else has locked; and only one call can hold the lock
of the service.
-/
def Lets {γ : Type} (stage : Stage) (touched : Option (GoString × Event γ × Reply)) :
    Life → Prop
  | .up => True
  | .dying stuck locked =>
      (stage.engines = [] → locked = false) ∧
        ∃ t ∈ touched, t.2.2 = .crashed ∧ t.1 ∉ stuck
  | .down => False

instance {γ : Type} (stage : Stage) (touched : Option (GoString × Event γ × Reply)) (life : Life) :
    Decidable (life.Lets stage touched) :=
  match life with
  | .up => inferInstanceAs (Decidable True)
  | .dying stuck locked =>
      inferInstanceAs (Decidable ((stage.engines = [] → locked = false) ∧
        ∃ t ∈ touched, t.2.2 = .crashed ∧ t.1 ∉ stuck))
  | .down => inferInstanceAs (Decidable False)

@[simp] theorem stuck_stopAt
    (queueName : GoString) (locked : Bool) (life : Life) :
    (life.stopAt queueName locked).stuck = queueName :: life.stuck := by
  cases life <;> rfl

end Life

/-- A service with its calls in progress; `issued` are the UUIDs, each with its queue. -/
structure Process (β γ : Type) where
  service : Service β γ
  calls : Map Nat Stage
  life : Life
  issued : List (GoString × GoString)

/-- What can happen to a process. -/
inductive Turn (γ : Type) where
  | call (caller : Nat) (call : Call)
  | turn (caller : Nat) (env : TurnEnv γ)
  | stop
  | start (config : ServiceConfig)

/-- The engine operation of a section, and the answer of a call that ended with it. -/
structure Note (γ : Type) where
  touched : Option (GoString × Event γ × Reply)
  answer : Option (Nat × Call × Answer)

/-- How a call goes on. -/
inductive Next where
  | stage (stage : Stage)
  | answer (answer : Answer)

/-- The loop of `Ack`, at the engines that are left. -/
def ackNext (leaseID : GoString) : List GoString → Next
  | [] => .answer (.reply (.failed (.sentinel .errLeaseNotFound)))
  | queueName :: rest => .stage (.acking leaseID queueName rest)

/-- The loop of `Ack`, after one engine. -/
def afterAck (leaseID : GoString) (rest : List GoString) : Reply → Next
  | .failed err =>
      if err.is .errLeaseNotFound then ackNext leaseID rest
      else .answer (.reply (.failed err))
  | reply => .answer (.reply reply)

/-- The loop of `ReapExpired`, at the engines that are left. -/
def reapNext (now : Int) (total : Nat) (errs : List GoError) : List GoString → Next
  | [] => .answer (.reply (.reaped total (joinErrors errs)))
  | queueName :: rest => .stage (.reaping now queueName rest total errs)

/-- The loop of `ReapExpired`, after one engine. -/
def afterReap (now : Int) (rest : List GoString) (total : Nat) (errs : List GoError) :
    Reply → Next
  | .reaped count err => reapNext now (total + count) (errs ++ err.toList) rest
  | reply => .answer (.reply reply)

/-- The start of an engine that `engineFor` makes, if it makes one. -/
def Service.creates {β γ : Type} (opening : Opening γ) (queueName : GoString)
    (s : Service β γ) : Option (Event γ) :=
  if validQueueName queueName = false then none
  else
    match s.engines.lookup queueName with
    | some _ => none
    | none =>
        if 0 < s.config.queueLimit ∧
            s.config.queueLimit ≤ (s.engines.entries.length : Int) then none
        else if s.config.journal then
          match opening.journal with
          | .error _ => none
          | .ok (journal, recovered) =>
              some (.restart s.config.engine opening.orders journal recovered)
        else
          some (.restart s.config.engine opening.orders (s.journals queueName) s.config.recovered)

namespace Process

variable {β γ : Type}

/-- The UUIDs of one queue. -/
def issuedAt (queueName : GoString) (p : Process β γ) : List GoString :=
  (p.issued.filter (fun used => used.1 = queueName)).map Prod.snd

/-- The engine of a queue with its storage, as a system of its own. -/
def systemOf (queueName : GoString) (p : Process β γ) : System β γ where
  process := p.service.engines.lookup queueName
  backend := p.service.backends queueName
  journal := p.service.journals queueName
  issued := p.issuedAt queueName

/-- A section ends, and its call goes on or returns. -/
def proceed (caller : Nat) (stage : Stage) (touched : Option (GoString × Event γ × Reply))
    (next : Next) (p : Process β γ) : Note γ × Process β γ :=
  match next with
  | .stage next => (⟨touched, none⟩, { p with calls := p.calls.insert caller next })
  | .answer answer =>
      (⟨touched, some (caller, stage.call, answer)⟩, { p with calls := p.calls.erase caller })

/-- The process stops inside a section. -/
def die (caller : Nat) (touched : Option (GoString × Event γ × Reply))
    (queueName : GoString) (locked : Bool) (p : Process β γ) : Note γ × Process β γ :=
  (⟨touched, none⟩,
    { p with calls := p.calls.erase caller, life := p.life.stopAt queueName locked })

/-- The process after an operation of an engine that ended in `w`. -/
def leave (queueName : GoString) (event : Event γ) (w : World β γ) (p : Process β γ) :
    Process β γ :=
  { p with
    service := p.service.putBack queueName w
    issued := event.newIDs.map (fun id => (queueName, id)) ++ p.issued }

/-- One operation of an engine, under its lock. -/
def visit {α : Type} (caller : Nat) (stage : Stage) (queueName : GoString) (event : Event γ)
    (m : EngineM β γ α) (reply : α → Reply) (next : Reply → Next) (p : Process β γ) :
    Note γ × Process β γ :=
  match m (p.service.world queueName) with
  | .ok a w =>
      (p.leave queueName event w).proceed caller stage
        (some (queueName, event, reply a)) (next (reply a))
  | .error err w =>
      (p.leave queueName event w).proceed caller stage
        (some (queueName, event, .failed err)) (next (.failed err))
  | .crashed w =>
      (p.leave queueName event w).die caller (some (queueName, event, .crashed)) queueName false

variable [Backend β] [Journal γ]

/-- `engineFor`, under the lock of the service. -/
def enter (caller : Nat) (stage : Stage) (opening : Opening γ) (queueName : GoString)
    (next : Stage) (p : Process β γ) : Note γ × Process β γ :=
  let touched (reply : Reply) : Option (GoString × Event γ × Reply) :=
    (p.service.creates opening queueName).map (fun event => (queueName, event, reply))
  match Service.engineFor opening queueName p.service with
  | .ok _ s => { p with service := s }.proceed caller stage (touched .started) (.stage next)
  | .error err s =>
      { p with service := s }.proceed caller stage (touched (.failed err))
        (.answer (.reply (.failed err)))
  | .crashed s => { p with service := s }.die caller (touched .crashed) queueName true

/-- The next critical section of a call. -/
def advance (caller : Nat) (env : TurnEnv γ) (stage : Stage) (p : Process β γ) :
    Note γ × Process β γ :=
  match stage with
  | .entered (.enqueue queueName payload) =>
      p.enter caller stage env.opening queueName (.enqueuing queueName payload)
  | .entered (.fetch queueName timeout) =>
      p.enter caller stage env.opening queueName (.fetching queueName timeout)
  | .entered (.ack leaseID) =>
      p.proceed caller stage none (ackNext leaseID (p.service.existingEngines env.order))
  | .entered (.reap now) =>
      p.proceed caller stage none (reapNext now 0 [] (p.service.existingEngines env.order))
  | .entered (.stats queueName) =>
      p.proceed caller stage none
        (if validQueueName queueName = false then .answer (.stats none)
        else
          match p.service.engines.lookup queueName with
          | none => .answer (.stats none)
          | some _ => .stage (.counting queueName))
  | .enqueuing queueName payload =>
      p.visit caller stage queueName (.enqueue env.newID payload)
        (enqueue env.newID payload) .enqueued (fun reply => .answer (.reply reply))
  | .fetching queueName timeout =>
      p.visit caller stage queueName (.fetch env.newID env.now timeout)
        (fetch env.newID env.now timeout) .fetched (fun reply => .answer (.reply reply))
  | .acking leaseID queueName rest =>
      p.visit caller stage queueName (.ack leaseID)
        (ack leaseID) (fun _ => .acked) (afterAck leaseID rest)
  | .reaping now queueName rest total errs =>
      p.visit caller stage queueName (.reap now)
        (reapExpired now) (fun r => .reaped r.1 r.2) (afterReap now rest total errs)
  | .counting queueName =>
      p.proceed caller stage none (.answer (.stats (p.service.stats queueName)))

/-- One event. -/
def step (e : Turn γ) (p : Process β γ) : Note γ × Process β γ :=
  match e with
  | .call caller call => (⟨none, none⟩, { p with calls := p.calls.insert caller (.entered call) })
  | .turn caller env =>
      match p.calls.lookup caller with
      | none => (⟨none, none⟩, p)
      | some stage => p.advance caller env stage
  | .stop =>
      (⟨none, none⟩,
        { p with service := { p.service with engines := ∅ }, calls := ∅, life := .down })
  | .start config =>
      (⟨none, none⟩,
        { p with
          service := Service.newWithConfig config p.service.backends p.service.journals
          calls := ∅
          life := .up })

/-- The events that can happen. -/
def Admits (p : Process β γ) (e : Turn γ) : Prop :=
  match e with
  | .call caller _ => p.life = .up ∧ p.calls.lookup caller = none
  | .turn caller env =>
      ∃ stage ∈ p.calls.lookup caller,
        p.life.Lets stage (p.advance caller env stage).1.touched
  | .stop | .start _ => True

instance (p : Process β γ) (e : Turn γ) : Decidable (p.Admits e) :=
  match e with
  | .call caller _ =>
      inferInstanceAs (Decidable (p.life = .up ∧ p.calls.lookup caller = none))
  | .turn caller env =>
      inferInstanceAs (Decidable (∃ stage ∈ p.calls.lookup caller,
        p.life.Lets stage (p.advance caller env stage).1.touched))
  | .stop | .start _ => inferInstanceAs (Decidable True)

end Process

/-- A service whose engines run as `N` admits, with UUIDs that no queue has seen. -/
def concurrent {β γ : Type} [Backend β] [Journal γ]
    (N : Machine (System β γ) (Event γ) Reply) : Machine (Process β γ) (Turn γ) (Note γ) where
  step := Process.step
  guard p e :=
    p.Admits e ∧
    ∀ touched ∈ (p.step e).1.touched,
      N.guard (p.systemOf touched.1) touched.2.1 ∧
        ∀ id ∈ touched.2.1.newIDs, id ∉ p.issued.map Prod.snd

instance {β γ : Type} [Backend β] [Journal γ] (N : Machine (System β γ) (Event γ) Reply)
    [∀ s e, Decidable (N.guard s e)] (p : Process β γ) (e : Turn γ) :
    Decidable ((concurrent N).guard p e) :=
  inferInstanceAs (Decidable (p.Admits e ∧
    ∀ touched ∈ (p.step e).1.touched,
      N.guard (p.systemOf touched.1) touched.2.1 ∧
        ∀ id ∈ touched.2.1.newIDs, id ∉ p.issued.map Prod.snd))

end Moxy
