import Moxy.ConcurrentRuns
import Moxy.LeaseTurnover

/-!
# Moxy: what callers can rely on while calls interleave

The results are about the answers that callers of a service get, while calls
interleave in any way and processes stop and start.  With a journal that keeps what it
acknowledged, no two callers get the same task unless a reaping pass came in between,
at the deadline of the first lease or later.  A lease is acknowledged successfully at
most once, whatever the journal keeps.

Each result is one about the runs of a single engine, carried over by
`concurrent_project`.  That the answers concern the same queue follows from the UUIDs,
which no two queues share (`Process.Distinct`).
-/

namespace Moxy

open Lib Lib.CrashM

/-- The engine operation that belongs to a call. -/
def Call.Does {γ : Type} (call : Call) (queueName : GoString) (event : Event γ) : Prop :=
  match call, event with
  | .enqueue q payload, .enqueue _ payload' => q = queueName ∧ payload = payload'
  | .fetch q timeout, .fetch _ _ timeout' => q = queueName ∧ timeout = timeout'
  | .ack leaseID, .ack leaseID' => leaseID = leaseID'
  | .reap now, .reap now' => now = now'
  | _, _ => False

namespace Process

section Answers

variable {β γ : Type} {p : Process β γ}

/-- What the answer of a call tells about its last section. -/
def Explains (note : Note γ) (call : Call) (reply : Reply) : Prop :=
  (∃ queueName event, note.touched = some (queueName, event, reply) ∧
    call.Does queueName event) ∨
  (∃ err, reply = .failed err) ∨ ∃ count err, reply = .reaped count err

theorem proceed_answer
    {caller c : Nat} {stage : Stage} {touched : Option (GoString × Event γ × Reply)} {next : Next}
    {call : Call} {a : Answer}
    (h : (p.proceed caller stage touched next).1.answer = some (c, call, a)) :
    c = caller ∧ call = stage.call ∧ next = .answer a := by
  cases next with
  | stage st => cases h
  | answer a' =>
      cases h
      exact ⟨rfl, rfl, rfl⟩

theorem visit_answer
    {α : Type} {caller c : Nat} {stage : Stage} {queueName : GoString} {event : Event γ}
    {m : EngineM β γ α} {reply : α → Reply} {next : Reply → Next} {call : Call} {a : Answer}
    (h : (p.visit caller stage queueName event m reply next).1.answer = some (c, call, a)) :
    ∃ r,
      (p.visit caller stage queueName event m reply next).1.touched =
        some (queueName, event, r) ∧
      c = caller ∧ call = stage.call ∧ next r = .answer a := by
  cases hm : m (p.service.world queueName) with
  | ok x w =>
      rw [visit_of_ok hm] at h ⊢
      exact ⟨_, proceed_touched _ _ _ _ _, proceed_answer h⟩
  | error err w =>
      rw [visit_of_error hm] at h ⊢
      exact ⟨_, proceed_touched _ _ _ _ _, proceed_answer h⟩
  | crashed w =>
      rw [visit_of_crashed hm] at h
      cases h

theorem ackNext_answer
    {leaseID : GoString} {queues : List GoString} {a : Answer}
    (h : ackNext leaseID queues = .answer a) :
    ∃ err, a = .reply (.failed err) := by
  cases queues with
  | nil =>
      cases h
      exact ⟨_, rfl⟩
  | cons queueName rest => cases h

theorem reapNext_answer
    {now : Int} {total : Nat} {errs : List GoError} {queues : List GoString} {a : Answer}
    (h : reapNext now total errs queues = .answer a) :
    ∃ count err, a = .reply (.reaped count err) := by
  cases queues with
  | nil =>
      cases h
      exact ⟨_, _, rfl⟩
  | cons queueName rest => cases h

variable [Backend β] [Journal γ]

theorem enter_answer
    {caller c : Nat} {stage next : Stage} {opening : Opening γ} {queueName : GoString}
    {call : Call} {a : Answer}
    (h : (p.enter caller stage opening queueName next).1.answer = some (c, call, a)) :
    c = caller ∧ ∃ err, a = .reply (.failed err) := by
  unfold enter at h
  cases ho : Service.engineFor opening queueName p.service with
  | ok x s =>
      rw [ho] at h
      cases (proceed_answer h).2.2
  | error err s =>
      rw [ho] at h
      obtain ⟨hc, _, ⟨⟩⟩ := proceed_answer h
      exact ⟨hc, err, rfl⟩
  | crashed s =>
      rw [ho] at h
      cases h

theorem advance_answer
    {caller c : Nat} {env : TurnEnv γ} {stage : Stage} {call : Call} {r : Reply}
    (h : (p.advance caller env stage).1.answer = some (c, call, .reply r)) :
    Explains (p.advance caller env stage).1 call r := by
  cases stage with
  | entered call' =>
      cases call' with
      | enqueue queueName payload =>
          obtain ⟨_, err, ⟨⟩⟩ := enter_answer h
          exact .inr (.inl ⟨err, rfl⟩)
      | fetch queueName timeout =>
          obtain ⟨_, err, ⟨⟩⟩ := enter_answer h
          exact .inr (.inl ⟨err, rfl⟩)
      | ack leaseID =>
          obtain ⟨err, ⟨⟩⟩ := ackNext_answer (proceed_answer h).2.2
          exact .inr (.inl ⟨err, rfl⟩)
      | reap now =>
          obtain ⟨count, err, ⟨⟩⟩ := reapNext_answer (proceed_answer h).2.2
          exact .inr (.inr ⟨count, err, rfl⟩)
      | stats queueName =>
          have hnext := (proceed_answer h).2.2
          split_ifs at hnext
          · cases hnext
          · cases hl : p.service.engines.lookup queueName with
            | none =>
                rw [hl] at hnext
                cases hnext
            | some engine =>
                rw [hl] at hnext
                cases hnext
  | enqueuing queueName payload =>
      obtain ⟨r', htouched, _, rfl, ⟨⟩⟩ := visit_answer h
      exact .inl ⟨_, _, htouched, rfl, rfl⟩
  | fetching queueName timeout =>
      obtain ⟨r', htouched, _, rfl, ⟨⟩⟩ := visit_answer h
      exact .inl ⟨_, _, htouched, rfl, rfl⟩
  | acking leaseID queueName rest =>
      obtain ⟨r', htouched, _, rfl, hnext⟩ := visit_answer h
      cases r' with
      | failed err =>
          simp only [afterAck] at hnext
          split_ifs at hnext
          · obtain ⟨err', ⟨⟩⟩ := ackNext_answer hnext
            exact .inr (.inl ⟨err', rfl⟩)
          · cases hnext
            exact .inr (.inl ⟨err, rfl⟩)
      | enqueued | fetched | acked | reaped | started | crashed | down =>
          cases hnext
          exact .inl ⟨_, _, htouched, rfl⟩
  | reaping now queueName rest total errs =>
      obtain ⟨r', htouched, _, rfl, hnext⟩ := visit_answer h
      cases r' with
      | reaped count err =>
          obtain ⟨count', err', ⟨⟩⟩ := reapNext_answer hnext
          exact .inr (.inr ⟨count', err', rfl⟩)
      | enqueued | fetched | acked | failed | started | crashed | down =>
          cases hnext
          exact .inl ⟨_, _, htouched, rfl⟩
  | counting queueName => cases (proceed_answer h).2.2

/-- The answers of a section are those of its own call. -/
theorem advance_caller
    {caller c : Nat} {env : TurnEnv γ} {stage : Stage} {call : Call} {a : Answer}
    (h : (p.advance caller env stage).1.answer = some (c, call, a)) :
    c = caller := by
  have hvisit : ∀ {α : Type} {queueName : GoString} {event : Event γ} {m : EngineM β γ α}
      {reply : α → Reply} {next : Reply → Next},
      (p.visit caller stage queueName event m reply next).1.answer = some (c, call, a) →
      c = caller := by
    intro α queueName event m reply next h
    obtain ⟨_, _, hc, _⟩ := visit_answer h
    exact hc
  cases stage with
  | entered call' =>
      cases call' with
      | enqueue | fetch => exact (enter_answer h).1
      | ack | reap | stats => exact (proceed_answer h).1
  | enqueuing | fetching | acking | reaping => exact hvisit h
  | counting => exact (proceed_answer h).1

theorem step_answer
    {e : Turn γ} {c : Nat} {call : Call} {r : Reply}
    (h : (p.step e).1.answer = some (c, call, .reply r)) :
    Explains (p.step e).1 call r := by
  cases e with
  | call | stop | start => cases h
  | turn caller env =>
      cases hstage : p.calls.lookup caller with
      | none =>
          rw [step_turn_none hstage] at h
          cases h
      | some stage =>
          rw [step_turn hstage] at h ⊢
          exact advance_answer h

end Answers

section Distinct

variable {β γ : Type} {p p' : Process β γ}

/-- No UUID is used twice, by one queue or by two. -/
def Distinct (p : Process β γ) : Prop :=
  (p.issued.map Prod.snd).Nodup

theorem Distinct.queue_eq
    {q q' id : GoString}
    (h : p.Distinct)
    (hq : id ∈ p.issuedAt q)
    (hq' : id ∈ p.issuedAt q') :
    q = q' := by
  obtain ⟨used, hused, rfl⟩ := List.mem_map.mp hq
  obtain ⟨used', hused', hid⟩ := List.mem_map.mp hq'
  obtain ⟨hmem, hqueue⟩ := List.mem_filter.mp hused
  obtain ⟨hmem', hqueue'⟩ := List.mem_filter.mp hused'
  have hsame : used' = used := List.inj_on_of_nodup_map h hmem' hmem hid
  rw [← of_decide_eq_true hqueue, ← of_decide_eq_true hqueue', hsame]

variable [Backend β] [Journal γ] {N : Machine (System β γ) (Event γ) Reply}

theorem Distinct.step
    {e : Turn γ}
    (h : p.Distinct)
    (hpointed : p.Pointed)
    (hguard : (concurrent N).guard p e) :
    (p.step e).2.Distinct := by
  unfold Distinct
  rcases step_cases (e := e) hpointed with ⟨_, hp⟩ | ⟨_, hc⟩ | ⟨q, event, r, hnote, ht⟩
  · rw [hp.issued]
    exact h
  · rw [hc.issued]
    exact h
  · have hfresh := (hguard.2 _ hnote).2
    rw [ht.issued, List.map_append, List.map_map]
    refine List.Nodup.append ?_ h ?_
    · cases event <;> simp [Event.newIDs]
    · intro id hid hold
      refine hfresh id ?_ hold
      simpa [Function.comp_def] using hid

theorem concurrent_distinct
    {es : List (Turn γ × Note γ)}
    (hrun : (concurrent N).Run p es p')
    (hpointed : p.Pointed)
    (h : p.Distinct) :
    p'.Distinct :=
  (hrun.invariant (P := fun u : Process β γ => u.Pointed ∧ u.Distinct)
    (fun _ _ hu hguard => ⟨step_pointed hu.1, hu.2.step hu.1 hguard⟩) ⟨hpointed, h⟩).2

end Distinct

/-- Empty storage for all queues, with the scripts of its calls and appends. -/
def coldStorage (config : ServiceConfig) (calls : GoString → List CallEnv)
    (appends : GoString → List AppendFate) : Process Storage LeaseLog :=
  .cold config (fun q => ⟨⟨MemoryQueue.new, []⟩, calls q⟩) (fun q => ⟨[], appends q⟩)

end Process

section Results

variable {config : ServiceConfig} {calls : GoString → List CallEnv}
  {appends : GoString → List AppendFate} {p : Process Storage LeaseLog}
  {es : List (Turn LeaseLog × Note LeaseLog)}

/-- The run of one engine in a run of a service. -/
theorem concurrent_engine
    {N : Machine (System Storage LeaseLog) (Event LeaseLog) Reply}
    (hstep : N.step = System.step)
    (hN : System.StartsAnyway N)
    (hrun : (concurrent N).Run (.coldStorage config calls appends) es p)
    (queueName : GoString) :
    ∃ t,
      N.Run (System.empty (calls queueName) (appends queueName))
        (es.filterMap (fun en => en.2.ofQueue queueName)) t ∧
      t.issued = p.issuedAt queueName ∧ p.Distinct := by
  obtain ⟨t, ht, _, hfollows⟩ := concurrent_project hstep hN hrun
    Process.cold_pointed (Process.cold_follows _ _ _ queueName)
  exact ⟨t, ht, hfollows.issued,
    Process.concurrent_distinct hrun Process.cold_pointed List.nodup_nil⟩

/-- A success that a caller saw was one of an engine. -/
theorem touched_of_answer
    {β γ : Type} [Backend β] [Journal γ] {N : Machine (System β γ) (Event γ) Reply}
    {u u' : Process β γ} {es : List (Turn γ × Note γ)} {en : Turn γ × Note γ} {c : Nat}
    {call : Call} {r : Reply}
    (hrun : (concurrent N).Run u es u')
    (hen : en ∈ es)
    (hanswer : en.2.answer = some (c, call, .reply r))
    (hfailed : ∀ err, r ≠ .failed err)
    (hreaped : ∀ count err, r ≠ .reaped count err) :
    ∃ queueName event,
      en.2.ofQueue queueName = some (event, r) ∧ call.Does queueName event := by
  obtain ⟨u, _, _, _, _, _, hnote, _⟩ := hrun.split hen
  rw [← hnote] at hanswer ⊢
  rcases Process.step_answer hanswer with ⟨q, event, htouched, hdoes⟩ | ⟨err, rfl⟩ | ⟨n, err, rfl⟩
  · exact ⟨q, event, Note.ofQueue_self htouched, hdoes⟩
  · exact absurd rfl (hfailed err)
  · exact absurd rfl (hreaped n err)

/-- The lease that a `Fetch` answered with came from the engine of its queue. -/
theorem fetch_of_answer
    {en : Turn LeaseLog × Note LeaseLog} {c : Nat} {queueName : GoString} {timeout : Int}
    {lease : Lease}
    (hrun : (concurrent durable).Run (.coldStorage config calls appends) es p)
    (hen : en ∈ es)
    (hanswer : en.2.answer = some (c, .fetch queueName timeout, .reply (.fetched lease))) :
    ∃ leaseID now,
      en.2.ofQueue queueName = some (.fetch leaseID now timeout, .fetched lease) ∧
      lease.task.id ∈ p.issuedAt queueName := by
  obtain ⟨q, event, hview, hdoes⟩ := touched_of_answer hrun hen hanswer
    (fun _ => Reply.noConfusion) (fun _ _ => Reply.noConfusion)
  cases event with
  | fetch leaseID now timeout' =>
      obtain ⟨rfl, rfl⟩ : queueName = q ∧ timeout = timeout' := hdoes
      obtain ⟨t, ht, hissued, _⟩ := concurrent_engine rfl durable_startsAnyway hrun queueName
      exact ⟨leaseID, now, hview,
        hissued ▸ durable_fetched_issued ht (List.mem_filterMap.mpr ⟨en, hen, hview⟩)⟩
  | enqueue | ack | reap | restart => exact hdoes.elim

/-- An `Ack` that succeeded did so at one engine. -/
theorem ack_of_answer
    {en : Turn LeaseLog × Note LeaseLog} {c : Nat} {leaseID : GoString}
    (hrun : (concurrent anyRestart).Run (.coldStorage config calls appends) es p)
    (hen : en ∈ es)
    (hanswer : en.2.answer = some (c, .ack leaseID, .reply .acked)) :
    ∃ queueName,
      en.2.ofQueue queueName = some (.ack leaseID, .acked) ∧
      leaseID ∈ p.issuedAt queueName := by
  obtain ⟨q, event, hview, hdoes⟩ := touched_of_answer hrun hen hanswer
    (fun _ => Reply.noConfusion) (fun _ _ => Reply.noConfusion)
  cases event with
  | ack leaseID' =>
      obtain rfl : leaseID = leaseID' := hdoes
      obtain ⟨t, ht, hissued, _⟩ := concurrent_engine rfl anyRestart_startsAnyway hrun q
      exact ⟨q, hview,
        hissued ▸ anyRestart_acked_issued ht (List.mem_filterMap.mpr ⟨en, hen, hview⟩)⟩
  | enqueue | fetch | reap | restart => exact hdoes.elim

/-- An event of a run, in the view of one queue. -/
theorem filterMap_at
    {α δ : Type} {f : α → Option δ} {x : α} {a : δ} (before after : List α)
    (hx : f x = some a) :
    (before ++ x :: after).filterMap f = before.filterMap f ++ a :: after.filterMap f := by
  rw [List.filterMap_append, List.filterMap_cons_some hx]

/--
Concurrent callers never hold the same task.  Take any interleaving of calls of a
journalled service, with failures of storage and restarts.  If two `Fetch` calls
returned leases on the same task, one after the other, then between the two a
`ReapExpired` visited the queue, and its time was the deadline of the first lease or
later.
-/
theorem concurrent_fetches_exclusive
    {before mid after : List (Turn LeaseLog × Note LeaseLog)}
    {x y : Turn LeaseLog × Note LeaseLog} {c c' : Nat} {queueName queueName' : GoString}
    {timeout timeout' : Int} {lease lease' : Lease}
    (hrun : (concurrent durable).Run (.coldStorage config calls appends)
      (before ++ x :: (mid ++ y :: after)) p)
    (hx : x.2.answer = some (c, .fetch queueName timeout, .reply (.fetched lease)))
    (hy : y.2.answer = some (c', .fetch queueName' timeout', .reply (.fetched lease')))
    (hsame : lease'.task.id = lease.task.id) :
    ∃ z ∈ mid, ∃ now r,
      z.2.touched = some (queueName, .reap now, r) ∧ lease.expiresAt ≤ now := by
  have hmemx : x ∈ before ++ x :: (mid ++ y :: after) := by simp
  have hmemy : y ∈ before ++ x :: (mid ++ y :: after) := by simp
  obtain ⟨leaseID, now, hqx, hidx⟩ := fetch_of_answer hrun hmemx hx
  obtain ⟨leaseID', now', hqy, hidy⟩ := fetch_of_answer hrun hmemy hy
  obtain ⟨t, ht, _, hdistinct⟩ := concurrent_engine rfl durable_startsAnyway hrun queueName
  have hqueue : queueName' = queueName := hdistinct.queue_eq (hsame ▸ hidy) hidx
  subst hqueue
  rw [filterMap_at before (mid ++ y :: after) hqx, filterMap_at mid after hqy] at ht
  obtain ⟨er, her, pass, hpass, hlate⟩ := durable_refetched ht hsame
  obtain ⟨z, hz, hview⟩ := List.mem_filterMap.mp her
  obtain ⟨e, r⟩ := er
  cases hpass
  exact ⟨z, hz, pass, r, Note.touched_of_ofQueue hview, hlate⟩

section Examples

/-- Storage without failures, and no process. -/
abbrev reliable : Process Storage LeaseLog :=
  .coldStorage ⟨3, 0, [], true, 0⟩ (fun _ => []) (fun _ => [])

/-- Two workers are about to fetch from a queue with one task. -/
def twoWorkers : List (Turn LeaseLog) :=
  [.start ⟨3, 0, [], true, 0⟩,
    .call 1 (.enqueue (goString "a") (goString "p")),
    .turn 1 (turnWith []),
    .turn 1 (turnWith (goString "t")),
    .call 1 (.fetch (goString "a") 5),
    .call 2 (.fetch (goString "a") 5),
    .turn 1 (turnWith []),
    .turn 2 (turnWith [])]

/-- The first worker gets the task. -/
def firstGets : Turn LeaseLog :=
  .turn 1 (turnWith (goString "L"))

/-- The reaper passes at the deadline of the first lease. -/
def reaperPasses : List (Turn LeaseLog) :=
  [.call 3 (.reap 5), .turn 3 (turnWith []), .turn 3 (turnWith [])]

/-- The first worker sends its `Ack` twice, over two connections. -/
def acksRace : List (Turn LeaseLog) :=
  [.call 1 (.ack (goString "L")), .call 4 (.ack (goString "L"))]

/-- Both have the list of engines. -/
def bothScan : List (Turn LeaseLog) :=
  twoWorkers ++ firstGets :: acksRace ++ [.turn 4 (turnWith []), .turn 1 (turnWith [])]

/-- The lease of the first worker. -/
def firstLease : Lease :=
  ⟨goString "L", ⟨goString "t", goString "p", 0⟩, 0, 5⟩

end Examples

/-- Between the two fetches of the task the reaper came. -/
theorem concurrent_fetches_exclusive_handed :
    ∃ z ∈ (concurrent durable).trace
        ((concurrent durable).final reliable (twoWorkers ++ [firstGets])) reaperPasses,
      ∃ now r,
        z.2.touched = some (goString "a", .reap now, r) ∧ firstLease.expiresAt ≤ now := by
  have hadmits : (concurrent durable).Admits reliable
      (twoWorkers ++ firstGets :: (reaperPasses ++ [.turn 2 (turnWith (goString "M"))])) := by
    decide +kernel
  have hrun := Machine.run_of_admits _ _ hadmits
  rw [Machine.trace_append, Machine.trace, Machine.trace_append, Machine.trace] at hrun
  exact concurrent_fetches_exclusive hrun
    (show _ = some (1, Call.fetch (goString "a") 5, Answer.reply (.fetched firstLease)) by
      decide +kernel)
    (show _ = some (2, Call.fetch (goString "a") 5,
      Answer.reply (.fetched ⟨goString "M", ⟨goString "t", goString "p", 1⟩, 0, 5⟩)) by
      decide +kernel)
    rfl

/--
At most one `Ack` of a lease succeeds, however many callers send one and however
their calls interleave.  Processes may stop anywhere, and a start may read any records
from the journal, or none.
-/
theorem concurrent_ack_once
    {before mid after : List (Turn LeaseLog × Note LeaseLog)}
    {x y : Turn LeaseLog × Note LeaseLog} {c c' : Nat} {leaseID : GoString}
    (hrun : (concurrent anyRestart).Run (.coldStorage config calls appends)
      (before ++ x :: (mid ++ y :: after)) p)
    (hx : x.2.answer = some (c, .ack leaseID, .reply .acked)) :
    y.2.answer ≠ some (c', .ack leaseID, .reply .acked) := by
  intro hy
  have hmemx : x ∈ before ++ x :: (mid ++ y :: after) := by simp
  have hmemy : y ∈ before ++ x :: (mid ++ y :: after) := by simp
  obtain ⟨q, hqx, hidx⟩ := ack_of_answer hrun hmemx hx
  obtain ⟨q', hqy, hidy⟩ := ack_of_answer hrun hmemy hy
  obtain ⟨t, ht, _, hdistinct⟩ := concurrent_engine rfl anyRestart_startsAnyway hrun q
  have hqueue : q' = q := hdistinct.queue_eq hidy hidx
  subst hqueue
  rw [filterMap_at before (mid ++ y :: after) hqx, filterMap_at mid after hqy] at ht
  exact anyRestart_acked_once ht

/-- Of two racing acknowledgements the second does not succeed. -/
theorem concurrent_ack_once_raced :
    ((concurrent anyRestart).step (.turn 4 (turnWith []))
      ((concurrent anyRestart).final reliable (bothScan ++ [.turn 1 (turnWith [])]))).1.answer ≠
      some (4, .ack (goString "L"), .reply .acked) := by
  have hadmits : (concurrent anyRestart).Admits reliable
      (bothScan ++ .turn 1 (turnWith []) :: ([] ++ [.turn 4 (turnWith [])])) := by
    decide +kernel
  have hrun := Machine.run_of_admits _ _ hadmits
  rw [Machine.trace_append, Machine.trace, Machine.trace_append, Machine.trace] at hrun
  exact concurrent_ack_once hrun
    (show _ = some (1, Call.ack (goString "L"), Answer.reply .acked) by decide +kernel)

end Results

end Moxy
