import Moxy.ConcurrentSafety

/-!
# Moxy: an acknowledgement among other calls

`Service.Ack` takes the list of engines once and then asks them one by one, without
a lock that would span the scan.  Other calls run between the questions, and a lease
that is looked for in one queue is safe only because no call moves it to another.

The scan comes to every engine that existed when it began, unless an engine before
it gave an answer (`scan_run`).  Together with what a single engine guarantees this
gives the result: `ErrLeaseNotFound` for a lease that a `Fetch` returned means that
somebody else acknowledged it, or that its deadline had passed.
-/

namespace Moxy

open Lib Lib.CrashM

/-- The answers that a call can have. -/
def Call.Yields : Call → Answer → Prop
  | .enqueue _ _, .reply (.enqueued _) => True
  | .enqueue _ _, .reply (.failed _) => True
  | .fetch _ _, .reply (.fetched _) => True
  | .fetch _ _, .reply (.failed _) => True
  | .ack _, .reply .acked => True
  | .ack _, .reply (.failed _) => True
  | .reap _, .reply (.reaped _ _) => True
  | .reap _, .reply (.failed _) => True
  | .stats _, .stats _ => True
  | _, _ => False

/-- A call goes on with a section of its own, or ends with an answer of its kind. -/
def Next.Belongs (call : Call) : Next → Prop
  | .stage later => later.call = call
  | .answer a => call.Yields a

namespace Process

section Places

variable {β γ : Type} {p : Process β γ} {caller other : Nat}

theorem proceed_other
    {stage : Stage} {touched : Option (GoString × Event γ × Reply)} {next : Next}
    (hne : other ≠ caller) :
    (p.proceed caller stage touched next).2.calls.lookup other = p.calls.lookup other := by
  cases next with
  | stage st => exact (Map.lookup_insert_ite _ _ _ _).trans (if_neg hne)
  | answer a => exact (Map.lookup_erase_ite _ _ _).trans (if_neg hne)

theorem die_other
    {touched : Option (GoString × Event γ × Reply)} {queueName : GoString} {locked : Bool}
    (hne : other ≠ caller) :
    (p.die caller touched queueName locked).2.calls.lookup other = p.calls.lookup other :=
  (Map.lookup_erase_ite _ _ _).trans (if_neg hne)

theorem visit_other
    {α : Type} {stage : Stage} {queueName : GoString} {event : Event γ}
    {m : EngineM β γ α} {reply : α → Reply} {next : Reply → Next}
    (hne : other ≠ caller) :
    (p.visit caller stage queueName event m reply next).2.calls.lookup other =
      p.calls.lookup other := by
  cases hm : m (p.service.world queueName) with
  | ok a w =>
      rw [visit_of_ok hm]
      exact proceed_other hne
  | error err w =>
      rw [visit_of_error hm]
      exact proceed_other hne
  | crashed w =>
      rw [visit_of_crashed hm]
      exact die_other hne

variable [Backend β] [Journal γ]

theorem enter_other
    {stage next : Stage} {opening : Opening γ} {queueName : GoString}
    (hne : other ≠ caller) :
    (p.enter caller stage opening queueName next).2.calls.lookup other =
      p.calls.lookup other := by
  unfold enter
  cases Service.engineFor opening queueName p.service with
  | ok a s => exact proceed_other hne
  | error err s => exact proceed_other hne
  | crashed s => exact die_other hne

/-- A section changes the place of its own call only. -/
theorem advance_other
    {env : TurnEnv γ} {stage : Stage}
    (hne : other ≠ caller) :
    (p.advance caller env stage).2.calls.lookup other = p.calls.lookup other := by
  cases stage with
  | entered call =>
      cases call with
      | enqueue | fetch => exact enter_other hne
      | ack | reap | stats => exact proceed_other hne
  | enqueuing | fetching | acking | reaping => exact visit_other hne
  | counting => exact proceed_other hne

/-- The events of others leave a call where it is, or end the process. -/
theorem step_other
    {e : Turn γ}
    (hown : ∀ env, e ≠ .turn caller env)
    (hcall : ∀ call, e ≠ .call caller call) :
    ((p.step e).2.calls.lookup caller = p.calls.lookup caller ∨
      (p.step e).2.calls.lookup caller = none ∧ (e = .stop ∨ ∃ config, e = .start config)) ∧
    ∀ call a, (p.step e).1.answer ≠ some (caller, call, a) := by
  cases e with
  | call c call =>
      have hne : caller ≠ c := by
        rintro rfl
        exact hcall call rfl
      exact ⟨.inl ((Map.lookup_insert_ite _ _ _ _).trans (if_neg hne)),
        fun _ _ => (Option.some_ne_none _).symm⟩
  | stop => exact ⟨.inr ⟨rfl, .inl rfl⟩, fun _ _ => (Option.some_ne_none _).symm⟩
  | start config =>
      exact ⟨.inr ⟨rfl, .inr ⟨config, rfl⟩⟩, fun _ _ => (Option.some_ne_none _).symm⟩
  | turn c env =>
      have hne : caller ≠ c := by
        rintro rfl
        exact hown env rfl
      cases hstage : p.calls.lookup c with
      | none =>
          rw [step_turn_none hstage]
          exact ⟨.inl rfl, fun _ _ => (Option.some_ne_none _).symm⟩
      | some stage =>
          rw [step_turn hstage]
          exact ⟨.inl (advance_other hne), fun _ _ h => hne (advance_caller h)⟩

/-- A call that has ended stays so until the caller makes another one. -/
theorem step_ended
    {e : Turn γ}
    (h : p.calls.lookup caller = none)
    (hcall : ∀ call, e ≠ .call caller call) :
    (p.step e).2.calls.lookup caller = none ∧
    ∀ call a, (p.step e).1.answer ≠ some (caller, call, a) := by
  by_cases hown : ∃ env, e = .turn caller env
  · obtain ⟨env, rfl⟩ := hown
    rw [step_turn_none h]
    exact ⟨h, fun _ _ => (Option.some_ne_none _).symm⟩
  · obtain ⟨hplace, hanswer⟩ := step_other (p := p) (not_exists.mp hown) hcall
    refine ⟨?_, hanswer⟩
    rcases hplace with hsame | ⟨hnone, _⟩
    · rw [hsame]
      exact h
    · exact hnone

end Places

section Own

variable {β γ : Type} {p : Process β γ} {caller : Nat}

/-- The process stops inside the section. -/
def Crashes (note : Note γ) : Prop :=
  ∃ queueName event, note.touched = some (queueName, event, .crashed)

/--
How a section leaves its own call: answered, on the way to a later section, or stopped
with the process.
-/
def Continues (caller : Nat) (call : Call) (r : Note γ × Process β γ) : Prop :=
  (∃ a, r.1.answer = some (caller, call, a) ∧ call.Yields a ∧
    r.2.calls.lookup caller = none) ∨
  (r.1.answer = none ∧ ∃ stage, r.2.calls.lookup caller = some stage ∧ stage.call = call) ∨
  (r.1.answer = none ∧ r.2.calls.lookup caller = none ∧ Crashes r.1)

theorem proceed_continues
    {stage : Stage} {touched : Option (GoString × Event γ × Reply)} {next : Next}
    (h : next.Belongs stage.call) :
    Continues caller stage.call (p.proceed caller stage touched next) := by
  cases next with
  | answer a => exact .inl ⟨a, rfl, h, AList.lookup_erase _ _⟩
  | stage later => exact .inr (.inl ⟨rfl, later, AList.lookup_insert _, h⟩)

theorem die_continues
    {call : Call} {queueName : GoString} {event : Event γ} {locked : Bool} :
    Continues caller call
      (p.die caller (some (queueName, event, .crashed)) queueName locked) :=
  .inr (.inr ⟨rfl, AList.lookup_erase _ _, queueName, event, rfl⟩)

theorem visit_continues
    {α : Type} {stage : Stage} {queueName : GoString} {event : Event γ}
    {m : EngineM β γ α} {reply : α → Reply} {next : Reply → Next}
    (hreply : ∀ a, (next (reply a)).Belongs stage.call)
    (hfailed : ∀ err, (next (.failed err)).Belongs stage.call) :
    Continues caller stage.call (p.visit caller stage queueName event m reply next) := by
  cases hm : m (p.service.world queueName) with
  | ok a w =>
      rw [visit_of_ok hm]
      exact proceed_continues (hreply a)
  | error err w =>
      rw [visit_of_error hm]
      exact proceed_continues (hfailed err)
  | crashed w =>
      rw [visit_of_crashed hm]
      exact die_continues

theorem ackNext_belongs
    (leaseID : GoString) (queues : List GoString) :
    (ackNext leaseID queues).Belongs (.ack leaseID) := by
  cases queues with
  | nil => trivial
  | cons queueName rest => rfl

theorem reapNext_belongs
    (now : Int) (total : Nat) (errs : List GoError) (queues : List GoString) :
    (reapNext now total errs queues).Belongs (.reap now) := by
  cases queues with
  | nil => trivial
  | cons queueName rest => rfl

variable [Backend β] [Journal γ]

theorem enter_continues
    {stage next : Stage} {opening : Opening γ} {queueName : GoString}
    (hnext : next.call = stage.call)
    (hfailed : ∀ err, stage.call.Yields (.reply (.failed err))) :
    Continues caller stage.call (p.enter caller stage opening queueName next) := by
  unfold enter
  cases ho : Service.engineFor opening queueName p.service with
  | ok a s => exact proceed_continues hnext
  | error err s => exact proceed_continues (hfailed err)
  | crashed s =>
      cases hc : p.service.creates opening queueName with
      | some event => exact die_continues
      | none =>
          -- Without an engine to make, nothing runs that could stop.
          rcases Service.engineFor_of_creates_none hc with ⟨hok, _⟩ | ⟨err, herror⟩
          · cases ho.symm.trans hok
          · cases ho.symm.trans herror

/-- The sections of a call belong to it, and so does its answer. -/
theorem advance_continues
    {env : TurnEnv γ} {stage : Stage} :
    Continues caller stage.call (p.advance caller env stage) := by
  cases stage with
  | entered call =>
      cases call with
      | enqueue | fetch => exact enter_continues rfl (fun _ => trivial)
      | ack leaseID => exact proceed_continues (ackNext_belongs leaseID _)
      | reap now => exact proceed_continues (reapNext_belongs now _ _ _)
      | stats queueName =>
          refine proceed_continues ?_
          by_cases hname : validQueueName queueName = false
          · rw [if_pos hname]
            trivial
          · rw [if_neg hname]
            cases p.service.engines.lookup queueName with
            | none => trivial
            | some engine => rfl
  | enqueuing | fetching => exact visit_continues (fun _ => trivial) (fun _ => trivial)
  | acking leaseID queueName rest =>
      refine visit_continues (fun _ => trivial) (fun err => ?_)
      simp only [afterAck]
      split_ifs
      · exact ackNext_belongs leaseID rest
      · trivial
  | reaping now queueName rest total errs =>
      exact visit_continues (fun _ => reapNext_belongs now _ _ rest) (fun _ => trivial)
  | counting queueName => exact proceed_continues trivial

end Own

section Scan

variable {β γ : Type} {p p' : Process β γ} {caller : Nat} {leaseID queueName : GoString}

/-- The caller is in an `Ack` of the lease that has yet to ask the engine of the queue. -/
def Scans (caller : Nat) (leaseID queueName : GoString) (p : Process β γ) : Prop :=
  (p.calls.lookup caller = some (.entered (.ack leaseID)) ∧
    p.service.engines.lookup queueName ≠ none) ∨
  ∃ q rest, p.calls.lookup caller = some (.acking leaseID q rest) ∧ queueName ∈ q :: rest

/-- The engine of the queue was asked and does not know the lease. -/
def Misses (leaseID queueName : GoString) (note : Note γ) : Prop :=
  ∃ err, note.touched = some (queueName, .ack leaseID, .failed err) ∧
    err.is .errLeaseNotFound = true

/-- The caller is told that the lease does not exist. -/
def TellsMissing (caller : Nat) (note : Note γ) : Prop :=
  ∃ call err, note.answer = some (caller, call, .reply (.failed err)) ∧
    err.is .errLeaseNotFound = true

/-- An event that neither ends the call of the caller nor asks the queue for it. -/
def Quiet (caller : Nat) (queueName : GoString) (en : Turn γ × Note γ) : Prop :=
  (∀ call a, en.2.answer ≠ some (caller, call, a)) ∧
  ∀ env, en.1 = .turn caller env → en.2.ofQueue queueName = none

/-- The list of engines begins or goes on with an engine that is yet to be asked. -/
theorem scans_ackNext
    {stage : Stage} {touched : Option (GoString × Event γ × Reply)} {queues : List GoString}
    (h : queueName ∈ queues) :
    (p.proceed caller stage touched (ackNext leaseID queues)).1.answer = none ∧
    (p.proceed caller stage touched (ackNext leaseID queues)).2.Scans caller leaseID
      queueName := by
  cases queues with
  | nil => cases h
  | cons q rest => exact ⟨rfl, .inr ⟨q, rest, AList.lookup_insert _, h⟩⟩

theorem ended_answer
    {stage : Stage} {touched : Option (GoString × Event γ × Reply)} {a : Answer} :
    (p.proceed caller stage touched (.answer a)).2.calls.lookup caller = none :=
  AList.lookup_erase _ _

variable [Backend β] [Journal γ] {N : Machine (System β γ) (Event γ) Reply}

/-- The events of others do not disturb a scan. -/
theorem Scans.other
    {e : Turn γ}
    (h : p.Scans caller leaseID queueName)
    (hpointed : p.Pointed)
    (hown : ∀ env, e ≠ .turn caller env)
    (hcall : ∀ call, e ≠ .call caller call) :
    (p.step e).2.Scans caller leaseID queueName ∨ (p.step e).2.calls.lookup caller = none := by
  rcases (step_other (p := p) hown hcall).1 with hsame | ⟨hnone, _⟩
  · rcases h with ⟨hplace, hengine⟩ | ⟨q, rest, hplace, hmem⟩
    · rcases step_cases (e := e) hpointed with ⟨_, hp⟩ | ⟨_, hc⟩ | ⟨_, _, _, _, ht⟩
      · exact .inl (.inl ⟨hsame.trans hplace, by rw [hp.service]; exact hengine⟩)
      · refine .inr ?_
        rw [hc.calls]
        rfl
      · exact .inl (.inl ⟨hsame.trans hplace, ht.grows hengine⟩)
    · exact .inl (.inr ⟨q, rest, hsame.trans hplace, hmem⟩)
  · exact .inr hnone

/-- One section of a scan. -/
theorem Scans.own
    {env : TurnEnv γ}
    (h : p.Scans caller leaseID queueName) :
    Misses leaseID queueName (p.step (.turn caller env)).1 ∨
    ((p.step (.turn caller env)).2.Scans caller leaseID queueName ∧
      Quiet caller queueName (.turn caller env, (p.step (.turn caller env)).1)) ∨
    ((p.step (.turn caller env)).2.calls.lookup caller = none ∧
      ¬ TellsMissing caller (p.step (.turn caller env)).1) := by
  rcases h with ⟨hplace, hengine⟩ | ⟨q, rest, hplace, hmem⟩
  · -- The list of engines is taken; it contains the queue.
    rw [step_turn hplace]
    have hmem := (Service.mem_existingEngines env.order p.service).mpr hengine
    obtain ⟨hanswer, hscans⟩ :=
      @scans_ackNext β γ p caller leaseID queueName (.entered (.ack leaseID)) none _ hmem
    refine .inr (.inl ⟨hscans, fun call a h => ?_, fun _ _ => ?_⟩)
    · exact absurd (hanswer.symm.trans h) (Option.some_ne_none _).symm
    · rw [Note.ofQueue, show (p.advance caller env (.entered (.ack leaseID))).1.touched = none from
        proceed_touched _ _ _ _ _]
      rfl
  · rw [step_turn hplace, show p.advance caller env (.acking leaseID q rest) =
      p.visit caller (.acking leaseID q rest) q (.ack leaseID) (ack leaseID) (fun _ => .acked)
        (afterAck leaseID rest) from rfl]
    cases hm : ack leaseID (p.service.world q) with
    | ok a w =>
        rw [visit_of_ok hm]
        refine .inr (.inr ⟨ended_answer, ?_⟩)
        rintro ⟨call, err, ⟨⟩, _⟩
    | crashed w =>
        rw [visit_of_crashed hm]
        refine .inr (.inr ⟨AList.lookup_erase _ _, ?_⟩)
        rintro ⟨call, err, ⟨⟩, _⟩
    | error err w =>
        rw [visit_of_error hm]
        by_cases hmissing : err.is .errLeaseNotFound = true
        · rw [show afterAck leaseID rest (.failed err) = ackNext leaseID rest from if_pos hmissing]
          by_cases hq : q = queueName
          · subst hq
            exact .inl ⟨err, proceed_touched _ _ _ _ _, hmissing⟩
          · have hrest := (List.mem_cons.mp hmem).resolve_left (fun h => hq h.symm)
            obtain ⟨hanswer, hscans⟩ := @scans_ackNext β γ (p.leave q (.ack leaseID) w)
              caller leaseID queueName (.acking leaseID q rest)
              (some (q, .ack leaseID, .failed err)) rest hrest
            refine .inr (.inl ⟨hscans, fun call a h => ?_, fun _ _ => ?_⟩)
            · exact absurd (hanswer.symm.trans h) (Option.some_ne_none _).symm
            · rw [Note.ofQueue, proceed_touched]
              exact if_neg hq
        · rw [show afterAck leaseID rest (.failed err) = .answer (.reply (.failed err)) from
            if_neg hmissing]
          refine .inr (.inr ⟨ended_answer, ?_⟩)
          rintro ⟨call, err', ⟨⟩, hmissing'⟩
          exact hmissing hmissing'

/--
A scan under way: it has yet to ask the engine of the queue, or it has ended with
another answer than that the lease does not exist, or the engine was asked.
-/
theorem scan_run
    {es : List (Turn γ × Note γ)}
    (hrun : (concurrent N).Run p es p')
    (hpointed : p.Pointed)
    (h : p.Scans caller leaseID queueName)
    (hsame : ∀ en ∈ es, ∀ call, en.1 ≠ .call caller call) :
    (p'.Scans caller leaseID queueName ∧ ∀ en ∈ es, Quiet caller queueName en) ∨
    (p'.calls.lookup caller = none ∧ ∀ en ∈ es, ¬ TellsMissing caller en.2) ∨
    ∃ es₁ en es₂,
      es = es₁ ++ en :: es₂ ∧
      (∀ en ∈ es₁, Quiet caller queueName en) ∧ Misses leaseID queueName en.2 := by
  induction hrun with
  | refl => exact .inl ⟨h, fun _ hen => (List.not_mem_nil hen).elim⟩
  | @next u es e hrun hguard ih =>
      have hu : u.Pointed := hrun.invariant (fun _ _ hu _ => step_pointed hu) hpointed
      have hcall : ∀ call, e ≠ .call caller call :=
        hsame _ (List.mem_append_right _ List.mem_cons_self)
      rcases ih (fun en hen => hsame en (List.mem_append_left _ hen)) with
        ⟨hscans, hquiet⟩ | ⟨hnone, htells⟩ | ⟨es₁, en, es₂, rfl, hquiet, hmisses⟩
      · have hnot : ∀ en ∈ es, ¬ TellsMissing caller en.2 := by
          rintro en hen ⟨call, err, hanswer, _⟩
          exact (hquiet en hen).1 _ _ hanswer
        by_cases hown : ∃ env, e = .turn caller env
        · obtain ⟨env, rfl⟩ := hown
          rcases hscans.own with hmisses | ⟨hscans', hq⟩ | ⟨hnone, ht⟩
          · exact .inr (.inr ⟨es, _, [], rfl, hquiet, hmisses⟩)
          · exact .inl ⟨hscans', List.forall_mem_append.mpr
              ⟨hquiet, List.forall_mem_singleton.mpr hq⟩⟩
          · exact .inr (.inl ⟨hnone, List.forall_mem_append.mpr
              ⟨hnot, List.forall_mem_singleton.mpr ht⟩⟩)
        · have hanswer := (step_other (p := u) (not_exists.mp hown) hcall).2
          rcases hscans.other hu (not_exists.mp hown) hcall with hscans' | hnone
          · exact .inl ⟨hscans', List.forall_mem_append.mpr ⟨hquiet,
              List.forall_mem_singleton.mpr
                ⟨hanswer, fun env henv => absurd ⟨env, henv⟩ hown⟩⟩⟩
          · refine .inr (.inl ⟨hnone, List.forall_mem_append.mpr ⟨hnot,
              List.forall_mem_singleton.mpr ?_⟩⟩)
            rintro ⟨call, err, htells, _⟩
            exact hanswer _ _ htells
      · obtain ⟨hnone', hanswer⟩ := step_ended hnone hcall
        refine .inr (.inl ⟨hnone', List.forall_mem_append.mpr ⟨htells,
          List.forall_mem_singleton.mpr ?_⟩⟩)
        rintro ⟨call, err, ht, _⟩
        exact hanswer _ _ ht
      · exact .inr (.inr ⟨es₁, en, es₂ ++ [_], by rw [List.append_assoc]; rfl, hquiet, hmisses⟩)

end Scan

end Process

section Results

variable {config : ServiceConfig} {calls : GoString → List CallEnv}
  {appends : GoString → List AppendFate} {p p' : Process Storage LeaseLog}

/-- The recovery errors of an engine never look like a missing lease. -/
theorem durable_accountable
    {s t : System Storage LeaseLog} {es : List (Event LeaseLog × Reply)}
    (hrun : durable.Run s es t)
    (hs : s.process = none) :
    t.Holds World.Accountable := by
  refine hrun.invariant (P := System.Holds World.Accountable) ?_ ?_
  · intro u e hu _
    refine accountable_kept.step hu ?_
    rintro config orders journal recovered rfl
    exact accountable_established config orders recovered _
  · intro engine hengine
    rw [hs] at hengine
    cases hengine

/-- An engine that can be asked for a held lease does not miss it. -/
theorem held_never_missed
    {t : System Storage LeaseLog} {lease : Lease} {err : GoError}
    (haccountable : t.Holds World.Accountable)
    (hheld : Held lease t.custody)
    (hreply : (t.step (.ack lease.leaseID)).1 = .failed err) :
    err.is .errLeaseNotFound = false := by
  obtain ⟨engine, hprocess⟩ :=
    System.step_process (by rw [hreply]; exact Reply.noConfusion) (by simp)
  cases hrec : engine.recoveryErr with
  | none => exact held_ack_found hprocess hrec hheld hreply
  | some err' =>
      obtain ⟨message, rfl⟩ := (haccountable engine hprocess).2 err' hrec
      simp only [System.step, hprocess] at hreply
      revert hreply
      refine System.exec_cases (P := fun r : Reply × System Storage LeaseLog =>
        r.1 = .failed err → err.is .errLeaseNotFound = false) ?_
      unfold ack
      rw [wp_bind, wp_ensureRecovered, hrec]
      rintro ⟨⟩
      rfl

/--
An `Ack` finds its lease, whatever runs beside it.  In a run of a journalled service
a `Fetch` has returned a lease.  Then a caller sends an `Ack` of it, at a time when
the queue of the lease has an engine.  If the `Ack` answers that the lease does not
exist, then since the `Fetch` a `ReapExpired` came to the queue at the deadline of the
lease or later, or another `Ack` of the same lease came to it.
-/
theorem concurrent_ack_finds
    {before mid rest : List (Turn LeaseLog × Note LeaseLog)} {x y : Turn LeaseLog × Note LeaseLog}
    {c caller : Nat} {queueName : GoString} {timeout : Int} {lease : Lease} {call : Call}
    {err : GoError}
    (hrun : (concurrent durable).Run (.coldStorage config calls appends)
      (before ++ x :: mid) p)
    (hx : x.2.answer = some (c, .fetch queueName timeout, .reply (.fetched lease)))
    (hcall : p.calls.lookup caller = some (.entered (.ack lease.leaseID)))
    (hengine : p.service.engines.lookup queueName ≠ none)
    (hrest : (concurrent durable).Run p rest p')
    (hsame : ∀ en ∈ rest, ∀ call, en.1 ≠ .call caller call)
    (hy : y ∈ rest)
    (hanswer : y.2.answer = some (caller, call, .reply (.failed err)))
    (hmissing : err.is .errLeaseNotFound = true) :
    (∃ z ∈ mid ++ rest, ∃ now r,
      z.2.touched = some (queueName, .reap now, r) ∧ lease.expiresAt ≤ now) ∨
    (∃ z ∈ mid, ∃ r, z.2.touched = some (queueName, .ack lease.leaseID, r)) ∨
    ∃ z ∈ rest, ∃ r,
      z.2.touched = some (queueName, .ack lease.leaseID, r) ∧ ∀ env, z.1 ≠ .turn caller env := by
  by_contra hnone
  obtain ⟨hreap, hmid, hother⟩ := by simpa only [not_or] using hnone
  have hpointed : p.Pointed :=
    hrun.invariant (fun _ _ hu _ => Process.step_pointed hu) Process.cold_pointed
  rcases Process.scan_run hrest hpointed (.inl ⟨hcall, hengine⟩) hsame with
    ⟨_, hquiet⟩ | ⟨_, htells⟩ | ⟨es₁, en, es₂, rfl, hquiet, err', htouched, hmissing'⟩
  · exact (hquiet y hy).1 _ _ hanswer
  · exact htells y hy ⟨call, err, hanswer, hmissing⟩
  · -- The state in which the engine of the queue was asked.
    obtain ⟨u, hes₁, hguard, hnote, _⟩ := hrest.split_at
    have hu := hrun.trans hes₁
    obtain ⟨leaseID, now, hqx, _⟩ := fetch_of_answer hrun (by simp) hx
    obtain ⟨t, ht, hpointed', hfollows⟩ := concurrent_project rfl durable_startsAnyway hu
      Process.cold_pointed (Process.cold_follows _ _ _ queueName)
    have haccountable := durable_accountable ht rfl
    rw [List.append_assoc, List.cons_append, filterMap_at before (mid ++ es₁) hqx] at ht
    obtain ⟨s, hbefore, hguards, hreplys, hafter⟩ := ht.split_at
    obtain ⟨hregular, hheld⟩ := durable_fetched_held hbefore hguards hreplys
    have hspares : ∀ er ∈ (mid ++ es₁).filterMap (fun en => en.2.ofQueue queueName),
        er.1.Spares lease := by
      rintro ⟨event, r⟩ her
      obtain ⟨z, hz, hview⟩ := List.mem_filterMap.mp her
      have hz' := Note.touched_of_ofQueue hview
      have hzrest : z ∈ mid ++ (es₁ ++ en :: es₂) := by
        rw [← List.append_assoc]
        exact List.mem_append_left _ hz
      refine ⟨?_, ?_⟩
      · rintro rfl
        rcases List.mem_append.mp hz with hzmid | hzes
        · exact hmid ⟨z, hzmid, r, hz'⟩
        · refine hother ⟨z, List.mem_append_left _ hzes, r, hz', fun env henv => ?_⟩
          exact absurd (((hquiet z hzes).2 env henv).symm.trans hview) (Option.some_ne_none _).symm
      · rintro now' rfl
        by_contra hlate
        exact hreap ⟨z, hzrest, now', r, hz', not_lt.mp hlate⟩
    have hheld' := durable_held hafter hspares hregular hheld
    -- The engine was asked for a lease that it holds.
    have hview := Note.ofQueue_self htouched
    rw [← hnote] at hview
    rcases hfollows.step rfl durable_startsAnyway hpointed' hguard with
      ⟨hnoview, _⟩ | ⟨f, r, hview', _, hreply, _⟩
    · exact absurd (hview.symm.trans hnoview) (Option.some_ne_none _)
    · cases hview.symm.trans hview'
      have hfound := held_never_missed haccountable hheld' hreply
      rw [hfound] at hmissing'
      cases hmissing'

/-- The second `Ack` takes the list first and comes to the engine last. -/
def slowerMisses : List (Turn LeaseLog) :=
  [.turn 4 (turnWith []), .turn 1 (turnWith []), .turn 1 (turnWith []), .turn 4 (turnWith [])]

/-- Two acknowledgements of the lease are about to begin. -/
def acksBegin : Process Storage LeaseLog :=
  (concurrent durable).final reliable (twoWorkers ++ firstGets :: acksRace)

/-- The events before them, since the lease was returned. -/
def sinceLease : List (Turn LeaseLog × Note LeaseLog) :=
  (concurrent durable).trace
    ((concurrent durable).step firstGets ((concurrent durable).final reliable twoWorkers)).2
    acksRace

/-- The slower of two acknowledgements misses the lease because of the other. -/
theorem concurrent_ack_finds_raced :
    (∃ z ∈ sinceLease ++ (concurrent durable).trace acksBegin slowerMisses, ∃ now r,
      z.2.touched = some (goString "a", .reap now, r) ∧ firstLease.expiresAt ≤ now) ∨
    (∃ z ∈ sinceLease, ∃ r, z.2.touched = some (goString "a", .ack (goString "L"), r)) ∨
    ∃ z ∈ (concurrent durable).trace acksBegin slowerMisses, ∃ r,
      z.2.touched = some (goString "a", .ack (goString "L"), r) ∧
        ∀ env, z.1 ≠ .turn 4 env := by
  have hadmits : (concurrent durable).Admits reliable (twoWorkers ++ firstGets :: acksRace) := by
    decide +kernel
  have hrun := Machine.run_of_admits _ _ hadmits
  rw [Machine.trace_append, Machine.trace] at hrun
  have hadmits' : (concurrent durable).Admits acksBegin slowerMisses := by decide +kernel
  have hcall : acksBegin.calls.lookup 4 = some (.entered (.ack firstLease.leaseID)) := by
    decide +kernel
  have hengine : acksBegin.service.engines.lookup (goString "a") ≠ none := by decide +kernel
  have hsame : ∀ en ∈ (concurrent durable).trace acksBegin slowerMisses,
      ∀ call, en.1 ≠ .call 4 call := by
    simp [slowerMisses, Machine.trace]
  exact concurrent_ack_finds hrun
    (show _ = some (1, Call.fetch (goString "a") 5, Answer.reply (.fetched firstLease)) by
      decide +kernel)
    hcall hengine (Machine.run_of_admits _ _ hadmits') hsame (List.mem_of_getLast? rfl)
    (show _ = some (4, Call.ack firstLease.leaseID,
      Answer.reply (.failed (.sentinel .errLeaseNotFound))) by decide +kernel) rfl

end Results

end Moxy
