import Moxy.ConcurrentAck

/-!
# Moxy: a call that is not interrupted

The operations of `Service` are sequential programs, and the calls of a `Process` are
their critical sections.  The two models agree: if the sections of a call follow each
other without a section of another call in between, then the call ends like the
sequential operation, with the same answer and on the same service, and it takes at
most two sections more than there are engines.
-/

namespace Moxy

open Lib Lib.CrashM

section Sequential

variable {β γ : Type} [Backend β] [Journal γ]

/-- The sequential operation that a call stands for. -/
def Service.perform (env : TurnEnv γ) : Call → ServiceM β γ Answer
  | .enqueue queueName payload => do
      let task ← Service.enqueue env.opening queueName env.newID payload
      pure (.reply (.enqueued task))
  | .fetch queueName timeout => do
      let lease ← Service.fetch env.opening queueName env.newID env.now timeout
      pure (.reply (.fetched lease))
  | .ack leaseID => do
      Service.ack env.order leaseID
      pure (.reply .acked)
  | .reap now => do
      let reaped ← Service.reapExpired env.order now
      pure (.reply (.reaped reaped.1 reaped.2))
  | .stats queueName => do
      let s ← read
      pure (.stats (s.stats queueName))

end Sequential

namespace Process

variable {β γ : Type} [Backend β] [Journal γ] {p p' : Process β γ} {caller : Nat}
  {env : TurnEnv γ}

/-- The sections of one call in a row, until it answers. -/
def drive (caller : Nat) (env : TurnEnv γ) : Nat → Process β γ → Option Answer × Process β γ
  | 0, p => (none, p)
  | fuel + 1, p =>
      match (p.step (.turn caller env)).1.answer with
      | some (_, _, answer) => (some answer, (p.step (.turn caller env)).2)
      | none => drive caller env fuel (p.step (.turn caller env)).2

/-- The calls of all others are where they were. -/
def OthersSame (caller : Nat) (p p' : Process β γ) : Prop :=
  ∀ other, other ≠ caller → p'.calls.lookup other = p.calls.lookup other

/-- The call has ended with an answer, on the service `s`. -/
structure Answered (caller : Nat) (p : Process β γ) (s : Service β γ) (a : Answer)
    (r : Option Answer × Process β γ) : Prop where
  answer : r.1 = some a
  service : r.2.service = s
  life : r.2.life = p.life
  ended : r.2.calls.lookup caller = none
  others : OthersSame caller p r.2

/-- The process has stopped inside a section of the call, on the service `s`. -/
structure Stopped (caller : Nat) (p : Process β γ) (s : Service β γ)
    (r : Option Answer × Process β γ) : Prop where
  answer : r.1 = none
  service : r.2.service = s
  life : ∃ queueName locked, r.2.life = p.life.stopAt queueName locked
  ended : r.2.calls.lookup caller = none
  others : OthersSame caller p r.2

/-- The sections from `p` on end like the sequential program `m`. -/
def Performs {α : Type} (caller : Nat) (env : TurnEnv γ) (fuel : Nat) (p : Process β γ)
    (m : ServiceM β γ α) (answer : α → Answer) : Prop :=
  wp m (fun a s => Answered caller p s (answer a) (p.drive caller env fuel))
    (fun err s => Answered caller p s (.reply (.failed err)) (p.drive caller env fuel))
    (fun s => Stopped caller p s (p.drive caller env fuel)) p.service

section Drive

variable {u : Process β γ} {stage next : Stage}
  {touched : Option (GoString × Event γ × Reply)} {a : Answer} {fuel : Nat}

theorem drive_ended
    (h : p.calls.lookup caller = none) (fuel : Nat) :
    p.drive caller env fuel = (none, p) := by
  induction fuel with
  | zero => rfl
  | succ fuel ih =>
      rw [drive, step_turn_none h]
      exact ih

/-- A section that ends the call. -/
theorem drive_answers
    (hplace : p.calls.lookup caller = some stage)
    (hadvance : p.advance caller env stage = u.proceed caller stage touched (.answer a))
    (hlife : u.life = p.life)
    (hcalls : u.calls = p.calls) :
    Answered caller p u.service a (p.drive caller env (fuel + 1)) := by
  have hdrive : p.drive caller env (fuel + 1) =
      (some a, { u with calls := u.calls.erase caller }) := by
    rw [drive, step_turn hplace, hadvance]
    rfl
  rw [hdrive]
  refine ⟨rfl, rfl, hlife, AList.lookup_erase _ _, fun other hne => ?_⟩
  rw [← hcalls]
  exact (Map.lookup_erase_ite _ _ _).trans (if_neg hne)

/-- A section in which the process stops. -/
theorem drive_stops
    {queueName : GoString} {locked : Bool}
    (hplace : p.calls.lookup caller = some stage)
    (hadvance : p.advance caller env stage = u.die caller touched queueName locked)
    (hlife : u.life = p.life)
    (hcalls : u.calls = p.calls) :
    Stopped caller p u.service (p.drive caller env (fuel + 1)) := by
  have hended : (u.die caller touched queueName locked).2.calls.lookup caller = none :=
    AList.lookup_erase _ _
  have hdrive : p.drive caller env (fuel + 1) =
      (none, (u.die caller touched queueName locked).2) := by
    rw [drive, step_turn hplace, hadvance]
    exact drive_ended hended fuel
  rw [hdrive]
  refine ⟨rfl, rfl, ⟨queueName, locked, by rw [← hlife]; rfl⟩, hended, fun other hne => ?_⟩
  rw [← hcalls]
  exact (Map.lookup_erase_ite _ _ _).trans (if_neg hne)

/-- A section after which the call goes on. -/
theorem drive_goes_on
    (hplace : p.calls.lookup caller = some stage)
    (hadvance : p.advance caller env stage = u.proceed caller stage touched (.stage next)) :
    p.drive caller env (fuel + 1) =
      { u with calls := u.calls.insert caller next }.drive caller env fuel := by
  rw [drive, step_turn hplace, hadvance]
  rfl

/-- What the later sections of a call perform, the call performs. -/
theorem Performs.after
    {α : Type} {m : ServiceM β γ α} {answer : α → Answer}
    (h : Performs caller env fuel { u with calls := u.calls.insert caller next } m answer)
    (hplace : p.calls.lookup caller = some stage)
    (hadvance : p.advance caller env stage = u.proceed caller stage touched (.stage next))
    (hlife : u.life = p.life)
    (hcalls : u.calls = p.calls) :
    wp m (fun a s => Answered caller p s (answer a) (p.drive caller env (fuel + 1)))
      (fun err s => Answered caller p s (.reply (.failed err)) (p.drive caller env (fuel + 1)))
      (fun s => Stopped caller p s (p.drive caller env (fuel + 1))) u.service := by
  have hothers : ∀ other, other ≠ caller →
      (u.calls.insert caller next).lookup other = p.calls.lookup other := by
    intro other hne
    rw [← hcalls]
    exact (Map.lookup_insert_ite _ _ _ _).trans (if_neg hne)
  rw [drive_goes_on hplace hadvance]
  refine wp_mono h ?_ ?_ ?_
  · rintro a s ⟨h₁, h₂, h₃, h₄, h₅⟩
    exact ⟨h₁, h₂, h₃.trans hlife, h₄, fun other hne => (h₅ other hne).trans (hothers other hne)⟩
  · rintro err s ⟨h₁, h₂, h₃, h₄, h₅⟩
    exact ⟨h₁, h₂, h₃.trans hlife, h₄, fun other hne => (h₅ other hne).trans (hothers other hne)⟩
  · rintro s ⟨h₁, h₂, ⟨q, locked, h₃⟩, h₄, h₅⟩
    exact ⟨h₁, h₂, ⟨q, locked, by rw [h₃, ← hlife]⟩, h₄,
      fun other hne => (h₅ other hne).trans (hothers other hne)⟩

end Drive

section Operations

variable {stage : Stage} {queueName : GoString} {fuel : Nat}

/-- One operation of an engine, if the call answers with its reply. -/
theorem performs_visit
    {α : Type} {event : Event γ} {m : EngineM β γ α} {reply : α → Reply}
    (hplace : p.calls.lookup caller = some stage)
    (hadvance : p.advance caller env stage =
      p.visit caller stage queueName event m reply (fun r => .answer (.reply r))) :
    Performs caller env (fuel + 1) p (Service.onQueue queueName m) (fun a => .reply (reply a)) := by
  unfold Performs
  rw [Service.wp_onQueue]
  unfold wp
  cases hm : m (p.service.world queueName) with
  | ok a w => exact drive_answers hplace (hadvance.trans (visit_of_ok hm)) rfl rfl
  | error err w => exact drive_answers hplace (hadvance.trans (visit_of_error hm)) rfl rfl
  | crashed w => exact drive_stops hplace (hadvance.trans (visit_of_crashed hm)) rfl rfl

/-- The engine is looked up or created, and then used. -/
theorem performs_enter
    {α : Type} {next : Stage} {m : EngineM β γ α} {answer : α → Answer}
    (hplace : p.calls.lookup caller = some stage)
    (hadvance : p.advance caller env stage = p.enter caller stage env.opening queueName next)
    (hnext : ∀ s, Performs caller env fuel
      { p with service := s, calls := p.calls.insert caller next }
      (Service.onQueue queueName m) answer) :
    Performs caller env (fuel + 1) p
      (do Service.engineFor env.opening queueName; Service.onQueue queueName m) answer := by
  unfold Performs
  rw [wp_bind]
  unfold enter at hadvance
  cases ho : Service.engineFor env.opening queueName p.service with
  | ok a s =>
      rw [ho] at hadvance
      rw [wp_iff_of_ok ho]
      exact (hnext s).after hplace hadvance rfl rfl
  | error err s =>
      rw [ho] at hadvance
      rw [wp, ho]
      exact drive_answers hplace hadvance rfl rfl
  | crashed s =>
      rw [ho] at hadvance
      rw [wp, ho]
      exact drive_stops hplace hadvance rfl rfl

/-- The loop of `Ack`, from a section that comes to the engines `queues`. -/
theorem performs_ackScan
    {leaseID : GoString} (queues : List GoString) :
    ∀ {p u : Process β γ} {stage : Stage} {touched : Option (GoString × Event γ × Reply)}
      {fuel : Nat},
      p.calls.lookup caller = some stage →
      p.advance caller env stage = u.proceed caller stage touched (ackNext leaseID queues) →
      u.life = p.life → u.calls = p.calls → queues.length < fuel →
      wp (Service.ackScan leaseID queues)
        (fun _ s => Answered caller p s (.reply .acked) (p.drive caller env fuel))
        (fun err s => Answered caller p s (.reply (.failed err)) (p.drive caller env fuel))
        (fun s => Stopped caller p s (p.drive caller env fuel)) u.service := by
  induction queues with
  | nil =>
      intro p u stage touched fuel hplace hadvance hlife hcalls hfuel
      obtain ⟨fuel, rfl⟩ := Nat.exists_eq_succ_of_ne_zero (Nat.ne_zero_of_lt hfuel)
      exact drive_answers hplace hadvance hlife hcalls
  | cons queueName rest ih =>
      intro p u stage touched fuel hplace hadvance hlife hcalls hfuel
      obtain ⟨fuel, rfl⟩ := Nat.exists_eq_succ_of_ne_zero (Nat.ne_zero_of_lt hfuel)
      have hrest : rest.length < fuel := Nat.lt_of_succ_lt_succ hfuel
      obtain ⟨fuel, rfl⟩ := Nat.exists_eq_succ_of_ne_zero (Nat.ne_zero_of_lt hrest)
      -- The section of the first engine.
      have hfirst : ∀ v : Process β γ,
          v.calls.lookup caller = some (.acking leaseID queueName rest) →
          Performs caller env (fuel + 1) v (Service.ackScan leaseID (queueName :: rest))
            (fun _ => .reply .acked) := by
        intro v hv
        have hvisit : v.advance caller env (.acking leaseID queueName rest) =
            v.visit caller (.acking leaseID queueName rest) queueName (.ack leaseID)
              (ack leaseID) (fun _ => .acked) (afterAck leaseID rest) :=
          rfl
        unfold Performs
        rw [Service.ackScan, wp_bind, wp_attempt, Service.wp_onQueue, wp]
        cases hm : ack leaseID (v.service.world queueName) with
        | ok a w => exact drive_answers hv (hvisit.trans (visit_of_ok hm)) rfl rfl
        | crashed w => exact drive_stops hv (hvisit.trans (visit_of_crashed hm)) rfl rfl
        | error err w =>
            have hadvance' := hvisit.trans (visit_of_error hm)
            dsimp only
            by_cases hmissing : err.is .errLeaseNotFound = true
            · rw [if_pos hmissing]
              rw [show afterAck leaseID rest (.failed err) = ackNext leaseID rest from
                if_pos hmissing] at hadvance'
              exact ih hv hadvance' rfl rfl hrest
            · rw [if_neg hmissing]
              rw [show afterAck leaseID rest (.failed err) = .answer (.reply (.failed err)) from
                if_neg hmissing] at hadvance'
              exact drive_answers hv hadvance' rfl rfl
      exact (hfirst _ (AList.lookup_insert _)).after hplace hadvance hlife hcalls

/-- The loop of `ReapExpired`, from a section that comes to the engines `queues`. -/
theorem performs_reapScan
    {now : Int} (queues : List GoString) :
    ∀ {p u : Process β γ} {stage : Stage} {touched : Option (GoString × Event γ × Reply)}
      {total : Nat} {errs : List GoError} {fuel : Nat},
      p.calls.lookup caller = some stage →
      p.advance caller env stage =
        u.proceed caller stage touched (reapNext now total errs queues) →
      u.life = p.life → u.calls = p.calls → queues.length < fuel →
      wp (Service.reapScan now queues total errs)
        (fun r s => Answered caller p s (.reply (.reaped r.1 r.2)) (p.drive caller env fuel))
        (fun err s => Answered caller p s (.reply (.failed err)) (p.drive caller env fuel))
        (fun s => Stopped caller p s (p.drive caller env fuel)) u.service := by
  induction queues with
  | nil =>
      intro p u stage touched total errs fuel hplace hadvance hlife hcalls hfuel
      obtain ⟨fuel, rfl⟩ := Nat.exists_eq_succ_of_ne_zero (Nat.ne_zero_of_lt hfuel)
      exact drive_answers hplace hadvance hlife hcalls
  | cons queueName rest ih =>
      intro p u stage touched total errs fuel hplace hadvance hlife hcalls hfuel
      obtain ⟨fuel, rfl⟩ := Nat.exists_eq_succ_of_ne_zero (Nat.ne_zero_of_lt hfuel)
      have hrest : rest.length < fuel := Nat.lt_of_succ_lt_succ hfuel
      obtain ⟨fuel, rfl⟩ := Nat.exists_eq_succ_of_ne_zero (Nat.ne_zero_of_lt hrest)
      have hfirst : ∀ v : Process β γ,
          v.calls.lookup caller = some (.reaping now queueName rest total errs) →
          Performs caller env (fuel + 1) v (Service.reapScan now (queueName :: rest) total errs)
            (fun r => .reply (.reaped r.1 r.2)) := by
        intro v hv
        have hvisit : v.advance caller env (.reaping now queueName rest total errs) =
            v.visit caller (.reaping now queueName rest total errs) queueName (.reap now)
              (reapExpired now) (fun r => .reaped r.1 r.2) (afterReap now rest total errs) :=
          rfl
        unfold Performs
        rw [Service.reapScan, wp_bind, Service.wp_onQueue, wp]
        cases hm : reapExpired now (v.service.world queueName) with
        | ok a w => exact ih hv (hvisit.trans (visit_of_ok hm)) rfl rfl hrest
        | error err w => exact drive_answers hv (hvisit.trans (visit_of_error hm)) rfl rfl
        | crashed w => exact drive_stops hv (hvisit.trans (visit_of_crashed hm)) rfl rfl
      exact (hfirst _ (AList.lookup_insert _)).after hplace hadvance hlife hcalls

omit [Backend β] [Journal γ] in
/-- A scan comes to each engine once. -/
theorem existingEngines_length
    (order : List GoString) (s : Service β γ) :
    (s.existingEngines order).length = s.engines.entries.length := by
  have hperm : (s.existingEngines order).Perm s.engines.keys := by
    refine (List.perm_ext_iff_of_nodup (Map.range_keys_nodup _ _) s.engines.keys_nodup).mpr ?_
    intro queueName
    change queueName ∈ s.existingEngines order ↔ _
    rw [Service.mem_existingEngines, ← AList.mem_keys, ← AList.lookup_isSome,
      Option.isSome_iff_ne_none]
  rw [hperm.length_eq]
  exact List.length_map _

/-- `Stats` looks the engine up, and asks it if it exists. -/
theorem performs_stats
    (hplace : p.calls.lookup caller = some (.entered (.stats queueName))) :
    Answered caller p p.service (.stats (p.service.stats queueName))
      (p.drive caller env (fuel + 2)) := by
  by_cases hname : validQueueName queueName = false
  · have hnone : p.service.stats queueName = none := if_pos hname
    have hadvance : p.advance caller env (.entered (.stats queueName)) =
        p.proceed caller (.entered (.stats queueName)) none (.answer (.stats none)) := by
      rw [advance, if_pos hname]
    rw [hnone]
    exact drive_answers hplace hadvance rfl rfl
  · cases hl : p.service.engines.lookup queueName with
    | none =>
        have hnone : p.service.stats queueName = none := by
          rw [Service.stats, if_neg hname, hl]
          rfl
        have hadvance : p.advance caller env (.entered (.stats queueName)) =
            p.proceed caller (.entered (.stats queueName)) none (.answer (.stats none)) := by
          rw [advance, if_neg hname, hl]
        rw [hnone]
        exact drive_answers hplace hadvance rfl rfl
    | some engine =>
        have hadvance : p.advance caller env (.entered (.stats queueName)) =
            p.proceed caller (.entered (.stats queueName)) none
              (.stage (.counting queueName)) := by
          rw [advance, if_neg hname, hl]
        have hcount : Performs caller env (fuel + 1)
            { p with calls := p.calls.insert caller (.counting queueName) }
            (pure () : ServiceM β γ Unit) (fun _ => .stats (p.service.stats queueName)) :=
          drive_answers (AList.lookup_insert _) rfl rfl rfl
        exact hcount.after hplace hadvance rfl rfl

/-- The sections of a call end like the sequential operation. -/
theorem performs_call
    {call : Call}
    (hplace : p.calls.lookup caller = some (.entered call)) :
    Performs caller env (p.service.engines.entries.length + 2) p (Service.perform env call)
      (fun a => a) := by
  have hscan : (p.service.existingEngines env.order).length <
      p.service.engines.entries.length + 2 := by
    rw [existingEngines_length]
    omega
  unfold Performs
  cases call with
  | enqueue queueName payload =>
      unfold Service.perform
      rw [wp_bind]
      exact performs_enter hplace rfl
        (fun s => performs_visit (AList.lookup_insert _) rfl)
  | fetch queueName timeout =>
      unfold Service.perform
      rw [wp_bind]
      exact performs_enter hplace rfl
        (fun s => performs_visit (AList.lookup_insert _) rfl)
  | ack leaseID =>
      unfold Service.perform Service.ack
      rw [wp_bind, wp_bind, wp_read]
      exact performs_ackScan (p := p) (u := p) _ hplace rfl rfl rfl hscan
  | reap now =>
      unfold Service.perform Service.reapExpired
      rw [wp_bind, wp_bind, wp_read]
      exact performs_reapScan (p := p) (u := p) _ hplace rfl rfl rfl hscan
  | stats queueName => exact performs_stats hplace

end Operations

end Process

/--
A call that is not interrupted does what the sequential operation does.  Whatever
other calls are in progress, if the sections of a new call follow each other directly,
then after at most two more than there are engines the call has the answer of the
operation, the service is the one that the operation leaves, and the other calls are
where they were.  If the operation stops in the middle, the process stops there.
-/
theorem uninterrupted_call_as_sequential
    {β γ : Type} [Backend β] [Journal γ] (p : Process β γ) (caller : Nat) (env : TurnEnv γ)
    (call : Call) :
    let entered := (p.step (.call caller call)).2
    let driven := entered.drive caller env (p.service.engines.entries.length + 2)
    wp (Service.perform env call)
      (fun a s => Process.Answered caller entered s a driven)
      (fun err s => Process.Answered caller entered s (.reply (.failed err)) driven)
      (fun s => Process.Stopped caller entered s driven) p.service := by
  intro entered driven
  have hplace : entered.calls.lookup caller = some (.entered call) := AList.lookup_insert _
  exact Process.performs_call hplace

end Moxy
