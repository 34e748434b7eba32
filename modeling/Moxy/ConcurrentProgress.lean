import Moxy.ConcurrentAlone

/-!
# Moxy: the engines of a process, and how long a call takes

`engineFor` looks an engine up and creates it under one lock.  So concurrent first
calls of a queue never make two engines for it, and the number of engines stays
within the configured limit.

The limit also bounds every scan.  A call has a rank, the number of sections that it
may still need, and each of its sections lowers it (`advance_rank`); the sections of
other calls do not raise it.  A call that has ended was answered, unless the process
ended (`run_answers`).  So a call is answered after a fixed number of its own sections,
whatever other calls do meanwhile.
-/

namespace Moxy

open Lib Lib.CrashM

namespace Service

variable {β γ : Type} {opening : Opening γ} {queueName : GoString} {s : Service β γ}

/-- An engine is only made while there is room for one. -/
theorem creates_limit
    {event : Event γ}
    (h : s.creates opening queueName = some event)
    (hlimit : 0 < s.config.queueLimit) :
    (s.engines.entries.length : Int) < s.config.queueLimit := by
  unfold creates at h
  by_cases hname : validQueueName queueName = false
  · rw [if_pos hname] at h
    cases h
  rw [if_neg hname] at h
  cases hl : s.engines.lookup queueName with
  | some engine =>
      rw [hl] at h
      cases h
  | none =>
      by_contra hfull
      simp only [hl] at h
      rw [if_pos ⟨hlimit, not_lt.mp hfull⟩] at h
      cases h

/-- The configuration and the number of engines are as before. -/
def SameSize (s s' : Service β γ) : Prop :=
  s'.config = s.config ∧ s'.engines.entries.length = s.engines.entries.length

/-- One engine more, on a queue that had none, where there was room for it. -/
structure Added (queueName : GoString) (s s' : Service β γ) : Prop where
  absent : s.engines.lookup queueName = none
  config : s'.config = s.config
  length : s'.engines.entries.length = s.engines.entries.length + 1
  room : 0 < s.config.queueLimit → (s.engines.entries.length : Int) < s.config.queueLimit

theorem sameSize_putBack
    (w : World β γ) :
    SameSize s (s.putBack queueName w) := by
  refine ⟨rfl, ?_⟩
  have hkeys := congrArg List.length (AList.keys_replace queueName w.engine s.engines)
  simpa only [putBack, AList.keys, List.keys, List.length_map] using hkeys

theorem engineFor_added
    [Backend β] [Journal γ] {event : Event γ}
    (h : s.creates opening queueName = some event) :
    Added queueName s (engineFor opening queueName s).state := by
  obtain ⟨habsent, orders, journal, recovered, _, heq⟩ := engineFor_of_creates h
  have hinstall : ∀ w, Added queueName s (s.install queueName w) := by
    intro w
    refine ⟨habsent, rfl, ?_, creates_limit h⟩
    have hnot : queueName ∉ s.engines := AList.lookup_eq_none.mp habsent
    simp only [install, AList.entries_insert_of_notMem hnot, List.length_cons]
  rw [heq]
  unfold zoom
  cases newEngine s.config.engine orders recovered
      ⟨Engine.blank s.config.engine, s.backends queueName, journal⟩ with
  | ok a w => exact hinstall w
  | error err w => exact hinstall w
  | crashed w => exact hinstall w

end Service

namespace Process

section Engines

variable {β γ : Type} {p p' : Process β γ} {caller : Nat} {queueName : GoString}

/-- The section starts the engine of the queue. -/
def Starts (queueName : GoString) (note : Note γ) : Prop :=
  ∃ config orders journal recovered r,
    note.touched = some (queueName, .restart config orders journal recovered, r)

/-- A section neither adds nor starts an engine. -/
def KeepsEngines (p : Process β γ) (r : Note γ × Process β γ) : Prop :=
  Service.SameSize p.service r.2.service ∧ ∀ q, ¬ Starts q r.1

/-- A section adds an engine, and starts no other. -/
def AddsEngine (p : Process β γ) (r : Note γ × Process β γ) : Prop :=
  ∃ q, Service.Added q p.service r.2.service ∧ ∀ q', Starts q' r.1 → q' = q

theorem not_starts_of_none
    {note : Note γ}
    (h : note.touched = none) (q : GoString) :
    ¬ Starts q note := by
  rintro ⟨_, _, _, _, _, htouched⟩
  rw [h] at htouched
  cases htouched

theorem visit_sameSize
    {α : Type} {stage : Stage} {event : Event γ} {m : EngineM β γ α} {reply : α → Reply}
    {next : Reply → Next} :
    Service.SameSize p.service (p.visit caller stage queueName event m reply next).2.service := by
  cases hm : m (p.service.world queueName) with
  | ok a w =>
      rw [visit_of_ok hm, proceed_service]
      exact Service.sameSize_putBack w
  | error err w =>
      rw [visit_of_error hm, proceed_service]
      exact Service.sameSize_putBack w
  | crashed w =>
      rw [visit_of_crashed hm]
      exact Service.sameSize_putBack w

theorem visit_touched
    {α : Type} {stage : Stage} {event : Event γ} {m : EngineM β γ α} {reply : α → Reply}
    {next : Reply → Next} :
    ∃ r, (p.visit caller stage queueName event m reply next).1.touched =
      some (queueName, event, r) := by
  cases hm : m (p.service.world queueName) with
  | ok a w =>
      rw [visit_of_ok hm]
      exact ⟨_, proceed_touched _ _ _ _ _⟩
  | error err w =>
      rw [visit_of_error hm]
      exact ⟨_, proceed_touched _ _ _ _ _⟩
  | crashed w =>
      rw [visit_of_crashed hm]
      exact ⟨_, rfl⟩

theorem proceed_keepsEngines
    {stage : Stage} {next : Next} :
    KeepsEngines p (p.proceed caller stage none next) := by
  refine ⟨?_, not_starts_of_none (proceed_touched _ _ _ _ _)⟩
  rw [proceed_service]
  exact ⟨rfl, rfl⟩

theorem visit_keepsEngines
    {α : Type} {stage : Stage} {event : Event γ} {m : EngineM β γ α} {reply : α → Reply}
    {next : Reply → Next}
    (hevent : ∀ config orders journal recovered, event ≠ .restart config orders journal recovered) :
    KeepsEngines p (p.visit caller stage queueName event m reply next) := by
  refine ⟨visit_sameSize, ?_⟩
  rintro q ⟨_, _, _, _, _, h⟩
  obtain ⟨r, htouched⟩ := @visit_touched β γ p caller queueName α stage event m reply next
  cases htouched.symm.trans h
  exact hevent _ _ _ _ rfl

variable [Backend β] [Journal γ]

theorem enter_service
    {stage next : Stage} {opening : Opening γ} :
    (p.enter caller stage opening queueName next).2.service =
      (Service.engineFor opening queueName p.service).state := by
  unfold enter
  cases Service.engineFor opening queueName p.service with
  | ok a s => exact proceed_service _ _ _ _ _
  | error err s => exact proceed_service _ _ _ _ _
  | crashed s => rfl

theorem enter_engines
    {stage next : Stage} {opening : Opening γ} :
    KeepsEngines p (p.enter caller stage opening queueName next) ∨
    AddsEngine p (p.enter caller stage opening queueName next) := by
  cases hc : p.service.creates opening queueName with
  | none =>
      obtain ⟨hnone, hpasses⟩ := @enter_passes β γ p _ _ caller stage next opening queueName hc
      refine .inl ⟨?_, not_starts_of_none hnone⟩
      rw [hpasses.service]
      exact ⟨rfl, rfl⟩
  | some event =>
      obtain ⟨r, htouched, _⟩ := @enter_touches β γ p _ _ caller stage next _ _ _ hc
      refine .inr ⟨queueName, ?_, ?_⟩
      · rw [enter_service]
        exact Service.engineFor_added hc
      · rintro q ⟨_, _, _, _, _, h⟩
        cases htouched.symm.trans h
        rfl

/-- A section adds an engine and starts it, or it does neither. -/
theorem advance_engines
    {env : TurnEnv γ} {stage : Stage} :
    KeepsEngines p (p.advance caller env stage) ∨ AddsEngine p (p.advance caller env stage) := by
  cases stage with
  | entered call =>
      cases call with
      | enqueue | fetch => exact enter_engines
      | ack | reap | stats => exact .inl proceed_keepsEngines
  | enqueuing | fetching | acking | reaping => exact .inl (visit_keepsEngines (by simp))
  | counting => exact .inl proceed_keepsEngines

/-- What an event does to the engines. -/
theorem step_engines
    {e : Turn γ} :
    KeepsEngines p (p.step e) ∨
    ((p.step e).2.service.engines = ∅ ∧ (∀ q, ¬ Starts q (p.step e).1) ∧
      (e = .stop ∨ ∃ config, e = .start config)) ∨
    AddsEngine p (p.step e) := by
  cases e with
  | call caller call => exact .inl ⟨⟨rfl, rfl⟩, not_starts_of_none rfl⟩
  | stop => exact .inr (.inl ⟨rfl, not_starts_of_none rfl, .inl rfl⟩)
  | start config => exact .inr (.inl ⟨rfl, not_starts_of_none rfl, .inr ⟨config, rfl⟩⟩)
  | turn caller env =>
      cases hstage : p.calls.lookup caller with
      | none =>
          rw [step_turn_none hstage]
          exact .inl ⟨⟨rfl, rfl⟩, not_starts_of_none rfl⟩
      | some stage =>
          rw [step_turn hstage]
          exact advance_engines.imp_right .inr

/-- There are no more engines than the limit allows. -/
def WithinLimit (p : Process β γ) : Prop :=
  0 < p.service.config.queueLimit →
    (p.service.engines.entries.length : Int) ≤ p.service.config.queueLimit

theorem WithinLimit.step
    {e : Turn γ}
    (h : p.WithinLimit) :
    (p.step e).2.WithinLimit := by
  intro hlimit
  rcases step_engines (p := p) (e := e) with
    ⟨⟨hconfig, hlength⟩, _⟩ | ⟨hempty, _⟩ | ⟨q, hadded, _⟩
  · rw [hconfig] at hlimit ⊢
    rw [hlength]
    exact h hlimit
  · rw [hempty]
    exact hlimit.le
  · rw [hadded.config] at hlimit ⊢
    rw [hadded.length]
    have hroom := hadded.room hlimit
    omega

/-- Engines stay until the process ends. -/
theorem step_keeps_engine
    {e : Turn γ}
    (hpointed : p.Pointed)
    (hq : p.service.engines.lookup queueName ≠ none)
    (hup : e ≠ .stop ∧ ∀ config, e ≠ .start config) :
    (p.step e).2.service.engines.lookup queueName ≠ none := by
  cases e with
  | call caller call => exact hq
  | stop => exact absurd rfl hup.1
  | start config => exact absurd rfl (hup.2 config)
  | turn caller env =>
      cases hstage : p.calls.lookup caller with
      | none =>
          rw [step_turn_none hstage]
          exact hq
      | some stage =>
          rw [step_turn hstage]
          rcases @advance_cases β γ p _ _ caller env stage (hpointed caller stage hstage) with
            ⟨_, hpasses⟩ | ⟨_, _, _, _, htouches⟩
          · rw [hpasses.service]
            exact hq
          · exact htouches.grows hq

/-- An engine is started where none was. -/
theorem Starts.absent
    {e : Turn γ}
    (h : Starts queueName (p.step e).1) :
    p.service.engines.lookup queueName = none := by
  rcases step_engines (p := p) (e := e) with ⟨_, hnot⟩ | ⟨_, hnot, _⟩ | ⟨q, hadded, hq⟩
  · exact absurd h (hnot queueName)
  · exact absurd h (hnot queueName)
  · rw [hq queueName h]
    exact hadded.absent

/-- An engine that was started exists. -/
theorem Starts.present
    {e : Turn γ}
    (h : Starts queueName (p.step e).1)
    (hpointed : p.Pointed) :
    (p.step e).2.service.engines.lookup queueName ≠ none := by
  obtain ⟨_, _, _, _, _, htouched⟩ := h
  rcases step_cases (e := e) hpointed with ⟨hnone, _⟩ | ⟨hnone, _⟩ | ⟨q, _, _, hq, ht⟩
  · exact absurd (htouched.symm.trans hnone) (Option.some_ne_none _)
  · exact absurd (htouched.symm.trans hnone) (Option.some_ne_none _)
  · cases hq.symm.trans htouched
    exact ht.exists_engine

end Engines

end Process

/-- The number of sections that a call may still need, with at most `limit` engines. -/
def Stage.rank (limit : Nat) : Stage → Nat
  | .entered _ => limit + 1
  | .enqueuing _ _ | .fetching _ _ | .counting _ => 1
  | .acking _ _ rest | .reaping _ _ rest _ _ => rest.length + 1

theorem Stage.rank_pos
    (limit : Nat) (stage : Stage) :
    0 < stage.rank limit := by
  cases stage <;> simp [Stage.rank]

/-- The event is a section of the caller. -/
def Turn.OwnedBy {γ : Type} (caller : Nat) : Turn γ → Bool
  | .turn c _ => c = caller
  | _ => false

theorem Turn.ownedBy_iff
    {γ : Type} {caller : Nat} {e : Turn γ} :
    e.OwnedBy caller = true ↔ ∃ env, e = .turn caller env := by
  cases e with
  | turn c env => simp [Turn.OwnedBy]
  | call | stop | start => simp [Turn.OwnedBy]

namespace Process

section Rank

variable {β γ : Type} {p p' : Process β γ} {caller limit : Nat}

/-- The rank of the call that a caller is in; zero if it is in none. -/
def rank (caller limit : Nat) (p : Process β γ) : Nat :=
  ((p.calls.lookup caller).map (Stage.rank limit)).getD 0

theorem rank_of_place
    {stage : Stage} (h : p.calls.lookup caller = some stage) :
    p.rank caller limit = stage.rank limit := by
  rw [rank, h]
  rfl

theorem rank_of_ended
    (h : p.calls.lookup caller = none) :
    p.rank caller limit = 0 := by
  rw [rank, h]
  rfl

theorem ended_of_rank
    (h : p.rank caller limit = 0) :
    p.calls.lookup caller = none := by
  cases hplace : p.calls.lookup caller with
  | none => rfl
  | some stage =>
      rw [rank_of_place hplace] at h
      exact absurd h (Stage.rank_pos limit stage).ne'

theorem proceed_rank
    {u : Process β γ} {stage : Stage} {touched : Option (GoString × Event γ × Reply)} {next : Next}
    (h : ∀ stage', next = .stage stage' → stage'.rank limit < stage.rank limit) :
    (u.proceed caller stage touched next).2.rank caller limit < stage.rank limit := by
  cases next with
  | stage stage' =>
      rw [rank_of_place (show (u.proceed caller stage touched (.stage stage')).2.calls.lookup
        caller = some stage' from AList.lookup_insert _)]
      exact h stage' rfl
  | answer a =>
      rw [rank_of_ended ended_answer]
      exact Stage.rank_pos limit stage

theorem die_rank
    {u : Process β γ} {stage : Stage} {touched : Option (GoString × Event γ × Reply)}
    {queueName : GoString} {locked : Bool} :
    (u.die caller touched queueName locked).2.rank caller limit < stage.rank limit := by
  rw [rank_of_ended (show (u.die caller touched queueName locked).2.calls.lookup caller = none
    from AList.lookup_erase _ _)]
  exact Stage.rank_pos limit stage

theorem visit_rank
    {α : Type} {stage : Stage} {queueName : GoString} {event : Event γ} {m : EngineM β γ α}
    {reply : α → Reply} {next : Reply → Next}
    (h : ∀ r stage', next r = .stage stage' → stage'.rank limit < stage.rank limit) :
    (p.visit caller stage queueName event m reply next).2.rank caller limit <
      stage.rank limit := by
  cases hm : m (p.service.world queueName) with
  | ok a w =>
      rw [visit_of_ok hm]
      exact proceed_rank (h _)
  | error err w =>
      rw [visit_of_error hm]
      exact proceed_rank (h _)
  | crashed w =>
      rw [visit_of_crashed hm]
      exact die_rank

theorem ackNext_rank
    {leaseID : GoString} {queues : List GoString} {stage : Stage}
    (h : ackNext leaseID queues = .stage stage) :
    stage.rank limit = queues.length := by
  cases queues with
  | nil => cases h
  | cons queueName rest =>
      cases h
      rfl

theorem reapNext_rank
    {now : Int} {total : Nat} {errs : List GoError} {queues : List GoString} {stage : Stage}
    (h : reapNext now total errs queues = .stage stage) :
    stage.rank limit = queues.length := by
  cases queues with
  | nil => cases h
  | cons queueName rest =>
      cases h
      rfl

variable [Backend β] [Journal γ] {N : Machine (System β γ) (Event γ) Reply}

theorem enter_rank
    {stage next : Stage} {opening : Opening γ} {queueName : GoString}
    (h : next.rank limit < stage.rank limit) :
    (p.enter caller stage opening queueName next).2.rank caller limit < stage.rank limit := by
  unfold enter
  cases Service.engineFor opening queueName p.service with
  | ok a s =>
      refine proceed_rank ?_
      rintro _ ⟨⟩
      exact h
  | error err s =>
      refine proceed_rank ?_
      rintro _ ⟨⟩
  | crashed s => exact die_rank

/-- Every section of a call lowers its rank. -/
theorem advance_rank
    {env : TurnEnv γ} {stage : Stage}
    (hpos : 0 < limit)
    (hlimit : p.service.engines.entries.length ≤ limit) :
    (p.advance caller env stage).2.rank caller limit < stage.rank limit := by
  have hscan : (p.service.existingEngines env.order).length < limit + 1 := by
    rw [existingEngines_length]
    exact Nat.lt_succ_of_le hlimit
  cases stage with
  | entered call =>
      cases call with
      | enqueue | fetch => exact enter_rank (Nat.succ_lt_succ hpos)
      | ack leaseID =>
          refine proceed_rank fun stage' h => ?_
          rw [ackNext_rank h]
          exact hscan
      | reap now =>
          refine proceed_rank fun stage' h => ?_
          rw [reapNext_rank h]
          exact hscan
      | stats queueName =>
          refine proceed_rank fun stage' h => ?_
          split_ifs at h
          cases hl : p.service.engines.lookup queueName with
          | none =>
              rw [hl] at h
              cases h
          | some engine =>
              rw [hl] at h
              cases h
              exact Nat.succ_lt_succ hpos
  | enqueuing | fetching =>
      refine visit_rank ?_
      rintro r stage' ⟨⟩
  | acking leaseID queueName rest =>
      refine visit_rank fun r stage' h => ?_
      cases r with
      | failed err =>
          simp only [afterAck] at h
          split_ifs at h
          rw [ackNext_rank h]
          exact Nat.lt_succ_self _
      | enqueued | fetched | acked | reaped | started | crashed | down => cases h
  | reaping now queueName rest total errs =>
      refine visit_rank fun r stage' h => ?_
      cases r with
      | reaped count err =>
          rw [reapNext_rank h]
          exact Nat.lt_succ_self _
      | enqueued | fetched | acked | failed | started | crashed | down => cases h
  | counting queueName =>
      refine proceed_rank ?_
      rintro _ ⟨⟩

/-- The events of others do not raise the rank of a call. -/
theorem other_rank
    {e : Turn γ}
    (hown : ∀ env, e ≠ .turn caller env)
    (hcall : ∀ call, e ≠ .call caller call) :
    (p.step e).2.rank caller limit ≤ p.rank caller limit := by
  rcases (step_other (p := p) hown hcall).1 with hsame | ⟨hnone, _⟩
  · rw [rank, rank, hsame]
  · rw [rank_of_ended hnone]
    exact Nat.zero_le _

/-- The limit is the one of the configuration, as long as the call is in progress. -/
def Bounded (caller limit : Nat) (p : Process β γ) : Prop :=
  p.calls.lookup caller ≠ none →
    p.service.config.queueLimit = limit ∧ p.service.engines.entries.length ≤ limit

theorem Bounded.step
    {e : Turn γ}
    (h : p.Bounded caller limit)
    (hlimit : 0 < limit)
    (hwithin : (p.step e).2.WithinLimit)
    (hcall : ∀ call, e ≠ .call caller call) :
    (p.step e).2.Bounded caller limit := by
  intro hplace
  have hbefore : p.calls.lookup caller ≠ none :=
    fun hnone => hplace (step_ended hnone hcall).1
  have hconfig : (p.step e).2.service.config = p.service.config := by
    rcases step_engines (p := p) (e := e) with ⟨hsame, _⟩ | ⟨_, _, hdown⟩ | ⟨q, hadded, _⟩
    · exact hsame.1
    · rcases hdown with rfl | ⟨config, rfl⟩
      · exact absurd rfl hplace
      · exact absurd rfl hplace
    · exact hadded.config
  have hsame : (p.step e).2.service.config.queueLimit = limit := by
    rw [hconfig]
    exact (h hbefore).1
  refine ⟨hsame, ?_⟩
  have hle := hwithin (by rw [hsame]; exact_mod_cast hlimit)
  rw [hsame] at hle
  exact_mod_cast hle

/-- A section of the caller lowers the rank of its call, and no other event raises it. -/
theorem step_rank
    {e : Turn γ}
    (hlimit : 0 < limit)
    (hbounded : p.Bounded caller limit)
    (hguard : p.Admits e)
    (hcall : ∀ call, e ≠ .call caller call) :
    (p.step e).2.rank caller limit + (if e.OwnedBy caller = true then 1 else 0) ≤
      p.rank caller limit := by
  by_cases hown : ∃ env, e = .turn caller env
  · rw [if_pos (Turn.ownedBy_iff.mpr hown)]
    obtain ⟨env, rfl⟩ := hown
    obtain ⟨stage, hplace, _⟩ := hguard
    have hengines := (hbounded (by rw [hplace]; exact Option.some_ne_none _)).2
    rw [step_turn hplace, rank_of_place hplace]
    exact advance_rank hlimit hengines
  · rw [if_neg (fun howned => hown (Turn.ownedBy_iff.mp howned))]
    exact other_rank (not_exists.mp hown) hcall

/--
The sections that a call has made and those that it may still need are together no
more than it needed at first.
-/
theorem run_rank
    {es : List (Turn γ × Note γ)}
    (hrun : (concurrent N).Run p es p')
    (hlimit : 0 < limit)
    (hwithin : p.WithinLimit)
    (hbounded : p.Bounded caller limit)
    (hsame : ∀ en ∈ es, ∀ call, en.1 ≠ .call caller call) :
    p'.WithinLimit ∧ p'.Bounded caller limit ∧
    p'.rank caller limit + es.countP (fun en => en.1.OwnedBy caller) ≤ p.rank caller limit := by
  induction hrun with
  | refl => exact ⟨hwithin, hbounded, by simp⟩
  | @next u es e hrun hguard ih =>
      have hcall : ∀ call, e ≠ .call caller call :=
        hsame _ (List.mem_append_right _ List.mem_cons_self)
      obtain ⟨hwithin', hbounded', hrank⟩ :=
        ih (fun en hen => hsame en (List.mem_append_left _ hen))
      have hstep := @WithinLimit.step β γ u _ _ e hwithin'
      have hfewer := step_rank hlimit hbounded' hguard.1 hcall
      refine ⟨hstep, hbounded'.step hlimit hstep hcall, ?_⟩
      rw [List.countP_append, List.countP_singleton]
      change (u.step e).2.rank caller limit +
        (_ + if e.OwnedBy caller = true then 1 else 0) ≤ _
      omega

end Rank

section Answered

variable {β γ : Type} [Backend β] [Journal γ] {N : Machine (System β γ) (Event γ) Reply}
  {p p' : Process β γ} {caller : Nat} {call : Call}

/-- The process ends with the event, or inside its section. -/
def Ends (en : Turn γ × Note γ) : Prop :=
  (en.1 = .stop ∨ ∃ config, en.1 = .start config) ∨ Crashes en.2

/-- The call of the caller ends with an answer of its kind. -/
def Answers (caller : Nat) (call : Call) (en : Turn γ × Note γ) : Prop :=
  ∃ a, en.2.answer = some (caller, call, a) ∧ call.Yields a

/-- The caller is inside the call. -/
def Within (caller : Nat) (call : Call) (p : Process β γ) : Prop :=
  ∃ stage, p.calls.lookup caller = some stage ∧ stage.call = call

/-- An event leaves a call in progress, answers it, or ends the process. -/
theorem Within.step
    {e : Turn γ}
    (h : p.Within caller call)
    (hcall : ∀ call', e ≠ .call caller call') :
    (p.step e).2.Within caller call ∨
    Answers caller call (e, (p.step e).1) ∨ Ends (e, (p.step e).1) := by
  obtain ⟨stage, hplace, rfl⟩ := h
  by_cases hown : ∃ env, e = .turn caller env
  · obtain ⟨env, rfl⟩ := hown
    rw [step_turn hplace]
    rcases @advance_continues β γ p caller _ _ env stage with
      ⟨a, hanswer, hyields, _⟩ | ⟨_, hgoes⟩ | ⟨_, _, hcrashes⟩
    · exact .inr (.inl ⟨a, hanswer, hyields⟩)
    · exact .inl hgoes
    · exact .inr (.inr (.inr hcrashes))
  · rcases (step_other (p := p) (not_exists.mp hown) hcall).1 with hsame | ⟨_, hends⟩
    · exact .inl ⟨stage, hsame.trans hplace, rfl⟩
    · exact .inr (.inr (.inl hends))

/-- A call stays in progress until it is answered or the process ends. -/
theorem run_answers
    {es : List (Turn γ × Note γ)}
    (hrun : (concurrent N).Run p es p')
    (h : p.Within caller call)
    (hsame : ∀ en ∈ es, ∀ call', en.1 ≠ .call caller call') :
    p'.Within caller call ∨ ∃ en ∈ es, Answers caller call en ∨ Ends en := by
  induction hrun with
  | refl => exact .inl h
  | @next u es e hrun hguard ih =>
      rcases ih (fun en hen => hsame en (List.mem_append_left _ hen)) with hin | ⟨en, hen, hover⟩
      · have hlast := List.mem_append_right es (List.mem_singleton_self (e, (u.step e).1))
        rcases hin.step (hsame _ hlast) with hin' | hover
        · exact .inl hin'
        · exact .inr ⟨_, hlast, hover⟩
      · exact .inr ⟨en, List.mem_append_left _ hen, hover⟩

end Answered

end Process

section Results

variable {β γ : Type} [Backend β] [Journal γ] {N : Machine (System β γ) (Event γ) Reply}
  {p p' : Process β γ} {config : ServiceConfig} {backends : GoString → β}
  {journals : GoString → γ} {es : List (Turn γ × Note γ)}

theorem concurrent_withinLimit
    (hrun : (concurrent N).Run (.cold config backends journals) es p) :
    p.WithinLimit := by
  refine hrun.invariant (P := Process.WithinLimit) (fun _ _ h _ => h.step) ?_
  intro hlimit
  exact hlimit.le

/--
However many calls of new queues run at once, the service never has more engines than
its limit, and it makes the engine of a queue once: if a run starts the engine of a
queue twice, then the process ended in between.
-/
theorem engines_once_within_limit
    (hrun : (concurrent N).Run (.cold config backends journals) es p) :
    (0 < p.service.config.queueLimit →
      (p.service.engines.entries.length : Int) ≤ p.service.config.queueLimit) ∧
    ∀ before x mid y after queueName,
      es = before ++ x :: (mid ++ y :: after) →
      Process.Starts queueName x.2 → Process.Starts queueName y.2 →
      ∃ z ∈ mid, z.1 = .stop ∨ ∃ config', z.1 = .start config' := by
  refine ⟨concurrent_withinLimit hrun, ?_⟩
  rintro before x mid y after queueName rfl hx hy
  by_contra hnone
  obtain ⟨u, hbefore, hguardx, hnotex, hrest⟩ := hrun.split_at
  obtain ⟨v, hmid, hguardy, hnotey, _⟩ := hrest.split_at
  rw [← hnotex] at hx
  rw [← hnotey] at hy
  have hpointed : u.Pointed :=
    hbefore.invariant (fun _ _ hu _ => Process.step_pointed hu) Process.cold_pointed
  have hkept : v.Pointed ∧ v.service.engines.lookup queueName ≠ none := by
    refine hmid.keeps (P := fun u : Process β γ => u.Pointed ∧
        u.service.engines.lookup queueName ≠ none)
      (K := fun e => e ≠ .stop ∧ ∀ config', e ≠ .start config') ?_ ?_
      ⟨Process.step_pointed hpointed, hx.present hpointed⟩
    · intro u e hu he _
      exact ⟨Process.step_pointed hu.1, Process.step_keeps_engine hu.1 hu.2 he⟩
    · intro en hen
      refine ⟨fun hstop => hnone ⟨en, hen, .inl hstop⟩, fun config' hstart => ?_⟩
      exact hnone ⟨en, hen, .inr ⟨config', hstart⟩⟩
  exact hkept.2 hy.absent

/-- The engine of a queue is made, and after a restart made again. -/
def engineMade : List (Turn LeaseLog) :=
  [.start ⟨3, 0, [], true, 1⟩, .call 1 (.enqueue (goString "a") (goString "p"))]

/-- The process is started again between two calls of the queue. -/
def startedAgain : List (Turn LeaseLog) :=
  [.turn 1 (turnWith (goString "t")), .stop, .start ⟨3, 0, [], true, 1⟩,
    .call 1 (.enqueue (goString "a") (goString "q"))]

theorem engines_once_within_limit_restarted :
    ∃ z ∈ (concurrent durable).trace
        ((concurrent durable).final reliable (engineMade ++ [.turn 1 (turnWith [])])) startedAgain,
      z.1 = .stop ∨ ∃ config, z.1 = .start config := by
  have hadmits : (concurrent durable).Admits reliable
      (engineMade ++ .turn 1 (turnWith []) :: (startedAgain ++ [.turn 1 (turnWith [])])) := by
    decide +kernel
  have hrun := Machine.run_of_admits _ _ hadmits
  rw [Machine.trace_append, Machine.trace, Machine.trace_append, Machine.trace] at hrun
  exact (engines_once_within_limit hrun).2 _ _ _ _ _ (goString "a") rfl
    ⟨_, _, _, _, _, rfl⟩ ⟨_, _, _, _, _, rfl⟩

/--
A call is answered after a bounded number of its own sections, whatever runs beside it.
With a limit of `limit` queues a call makes at most `limit + 1` sections, however many
sections of other calls come in between.  Once it has made that many it has ended, and
a call that has ended was answered, unless the process ended.
-/
theorem call_ends_within_limit
    {caller limit : Nat} {call : Call} {rest : List (Turn γ × Note γ)}
    (hrun : (concurrent N).Run (.cold config backends journals) es p)
    (hlimit : 0 < limit)
    (hconfig : p.service.config.queueLimit = limit)
    (hplace : p.calls.lookup caller = some (.entered call))
    (hrest : (concurrent N).Run p rest p')
    (hsame : ∀ en ∈ rest, ∀ call', en.1 ≠ .call caller call') :
    rest.countP (fun en => en.1.OwnedBy caller) ≤ limit + 1 ∧
    (rest.countP (fun en => en.1.OwnedBy caller) = limit + 1 →
      p'.calls.lookup caller = none) ∧
    (p'.calls.lookup caller = none →
      ∃ en ∈ rest, Process.Answers caller call en ∨ Process.Ends en) := by
  have hwithin := concurrent_withinLimit hrun
  have hbounded : p.Bounded caller limit := by
    intro _
    refine ⟨hconfig, ?_⟩
    have hle := hwithin (by rw [hconfig]; exact_mod_cast hlimit)
    rw [hconfig] at hle
    exact_mod_cast hle
  obtain ⟨_, _, hrank⟩ := Process.run_rank hrest hlimit hwithin hbounded hsame
  rw [Process.rank_of_place hplace] at hrank
  have hfirst : Stage.rank limit (.entered call) = limit + 1 := rfl
  refine ⟨by omega, fun hall => @Process.ended_of_rank β γ p' caller limit (by omega), ?_⟩
  intro hended
  rcases Process.run_answers hrest ⟨_, hplace, rfl⟩ hsame with ⟨stage, hstage, _⟩ | hover
  · cases hended.symm.trans hstage
  · exact hover

/-- A task is in the one queue that the service may have, and an `Ack` begins. -/
def ackBegins : List (Turn LeaseLog) :=
  engineMade ++
    [.turn 1 (turnWith []), .turn 1 (turnWith (goString "t")), .call 2 (.ack (goString "L"))]

/-- Beside the `Ack`, a call of another queue is refused. -/
def ackBesideRefusal : List (Turn LeaseLog) :=
  [.turn 2 (turnWith []), .call 3 (.enqueue (goString "b") (goString "p")),
    .turn 3 (turnWith []), .turn 2 (turnWith [])]

/-- The `Ack` uses its two sections up, and is answered in the second. -/
theorem call_ends_within_limit_refused :
    ((concurrent durable).trace ((concurrent durable).final reliable ackBegins)
      ackBesideRefusal).countP (fun en => en.1.OwnedBy 2) = 1 + 1 ∧
    ∃ en ∈ (concurrent durable).trace ((concurrent durable).final reliable ackBegins)
      ackBesideRefusal, Process.Answers 2 (.ack (goString "L")) en ∨ Process.Ends en := by
  have hadmits : (concurrent durable).Admits reliable ackBegins := by decide +kernel
  have hadmits' : (concurrent durable).Admits
      ((concurrent durable).final reliable ackBegins) ackBesideRefusal := by
    decide +kernel
  have hplace : ((concurrent durable).final reliable ackBegins).calls.lookup 2 =
      some (.entered (.ack (goString "L"))) := by
    decide +kernel
  have hconfig : ((concurrent durable).final reliable ackBegins).service.config.queueLimit =
      (1 : Nat) := by
    decide +kernel
  have hsame : ∀ en ∈ (concurrent durable).trace
      ((concurrent durable).final reliable ackBegins) ackBesideRefusal,
      ∀ call, en.1 ≠ .call 2 call := by
    simp [ackBesideRefusal, Machine.trace]
  have hcount : ((concurrent durable).trace ((concurrent durable).final reliable ackBegins)
      ackBesideRefusal).countP (fun en => en.1.OwnedBy 2) = 1 + 1 := by
    decide +kernel
  obtain ⟨_, hended, hanswered⟩ :=
    call_ends_within_limit (Machine.run_of_admits _ _ hadmits) Nat.one_pos hconfig hplace
      (Machine.run_of_admits _ _ hadmits') hsame
  exact ⟨hcount, hanswered (hended hcount)⟩

end Results

end Moxy
