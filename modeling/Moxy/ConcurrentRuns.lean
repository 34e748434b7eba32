import Moxy.ConcurrentSections
import Moxy.Lib.Simulation

/-!
# Moxy: interleaved calls are runs of single engines

What the locks achieve: for each queue, the sections that touch its engine are a run
of that engine alone (`concurrent_project`), whatever the other calls do meanwhile and
wherever the process stops.  So what holds of the runs of one engine holds of every
queue of a service, under any interleaving.
-/

namespace Moxy

open Lib Lib.CrashM

namespace Process

variable {β γ : Type}

/-- The system that the engine of a queue is, as far as calls can still reach it. -/
structure Follows (queueName : GoString) (p : Process β γ) (t : System β γ) : Prop where
  backend : t.backend = p.service.backends queueName
  journal : t.journal = p.service.journals queueName
  issued : t.issued = p.issuedAt queueName
  engine : queueName ∉ p.life.stuck →
    ∀ engine, p.service.engines.lookup queueName = some engine → t.process = some engine

end Process

/-- A guard that does not look at the process that a start replaces. -/
def System.StartsAnyway {β γ : Type} (N : Machine (System β γ) (Event γ) Reply) : Prop :=
  ∀ (t : System β γ) config orders journal recovered process,
    N.guard t (.restart config orders journal recovered) →
    N.guard { t with process := process } (.restart config orders journal recovered)

/-- The part of a note that concerns one queue. -/
def Note.ofQueue {γ : Type} (queueName : GoString) (note : Note γ) : Option (Event γ × Reply) :=
  note.touched.bind fun touched => if touched.1 = queueName then some touched.2 else none

theorem Note.ofQueue_self
    {γ : Type} {queueName : GoString} {note : Note γ} {event : Event γ} {r : Reply}
    (h : note.touched = some (queueName, event, r)) :
    note.ofQueue queueName = some (event, r) := by
  rw [Note.ofQueue, h]
  exact if_pos rfl

theorem Note.touched_of_ofQueue
    {γ : Type} {queueName : GoString} {note : Note γ} {event : Event γ} {r : Reply}
    (h : note.ofQueue queueName = some (event, r)) :
    note.touched = some (queueName, event, r) := by
  unfold Note.ofQueue at h
  obtain ⟨⟨q, f⟩, htouched, hif⟩ := Option.bind_eq_some_iff.mp h
  split_ifs at hif with hq
  cases hif
  subst hq
  exact htouched

section Projection

variable {β γ : Type} {p p' : Process β γ} {t : System β γ} {queueName : GoString}

theorem Process.issuedAt_append
    {ids : List GoString} (hissued : p'.issued = ids.map (fun id => (queueName, id)) ++ p.issued)
    (q : GoString) :
    p'.issuedAt q = (if q = queueName then ids else []) ++ p.issuedAt q := by
  unfold Process.issuedAt
  rw [hissued, List.filter_append, List.map_append, List.filter_map, List.map_map]
  split_ifs with hq
  · subst hq
    simp [Function.comp_def]
  · have hne : ¬ queueName = q := fun h => hq h.symm
    simp [Function.comp_def, hne]

theorem Process.Follows.passes
    (h : p.Follows queueName t)
    (hpasses : p.Passes p') :
    p'.Follows queueName t := by
  obtain ⟨hservice, hissued, hlife⟩ := hpasses
  refine ⟨?_, ?_, ?_, ?_⟩
  · rw [h.backend, hservice]
  · rw [h.journal, hservice]
  · rw [h.issued, Process.issuedAt, Process.issuedAt, hissued]
  · rw [hlife, hservice]
    exact h.engine

theorem Process.Follows.clears
    (h : p.Follows queueName t)
    (hclears : p.Clears p') :
    p'.Follows queueName t := by
  refine ⟨?_, ?_, ?_, ?_⟩
  · rw [h.backend, hclears.backends]
  · rw [h.journal, hclears.journals]
  · rw [h.issued, Process.issuedAt, Process.issuedAt, hclears.issued]
  · intro _ engine hengine
    rw [hclears.engines] at hengine
    cases hengine

/-- Storage of all queues, and no process. -/
def Process.cold (config : ServiceConfig) (backends : GoString → β) (journals : GoString → γ) :
    Process β γ :=
  ⟨Service.newWithConfig config backends journals, ∅, .down, []⟩

theorem Process.cold_pointed
    {config : ServiceConfig} {backends : GoString → β} {journals : GoString → γ} :
    (Process.cold config backends journals).Pointed := by
  intro caller stage h
  cases h

theorem Process.cold_follows
    (config : ServiceConfig) (backends : GoString → β) (journals : GoString → γ)
    (queueName : GoString) :
    (Process.cold config backends journals).Follows queueName
      ⟨none, backends queueName, journals queueName, []⟩ :=
  ⟨rfl, rfl, rfl, fun _ _ h => by cases h⟩

variable [Backend β] [Journal γ] {N : Machine (System β γ) (Event γ) Reply}

/-- Locks are only lost while a process lives. -/
theorem Process.Touches.stuck_subset
    {event : Event γ} {r : Reply}
    (h : p.Touches p' queueName event r)
    {q : GoString}
    (hq : q ∈ p.life.stuck) :
    q ∈ p'.life.stuck := by
  rcases h.life with ⟨hlife, _⟩ | ⟨_, locked, hlife⟩
  · rw [hlife]
    exact hq
  · rw [hlife, Life.stuck_stopAt]
    exact List.mem_cons_of_mem _ hq

/-- A section of another engine does not concern the queue. -/
theorem Process.Follows.others
    {other : GoString} {event : Event γ} {r : Reply}
    (h : p.Follows queueName t)
    (htouches : p.Touches p' other event r)
    (hne : queueName ≠ other) :
    p'.Follows queueName t := by
  have hsame := htouches.others queueName hne
  refine ⟨?_, ?_, ?_, ?_⟩
  · rw [h.backend, hsame.backend]
  · rw [h.journal, hsame.journal]
  · rw [h.issued, Process.issuedAt_append htouches.issued, if_neg hne, List.nil_append]
  · intro hfree engine hengine
    rw [hsame.engine] at hengine
    exact h.engine (fun hstuck => hfree (htouches.stuck_subset hstuck)) engine hengine

/-- The system takes the event that a section performs on the engine of the queue. -/
theorem Process.Follows.step_eq
    {event : Event γ} {r : Reply}
    (h : p.Follows queueName t)
    (htouches : p.Touches p' queueName event r)
    (hfree : queueName ∉ p.life.stuck) :
    t.step event = (p.systemOf queueName).step event ∧
    (System.StartsAnyway N → N.guard (p.systemOf queueName) event → N.guard t event) := by
  obtain ⟨process, backend, journal, issued⟩ := t
  obtain ⟨rfl, rfl, rfl, hengine⟩ := h
  rcases htouches.starts with hsome | ⟨config, orders, journal, recovered, rfl⟩
  · obtain ⟨engine, hl⟩ := Option.isSome_iff_exists.mp hsome
    have hprocess : process = p.service.engines.lookup queueName := by
      rw [hl]
      exact hengine hfree engine hl
    subst hprocess
    exact ⟨rfl, fun _ hguard => hguard⟩
  · exact ⟨rfl, fun hN hguard => hN _ _ _ _ _ process hguard⟩

theorem Process.Follows.touched
    {event : Event γ} {r : Reply}
    (h : p.Follows queueName t)
    (htouches : p.Touches p' queueName event r)
    (hfree : queueName ∉ p.life.stuck) :
    (t.step event).1 = r ∧ p'.Follows queueName (t.step event).2 := by
  obtain ⟨hstep, _⟩ := Process.Follows.step_eq (N := ⟨System.step, fun _ _ => True⟩) h htouches hfree
  rw [hstep]
  have hissued : ((p.systemOf queueName).step event).2.issued = p'.issuedAt queueName := by
    rw [System.step_issued, Process.issuedAt_append htouches.issued, if_pos rfl]
    rfl
  refine ⟨htouches.answers, htouches.backend.symm, htouches.journal.symm, hissued, ?_⟩
  intro hfree' engine hengine
  have hr : r ≠ .crashed := by
    rintro rfl
    rcases htouches.life with ⟨_, hr⟩ | ⟨_, locked, hlife⟩
    · exact hr rfl
    · rw [hlife, Life.stuck_stopAt] at hfree'
      exact hfree' List.mem_cons_self
  rw [← htouches.engine hr]
  exact hengine

/-- An admitted section finds the engine unlocked. -/
theorem Process.Admits.unlocked
    {e : Turn γ} {event : Event γ} {r : Reply}
    (h : p.Admits e)
    (hnote : (p.step e).1.touched = some (queueName, event, r)) :
    queueName ∉ p.life.stuck := by
  cases e with
  | call | stop | start => cases hnote
  | turn caller env =>
      obtain ⟨stage, hstage, hlets⟩ := h
      rw [Process.step_turn hstage] at hnote
      rw [hnote] at hlets
      cases hlife : p.life with
      | up => exact List.not_mem_nil
      | down => exact List.not_mem_nil
      | dying stuck locked =>
          rw [hlife] at hlets
          obtain ⟨_, _, ⟨⟩, _, hq⟩ := hlets
          exact hq

/-- An event of the process is one of the system of the queue, or does not concern it. -/
theorem Process.Follows.step
    {e : Turn γ}
    (hstep : N.step = System.step)
    (hN : System.StartsAnyway N)
    (h : p.Follows queueName t)
    (hpointed : p.Pointed)
    (hguard : (concurrent N).guard p e) :
    ((p.step e).1.ofQueue queueName = none ∧ (p.step e).2.Follows queueName t) ∨
    ∃ f r,
      (p.step e).1.ofQueue queueName = some (f, r) ∧
      N.guard t f ∧ (N.step f t).1 = r ∧ (p.step e).2.Follows queueName (N.step f t).2 := by
  obtain ⟨hadmits, hguard⟩ := hguard
  rcases Process.step_cases (e := e) hpointed with
    ⟨hnone, hpasses⟩ | ⟨hnone, hclears⟩ | ⟨other, event, r, hnote, htouches⟩
  · exact .inl ⟨by rw [Note.ofQueue, hnone]; rfl, h.passes hpasses⟩
  · exact .inl ⟨by rw [Note.ofQueue, hnone]; rfl, h.clears hclears⟩
  · by_cases hne : queueName = other
    · subst hne
      have hfree := hadmits.unlocked hnote
      obtain ⟨hreply, hfollows⟩ := h.touched htouches hfree
      obtain ⟨_, hadmitted⟩ := h.step_eq (N := N) htouches hfree
      rw [hstep]
      exact .inr ⟨event, r, Note.ofQueue_self hnote, hadmitted hN (hguard _ hnote).1, hreply,
        hfollows⟩
    · refine .inl ⟨?_, h.others htouches hne⟩
      rw [Note.ofQueue, hnote]
      exact if_neg (fun heq => hne heq.symm)

/--
Any interleaving of calls is, for each queue, a run of the engine of that queue
alone: the sections that touched the engine, one after the other, with the replies
that the calls saw.
-/
theorem concurrent_project
    (hstep : N.step = System.step)
    (hN : System.StartsAnyway N)
    {es : List (Turn γ × Note γ)}
    (hrun : (concurrent N).Run p es p')
    (hpointed : p.Pointed)
    (ht : p.Follows queueName t) :
    ∃ t',
      N.Run t (es.filterMap (fun en => en.2.ofQueue queueName)) t' ∧
      p'.Pointed ∧ p'.Follows queueName t' := by
  refine Machine.Run.project (R := fun p t => p.Pointed ∧ p.Follows queueName t) ?_ ?_ hrun
    ⟨hpointed, ht⟩
  · rintro p t e ⟨hpointed, ht⟩ hguard hnone
    refine ⟨Process.step_pointed hpointed, ?_⟩
    rcases ht.step hstep hN hpointed hguard with ⟨_, h⟩ | ⟨f, r, hview, _⟩
    · exact h
    · exact absurd (hview.symm.trans hnone) (Option.some_ne_none _)
  · rintro p t e f r ⟨hpointed, ht⟩ hguard hsome
    rcases ht.step hstep hN hpointed hguard with ⟨hnone, _⟩ | ⟨f', r', hview, hf, hr, h⟩
    · exact absurd (hsome.symm.trans hnone) (Option.some_ne_none _)
    · cases hview.symm.trans hsome
      exact ⟨hf, hr, Process.step_pointed hpointed, h⟩

/--
Concurrent calls of a service are, for each queue, a run of the engine of that queue
alone.  Take any number of `Enqueue`, `Fetch`, `Ack`, `ReapExpired` and `Stats` calls
in progress at the same time, with their critical sections interleaved in any order,
and processes that stop inside any of them and are started again.  Then the sections
that concern one queue, with the replies the calls saw, are a run of its engine from
the storage it began with, and that run ends in the storage the queue has now; if the
process runs, also in the engine the queue has now.
-/
theorem interleaved_calls_are_engine_runs
    (hstep : N.step = System.step)
    (hN : System.StartsAnyway N)
    {config : ServiceConfig} {backends : GoString → β} {journals : GoString → γ}
    {es : List (Turn γ × Note γ)}
    (hrun : (concurrent N).Run (.cold config backends journals) es p) (queueName : GoString) :
    ∃ t,
      N.Run ⟨none, backends queueName, journals queueName, []⟩
        (es.filterMap (fun en => en.2.ofQueue queueName)) t ∧
      t.backend = p.service.backends queueName ∧
      t.journal = p.service.journals queueName ∧
      (p.life = .up → ∀ engine, p.service.engines.lookup queueName = some engine →
        t.process = some engine) := by
  obtain ⟨t, ht, _, hfollows⟩ := concurrent_project hstep hN hrun Process.cold_pointed
    (Process.cold_follows config backends journals queueName)
  refine ⟨t, ht, hfollows.backend, hfollows.journal, fun hup => hfollows.engine ?_⟩
  rw [hup]
  exact List.not_mem_nil

end Projection

theorem anyRestart_startsAnyway : System.StartsAnyway anyRestart :=
  fun _ _ _ _ _ _ h => h

theorem durable_startsAnyway : System.StartsAnyway durable :=
  fun _ _ _ _ _ _ h => h

section TwoCalls

/-- The surroundings of a section that generates the UUID `id`. -/
def turnWith (id : GoString) : TurnEnv LeaseLog :=
  ⟨id, 0, Opening.unused, []⟩

/-- A `Fetch` and an `Enqueue` on a new queue, section by section in turns. -/
def twoCalls : List (Turn LeaseLog) :=
  [.start ⟨3, 0, [], true, 0⟩,
    .call 1 (.fetch (goString "a") 5),
    .call 2 (.enqueue (goString "a") (goString "p")),
    .turn 1 (turnWith []),
    .turn 2 (turnWith []),
    .turn 2 (turnWith (goString "t")),
    .turn 1 (turnWith (goString "L"))]

/-- Queues with empty storage. -/
abbrev noQueues : Process Storage LeaseLog :=
  .cold ⟨3, 0, [], true, 0⟩ (fun _ => ⟨⟨MemoryQueue.new, []⟩, []⟩) (fun _ => ⟨[], []⟩)

theorem interleaved_calls_are_engine_runs_two :
    ∃ es t,
      durable.Run (System.empty [] []) es t ∧
      es.map Prod.snd =
        [.started,
          .enqueued ⟨goString "t", goString "p", 0⟩,
          .fetched ⟨goString "L", ⟨goString "t", goString "p", 0⟩, 0, 5⟩] := by
  have hadmits : (concurrent durable).Admits noQueues twoCalls := by decide +kernel
  obtain ⟨t, ht, _⟩ := interleaved_calls_are_engine_runs rfl durable_startsAnyway
    (Machine.run_of_admits _ _ hadmits) (goString "a")
  exact ⟨_, t, ht, by decide +kernel⟩

end TwoCalls

end Moxy
