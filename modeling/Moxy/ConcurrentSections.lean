import Moxy.ConcurrentService

/-!
# Moxy: what a critical section can do

A section touches one engine or none.  If it touches one, it performs one event of
the system that this engine is with its storage, and leaves all other queues alone
(`Process.Touches`).  If it touches none, only the list of calls changes
(`Process.Passes`).  `Process.step_cases` says that there is nothing else, except for
the end and the start of the process (`Process.Clears`).

Calls keep pointers to engines between their sections.  The engines they point to
exist as long as the process lives (`Process.step_pointed`), because no engine is ever
removed.
-/

namespace Moxy

open Lib Lib.CrashM

namespace Service

variable {β γ : Type} {opening : Opening γ} {queueName : GoString} {s : Service β γ}

/-- The engine of one queue and its storage have been replaced, and nothing else. -/
structure SetAt (queueName : GoString) (w : World β γ) (s s' : Service β γ) : Prop where
  engine : s'.engines.lookup queueName = some w.engine
  backend : s'.backends queueName = w.backend
  journal : s'.journals queueName = w.journal
  others : ∀ other, other ≠ queueName → SameAt other s s'

theorem setAt_putBack
    {engine : Engine}
    (h : s.engines.lookup queueName = some engine) (w : World β γ) :
    SetAt queueName w s (s.putBack queueName w) where
  engine := by simp [putBack, Map.lookup_replace_ite, h]
  backend := Function.update_self _ _ _
  journal := Function.update_self _ _ _
  others _ hne := sameAt_putBack hne w s

theorem setAt_install
    (w : World β γ) :
    SetAt queueName w s (s.install queueName w) where
  engine := AList.lookup_insert _
  backend := Function.update_self _ _ _
  journal := Function.update_self _ _ _
  others _ hne := sameAt_install hne w s

/-- The journal that is installed replaces one that was set before. -/
theorem zoom_install_journal
    (journal : γ) (m : EngineM β γ Unit) :
    zoom (fun s => ⟨Engine.blank s.config.engine, s.backends queueName, s.journals queueName⟩)
        (install queueName) m
        { s with journals := Function.update s.journals queueName journal } =
      zoom (fun s => ⟨Engine.blank s.config.engine, s.backends queueName, journal⟩)
        (install queueName) m s := by
  have hinstall : ∀ w,
      install queueName w { s with journals := Function.update s.journals queueName journal } =
        s.install queueName w := by
    intro w
    simp only [install, Function.update_idem]
  unfold zoom
  simp only [Function.update_self, hinstall]

variable [Backend β] [Journal γ]

theorem createEngine_eq_zoom
    (orders : RestoreOrders) (recovered : List Record)
    (h : s.engines.lookup queueName = none) :
    createEngine queueName orders recovered s =
      zoom (fun s => ⟨Engine.blank s.config.engine, s.backends queueName, s.journals queueName⟩)
        (install queueName) (newEngine s.config.engine orders recovered) s := by
  have hworld : s.world queueName =
      ⟨Engine.blank s.config.engine, s.backends queueName, s.journals queueName⟩ := by
    rw [world, h]
    rfl
  rw [createEngine, bind_of_ok (show CrashM.read s = .ok s s from rfl), zoom, zoom, hworld]

/-- What `engineFor` does when it makes no engine. -/
theorem engineFor_of_creates_none
    (h : s.creates opening queueName = none) :
    (engineFor opening queueName s = .ok () s ∧ s.engines.lookup queueName ≠ none) ∨
    ∃ err, engineFor opening queueName s = .error err s := by
  unfold creates at h
  unfold engineFor
  by_cases hname : validQueueName queueName = false
  · rw [if_pos hname]
    exact .inr ⟨_, rfl⟩
  rw [if_neg hname] at h ⊢
  rw [bind_of_ok (show CrashM.read s = .ok s s from rfl)]
  cases hl : s.engines.lookup queueName with
  | some engine => exact .inl ⟨rfl, Option.some_ne_none _⟩
  | none =>
      simp only [hl] at h
      dsimp only
      split_ifs at h ⊢ with hlimit hjournal
      · exact .inr ⟨_, rfl⟩
      · cases hopen : opening.journal with
        | error err => exact .inr ⟨err, rfl⟩
        | ok found =>
            rw [hopen] at h
            cases h

/-- What `engineFor` does when it makes an engine. -/
theorem engineFor_of_creates
    {event : Event γ}
    (h : s.creates opening queueName = some event) :
    s.engines.lookup queueName = none ∧
    ∃ orders journal recovered,
      event = .restart s.config.engine orders journal recovered ∧
      engineFor opening queueName s =
        zoom (fun s => ⟨Engine.blank s.config.engine, s.backends queueName, journal⟩)
          (install queueName) (newEngine s.config.engine orders recovered) s := by
  unfold creates at h
  unfold engineFor
  by_cases hname : validQueueName queueName = false
  · rw [if_pos hname] at h
    cases h
  rw [if_neg hname] at h ⊢
  rw [bind_of_ok (show CrashM.read s = .ok s s from rfl)]
  cases hl : s.engines.lookup queueName with
  | some engine =>
      rw [hl] at h
      cases h
  | none =>
      simp only [hl] at h
      refine ⟨rfl, ?_⟩
      dsimp only
      split_ifs at h ⊢ with hlimit hjournal
      · cases hopen : opening.journal with
        | error err =>
            rw [hopen] at h
            cases h
        | ok found =>
            obtain ⟨journal, recovered⟩ := found
            rw [hopen] at h
            cases h
            refine ⟨_, _, _, rfl, ?_⟩
            dsimp only
            rw [bind_of_ok (show update _ s = .ok () _ from rfl)]
            exact (createEngine_eq_zoom
              (s := { s with journals := Function.update s.journals queueName journal })
              _ _ hl).trans (zoom_install_journal journal _)
      · cases h
        exact ⟨_, _, _, rfl, createEngine_eq_zoom _ _ hl⟩

end Service

namespace System

variable {β γ α : Type} {s : System β γ} {engine : Engine} {m : EngineM β γ α}
  {reply : α → Reply} {w : World β γ}

theorem exec_of_ok
    {a : α} (h : m ⟨engine, s.backend, s.journal⟩ = .ok a w) :
    s.exec engine m reply = (reply a, s.resume w) := by
  rw [exec, h]

theorem exec_of_error
    {err : GoError} (h : m ⟨engine, s.backend, s.journal⟩ = .error err w) :
    s.exec engine m reply = (.failed err, s.resume w) := by
  rw [exec, h]

theorem exec_of_crashed
    (h : m ⟨engine, s.backend, s.journal⟩ = .crashed w) :
    s.exec engine m reply = (.crashed, s.halt w) := by
  rw [exec, h]

end System

namespace Process

section Steps

variable {β γ : Type} {p : Process β γ}

/-- The engines that calls point to exist. -/
def Pointed (p : Process β γ) : Prop :=
  ∀ caller stage, p.calls.lookup caller = some stage →
    ∀ queueName ∈ stage.engines, p.service.engines.lookup queueName ≠ none

/-- What a section that touches an engine does to the process. -/
structure Touches [Backend β] [Journal γ] (p p' : Process β γ) (queueName : GoString) (event : Event γ) (reply : Reply) :
    Prop where
  answers : ((p.systemOf queueName).step event).1 = reply
  backend : p'.service.backends queueName = ((p.systemOf queueName).step event).2.backend
  journal : p'.service.journals queueName = ((p.systemOf queueName).step event).2.journal
  issued : p'.issued = event.newIDs.map (fun id => (queueName, id)) ++ p.issued
  engine : reply ≠ .crashed →
    p'.service.engines.lookup queueName = ((p.systemOf queueName).step event).2.process
  exists_engine : p'.service.engines.lookup queueName ≠ none
  life : p'.life = p.life ∧ reply ≠ .crashed ∨
    reply = .crashed ∧ ∃ locked, p'.life = p.life.stopAt queueName locked
  others : ∀ other, other ≠ queueName → Service.SameAt other p.service p'.service
  starts : (p.service.engines.lookup queueName).isSome ∨
    ∃ config orders journal recovered, event = .restart config orders journal recovered

/-- What a section that touches no engine does to the process. -/
structure Passes (p p' : Process β γ) : Prop where
  service : p'.service = p.service
  issued : p'.issued = p.issued
  life : p'.life = p.life

/-- What the end or the start of a process does. -/
structure Clears (p p' : Process β γ) : Prop where
  backends : p'.service.backends = p.service.backends
  journals : p'.service.journals = p.service.journals
  issued : p'.issued = p.issued
  engines : p'.service.engines = ∅
  calls : p'.calls = ∅
  stuck : p'.life.stuck = []

section Proceed

variable (caller : Nat) (stage : Stage) (touched : Option (GoString × Event γ × Reply))
  (next : Next) (p : Process β γ)

@[simp] theorem proceed_touched :
    (p.proceed caller stage touched next).1.touched = touched := by
  cases next <;> rfl

@[simp] theorem proceed_service :
    (p.proceed caller stage touched next).2.service = p.service := by
  cases next <;> rfl

@[simp] theorem proceed_life :
    (p.proceed caller stage touched next).2.life = p.life := by
  cases next <;> rfl

@[simp] theorem proceed_issued :
    (p.proceed caller stage touched next).2.issued = p.issued := by
  cases next <;> rfl

end Proceed

section Visit

variable {α : Type} {caller : Nat} {stage : Stage} {queueName : GoString} {event : Event γ}
  {m : EngineM β γ α} {reply : α → Reply} {next : Reply → Next} {w : World β γ}

theorem visit_of_ok
    {a : α} (h : m (p.service.world queueName) = .ok a w) :
    p.visit caller stage queueName event m reply next =
      (p.leave queueName event w).proceed caller stage
        (some (queueName, event, reply a)) (next (reply a)) := by
  rw [visit, h]

theorem visit_of_error
    {err : GoError} (h : m (p.service.world queueName) = .error err w) :
    p.visit caller stage queueName event m reply next =
      (p.leave queueName event w).proceed caller stage
        (some (queueName, event, .failed err)) (next (.failed err)) := by
  rw [visit, h]

theorem visit_of_crashed
    (h : m (p.service.world queueName) = .crashed w) :
    p.visit caller stage queueName event m reply next =
      (p.leave queueName event w).die caller
        (some (queueName, event, .crashed)) queueName false := by
  rw [visit, h]

end Visit

section Calls

theorem ackNext_engines
    {leaseID : GoString} {queues : List GoString} {stage : Stage}
    (h : ackNext leaseID queues = .stage stage) :
    stage.engines = queues := by
  cases queues with
  | nil => cases h
  | cons queueName rest =>
      cases h
      rfl

theorem afterAck_engines
    {leaseID : GoString} {rest : List GoString} {reply : Reply} {stage : Stage}
    (h : afterAck leaseID rest reply = .stage stage) :
    stage.engines = rest := by
  cases reply with
  | failed err =>
      simp only [afterAck] at h
      split_ifs at h
      exact ackNext_engines h
  | enqueued | fetched | acked | reaped | started | crashed | down => cases h

theorem reapNext_engines
    {now : Int} {total : Nat} {errs : List GoError} {queues : List GoString} {stage : Stage}
    (h : reapNext now total errs queues = .stage stage) :
    stage.engines = queues := by
  cases queues with
  | nil => cases h
  | cons queueName rest =>
      cases h
      rfl

theorem afterReap_engines
    {now : Int} {rest : List GoString} {total : Nat} {errs : List GoError} {reply : Reply}
    {stage : Stage}
    (h : afterReap now rest total errs reply = .stage stage) :
    stage.engines = rest := by
  cases reply with
  | reaped count err => exact reapNext_engines h
  | enqueued | fetched | acked | failed | started | crashed | down => cases h

theorem lookup_of_erase
    {calls : Map Nat Stage} {caller other : Nat} {stage : Stage}
    (h : (calls.erase caller).lookup other = some stage) :
    calls.lookup other = some stage := by
  rw [Map.lookup_erase_ite] at h
  split_ifs at h
  exact h

/-- The calls after a section: the others as before, the one of the section at `next`. -/
theorem proceed_calls
    {caller other : Nat} {stage stage' : Stage}
    {touched : Option (GoString × Event γ × Reply)} {next : Next}
    (h : (p.proceed caller stage touched next).2.calls.lookup other = some stage') :
    p.calls.lookup other = some stage' ∨ (other = caller ∧ next = .stage stage') := by
  cases next with
  | stage st =>
      change (p.calls.insert caller st).lookup other = some stage' at h
      rw [Map.lookup_insert_ite] at h
      split_ifs at h with heq
      · cases h
        exact .inr ⟨heq, rfl⟩
      · exact .inl h
  | answer a => exact .inl (lookup_of_erase (show (p.calls.erase caller).lookup other = _ from h))

theorem visit_calls
    {α : Type} {caller other : Nat} {stage stage' : Stage} {queueName : GoString}
    {event : Event γ} {m : EngineM β γ α} {reply : α → Reply} {next : Reply → Next}
    (h : (p.visit caller stage queueName event m reply next).2.calls.lookup other =
      some stage') :
    p.calls.lookup other = some stage' ∨ ∃ r, next r = .stage stage' := by
  cases hm : m (p.service.world queueName) with
  | ok a w =>
      rw [visit_of_ok hm] at h
      exact (proceed_calls h).imp_right (fun h => ⟨_, h.2⟩)
  | error err w =>
      rw [visit_of_error hm] at h
      exact (proceed_calls h).imp_right (fun h => ⟨_, h.2⟩)
  | crashed w =>
      rw [visit_of_crashed hm] at h
      exact .inl (lookup_of_erase (show (p.calls.erase caller).lookup other = _ from h))

end Calls

variable [Backend β] [Journal γ]

/-- A section that returned, if it set the engine to what its system became. -/
theorem touches_of_resumed
    {p' : Process β γ} {queueName : GoString} {event : Event γ} {r : Reply} {w : World β γ}
    {t : System β γ}
    (hset : Service.SetAt queueName w p.service p'.service)
    (hissued : p'.issued = event.newIDs.map (fun id => (queueName, id)) ++ p.issued)
    (hlife : p'.life = p.life)
    (hr : r ≠ .crashed)
    (hstep : (p.systemOf queueName).step event = (r, t.resume w))
    (hstarts : (p.service.engines.lookup queueName).isSome ∨
      ∃ config orders journal recovered, event = .restart config orders journal recovered) :
    Touches p p' queueName event r where
  answers := by rw [hstep]
  backend := by
    rw [hstep]
    exact hset.backend
  journal := by
    rw [hstep]
    exact hset.journal
  issued := hissued
  engine _ := by
    rw [hstep]
    exact hset.engine
  exists_engine := by
    rw [hset.engine]
    exact Option.some_ne_none _
  life := .inl ⟨hlife, hr⟩
  others := hset.others
  starts := hstarts

/-- A section in which the process stopped. -/
theorem touches_of_halted
    {p' : Process β γ} {queueName : GoString} {event : Event γ} {w : World β γ}
    {t : System β γ} {locked : Bool}
    (hset : Service.SetAt queueName w p.service p'.service)
    (hissued : p'.issued = event.newIDs.map (fun id => (queueName, id)) ++ p.issued)
    (hlife : p'.life = p.life.stopAt queueName locked)
    (hstep : (p.systemOf queueName).step event = (.crashed, t.halt w))
    (hstarts : (p.service.engines.lookup queueName).isSome ∨
      ∃ config orders journal recovered, event = .restart config orders journal recovered) :
    Touches p p' queueName event .crashed where
  answers := by rw [hstep]
  backend := by
    rw [hstep]
    exact hset.backend
  journal := by
    rw [hstep]
    exact hset.journal
  issued := hissued
  engine h := absurd rfl h
  exists_engine := by
    rw [hset.engine]
    exact Option.some_ne_none _
  life := .inr ⟨rfl, locked, hlife⟩
  others := hset.others
  starts := hstarts

/-- An operation of an existing engine is an event of its system. -/
theorem visit_touches
    {α : Type} {caller : Nat} {stage : Stage} {queueName : GoString} {event : Event γ}
    {m : EngineM β γ α} {reply : α → Reply} {next : Reply → Next} {engine : Engine}
    (hengine : p.service.engines.lookup queueName = some engine)
    (hreply : ∀ a, reply a ≠ .crashed)
    (hstep : (p.systemOf queueName).step event =
      System.exec { p.systemOf queueName with issued := event.newIDs ++ p.issuedAt queueName }
        engine m reply) :
    ∃ r,
      (p.visit caller stage queueName event m reply next).1.touched =
        some (queueName, event, r) ∧
      Touches p (p.visit caller stage queueName event m reply next).2 queueName event r := by
  have hworld : p.service.world queueName =
      ⟨engine, p.service.backends queueName, p.service.journals queueName⟩ := by
    rw [Service.world, hengine]
    rfl
  have hstarts : (p.service.engines.lookup queueName).isSome ∨
      ∃ config orders journal recovered, event = .restart config orders journal recovered := by
    rw [hengine]
    exact .inl rfl
  have hset := Service.setAt_putBack hengine
  cases ho : m ⟨engine, p.service.backends queueName, p.service.journals queueName⟩ with
  | ok a w =>
      rw [System.exec_of_ok ho] at hstep
      rw [visit_of_ok (hworld ▸ ho)]
      refine ⟨_, proceed_touched _ _ _ _ _, ?_⟩
      exact touches_of_resumed (by rw [proceed_service]; exact hset w) (proceed_issued _ _ _ _ _)
        (proceed_life _ _ _ _ _) (hreply a) hstep hstarts
  | error err w =>
      rw [System.exec_of_error ho] at hstep
      rw [visit_of_error (hworld ▸ ho)]
      refine ⟨_, proceed_touched _ _ _ _ _, ?_⟩
      exact touches_of_resumed (by rw [proceed_service]; exact hset w) (proceed_issued _ _ _ _ _)
        (proceed_life _ _ _ _ _) Reply.noConfusion hstep hstarts
  | crashed w =>
      rw [System.exec_of_crashed ho] at hstep
      rw [visit_of_crashed (hworld ▸ ho)]
      exact ⟨_, rfl, touches_of_halted (hset w) rfl rfl hstep hstarts⟩

/-- A creation of an engine is a start of its system. -/
theorem enter_touches
    {caller : Nat} {stage next : Stage} {opening : Opening γ} {queueName : GoString}
    {event : Event γ}
    (h : p.service.creates opening queueName = some event) :
    ∃ r,
      (p.enter caller stage opening queueName next).1.touched = some (queueName, event, r) ∧
      Touches p (p.enter caller stage opening queueName next).2 queueName event r := by
  obtain ⟨_, orders, journal, recovered, rfl, heq⟩ := Service.engineFor_of_creates h
  have hstep : (p.systemOf queueName).step
      (.restart p.service.config.engine orders journal recovered) =
      System.exec { p.systemOf queueName with journal := journal }
        (Engine.blank p.service.config.engine)
        (newEngine p.service.config.engine orders recovered) (fun _ => .started) :=
    rfl
  have hstarts : (p.service.engines.lookup queueName).isSome ∨
      ∃ config orders' journal' recovered',
        Event.restart p.service.config.engine orders journal recovered =
          .restart config orders' journal' recovered' :=
    .inr ⟨_, _, _, _, rfl⟩
  have hset := @Service.setAt_install β γ queueName p.service
  unfold enter
  rw [heq, h]
  unfold zoom
  cases ho : newEngine p.service.config.engine orders recovered
      ⟨Engine.blank p.service.config.engine, p.service.backends queueName, journal⟩ with
  | ok a w =>
      rw [System.exec_of_ok ho] at hstep
      refine ⟨_, proceed_touched _ _ _ _ _, ?_⟩
      exact touches_of_resumed (by rw [proceed_service]; exact hset w)
        (proceed_issued _ _ _ _ _) (proceed_life _ _ _ _ _) Reply.noConfusion
        hstep hstarts
  | error err w =>
      rw [System.exec_of_error ho] at hstep
      refine ⟨_, proceed_touched _ _ _ _ _, ?_⟩
      exact touches_of_resumed (by rw [proceed_service]; exact hset w)
        (proceed_issued _ _ _ _ _) (proceed_life _ _ _ _ _) Reply.noConfusion
        hstep hstarts
  | crashed w =>
      rw [System.exec_of_crashed ho] at hstep
      exact ⟨_, rfl, touches_of_halted (hset w) rfl rfl hstep hstarts⟩

omit [Backend β] [Journal γ] in
theorem proceed_passes
    (caller : Nat) (stage : Stage) (next : Next) (p : Process β γ) :
    Passes p (p.proceed caller stage none next).2 :=
  ⟨proceed_service _ _ _ _ _, proceed_issued _ _ _ _ _, proceed_life _ _ _ _ _⟩

/-- A lookup of an engine touches none. -/
theorem enter_passes
    {caller : Nat} {stage next : Stage} {opening : Opening γ} {queueName : GoString}
    (h : p.service.creates opening queueName = none) :
    (p.enter caller stage opening queueName next).1.touched = none ∧
    Passes p (p.enter caller stage opening queueName next).2 := by
  unfold enter
  rw [h]
  rcases Service.engineFor_of_creates_none h with ⟨heq, _⟩ | ⟨err, heq⟩
  · rw [heq]
    exact ⟨proceed_touched _ _ _ _ _, proceed_passes caller stage _ p⟩
  · rw [heq]
    exact ⟨proceed_touched _ _ _ _ _, proceed_passes caller stage _ p⟩

/-- A section of an engine is an event of its system. -/
theorem advance_visits
    {caller : Nat} {env : TurnEnv γ} {stage : Stage} {queueName : GoString} {rest : List GoString}
    (hpointed : ∀ q ∈ stage.engines, p.service.engines.lookup q ≠ none)
    (hengines : stage.engines = queueName :: rest) :
    ((p.advance caller env stage).1.touched = none ∧ Passes p (p.advance caller env stage).2) ∨
    ∃ event r,
      (p.advance caller env stage).1.touched = some (queueName, event, r) ∧
      Touches p (p.advance caller env stage).2 queueName event r := by
  obtain ⟨engine, hengine⟩ : ∃ engine, p.service.engines.lookup queueName = some engine :=
    Option.ne_none_iff_exists'.mp (hpointed queueName (by rw [hengines]; exact List.mem_cons_self))
  cases stage with
  | entered call => cases hengines
  | enqueuing q payload =>
      cases hengines
      refine .inr ⟨.enqueue env.newID payload, visit_touches hengine (fun _ => Reply.noConfusion) ?_⟩
      simp only [System.step, systemOf, hengine]
  | fetching q timeout =>
      cases hengines
      refine .inr ⟨.fetch env.newID env.now timeout, visit_touches hengine (fun _ => Reply.noConfusion) ?_⟩
      simp only [System.step, systemOf, hengine]
  | acking leaseID q rest =>
      cases hengines
      refine .inr ⟨.ack leaseID, visit_touches hengine (fun _ => Reply.noConfusion) ?_⟩
      simp only [System.step, systemOf, hengine]
  | reaping now q rest total errs =>
      cases hengines
      refine .inr ⟨.reap now, visit_touches hengine (fun _ => Reply.noConfusion) ?_⟩
      simp only [System.step, systemOf, hengine]
  | counting q => exact .inl ⟨proceed_touched _ _ _ _ _, proceed_passes _ _ _ p⟩

/-- What a section does: it touches no engine, or one. -/
theorem advance_cases
    {caller : Nat} {env : TurnEnv γ} {stage : Stage}
    (hpointed : ∀ q ∈ stage.engines, p.service.engines.lookup q ≠ none) :
    ((p.advance caller env stage).1.touched = none ∧ Passes p (p.advance caller env stage).2) ∨
    ∃ queueName event r,
      (p.advance caller env stage).1.touched = some (queueName, event, r) ∧
      Touches p (p.advance caller env stage).2 queueName event r := by
  have henter : ∀ opening queueName next,
      ((p.enter caller stage opening queueName next).1.touched = none ∧
        Passes p (p.enter caller stage opening queueName next).2) ∨
      ∃ queueName' event r,
        (p.enter caller stage opening queueName next).1.touched = some (queueName', event, r) ∧
        Touches p (p.enter caller stage opening queueName next).2 queueName' event r := by
    intro opening queueName next
    cases hc : p.service.creates opening queueName with
    | none => exact .inl (enter_passes hc)
    | some event =>
        obtain ⟨r, h⟩ := enter_touches hc
        exact .inr ⟨queueName, event, r, h⟩
  have hproceed : ∀ next,
      ((p.proceed caller stage none next).1.touched = none ∧
        Passes p (p.proceed caller stage none next).2) :=
    fun next => ⟨proceed_touched _ _ _ _ _, proceed_passes _ _ _ p⟩
  cases hengines : stage.engines with
  | cons queueName rest =>
      rcases advance_visits hpointed hengines with h | ⟨event, r, h⟩
      · exact .inl h
      · exact .inr ⟨queueName, event, r, h⟩
  | nil =>
      cases stage with
      | entered call =>
          cases call with
          | enqueue queueName payload => exact henter _ _ _
          | fetch queueName timeout => exact henter _ _ _
          | ack leaseID => exact .inl (hproceed _)
          | reap now => exact .inl (hproceed _)
          | stats queueName => exact .inl (hproceed _)
      | enqueuing | fetching | acking | reaping | counting => cases hengines

theorem step_turn
    {caller : Nat} {env : TurnEnv γ} {stage : Stage}
    (h : p.calls.lookup caller = some stage) :
    p.step (.turn caller env) = p.advance caller env stage := by
  simp only [step, h]

theorem step_turn_none
    {caller : Nat} {env : TurnEnv γ}
    (h : p.calls.lookup caller = none) :
    p.step (.turn caller env) = (⟨none, none⟩, p) := by
  simp only [step, h]

section Pointers

/-- A call that has passed `engineFor` points to an engine. -/
theorem enter_calls
    {caller other : Nat} {stage stage' next : Stage} {opening : Opening γ}
    {queueName : GoString}
    (h : (p.enter caller stage opening queueName next).2.calls.lookup other = some stage') :
    p.calls.lookup other = some stage' ∨
    (stage' = next ∧
      (p.enter caller stage opening queueName next).2.service.engines.lookup queueName ≠ none) := by
  have hcalls : p.calls.lookup other = some stage' ∨
      (stage' = next ∧ ∃ s, Service.engineFor opening queueName p.service = .ok () s) := by
    unfold enter at h
    cases ho : Service.engineFor opening queueName p.service with
    | ok a s =>
        rw [ho] at h
        rcases proceed_calls h with h | ⟨_, ⟨⟩⟩
        · exact .inl h
        · exact .inr ⟨rfl, s, rfl⟩
    | error err s =>
        rw [ho] at h
        rcases proceed_calls h with h | ⟨_, ⟨⟩⟩
        exact .inl h
    | crashed s =>
        rw [ho] at h
        exact .inl (lookup_of_erase (show (p.calls.erase caller).lookup other = _ from h))
  refine hcalls.imp_right (fun ⟨hnext, s, ho⟩ => ⟨hnext, ?_⟩)
  cases hc : p.service.creates opening queueName with
  | some event =>
      obtain ⟨_, _, htouches⟩ := @enter_touches β γ p _ _ caller stage next _ _ _ hc
      exact htouches.exists_engine
  | none =>
      rcases Service.engineFor_of_creates_none hc with ⟨heq, hl⟩ | ⟨err, heq⟩
      · unfold enter
        rw [heq, proceed_service]
        exact hl
      · rw [heq] at ho
        cases ho

end Pointers

/-- What an event does. -/
theorem step_cases
    {e : Turn γ} (hpointed : p.Pointed) :
    ((p.step e).1.touched = none ∧ Passes p (p.step e).2) ∨
    ((p.step e).1.touched = none ∧ Clears p (p.step e).2) ∨
    ∃ queueName event r,
      (p.step e).1.touched = some (queueName, event, r) ∧
      Touches p (p.step e).2 queueName event r := by
  cases e with
  | call caller call => exact .inl ⟨rfl, rfl, rfl, rfl⟩
  | stop => exact .inr (.inl ⟨rfl, rfl, rfl, rfl, rfl, rfl, rfl⟩)
  | start config => exact .inr (.inl ⟨rfl, rfl, rfl, rfl, rfl, rfl, rfl⟩)
  | turn caller env =>
      cases hstage : p.calls.lookup caller with
      | none =>
          rw [step_turn_none hstage]
          exact .inl ⟨rfl, rfl, rfl, rfl⟩
      | some stage =>
          rw [step_turn hstage]
          exact (advance_cases (hpointed caller stage hstage)).imp_right .inr

/-- The calls after a section point to engines that exist. -/
theorem advance_calls
    {caller other : Nat} {env : TurnEnv γ} {stage stage' : Stage}
    (hpointed : ∀ q ∈ stage.engines, p.service.engines.lookup q ≠ none)
    (h : (p.advance caller env stage).2.calls.lookup other = some stage') :
    p.calls.lookup other = some stage' ∨
    ∀ q ∈ stage'.engines,
      p.service.engines.lookup q ≠ none ∨
        (p.advance caller env stage).2.service.engines.lookup q ≠ none := by
  have hsub : ∀ rest, (∀ q ∈ rest, q ∈ stage.engines) → stage'.engines = rest →
      ∀ q ∈ stage'.engines,
        p.service.engines.lookup q ≠ none ∨
          (p.advance caller env stage).2.service.engines.lookup q ≠ none := by
    rintro rest hrest rfl q hq
    exact .inl (hpointed q (hrest q hq))
  have hsingle : ∀ {queueName : GoString},
      (p.advance caller env stage).2.service.engines.lookup queueName ≠ none →
      ∀ q ∈ [queueName],
        p.service.engines.lookup q ≠ none ∨
          (p.advance caller env stage).2.service.engines.lookup q ≠ none := by
    intro queueName hl q hq
    rw [List.mem_singleton.mp hq]
    exact .inr hl
  cases stage with
  | entered call =>
      cases call with
      | enqueue queueName payload =>
          refine (enter_calls h).imp_right ?_
          rintro ⟨rfl, hl⟩
          exact hsingle hl
      | fetch queueName timeout =>
          refine (enter_calls h).imp_right ?_
          rintro ⟨rfl, hl⟩
          exact hsingle hl
      | ack leaseID =>
          refine (proceed_calls h).imp_right ?_
          rintro ⟨_, hnext⟩ q hq
          rw [ackNext_engines hnext] at hq
          exact .inl ((Service.mem_existingEngines _ _).mp hq)
      | reap now =>
          refine (proceed_calls h).imp_right ?_
          rintro ⟨_, hnext⟩ q hq
          rw [reapNext_engines hnext] at hq
          exact .inl ((Service.mem_existingEngines _ _).mp hq)
      | stats queueName =>
          refine (proceed_calls h).imp_right ?_
          rintro ⟨_, hnext⟩
          split_ifs at hnext
          cases hl : p.service.engines.lookup queueName with
          | none =>
              rw [hl] at hnext
              cases hnext
          | some engine =>
              rw [hl] at hnext
              cases hnext
              intro q hq
              rw [List.mem_singleton.mp hq, hl]
              exact .inl (Option.some_ne_none _)
  | enqueuing queueName payload =>
      refine (visit_calls h).imp_right ?_
      rintro ⟨r, ⟨⟩⟩
  | fetching queueName timeout =>
      refine (visit_calls h).imp_right ?_
      rintro ⟨r, ⟨⟩⟩
  | acking leaseID queueName rest =>
      refine (visit_calls h).imp_right ?_
      rintro ⟨r, hnext⟩
      exact hsub rest (fun q hq => List.mem_cons_of_mem _ hq) (afterAck_engines hnext)
  | reaping now queueName rest total errs =>
      refine (visit_calls h).imp_right ?_
      rintro ⟨r, hnext⟩
      exact hsub rest (fun q hq => List.mem_cons_of_mem _ hq) (afterReap_engines hnext)
  | counting queueName =>
      refine (proceed_calls h).imp_right ?_
      rintro ⟨_, ⟨⟩⟩

/-- Engines stay where they are while the process runs. -/
theorem Touches.grows
    {p' : Process β γ} {queueName q : GoString} {event : Event γ} {r : Reply}
    (h : Touches p p' queueName event r)
    (hq : p.service.engines.lookup q ≠ none) :
    p'.service.engines.lookup q ≠ none := by
  by_cases heq : q = queueName
  · rw [heq]
    exact h.exists_engine
  · rw [(h.others q heq).engine]
    exact hq

/-- Calls never point to an engine that does not exist. -/
theorem step_pointed
    {e : Turn γ} (hpointed : p.Pointed) :
    (p.step e).2.Pointed := by
  cases e with
  | call caller call =>
      intro other stage h q hq
      change (p.calls.insert caller (.entered call)).lookup other = some stage at h
      rw [Map.lookup_insert_ite] at h
      split_ifs at h
      · cases h
        cases hq
      · exact hpointed other stage h q hq
  | stop =>
      intro other stage h
      cases h
  | start config =>
      intro other stage h
      cases h
  | turn caller env =>
      cases hstage : p.calls.lookup caller with
      | none =>
          rw [step_turn_none hstage]
          exact hpointed
      | some stage =>
          rw [step_turn hstage]
          have hengines := hpointed caller stage hstage
          have hgrows : ∀ q, p.service.engines.lookup q ≠ none →
              (p.advance caller env stage).2.service.engines.lookup q ≠ none := by
            intro q hq
            rcases @advance_cases β γ p _ _ caller env stage hengines with
              ⟨_, h⟩ | ⟨_, _, _, _, h⟩
            · rw [h.service]
              exact hq
            · exact h.grows hq
          intro other stage' h q hq
          rcases advance_calls hengines h with hold | hnew
          · exact hgrows q (hpointed other stage' hold q hq)
          · exact (hnew q hq).elim (hgrows q) id

end Steps

end Process

end Moxy
