import Moxy.Service
import Mathlib.Logic.Function.Basic

/-!
# Moxy: a service process and its restarts

A `Host` is a service process that may be down, on storage that outlives it.
Its events are the operations of the service, a stop, and the start of a new
service over the same storage.

Two rules carry the later proofs.  An operation on one queue leaves every other
queue as it was (`SameAt`), and what every operation of an engine keeps holds for
every engine of every reachable host (`Host.run_each`).
-/

namespace Moxy

open Lib Lib.CrashM

/-- What can happen to a host. -/
inductive ServiceEvent (γ : Type) where
  | enqueue (opening : Opening γ) (queueName newID : GoString) (payload : Bytes)
  | fetch (opening : Opening γ) (queueName leaseID : GoString) (now timeout : Int)
  | ack (order : List GoString) (leaseID : GoString)
  | reap (order : List GoString) (now : Int)
  | stop
  | start (config : ServiceConfig)

/-- The journal of a queue that has not been used opens without records. -/
def Opening.unused : Opening LeaseLog :=
  ⟨.ok (⟨[], []⟩, []), ⟨[], [], []⟩⟩

/-- A service process on its storage. -/
structure Host (β γ : Type) where
  service : Service β γ
  up : Bool

namespace Host

variable {β γ : Type}

/-- The storage that a stopped process leaves behind. -/
def down (s : Service β γ) : Host β γ :=
  ⟨{ s with engines := ∅ }, false⟩

/-- Run an operation and answer its caller. -/
def exec {α : Type} (h : Host β γ) (m : ServiceM β γ α) (reply : α → Reply) :
    Reply × Host β γ :=
  match m h.service with
  | .ok a s => (reply a, ⟨s, true⟩)
  | .error err s => (.failed err, ⟨s, true⟩)
  | .crashed s => (.crashed, down s)

variable [Backend β] [Journal γ]

/-- One event. -/
def step (e : ServiceEvent γ) (h : Host β γ) : Reply × Host β γ :=
  match e, h.up with
  | .start config, _ =>
      (.started,
        ⟨Service.newWithConfig config h.service.backends h.service.journals, true⟩)
  | .stop, _ => (.down, down h.service)
  | _, false => (.down, h)
  | .enqueue opening queueName newID payload, true =>
      h.exec (Service.enqueue opening queueName newID payload) .enqueued
  | .fetch opening queueName leaseID now timeout, true =>
      h.exec (Service.fetch opening queueName leaseID now timeout) .fetched
  | .ack order leaseID, true =>
      h.exec (Service.ack order leaseID) (fun _ => .acked)
  | .reap order now, true =>
      h.exec (Service.reapExpired order now) (fun r => .reaped r.1 r.2)

/-- However the operation `m` ends on the host `h`, the host then satisfies `P`. -/
def Ends {α : Type} (P : Host β γ → Prop) (h : Host β γ) (m : ServiceM β γ α) : Prop :=
  wp m (fun _ s => P ⟨s, true⟩) (fun _ s => P ⟨s, true⟩) (fun s => P (down s)) h.service

omit [Backend β] [Journal γ] in
theorem Ends.exec
    {α : Type} {P : Host β γ → Prop} {h : Host β γ} {m : ServiceM β γ α}
    {reply : α → Reply}
    (hm : Ends P h m) :
    P (h.exec m reply).2 := by
  unfold Ends wp at hm
  unfold Host.exec
  cases hend : m h.service with
  | ok a s =>
      rw [hend] at hm
      exact hm
  | error err s =>
      rw [hend] at hm
      exact hm
  | crashed s =>
      rw [hend] at hm
      exact hm

/-- The rule for one event: a host changes by its operations, a stop or a start. -/
theorem step_rule
    {P : Host β γ → Prop} {h : Host β γ} (e : ServiceEvent γ)
    (hsame : P h)
    (hempty : ∀ config up,
      P ⟨Service.newWithConfig config h.service.backends h.service.journals, up⟩)
    (henqueue : ∀ opening queueName newID payload,
      e = .enqueue opening queueName newID payload →
      Ends P h (Service.enqueue opening queueName newID payload))
    (hfetch : ∀ opening queueName leaseID now timeout,
      e = .fetch opening queueName leaseID now timeout →
      Ends P h (Service.fetch opening queueName leaseID now timeout))
    (hack : ∀ order leaseID,
      e = .ack order leaseID → Ends P h (Service.ack order leaseID))
    (hreap : ∀ order now,
      e = .reap order now → Ends P h (Service.reapExpired order now)) :
    P (h.step e).2 := by
  cases e with
  | start config =>
      exact hempty config true
  | stop =>
      exact hempty h.service.config false
  | enqueue opening queueName newID payload =>
      cases hup : h.up with
      | false => simpa [step, hup] using hsame
      | true => simpa [step, hup] using (henqueue _ _ _ _ rfl).exec
  | fetch opening queueName leaseID now timeout =>
      cases hup : h.up with
      | false => simpa [step, hup] using hsame
      | true => simpa [step, hup] using (hfetch _ _ _ _ _ rfl).exec
  | ack order leaseID =>
      cases hup : h.up with
      | false => simpa [step, hup] using hsame
      | true => simpa [step, hup] using (hack _ _ rfl).exec
  | reap order now =>
      cases hup : h.up with
      | false => simpa [step, hup] using hsame
      | true => simpa [step, hup] using (hreap _ _ rfl).exec

/-- Hosts whose journals open in any way. -/
def machine : Machine (Host β γ) (ServiceEvent γ) Reply where
  step := step
  guard _ _ := True

end Host

namespace Service

section Frame

variable {β γ : Type} {q queueName : GoString} {s s' t : Service β γ}

/-- Nothing about the queue `q` has changed. -/
structure SameAt (q : GoString) (s s' : Service β γ) : Prop where
  engine : s'.engines.lookup q = s.engines.lookup q
  backend : s'.backends q = s.backends q
  journal : s'.journals q = s.journals q

theorem SameAt.refl
    (q : GoString) (s : Service β γ) :
    SameAt q s s :=
  ⟨rfl, rfl, rfl⟩

theorem SameAt.trans
    (h₁ : SameAt q s s')
    (h₂ : SameAt q s' t) :
    SameAt q s t :=
  ⟨h₂.engine.trans h₁.engine, h₂.backend.trans h₁.backend,
    h₂.journal.trans h₁.journal⟩

theorem sameAt_putBack
    (h : q ≠ queueName) (w : World β γ) (s : Service β γ) :
    SameAt q s (s.putBack queueName w) := by
  constructor
  · simp [putBack, Map.lookup_replace_ite, h]
  · simp [putBack, h]
  · simp [putBack, h]

theorem sameAt_install
    (h : q ≠ queueName) (w : World β γ) (s : Service β γ) :
    SameAt q s (s.install queueName w) := by
  constructor
  · simp [install, h]
  · simp [install, h]
  · simp [install, h]

/-- However the operation `m` ends, the queue `q` is as it was. -/
def Spares {α : Type} (q : GoString) (m : ServiceM β γ α) (s : Service β γ) : Prop :=
  wp m (fun _ s' => SameAt q s s') (fun _ s' => SameAt q s s')
    (fun s' => SameAt q s s') s

theorem spares_zoom
    {α : Type} {m : EngineM β γ α} {get : Service β γ → World β γ}
    {set : World β γ → Service β γ → Service β γ}
    (h : ∀ w, SameAt q s (set w s)) :
    Spares q (zoom get set m) s := by
  unfold Spares
  rw [wp_zoom]
  unfold wp
  cases m (get s) <;> exact h _

/-- An operation behind another one spares what both spare. -/
theorem Spares.bind
    {α δ : Type} {m : ServiceM β γ α} {f : α → ServiceM β γ δ}
    (hm : Spares q m s)
    (hf : ∀ a s', Spares q (f a) s') :
    Spares q (m >>= f) s := by
  unfold Spares at *
  rw [wp_bind]
  refine wp_mono hm ?_ (fun _ _ h => h) (fun _ h => h)
  intro a s' hs'
  exact wp_mono (hf a s') (fun _ _ h => hs'.trans h) (fun _ _ h => hs'.trans h)
    (fun _ h => hs'.trans h)

theorem Spares.attempt
    {α : Type} {m : ServiceM β γ α}
    (h : Spares q m s) :
    Spares q (CrashM.attempt m) s := by
  unfold Spares at *
  rw [wp_attempt]
  exact h

theorem spares_read_bind
    {δ : Type} {f : Service β γ → ServiceM β γ δ}
    (h : Spares q (f s) s) :
    Spares q (read >>= f) s := by
  unfold Spares at *
  rw [wp_bind, wp_read]
  exact h

theorem onQueue_spares
    {α : Type} (m : EngineM β γ α)
    (h : q ≠ queueName) :
    Spares q (onQueue queueName m) s :=
  spares_zoom (fun w => sameAt_putBack h w s)

variable [Backend β] [Journal γ]

theorem createEngine_spares
    (orders : RestoreOrders) (recovered : List Record)
    (h : q ≠ queueName) :
    Spares q (createEngine queueName orders recovered) s :=
  spares_read_bind (spares_zoom (fun w => sameAt_install h w s))

theorem engineFor_spares
    (opening : Opening γ)
    (h : q ≠ queueName) :
    Spares q (engineFor opening queueName) s := by
  unfold engineFor
  split_ifs
  · exact SameAt.refl q s
  refine spares_read_bind ?_
  cases s.engines.lookup queueName with
  | some _ => exact SameAt.refl q s
  | none =>
      dsimp only
      split_ifs
      · exact SameAt.refl q s
      · rcases opening.journal with err | ⟨journal, recovered⟩
        · exact SameAt.refl q s
        · refine Spares.bind ?_ (fun _ s' => createEngine_spares _ _ h)
          exact ⟨rfl, rfl, by simp [h]⟩
      · exact createEngine_spares _ _ h

theorem ackScan_spares
    (leaseID : GoString) :
    ∀ (queues : List GoString) (s : Service β γ),
      q ∉ queues → Spares q (ackScan leaseID queues) s := by
  intro queues
  induction queues with
  | nil =>
      intro s _
      exact SameAt.refl q s
  | cons queueName rest ih =>
      intro s h
      obtain ⟨hne, hrest⟩ : q ≠ queueName ∧ q ∉ rest := by simpa using h
      refine Spares.bind (onQueue_spares _ hne).attempt ?_
      intro result s'
      cases result with
      | ok _ => exact SameAt.refl q s'
      | error err =>
          dsimp only
          split_ifs
          · exact ih s' hrest
          · exact SameAt.refl q s'

theorem reapScan_spares
    (now : Int) :
    ∀ (queues : List GoString) (total : Nat) (errs : List GoError)
      (s : Service β γ),
      q ∉ queues → Spares q (reapScan now queues total errs) s := by
  intro queues
  induction queues with
  | nil =>
      intro _ _ s _
      exact SameAt.refl q s
  | cons queueName rest ih =>
      intro total errs s h
      obtain ⟨hne, hrest⟩ : q ≠ queueName ∧ q ∉ rest := by simpa using h
      refine Spares.bind (onQueue_spares _ hne) ?_
      intro reaped s'
      exact ih _ _ s' hrest

omit [Backend β] [Journal γ] in
theorem mem_existingEngines
    (order : List GoString) (s : Service β γ) :
    q ∈ s.existingEngines order ↔ s.engines.lookup q ≠ none := by
  simp only [existingEngines, List.mem_map, Prod.exists, exists_and_right,
    exists_eq_right, Map.mem_range]
  exact Option.ne_none_iff_exists'.symm

/-- A scan of the engines does not touch a queue without an engine. -/
theorem ack_spares
    (order : List GoString) (leaseID : GoString)
    (h : s.engines.lookup q = none) :
    Spares q (ack order leaseID) s :=
  spares_read_bind
    (ackScan_spares leaseID _ s (fun hq => (mem_existingEngines order s).mp hq h))

theorem reapExpired_spares
    (order : List GoString) (now : Int)
    (h : s.engines.lookup q = none) :
    Spares q (reapExpired order now) s :=
  spares_read_bind
    (reapScan_spares now _ _ _ s (fun hq => (mem_existingEngines order s).mp hq h))

theorem enqueue_spares
    (opening : Opening γ) (newID : GoString) (payload : Bytes)
    (h : q ≠ queueName) :
    Spares q (enqueue opening queueName newID payload) s :=
  (engineFor_spares opening h).bind (fun _ _ => onQueue_spares _ h)

theorem fetch_spares
    (opening : Opening γ) (leaseID : GoString) (now timeout : Int)
    (h : q ≠ queueName) :
    Spares q (fetch opening queueName leaseID now timeout) s :=
  (engineFor_spares opening h).bind (fun _ _ => onQueue_spares _ h)

end Frame

section Each

variable {β γ : Type} {I : World β γ → Prop} {s : Service β γ}

/-- Every engine satisfies `I` on the storage of its queue. -/
def Each (I : World β γ → Prop) (s : Service β γ) : Prop :=
  ∀ q engine, s.engines.lookup q = some engine →
    I ⟨engine, s.backends q, s.journals q⟩

/-- If the process is still running after `m`, every engine satisfies `I`. -/
def KeepsEach {α : Type} (I : World β γ → Prop) (m : ServiceM β γ α)
    (s : Service β γ) : Prop :=
  wp m (fun _ s' => s'.Each I) (fun _ s' => s'.Each I) (fun _ => True) s

theorem Each.of_sameAt
    {s' : Service β γ} {queueName : GoString}
    (hs : s.Each I)
    (hsame : ∀ q, q ≠ queueName → SameAt q s s')
    (hqueue : ∀ engine, s'.engines.lookup queueName = some engine →
      I ⟨engine, s'.backends queueName, s'.journals queueName⟩) :
    s'.Each I := by
  intro q engine hengine
  by_cases hq : q = queueName
  · subst hq
    exact hqueue engine hengine
  · obtain ⟨he, hb, hj⟩ := hsame q hq
    rw [hb, hj]
    exact hs q engine (he ▸ hengine)

theorem KeepsEach.bind
    {α δ : Type} {m : ServiceM β γ α} {f : α → ServiceM β γ δ}
    (hm : KeepsEach I m s)
    (hf : ∀ a s', s'.Each I → KeepsEach I (f a) s') :
    KeepsEach I (m >>= f) s := by
  unfold KeepsEach at *
  rw [wp_bind]
  exact wp_mono hm (fun a s' hs' => hf a s' hs') (fun _ _ h => h) (fun _ h => h)

theorem KeepsEach.attempt
    {α : Type} {m : ServiceM β γ α}
    (h : KeepsEach I m s) :
    KeepsEach I (CrashM.attempt m) s := by
  unfold KeepsEach at *
  rw [wp_attempt]
  exact h

theorem onQueue_keepsEach
    {α : Type} {m : EngineM β γ α} (queueName : GoString)
    (hs : s.Each I)
    (hm : ∀ w, I w → System.Ends I m w) :
    KeepsEach I (onQueue queueName m) s := by
  have hback : ∀ w, (s.engines.lookup queueName ≠ none → I w) →
      (s.putBack queueName w).Each I := by
    intro w hw
    refine hs.of_sameAt (fun q hq => sameAt_putBack hq w s) ?_
    intro engine hengine
    cases hl : s.engines.lookup queueName with
    | none =>
        simp [putBack, Map.lookup_replace_ite, hl] at hengine
    | some old =>
        simp only [putBack, Map.lookup_replace_ite, hl, if_true, Option.map_some,
          Option.some.injEq] at hengine
        subst hengine
        simpa [putBack] using hw (by simp [hl])
  unfold KeepsEach
  rw [wp_onQueue]
  by_cases hl : s.engines.lookup queueName = none
  · -- Without an engine nothing is promised about the queue.
    unfold wp
    cases m (world queueName s) with
    | ok a w => exact hback w (absurd hl)
    | error err w => exact hback w (absurd hl)
    | crashed w => trivial
  · obtain ⟨engine, hengine⟩ := Option.ne_none_iff_exists'.mp hl
    have hworld : I (s.world queueName) := by
      simpa [world, hengine] using hs queueName engine hengine
    exact wp_mono (hm _ hworld) (fun _ w hw => hback w (fun _ => hw))
      (fun _ w hw => hback w (fun _ => hw)) (fun _ _ => trivial)

variable [Backend β] [Journal γ]

/-- A start of an engine establishes `I`, whatever it starts from. -/
def Established (I : World β γ → Prop) : Prop :=
  ∀ config orders recovered w, System.Ends I (newEngine config orders recovered) w

theorem createEngine_keepsEach
    (queueName : GoString) (orders : RestoreOrders) (recovered : List Record)
    (hnew : Established I)
    (hs : s.Each I) :
    KeepsEach I (createEngine queueName orders recovered) s := by
  have hinstall : ∀ w, I w → (s.install queueName w).Each I := by
    intro w hw
    refine hs.of_sameAt (fun q hq => sameAt_install hq w s) ?_
    intro engine hengine
    simp only [install, AList.lookup_insert, Option.some.injEq] at hengine
    subst hengine
    simpa [install] using hw
  unfold KeepsEach createEngine
  rw [wp_bind, wp_read, wp_zoom]
  exact wp_mono (hnew _ orders recovered _) (fun _ w hw => hinstall w hw)
    (fun _ w hw => hinstall w hw) (fun _ _ => trivial)

theorem engineFor_keepsEach
    (opening : Opening γ) (queueName : GoString)
    (hnew : Established I)
    (hs : s.Each I) :
    KeepsEach I (engineFor opening queueName) s := by
  unfold engineFor
  split_ifs
  · exact hs
  unfold KeepsEach
  rw [wp_bind, wp_read]
  cases hl : s.engines.lookup queueName with
  | some _ => exact hs
  | none =>
      dsimp only
      split_ifs
      · exact hs
      · rcases opening.journal with err | ⟨journal, recovered⟩
        · exact hs
        · rw [wp_bind, wp_update]
          refine createEngine_keepsEach queueName opening.orders recovered hnew ?_
          refine hs.of_sameAt
            (fun q (hq : q ≠ queueName) => ⟨rfl, rfl, by simp [hq]⟩) ?_
          intro engine hengine
          simp [hl] at hengine
      · exact createEngine_keepsEach queueName opening.orders _ hnew hs

theorem ackScan_keepsEach
    (leaseID : GoString)
    (hkept : System.Kept I) :
    ∀ (queues : List GoString) (s : Service β γ),
      s.Each I → KeepsEach I (ackScan leaseID queues) s := by
  intro queues
  induction queues with
  | nil =>
      intro _ hs
      exact hs
  | cons queueName rest ih =>
      intro s hs
      have hfirst := onQueue_keepsEach queueName hs
        (fun w hw => hkept.ack w leaseID hw)
      refine KeepsEach.bind hfirst.attempt ?_
      intro result s' hs'
      cases result with
      | ok _ => exact hs'
      | error err =>
          dsimp only
          split_ifs
          · exact ih s' hs'
          · exact hs'

theorem reapScan_keepsEach
    (now : Int)
    (hkept : System.Kept I) :
    ∀ (queues : List GoString) (total : Nat) (errs : List GoError)
      (s : Service β γ),
      s.Each I → KeepsEach I (reapScan now queues total errs) s := by
  intro queues
  induction queues with
  | nil =>
      intro _ _ _ hs
      exact hs
  | cons queueName rest ih =>
      intro total errs s hs
      have hfirst := onQueue_keepsEach queueName hs
        (fun w hw => hkept.reapExpired w now hw)
      refine KeepsEach.bind hfirst ?_
      intro reaped s' hs'
      exact ih _ _ s' hs'

theorem enqueue_keepsEach
    (opening : Opening γ) (queueName newID : GoString) (payload : Bytes)
    (hkept : System.Kept I)
    (hnew : Established I)
    (hs : s.Each I) :
    KeepsEach I (enqueue opening queueName newID payload) s :=
  (engineFor_keepsEach opening queueName hnew hs).bind
    (fun _ _ hs' => onQueue_keepsEach queueName hs'
      (fun w hw => hkept.enqueue w newID payload hw))

theorem fetch_keepsEach
    (opening : Opening γ) (queueName leaseID : GoString) (now timeout : Int)
    (hkept : System.Kept I)
    (hnew : Established I)
    (hs : s.Each I) :
    KeepsEach I (fetch opening queueName leaseID now timeout) s :=
  (engineFor_keepsEach opening queueName hnew hs).bind
    (fun _ _ hs' => onQueue_keepsEach queueName hs'
      (fun w hw => hkept.fetch w leaseID now timeout hw))

theorem ack_keepsEach
    (order : List GoString) (leaseID : GoString)
    (hkept : System.Kept I)
    (hs : s.Each I) :
    KeepsEach I (ack order leaseID) s :=
  ackScan_keepsEach leaseID hkept _ s hs

end Each

end Service

namespace Host

variable {β γ : Type} {I : World β γ → Prop}

variable [Backend β] [Journal γ]

/-- One event keeps what every engine operation keeps. -/
theorem step_each
    {h : Host β γ} (e : ServiceEvent γ)
    (hkept : System.Kept I)
    (hnew : Service.Established I)
    (hh : h.service.Each I) :
    (h.step e).2.service.Each I := by
  have hempty : ∀ s : Service β γ, s.engines = ∅ → s.Each I := by
    intro s hs q engine hengine
    simp [hs] at hengine
  have hends : ∀ {α : Type} (m : ServiceM β γ α), Service.KeepsEach I m h.service →
      Ends (fun u => u.service.Each I) h m :=
    fun m hm => wp_mono hm (fun _ _ hs => hs) (fun _ _ hs => hs) (fun _ _ => hempty _ rfl)
  refine step_rule (P := fun u : Host β γ => u.service.Each I) e hh
    (fun _ _ => hempty _ rfl) ?_ ?_ ?_ ?_
  · intro opening queueName newID payload _
    exact hends _ (Service.enqueue_keepsEach opening queueName newID payload hkept hnew hh)
  · intro opening queueName leaseID now timeout _
    exact hends _
      (Service.fetch_keepsEach opening queueName leaseID now timeout hkept hnew hh)
  · intro order leaseID _
    exact hends _ (Service.ack_keepsEach order leaseID hkept hh)
  · intro order now _
    exact hends _ (Service.reapScan_keepsEach now hkept _ _ _ _ hh)

/-- Every engine of every reachable host satisfies what engine operations keep. -/
theorem run_each
    {h t : Host β γ} {es : List (ServiceEvent γ × Reply)}
    (hkept : System.Kept I)
    (hnew : Service.Established I)
    (hrun : machine.Run h es t)
    (hh : h.service.engines = ∅) :
    t.service.Each I := by
  refine hrun.invariant (P := fun u : Host β γ => u.service.Each I) ?_ ?_
  · intro u e hu _
    exact step_each e hkept hnew hu
  · intro q engine hengine
    simp [hh] at hengine

end Host

end Moxy
