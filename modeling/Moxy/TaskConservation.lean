import Moxy.CustodySimulation
import Moxy.Replies

/-!
# Moxy: no task is lost, duplicated or resurrected

`Store.Sound` is kept by every custody move, so it holds after every run: whatever
calls fail, wherever the process stops, and whatever records a restart is given.

A completion enters the history of the store only in an `ack` event whose lease
fences the task at that time (`completed_provenance`).  Together they give the
life of a task: it is somewhere in the store exactly once until such an event, and
nowhere from then on.
-/

namespace Moxy

open Lib Lib.CrashM

section Moves

variable {amb dur : Prop} {e : Event LeaseLog} {c c' : Custody}

/-- A store whose history used each UUID once. -/
def Custody.Sound (c : Custody) : Prop :=
  c.store.Sound c.issued

theorem Move.sound
    (h : Move amb dur e c c')
    (hc : c.Sound) :
    c'.Sound := by
  have hsub : ∀ id : GoString, ∀ x ∈ c.issued, x ∈ id :: c.issued :=
    fun _ _ hx => List.mem_cons_of_mem _ hx
  cases h with
  | waste => exact Store.Sound.mono hc (hsub _)
  | enqueue _ _ hfresh => exact @Store.Sound.enqueue _ _ hc ⟨_, _, 0⟩ hfresh
  | acquire _ _ hfresh _ => exact Store.Sound.acquire hc hfresh
  | rollback | finish => exact Store.Sound.finish hc _ _ _
  | reconcile => exact Store.Sound.recoverOrphanedProcessing hc _ _
  | note | publish | abandon | close | drop | stop | reopen | closeStale
  | recovered => exact hc

/-- The history of a store is only ever extended. -/
theorem Move.log
    (h : Move amb dur e c c') :
    c.store.log <+: c'.store.log := by
  cases h with
  | enqueue | acquire | rollback | finish | reconcile =>
      exact Store.logging_log _ _ _
  | waste | note | publish | abandon | close | drop | stop | reopen
  | closeStale | recovered => exact List.prefix_refl _

end Moves

section Runs

variable {calls : List CallEnv} {appends : List AppendFate}
  {s t u : System Storage LeaseLog} {es : List (Event LeaseLog × Reply)}

theorem System.sound_empty :
    (System.empty calls appends).custody.Sound :=
  Store.Sound.new

theorem System.regular_true :
    (System.empty calls appends).Regular True :=
  System.regular_empty (Storage.within_true calls)

/-- Every reachable store is sound. -/
theorem anyRestart_sound
    (hrun : anyRestart.Run s es t)
    (hregular : s.Regular True)
    (hs : s.custody.Sound) :
    t.Regular True ∧ t.custody.Sound :=
  anyRestart_keeps (K := fun _ => True) hrun (fun _ _ => trivial)
    (fun _ _ _ _ hmove hc => hmove.sound hc) hregular hs

theorem anyRestart_log
    (hrun : anyRestart.Run s es t)
    (hregular : s.Regular True) :
    s.backend.store.log <+: t.backend.store.log :=
  (anyRestart_keeps (K := fun _ => True)
    (P := fun c => s.backend.store.log <+: c.store.log) hrun
    (fun _ _ => trivial)
    (fun _ _ _ _ hmove hc => hc.trans hmove.log)
    hregular (List.prefix_refl _)).2

end Runs

section Provenance

variable {amb dur : Prop} {e : Event LeaseLog} {c c' : Custody}

/--
While an acknowledgement is under way no fence is created and no entry of another
lease changes; a completion that was not in the history of `c₀` belongs to a task
that `leaseID` fenced in `c₀`.
-/
structure Acking (leaseID : GoString) (c₀ c : Custody) : Prop where
  settled : c.phase = .down ∨ ∃ leases, c.phase = .serving leases
  fences : ∀ t l, c.store.queue.FencedBy t l → c₀.store.queue.FencedBy t l
  others : ∀ t entry, entry.leaseID ≠ leaseID →
    (c₀.store.queue.processing.lookup t = some entry ↔
      c.store.queue.processing.lookup t = some entry)
  completed : ∀ t l, .completed t l ∈ c.store.log →
    .completed t l ∈ c₀.store.log ∨
      (l = leaseID ∧ c₀.store.queue.FencedBy t l)

theorem Acking.move
    {leaseID : GoString} {c₀ : Custody}
    (hmove : Move amb dur (.ack leaseID) c c')
    (h : Acking leaseID c₀ c) :
    Acking leaseID c₀ c' := by
  have hphase : ∀ phase, c.phase = phase →
      phase = .down ∨ ∃ leases, phase = .serving leases :=
    fun phase hp => hp ▸ h.settled
  cases hmove with
  | waste hnew => simp [Event.newIDs] at hnew
  | enqueue he => cases he
  | acquire he => cases he
  | reopen he => cases he
  | note hp | publish hp | rollback hp | abandon _ hp | reconcile hp
  | closeStale hp | recovered hp => simpa using hphase _ hp
  | finish _ _ hcause =>
      obtain ⟨rfl, rfl⟩ := hcause
      refine ⟨h.settled, fun t l hf => h.fences t l (Store.finish_fencedBy hf),
        ?_, ?_⟩
      · intro t entry hne
        rw [h.others t entry hne]
        exact ⟨fun hl => Store.finish_lookup_other hl hne, Store.finish_lookup⟩
      · intro t l hc
        rcases Store.finish_completed hc with hold | ⟨_, _, hl, hf⟩
        · exact h.completed t l hold
        · exact Or.inr ⟨hl, h.fences t l hf⟩
  | close => exact ⟨h.settled, h.fences, h.others, h.completed⟩
  | drop => exact ⟨Or.inr ⟨_, rfl⟩, h.fences, h.others, h.completed⟩
  | stop => exact ⟨Or.inl rfl, h.fences, h.others, h.completed⟩

/-- The effect of a whole `ack` event. -/
theorem System.step_acking
    {s : System Storage LeaseLog} (leaseID : GoString)
    (hregular : s.Regular True) :
    Acking leaseID s.custody (s.step (.ack leaseID)).2.custody := by
  have hfresh : s.Fresh (.ack leaseID) := by
    intro id hid
    cases hid
  have hmoves : Moves True False (.ack leaseID) s.custody
      (s.step (.ack leaseID)).2.custody :=
    (System.step_moves hregular.covered hregular.within hfresh False.elim).1
  exact hmoves.keeps (fun _ _ hmove hc => Acking.move hmove hc)
    ⟨s.custody_settled, fun _ _ hf => hf, fun _ _ _ => Iff.rfl,
      fun _ _ hc => Or.inl hc⟩

end Provenance

/-- The tasks of a store with a given ID. -/
def Store.occurrences (s : Store) (taskID : GoString) : List Task :=
  s.queue.tasks.filter (fun task => task.id = taskID)

section Occurrences

variable {issued : List GoString} {s : Store}

theorem Store.occurrences_eq_nil
    {taskID : GoString} (h : taskID ∉ s.taskIDs) :
    s.occurrences taskID = [] := by
  unfold Store.occurrences
  rw [List.filter_eq_nil_iff]
  intro task hmem hid
  have htask : task.card.1 = taskID := of_decide_eq_true hid
  exact h (List.mem_map.mpr ⟨task.card, List.mem_map_of_mem hmem, htask⟩)

/-- A card that is in the store is there once. -/
theorem Store.Sound.occurrences
    (h : s.Sound issued) {task : Task}
    (hcard : task.card ∈ s.queue.cards) :
    (s.occurrences task.id).map Task.card = [task.card] := by
  obtain ⟨found, hmem, hfound⟩ := List.mem_map.mp hcard
  have hid : found.id = task.id := congrArg Prod.fst hfound
  have hnodup : (s.queue.tasks.map Task.id).Nodup := by
    have := h.taskIDs_nodup
    unfold Store.taskIDs MemoryQueue.cards at this
    rw [List.map_map] at this
    exact this
  have hsingle : s.occurrences task.id = [found] := by
    unfold Store.occurrences
    rw [← hid]
    have hperm : (s.queue.tasks.filter (fun x => x.id = found.id)).Perm
        [found] := by
      rw [List.perm_ext_iff_of_nodup
        ((List.Nodup.of_map _ hnodup).filter _) (List.nodup_singleton _)]
      intro x
      rw [List.mem_filter, List.mem_singleton]
      constructor
      · rintro ⟨hx, hxid⟩
        exact List.inj_on_of_nodup_map hnodup hx hmem (by simpa using hxid)
      · rintro rfl
        exact ⟨hmem, by simp⟩
    exact List.perm_singleton.mp hperm
  rw [hsingle, List.map_singleton, hfound]

end Occurrences

end Moxy
