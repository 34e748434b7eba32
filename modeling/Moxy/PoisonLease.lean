import Moxy.CalmStorage
import Moxy.ReapPass
import Mathlib.Data.Finset.Card

/-!
# Moxy: a poison lease cannot block the others

`ReapExpired` stops at the first lease that it cannot end.  The heap entry of that
lease is moved to an instant after `now`, so the next call does not meet it again:
every call ends all the due leases, or takes one failing lease out of the way.

The leases with a due entry are split into `F`, whose end fails at every attempt, and
`G`, whose end succeeds at every attempt.  `Contained` holds between two calls; it
names the set `D` of the failing leases that may still be due.

The argument is about any backend and any journal.  `FailingDeadLetterBackend` is an
example of a backend with both kinds of leases.
-/

namespace Moxy

open Lib Lib.CrashM

section Attempts

variable {β γ : Type} [Backend β] [Journal γ]

/-- Backend and journal after any attempts to end leases that are due in `e`. -/
inductive Attempted (now : Int) (e : Engine) (b : β) (j : γ) : β → γ → Prop
  | start : Attempted now e b j b j
  | succeeded {b' : β} {j' : γ} {leaseID : GoString} {lease : Lease} {w : World β γ}
      (before : Attempted now e b j b' j')
      (hdue : e.DueActive now leaseID)
      (hactive : e.leases.lookup leaseID = some lease)
      (hend : expireLease lease ⟨e, b', j'⟩ = .ok () w) :
      Attempted now e b j w.backend w.journal
  | failed {b' : β} {j' : γ} {leaseID : GoString} {lease : Lease} {err : GoError}
      {w : World β γ}
      (before : Attempted now e b j b' j')
      (hdue : e.DueActive now leaseID)
      (hactive : e.leases.lookup leaseID = some lease)
      (hend : expireLease lease ⟨e, b', j'⟩ = .error err w) :
      Attempted now e b j w.backend w.journal

/-- Whatever has been attempted, ending the lease returns an error. -/
def AlwaysFails (now : Int) (e : Engine) (b : β) (j : γ) (leaseID : GoString) : Prop :=
  ∀ lease, e.leases.lookup leaseID = some lease →
    ∀ b' j', Attempted now e b j b' j' →
      ∃ err w, expireLease lease ⟨e, b', j'⟩ = .error err w

/-- Whatever has been attempted, ending the lease succeeds. -/
def AlwaysSucceeds (now : Int) (e : Engine) (b : β) (j : γ) (leaseID : GoString) :
    Prop :=
  ∀ lease, e.leases.lookup leaseID = some lease →
    ∀ b' j', Attempted now e b j b' j' →
      ∃ w, expireLease lease ⟨e, b', j'⟩ = .ok () w

/-- The surroundings of the calls: how the due leases of `e` behave. -/
structure Split (now : Int) (e : Engine) (b : β) (j : γ) (F : Finset GoString)
    (G : Set GoString) : Prop where
  due : ∀ leaseID, e.DueActive now leaseID ↔ leaseID ∈ F ∨ leaseID ∈ G
  disjoint : ∀ leaseID ∈ F, leaseID ∉ G
  fails : ∀ leaseID ∈ F, AlwaysFails now e b j leaseID
  succeeds : ∀ leaseID ∈ G, AlwaysSucceeds now e b j leaseID

/--
What holds between two calls: no lease is new, the leases of `F` are active, those of
`G` are closed or due, and of `F` at most the leases in `D` are due.
-/
structure Contained (now : Int) (e : Engine) (b : β) (j : γ) (issued : List GoString)
    (F : Finset GoString) (G : Set GoString) (D : Finset GoString) (w : World β γ) :
    Prop where
  steady : e.Steady w.engine
  timed : w.engine.Timed issued
  attempted : Attempted now e b j w.backend w.journal
  old : ∀ leaseID lease,
    w.engine.leases.lookup leaseID = some lease → e.leases.lookup leaseID = some lease
  kept : ∀ leaseID ∈ F,
    w.engine.leases.lookup leaseID = e.leases.lookup leaseID
  within : D ⊆ F
  due : ∀ leaseID, w.engine.DueActive now leaseID → leaseID ∈ D ∨ leaseID ∈ G
  waiting : ∀ leaseID ∈ G,
    w.engine.leases.lookup leaseID = none ∨ w.engine.DueActive now leaseID

/-- Every lease of `G` is closed. -/
def AllClosed (G : Set GoString) (w : World β γ) : Prop :=
  ∀ leaseID ∈ G, w.engine.leases.lookup leaseID = none

variable {now : Int} {e : Engine} {b : β} {j : γ} {issued : List GoString}
  {F D : Finset GoString} {G : Set GoString} {w : World β γ}

/-- During a call only leases of `G` are closed, and the call stops in `D` only. -/
theorem Contained.endsLeases
    (hsplit : Split now e b j F G)
    (h : Contained now e b j issued F G D w) :
    EndsLeases now w.engine
      (fun closed b' j' => Attempted now e b j b' j' ∧
        ∀ leaseID ∈ closedIDs closed, leaseID ∈ G)
      (fun closed item _ b' j' => Attempted now e b j b' j' ∧
        (∀ leaseID ∈ closedIDs closed, leaseID ∈ G) ∧ item.leaseID ∈ D) := by
  rintro closed item lease u ⟨hattempted, hclosed⟩ hconfig hitem hdue hactive _
  have hconfig' : u.engine.config = e.config := hconfig.trans h.steady.2.1
  have hbefore := h.old item.leaseID lease hactive
  have hdueNow : w.engine.DueActive now item.leaseID :=
    ⟨⟨lease, hactive⟩, item, hitem, rfl, hdue⟩
  rcases h.due item.leaseID hdueNow with hD | hG
  · -- a failing lease: the attempt is one more of those that fail
    have hF := h.within hD
    have hdueBefore := (hsplit.due item.leaseID).mpr (Or.inl hF)
    obtain ⟨err, w', hend⟩ :=
      hsplit.fails item.leaseID hF lease hbefore _ _ hattempted
    refine wp_mono (wp_expireLease_congr (P := fun _ _ => False)
      (Q := fun b' j' => Attempted now e b j b' j')
      (R := fun _ _ => False) hconfig' ?_)
      (fun _ _ hfalse => hfalse.elim) (fun _ _ hnext => ⟨hnext, hclosed, hD⟩)
      (fun _ hfalse => hfalse)
    rw [wp, hend]
    exact .failed hattempted hdueBefore hbefore hend
  · have hdueBefore := (hsplit.due item.leaseID).mpr (Or.inr hG)
    obtain ⟨w', hend⟩ :=
      hsplit.succeeds item.leaseID hG lease hbefore _ _ hattempted
    refine wp_mono (wp_expireLease_congr
      (P := fun b' j' => Attempted now e b j b' j')
      (Q := fun _ _ => False) (R := fun _ _ => False) hconfig' ?_)
      ?_ (fun _ _ hfalse => hfalse.elim) (fun _ hfalse => hfalse)
    · rw [wp, hend]
      exact .succeeded hattempted hdueBefore hbefore hend
    · intro _ w'' hnext
      refine ⟨hnext, ?_⟩
      rw [closedIDs, List.map_append]
      exact List.forall_mem_append.mpr ⟨hclosed, List.forall_mem_singleton.mpr hG⟩

section Calls

variable {w' : World β γ} {closed : List (ExpirationItem × Lease)}
  {dropped rest : List ExpirationItem}

omit [Backend β] [Journal γ] in
theorem Engine.Steady.trans
    {e₁ e₂ e₃ : Engine}
    (h₁ : e₁.Steady e₂)
    (h₂ : e₂.Steady e₃) :
    e₁.Steady e₃ :=
  ⟨h₂.1, h₂.2.1.trans h₁.2.1, h₂.2.2.trans h₁.2.2⟩

/-- A call does not close a lease of `F`. -/
theorem Contained.kept_pass
    (hsplit : Split now e b j F G)
    (h : Contained now e b j issued F G D w)
    (hp : Pass now w.engine closed dropped rest w'.engine)
    (hclosed : ∀ leaseID ∈ closedIDs closed, leaseID ∈ G)
    {leaseID : GoString} (hF : leaseID ∈ F) :
    w'.engine.leases.lookup leaseID = e.leases.lookup leaseID := by
  have hopen : leaseID ∉ closedIDs closed :=
    fun hin => hsplit.disjoint leaseID hF (hclosed leaseID hin)
  rw [hp.leases, if_neg hopen]
  exact h.kept leaseID hF

/-- A call that returns nil has closed all of `G` and leaves nothing due. -/
theorem Contained.finished
    (hsplit : Split now e b j F G)
    (h : Contained now e b j issued F G D w)
    (hp : Pass now w.engine closed dropped w'.engine.expirations.toList w'.engine)
    (hnone : ∀ item ∈ w'.engine.expirations.toList, now < item.expiresAt)
    (hclosed : ∀ leaseID ∈ closedIDs closed, leaseID ∈ G)
    (hattempted : Attempted now e b j w'.backend w'.journal)
    (hsteady : w.engine.Steady w'.engine)
    (htimed : w'.engine.Timed issued) :
    Contained now e b j issued F G ∅ w' ∧ AllClosed G w' := by
  have hall : AllClosed G w' := by
    intro leaseID hG
    rw [hp.leases]
    rcases h.waiting leaseID hG with hgone | hdue
    · rw [hgone, ite_self]
    · rw [if_pos ((hp.mem_closedIDs_iff hnone leaseID).mpr hdue)]
  refine ⟨⟨h.steady.trans hsteady, htimed, hattempted, ?_,
    fun _ hF => h.kept_pass hsplit hp hclosed hF, Finset.empty_subset F, ?_,
    fun leaseID hG => Or.inl (hall leaseID hG)⟩, hall⟩
  · exact fun leaseID lease hactive => h.old leaseID lease (hp.lookup_before hactive).2
  · rintro leaseID ⟨_, item, hitem, _, hdue⟩
    have hlater := hnone item hitem
    omega

/-- A call that returns an error has taken one lease of `D` out of the way. -/
theorem Contained.stopped
    {item : ExpirationItem} {lease : Lease} {others : List ExpirationItem}
    (hsplit : Split now e b j F G)
    (h : Contained now e b j issued F G D w)
    (hr : Retried now w.engine closed dropped item lease others w'.engine)
    (hclosed : ∀ leaseID ∈ closedIDs closed, leaseID ∈ G)
    (hD : item.leaseID ∈ D)
    (hattempted : Attempted now e b j w'.backend w'.journal)
    (hsteady : w.engine.Steady w'.engine)
    (htimed : w'.engine.Timed issued) :
    Contained now e b j issued F G (D.erase item.leaseID) w' := by
  refine ⟨h.steady.trans hsteady, htimed, hattempted, ?_,
    fun _ hF => h.kept_pass hsplit hr.pass hclosed hF,
    (Finset.erase_subset _ _).trans h.within, ?_, ?_⟩
  · exact fun leaseID l hactive =>
      h.old leaseID l (hr.pass.lookup_before hactive).2
  · intro leaseID hdue
    obtain ⟨hbefore, hne⟩ := hr.dueActive h.timed h.steady.1.delay_pos hdue
    exact (h.due leaseID hbefore).imp_left (fun hin => Finset.mem_erase.mpr ⟨hne, hin⟩)
  · intro leaseID hG
    by_cases hin : leaseID ∈ closedIDs closed
    · left
      rw [hr.pass.leases, if_pos hin]
    have hsame : w'.engine.leases.lookup leaseID = w.engine.leases.lookup leaseID := by
      rw [hr.pass.leases, if_neg hin]
    rcases h.waiting leaseID hG with hgone | ⟨⟨l, hactive⟩, x, hx, rfl, hdue⟩
    · exact Or.inl (hsame.trans hgone)
    · right
      refine ⟨⟨l, hsame.trans hactive⟩, x, ?_, rfl, hdue⟩
      rcases List.mem_cons.mp ((hr.pass.mem_iff hactive hin rfl).mp hx) with rfl | hrest
      · exact absurd hG (hsplit.disjoint _ (h.within hD))
      · exact hr.heap.mem_iff.mpr (List.mem_cons_of_mem _ hrest)

/-- One call settles everything, or one failing lease less is due. -/
theorem Contained.reap
    (hsplit : Split now e b j F G)
    (h : Contained now e b j issued F G D w)
    (hrecovered : e.recoveryErr = none) :
    wp (reapExpired now)
      (fun _ w' => (Contained now e b j issued F G ∅ w' ∧ AllClosed G w') ∨
        ∃ leaseID ∈ D, Contained now e b j issued F G (D.erase leaseID) w')
      (fun _ _ => False) (fun _ => False) w := by
  refine wp_mono (wp_reapExpired_pass (h.endsLeases hsplit) h.steady.1 h.timed
    (h.steady.2.2.trans hrecovered) ⟨h.attempted, by simp [closedIDs]⟩) ?_
    (fun _ _ hfalse => hfalse) (fun _ hfalse => hfalse)
  rintro ⟨n, err⟩ w' ⟨⟨closed, dropped, _, hresult⟩, hsteady, htimed⟩
  cases err with
  | none =>
      obtain ⟨hp, hnone, hattempted, hclosed⟩ := hresult
      exact Or.inl (h.finished hsplit hp hnone hclosed hattempted hsteady htimed)
  | some err =>
      obtain ⟨item, lease, others, hr, hattempted, hclosed, hD⟩ := hresult
      exact Or.inr ⟨item.leaseID, hD,
        h.stopped hsplit hr hclosed hD hattempted hsteady htimed⟩

end Calls

/-- The state after `n` calls at the same instant. -/
def System.afterReaps (now : Int) (n : Nat) (s : System β γ) : System β γ :=
  (grounded β γ).final s (List.replicate n (.reap now))

/-- More calls than there are failing leases settle everything. -/
theorem Contained.afterReaps
    (hsplit : Split now e b j F G)
    (hrecovered : e.recoveryErr = none) :
    ∀ (n : Nat) {D : Finset GoString} {s : System β γ} {engine : Engine},
      s.process = some engine →
      Contained now e b j issued F G D ⟨engine, s.backend, s.journal⟩ →
      (D.card < n ∨ (D = ∅ ∧ AllClosed G (⟨engine, s.backend, s.journal⟩ : World β γ))) →
      ∃ engine', (s.afterReaps now n).process = some engine' ∧
        Contained now e b j issued F G ∅
          ⟨engine', (s.afterReaps now n).backend, (s.afterReaps now n).journal⟩ ∧
        ∀ leaseID ∈ G, engine'.leases.lookup leaseID = none := by
  intro n
  induction n with
  | zero =>
      intro D s engine hprocess h hcard
      obtain ⟨rfl, hall⟩ := hcard.resolve_left (Nat.not_lt_zero _)
      exact ⟨engine, hprocess, h, hall⟩
  | succ n ih =>
      intro D s engine hprocess h hcard
      obtain ⟨r, w', hend, hresult⟩ := wp_returns (h.reap hsplit hrecovered)
      have hstep : (s.step (.reap now)).2 = s.resume w' := by
        rw [System.step_reap hprocess hend]
      have hnext : s.afterReaps now (n + 1) = (s.resume w').afterReaps now n := by
        rw [← hstep]
        rfl
      rw [hnext]
      rcases hresult with ⟨hsettled, hall⟩ | ⟨leaseID, hD, hless⟩
      · exact ih rfl hsettled (Or.inr ⟨rfl, hall⟩)
      · refine ih rfl hless (Or.inl ?_)
        have hlt : D.card < n + 1 := by
          rcases hcard with hlt | ⟨rfl, _⟩
          · exact hlt
          · exact absurd hD (Finset.notMem_empty leaseID)
        have herase := Finset.card_erase_lt_of_mem hD
        omega

/--
From every reachable state, more calls at one instant than there are failing leases
close every other due lease, and every failing lease stays active with one heap entry.
-/
theorem poison_leases_block_no_other
    {backend : β} {journal : γ} {es : List (Event γ × Reply)} {s : System β γ}
    {engine : Engine}
    (hrun : (grounded β γ).Run (System.cold backend journal issued) es s)
    (hprocess : s.process = some engine)
    (hrecovered : engine.recoveryErr = none)
    (hdue : ∀ leaseID, engine.DueActive now leaseID ↔ leaseID ∈ F ∨ leaseID ∈ G)
    (hdisjoint : ∀ leaseID ∈ F, leaseID ∉ G)
    (hfails : ∀ leaseID ∈ F, AlwaysFails now engine s.backend s.journal leaseID)
    (hsucceeds : ∀ leaseID ∈ G, AlwaysSucceeds now engine s.backend s.journal leaseID)
    {n : Nat} (hn : F.card + 1 ≤ n) :
    ∃ engine', (s.afterReaps now n).process = some engine' ∧
      (∀ leaseID ∈ G, engine'.leases.lookup leaseID = none) ∧
      ∀ leaseID ∈ F, ∃ lease item,
        engine.leases.lookup leaseID = some lease ∧
        engine'.leases.lookup leaseID = some lease ∧
        engine'.expirations.toList.filter (fun x => x.leaseID = leaseID) = [item] := by
  have hsplit : Split now engine s.backend s.journal F G :=
    ⟨hdue, hdisjoint, hfails, hsucceeds⟩
  obtain ⟨hcovered, htimed⟩ := grounded_scheduled hrun engine hprocess
  have hstart : Contained now engine s.backend s.journal s.issued F G F
      ⟨engine, s.backend, s.journal⟩ :=
    ⟨⟨hcovered, rfl, rfl⟩, htimed, .start, fun _ _ hactive => hactive,
      fun _ _ => rfl, Finset.Subset.refl F, fun leaseID => (hdue leaseID).mp,
      fun leaseID hG => Or.inr ((hdue leaseID).mpr (Or.inr hG))⟩
  obtain ⟨engine', hprocess', hend, hall⟩ :=
    Contained.afterReaps hsplit hrecovered n hprocess hstart (Or.inl hn)
  refine ⟨engine', hprocess', hall, ?_⟩
  intro leaseID hF
  obtain ⟨lease, hactive⟩ := ((hdue leaseID).mpr (Or.inl hF)).1
  have hkept : engine'.leases.lookup leaseID = some lease :=
    (hend.kept leaseID hF).trans hactive
  obtain ⟨item, hsingle⟩ := hend.steady.1.single_entry hend.timed hkept
  exact ⟨lease, item, hactive, hkept, hsingle⟩

end Attempts

/-- A backend under test: every dead-letter call fails, the others are passed on. -/
structure FailingDeadLetterBackend where
  backend : Storage
deriving DecidableEq

namespace FailingDeadLetterBackend

def passOn {α : Type} (m : CrashM GoError Storage α) :
    CrashM GoError FailingDeadLetterBackend α :=
  zoom FailingDeadLetterBackend.backend (fun b _ => ⟨b⟩) m

instance : Backend FailingDeadLetterBackend where
  enqueue task := passOn (Backend.enqueue task)
  acquire leaseID := passOn (Backend.acquire leaseID)
  complete taskID leaseID := passOn (Backend.complete taskID leaseID)
  requeue taskID leaseID := passOn (Backend.requeue taskID leaseID)
  deadLetter _ _ _ := fail (.text (goString "dead letter failed"))
  recoverOrphanedProcessing fences :=
    passOn (Backend.recoverOrphanedProcessing fences)
  stats b := Backend.stats b.backend

/-- No script is left, so every call and every append takes effect. -/
def Quiet (b : FailingDeadLetterBackend) (j : LeaseLog) : Prop :=
  b.backend.script = [] ∧ j.script = []

variable {now : Int} {e : Engine} {b b' : FailingDeadLetterBackend} {j j' : LeaseLog}
  {lease : Lease} {leaseID : GoString}

theorem record_quiet
    {w : World FailingDeadLetterBackend LeaseLog} (entry : Record)
    (h : Quiet w.backend w.journal) :
    wp (record entry) (fun _ w' => Quiet w'.backend w'.journal) (fun _ _ => False)
      (fun _ => False) w := by
  rw [wp_record]
  split_ifs
  · refine LeaseLog.wp_append_iff.mpr ?_
    rw [h.2]
    exact ⟨h.1, rfl⟩
  · exact h

/-- With quiet storage the end of a lease fails exactly if it is a dead letter. -/
theorem expireLease_quiet
    {w : World FailingDeadLetterBackend LeaseLog} (lease : Lease)
    (h : Quiet w.backend w.journal) :
    wp (expireLease lease)
      (fun _ w' => Quiet w'.backend w'.journal ∧ w.engine.shouldDeadLetter lease = false)
      (fun _ w' => Quiet w'.backend w'.journal ∧ w.engine.shouldDeadLetter lease = true)
      (fun _ => False) w := by
  rw [expireLease, wp_bind, wp_read, wp_bind, wp_attempt, wp_onBackend]
  cases hdead : w.engine.shouldDeadLetter lease with
  | true => exact ⟨h, rfl⟩
  | false =>
      have hnext : ∀ entry store,
          wp (record entry)
            (fun _ w' => Quiet w'.backend w'.journal ∧ false = false)
            (fun _ w' => Quiet w'.backend w'.journal ∧ false = true)
            (fun _ => False)
            { w with backend := ⟨⟨store, w.backend.backend.script.tail⟩⟩ } := by
        intro entry store
        refine wp_mono (record_quiet entry ⟨?_, h.2⟩) (fun _ _ hq => ⟨hq, rfl⟩)
          (fun _ _ hfalse => hfalse.elim) (fun _ hfalse => hfalse)
        show w.backend.backend.script.tail = []
        rw [h.1]
        rfl
      refine wp_zoom.mpr (Storage.wp_call_calm (by rw [h.1]; rfl) ?_ ?_)
      · exact fun env _ _ => hnext _ _
      · intro env err herr
        have hstale : isStaleLeaseError err = true := by
          rcases w.backend.backend.store.finish_cases .requeued lease.task.id
            lease.leaseID with ⟨task, _, heq⟩ | ⟨err', _, hstale, heq⟩
          · have hok := herr.symm.trans (congrArg Prod.fst heq)
            cases hok
          · have hsame := herr.symm.trans (congrArg Prod.fst heq)
            cases hsame
            exact hstale
        dsimp only
        rw [if_pos hstale]
        exact hnext _ _

theorem Quiet.attempted
    (h : Quiet b j)
    (hattempted : Attempted now e b j b' j') :
    Quiet b' j' := by
  induction hattempted with
  | start => exact h
  | succeeded _ _ _ hend ih => exact (wp_of_ok (expireLease_quiet _ ih) hend).1
  | failed _ _ _ hend ih => exact (wp_of_error (expireLease_quiet _ ih) hend).1

/-- A lease that is due for dead-lettering is a poison lease. -/
theorem alwaysFails
    (h : Quiet b j)
    (hactive : e.leases.lookup leaseID = some lease)
    (hdead : e.shouldDeadLetter lease = true) :
    AlwaysFails now e b j leaseID := by
  intro l hl b' j' hattempted
  cases hactive.symm.trans hl
  have hquiet := expireLease_quiet (w := ⟨e, b', j'⟩) lease (h.attempted hattempted)
  cases hend : expireLease lease (⟨e, b', j'⟩ : World FailingDeadLetterBackend LeaseLog) with
  | ok u w => exact absurd hdead (by rw [(wp_of_ok hquiet hend).2]; decide)
  | error err w => exact ⟨err, w, rfl⟩
  | crashed w =>
      rw [wp, hend] at hquiet
      exact hquiet.elim

theorem alwaysSucceeds
    (h : Quiet b j)
    (hactive : e.leases.lookup leaseID = some lease)
    (hdead : e.shouldDeadLetter lease = false) :
    AlwaysSucceeds now e b j leaseID := by
  intro l hl b' j' hattempted
  cases hactive.symm.trans hl
  have hquiet := expireLease_quiet (w := ⟨e, b', j'⟩) lease (h.attempted hattempted)
  cases hend : expireLease lease (⟨e, b', j'⟩ : World FailingDeadLetterBackend LeaseLog) with
  | ok u w => exact ⟨w, rfl⟩
  | error err w => exact absurd hdead (by rw [(wp_of_error hquiet hend).2]; decide)
  | crashed w =>
      rw [wp, hend] at hquiet
      exact hquiet.elim

end FailingDeadLetterBackend

/-- An empty queue that fails at every dead letter, and an empty journal. -/
def deadLettersFail : System FailingDeadLetterBackend LeaseLog :=
  System.cold ⟨⟨⟨MemoryQueue.new, []⟩, []⟩⟩ ⟨[], []⟩ []

/-- Two leases are due at 30; the first one has used up its attempts. -/
def poisonAndOther : List (Event LeaseLog) :=
  [.restart ⟨2, 0, true⟩ ⟨[], [], []⟩ ⟨[], []⟩ [], .enqueue [65] [1],
    .fetch [75] 0 10, .reap 10, .enqueue [66] [2], .fetch [76] 20 10, .fetch [77] 20 10]

def poisoned : System FailingDeadLetterBackend LeaseLog :=
  (grounded FailingDeadLetterBackend LeaseLog).final deadLettersFail poisonAndOther

/-- The second call closes the other lease. -/
theorem poison_lease_and_other :
    ∃ engine', (poisoned.afterReaps 30 2).process = some engine' ∧
      engine'.leases.lookup [77] = none ∧
      ∃ lease item, engine'.leases.lookup [76] = some lease ∧
        engine'.expirations.toList.filter (fun x => x.leaseID = [76]) = [item] := by
  have hrun : (grounded FailingDeadLetterBackend LeaseLog).Run deadLettersFail
      ((grounded FailingDeadLetterBackend LeaseLog).trace deadLettersFail poisonAndOther)
      poisoned :=
    Machine.run_of_admits poisonAndOther deadLettersFail (by decide +kernel)
  have hstate : poisoned.process.map
        (fun e => (e.recoveryErr, e.config, e.expirations.toList,
          e.leases.lookup [76], e.leases.lookup [77])) =
      some (none, ⟨2, requeueRetryDelay, true⟩, [⟨[76], 30⟩, ⟨[77], 30⟩],
        some ⟨[76], ⟨[65], [1], 1⟩, 20, 30⟩, some ⟨[77], ⟨[66], [2], 0⟩, 20, 30⟩) := by
    decide +kernel
  have hquiet : FailingDeadLetterBackend.Quiet poisoned.backend poisoned.journal := by
    constructor <;> decide +kernel
  obtain ⟨engine, hprocess, hengine⟩ := Option.map_eq_some_iff.mp hstate
  simp only [Prod.mk.injEq] at hengine
  obtain ⟨hrecovered, hconfig, hheap, hpoison, hother⟩ := hengine
  have hdue : ∀ leaseID, engine.DueActive 30 leaseID ↔
      leaseID ∈ ({[76]} : Finset GoString) ∨ leaseID ∈ ({[77]} : Set GoString) := by
    intro leaseID
    rw [Finset.mem_singleton, Set.mem_singleton_iff, Engine.DueActive, hheap]
    constructor
    · rintro ⟨_, item, hitem, rfl, _⟩
      rcases List.mem_cons.mp hitem with rfl | hlast
      · exact Or.inl rfl
      · rw [List.mem_singleton] at hlast
        rw [hlast]
        exact Or.inr rfl
    · rintro (rfl | rfl)
      · exact ⟨⟨_, hpoison⟩, ⟨[76], 30⟩, List.mem_cons_self, rfl, by decide⟩
      · exact ⟨⟨_, hother⟩, ⟨[77], 30⟩, by decide, rfl, by decide⟩
  obtain ⟨engine', hprocess', hclosed, hkept⟩ :=
    poison_leases_block_no_other hrun hprocess hrecovered hdue (by decide)
      (by
        intro leaseID hF
        rw [Finset.mem_singleton.mp hF]
        exact FailingDeadLetterBackend.alwaysFails hquiet hpoison
          (by rw [Engine.shouldDeadLetter, hconfig]; decide))
      (by
        intro leaseID hG
        rw [Set.mem_singleton_iff.mp hG]
        exact FailingDeadLetterBackend.alwaysSucceeds hquiet hother
          (by rw [Engine.shouldDeadLetter, hconfig]; decide))
      (Nat.le_refl 2)
  obtain ⟨lease, item, _, hactive, hsingle⟩ := hkept [76] (by decide)
  exact ⟨engine', hprocess', hclosed [77] rfl, lease, item, hactive, hsingle⟩

end Moxy
