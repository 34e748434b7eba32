import Moxy.Engine

/-!
# Moxy: the rule for a reap

`ReapExpired` is a loop over the heap.  `wp_reapExpired` is its proof rule: a
condition that survives the removal of an entry without work, and the end of an
expired lease, holds when the loop is done; then no entry is due any more.  The
condition may speak of the number of leases ended so far.

Ending a lease leaves the memory of the engine alone, so the rule shows the caller
the memory exactly.
-/

namespace Moxy

open Lib Lib.CrashM

variable {β γ : Type} [Backend β] [Journal γ]

/-- No entry of the heap is due. -/
def Engine.NoneDue (now : Int) (e : Engine) : Prop :=
  ∀ item, BinaryHeap.peek e.expirations = some item → now < item.expiresAt

/-- Ending one lease does not change the memory of the engine. -/
theorem wp_expireLease_engine
    (lease : Lease) (w : World β γ) :
    wp (expireLease lease) (fun _ w' => w'.engine = w.engine)
      (fun _ w' => w'.engine = w.engine) (fun _ => True) w := by
  have hrecord : ∀ entry (b : β),
      wp (record entry) (fun _ w' => w'.engine = w.engine)
        (fun _ w' => w'.engine = w.engine) (fun _ => True) { w with backend := b } :=
    fun entry b => wp_record_any (fun _ => rfl) (fun _ _ => rfl) (fun _ => trivial)
  rw [expireLease, wp_bind, wp_read, wp_bind, wp_attempt]
  refine wp_onBackend_any (fun _ b => hrecord _ b) ?_ (fun _ => trivial)
  intro err b
  dsimp only
  split_ifs
  · exact hrecord _ b
  · rfl

omit [Backend β] [Journal γ] in
theorem Engine.shouldDeadLetter_congr
    {e e' : Engine} (hconfig : e'.config = e.config) (lease : Lease) :
    e'.shouldDeadLetter lease = e.shouldDeadLetter lease := by
  rw [Engine.shouldDeadLetter, Engine.shouldDeadLetter, hconfig]

/-- Of the memory of the engine, ending a lease reads the settings only. -/
theorem wp_expireLease_congr
    {e e' : Engine} {lease : Lease} {b : β} {j : γ} {P Q R : β → γ → Prop}
    (hconfig : e'.config = e.config)
    (h : wp (expireLease lease) (fun _ w => P w.backend w.journal)
      (fun _ w => Q w.backend w.journal) (fun w => R w.backend w.journal)
      ⟨e, b, j⟩) :
    wp (expireLease lease) (fun _ w => P w.backend w.journal)
      (fun _ w => Q w.backend w.journal) (fun w => R w.backend w.journal)
      ⟨e', b, j⟩ := by
  have hrecord : ∀ entry b',
      wp (record entry) (fun _ w => P w.backend w.journal)
        (fun _ w => Q w.backend w.journal) (fun w => R w.backend w.journal)
        (⟨e, b', j⟩ : World β γ) →
      wp (record entry) (fun _ w => P w.backend w.journal)
        (fun _ w => Q w.backend w.journal) (fun w => R w.backend w.journal)
        (⟨e', b', j⟩ : World β γ) := by
    intro entry b' hold
    rw [wp_record] at hold ⊢
    rw [hconfig]
    exact hold
  rw [expireLease, wp_bind, wp_read, wp_bind, wp_attempt, wp_onBackend] at h ⊢
  rw [Engine.shouldDeadLetter_congr hconfig]
  refine wp_mono h (fun _ b' => hrecord _ b') ?_ (fun _ hcrashed => hcrashed)
  intro err b' hfailed
  dsimp only at hfailed ⊢
  split_ifs at hfailed ⊢
  · exact hrecord _ b' hfailed
  · exact hfailed

theorem pop_size
    {h : Array ExpirationItem} {item : ExpirationItem} {fuel : Nat}
    (hpeek : BinaryHeap.peek h = some item)
    (hsize : h.size ≤ fuel + 1) :
    (BinaryHeap.pop ExpirationItem.less h).size ≤ fuel := by
  have hlength := (BinaryHeap.pop_perm ExpirationItem.less hpeek).length_eq
  simp only [Array.length_toList, List.length_cons] at hlength
  omega

/-- A condition on the memory that every iteration of the reaper keeps. -/
structure ReapKeeps (now : Int) (M : Engine → Prop) : Prop where
  skip : ∀ e item, M e → BinaryHeap.peek e.expirations = some item →
    item.expiresAt ≤ now →
    (∀ lease, e.leases.lookup item.leaseID = some lease → now < lease.expiresAt) →
    M e.popExpiration
  close : ∀ e item lease, M e → BinaryHeap.peek e.expirations = some item →
    item.expiresAt ≤ now → e.leases.lookup item.leaseID = some lease →
    lease.expiresAt ≤ now →
    M (e.popExpiration.dropLease item.leaseID)
  retry : ∀ e item lease, M e → BinaryHeap.peek e.expirations = some item →
    item.expiresAt ≤ now → e.leases.lookup item.leaseID = some lease →
    lease.expiresAt ≤ now →
    M (e.popExpiration.pushExpiration
      ⟨item.leaseID, now + e.config.requeueRetryDelay⟩)

theorem ReapKeeps.and
    {now : Int} {M N : Engine → Prop}
    (hM : ReapKeeps now M)
    (hN : ReapKeeps now N) :
    ReapKeeps now (fun e => M e ∧ N e) where
  skip e item h hpeek hdue hidle :=
    ⟨hM.skip e item h.1 hpeek hdue hidle, hN.skip e item h.2 hpeek hdue hidle⟩
  close e item lease h hpeek hdue hactive hexpired :=
    ⟨hM.close e item lease h.1 hpeek hdue hactive hexpired,
      hN.close e item lease h.2 hpeek hdue hactive hexpired⟩
  retry e item lease h hpeek hdue hactive hexpired :=
    ⟨hM.retry e item lease h.1 hpeek hdue hactive hexpired,
      hN.retry e item lease h.2 hpeek hdue hactive hexpired⟩

/-- The memories that the iterations of one reap can lead to. -/
inductive ReapPath (now : Int) (e₀ : Engine) : Engine → Prop
  | start :
      ReapPath now e₀ e₀
  | skip {e : Engine} {item : ExpirationItem}
      (path : ReapPath now e₀ e)
      (hpeek : BinaryHeap.peek e.expirations = some item)
      (hdue : item.expiresAt ≤ now)
      (hidle : ∀ lease, e.leases.lookup item.leaseID = some lease →
        now < lease.expiresAt) :
      ReapPath now e₀ e.popExpiration
  | close {e : Engine} {item : ExpirationItem} {lease : Lease}
      (path : ReapPath now e₀ e)
      (hpeek : BinaryHeap.peek e.expirations = some item)
      (hdue : item.expiresAt ≤ now)
      (hactive : e.leases.lookup item.leaseID = some lease)
      (hexpired : lease.expiresAt ≤ now) :
      ReapPath now e₀ (e.popExpiration.dropLease item.leaseID)
  | retry {e : Engine} {item : ExpirationItem} {lease : Lease}
      (path : ReapPath now e₀ e)
      (hpeek : BinaryHeap.peek e.expirations = some item)
      (hdue : item.expiresAt ≤ now)
      (hactive : e.leases.lookup item.leaseID = some lease)
      (hexpired : lease.expiresAt ≤ now) :
      ReapPath now e₀ (e.popExpiration.pushExpiration
        ⟨item.leaseID, now + e.config.requeueRetryDelay⟩)

theorem reapPath_reapKeeps
    (now : Int) (e₀ : Engine) :
    ReapKeeps now (ReapPath now e₀) where
  skip _ _ path hpeek hdue hidle := path.skip hpeek hdue hidle
  close _ _ _ path hpeek hdue hactive hexpired := path.close hpeek hdue hactive hexpired
  retry _ _ _ path hpeek hdue hactive hexpired := path.retry hpeek hdue hactive hexpired

theorem ReapKeeps.path
    {now : Int} {M : Engine → Prop} {e₀ e : Engine}
    (hM : ReapKeeps now M)
    (h₀ : M e₀)
    (path : ReapPath now e₀ e) :
    M e := by
  induction path with
  | start => exact h₀
  | skip _ hpeek hdue hidle ih => exact hM.skip _ _ ih hpeek hdue hidle
  | close _ hpeek hdue hactive hexpired ih =>
      exact hM.close _ _ _ ih hpeek hdue hactive hexpired
  | retry _ hpeek hdue hactive hexpired ih =>
      exact hM.retry _ _ _ ih hpeek hdue hactive hexpired

section Rule

variable {now : Int} {I : Nat → World β γ → Prop}
  {F : Nat → GoError → World β γ → Prop} {C : World β γ → Prop}

/-- The condition survives the removal of an entry whose lease is gone or not due. -/
def SkipKeeps (now : Int) (I : Nat → World β γ → Prop) : Prop :=
  ∀ n w item, I n w →
    BinaryHeap.peek w.engine.expirations = some item → item.expiresAt ≤ now →
    (∀ lease, w.engine.leases.lookup item.leaseID = some lease →
      now < lease.expiresAt) →
    I n { w with engine := w.engine.popExpiration }

/-- The condition survives the end of an expired lease, or `F` holds of the failure. -/
def ExpireKeeps (now : Int) (I : Nat → World β γ → Prop)
    (F : Nat → GoError → World β γ → Prop) (C : World β γ → Prop) : Prop :=
  ∀ n w item lease, I n w →
    BinaryHeap.peek w.engine.expirations = some item → item.expiresAt ≤ now →
    w.engine.leases.lookup item.leaseID = some lease → lease.expiresAt ≤ now →
    wp (expireLease lease)
      (fun _ w' => I (n + 1)
        ⟨w.engine.popExpiration.dropLease item.leaseID, w'.backend, w'.journal⟩)
      (fun err w' => F n err
        ⟨w.engine.popExpiration.pushExpiration
          ⟨item.leaseID, now + w.engine.config.requeueRetryDelay⟩,
          w'.backend, w'.journal⟩)
      C { w with engine := w.engine.popExpiration }

/-- What the result of the loop says. -/
def ReapEnds (now : Int) (I : Nat → World β γ → Prop)
    (F : Nat → GoError → World β γ → Prop) (r : Nat × Option GoError)
    (w : World β γ) : Prop :=
  match r.2 with
  | none => I r.1 w ∧ w.engine.NoneDue now
  | some err => F r.1 err w

theorem wp_reapLoop
    (hskip : SkipKeeps now I)
    (hexpire : ExpireKeeps now I F C) :
    ∀ (fuel n : Nat) {w : World β γ},
      w.engine.expirations.size ≤ fuel → I n w →
      wp (reapLoop now fuel n) (ReapEnds now I F) (fun _ _ => False) C w := by
  intro fuel
  induction fuel with
  | zero =>
      intro n w hsize hI
      refine ⟨hI, ?_⟩
      intro item hpeek
      rw [BinaryHeap.peek, Array.getElem?_eq_none hsize] at hpeek
      cases hpeek
  | succ fuel ih =>
      intro n w hsize hI
      rw [reapLoop, wp_bind, wp_read]
      cases hpeek : BinaryHeap.peek w.engine.expirations with
      | none =>
          refine ⟨hI, ?_⟩
          intro item hitem
          rw [hpeek] at hitem
          cases hitem
      | some item =>
          have hsize' : w.engine.popExpiration.expirations.size ≤ fuel :=
            pop_size hpeek hsize
          dsimp only
          split_ifs with hlater
          · refine ⟨hI, ?_⟩
            intro other hother
            cases hpeek.symm.trans hother
            exact hlater
          rw [wp_bind, wp_onEngine]
          cases hactive : w.engine.leases.lookup item.leaseID with
          | none =>
              refine ih n hsize' (hskip n w item hI hpeek (not_lt.mp hlater) ?_)
              intro lease hlease
              rw [hactive] at hlease
              cases hlease
          | some lease =>
              dsimp only
              split_ifs with hearly
              · refine ih n hsize' (hskip n w item hI hpeek (not_lt.mp hlater) ?_)
                intro other hother
                cases hactive.symm.trans hother
                exact hearly
              rw [wp_bind, wp_attempt]
              refine wp_mono (wp_and
                (hexpire n w item lease hI hpeek (not_lt.mp hlater) hactive
                  (not_lt.mp hearly))
                (wp_expireLease_engine lease _)) ?_ ?_ (fun _ h => h.1)
              · rintro _ w' ⟨hclosed, hengine⟩
                rw [wp_bind, wp_onEngine, hengine]
                exact ih (n + 1) hsize' hclosed
              · rintro err w' ⟨hfailed, hengine⟩
                rw [wp_bind, wp_onEngine, hengine]
                exact hfailed

omit [Backend β] [Journal γ] in
/-- What holds of the condition and of every failure holds of the result. -/
theorem ReapEnds.elim
    {J : World β γ → Prop} {r : Nat × Option GoError} {w : World β γ}
    (h : ReapEnds now I F r w)
    (hI : ∀ n w, I n w → J w)
    (hfailed : ∀ n err w, F n err w → J w) :
    J w := by
  obtain ⟨n, err⟩ := r
  cases err with
  | none => exact hI n w h.1
  | some err => exact hfailed n err w h

/-- The rule for a reap. -/
theorem wp_reapExpired
    {w : World β γ}
    (hskip : SkipKeeps now I)
    (hexpire : ExpireKeeps now I F C)
    (hrefused : ∀ err, w.engine.recoveryErr = some err → F 0 err w)
    (hI : w.engine.recoveryErr = none → I 0 w) :
    wp (reapExpired now) (ReapEnds now I F) (fun _ _ => False) C w := by
  rw [reapExpired, wp_bind, wp_read]
  cases hrec : w.engine.recoveryErr with
  | some err => exact hrefused err hrec
  | none => exact wp_reapLoop hskip hexpire _ 0 (Nat.le_refl _) (hI hrec)

end Rule

end Moxy
