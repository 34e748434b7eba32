import Moxy.ExpirationOrder

/-!
# Moxy: one pass of the reaper

A call of `ReapExpired` splits the old heap into the entries of the leases it closed,
the entries it dropped because their lease was not active, and the rest.  `Pass`
states this split together with the lease map; `Retried` states it for a call that
stopped at a lease it could not end.

`wp_reapExpired_pass` is the rule for a whole call.  It leaves to its user what
ending a lease does to backend and journal, over any backend and any journal.
-/

namespace Moxy

open Lib Lib.CrashM

/-- The lease IDs of the closed leases. -/
def closedIDs (closed : List (ExpirationItem × Lease)) : List GoString :=
  closed.map (fun c => c.1.leaseID)

/-- An active lease with a heap entry at or before `now`. -/
def Engine.DueActive (now : Int) (e : Engine) (leaseID : GoString) : Prop :=
  (∃ lease, e.leases.lookup leaseID = some lease) ∧
    ∃ item ∈ e.expirations.toList, item.leaseID = leaseID ∧ item.expiresAt ≤ now

/--
From `e` to `e'` the leases `closed` were closed in this order, the entries `dropped`
were dropped, and of the old heap `rest` is left.
-/
structure Pass (now : Int) (e : Engine) (closed : List (ExpirationItem × Lease))
    (dropped rest : List ExpirationItem) (e' : Engine) : Prop where
  split : e.expirations.toList.Perm (closed.map Prod.fst ++ (dropped ++ rest))
  active : ∀ c ∈ closed, e.leases.lookup c.1.leaseID = some c.2
  due : ∀ c ∈ closed, c.1.expiresAt ≤ now ∧ c.2.expiresAt ≤ now
  ordered : (closed.map (fun c => c.1.expiresAt)).Pairwise (· ≤ ·)
  later : ∀ c ∈ closed, ∀ item ∈ rest, c.1.expiresAt ≤ item.expiresAt
  idle : ∀ item ∈ dropped,
    item.expiresAt ≤ now ∧ e.leases.lookup item.leaseID = none
  leases : ∀ leaseID, e'.leases.lookup leaseID =
    if leaseID ∈ closedIDs closed then none else e.leases.lookup leaseID

/-- The call stopped at `lease`, whose entry `item` was replaced by a later one. -/
structure Retried (now : Int) (e : Engine) (closed : List (ExpirationItem × Lease))
    (dropped : List ExpirationItem) (item : ExpirationItem) (lease : Lease)
    (others : List ExpirationItem) (e' : Engine) : Prop where
  pass : Pass now e closed dropped (item :: others) e'
  active : e.leases.lookup item.leaseID = some lease
  due : item.expiresAt ≤ now ∧ lease.expiresAt ≤ now
  first : ∀ x ∈ others, item.expiresAt ≤ x.expiresAt
  heap : e'.expirations.toList.Perm
    (⟨item.leaseID, now + e.config.requeueRetryDelay⟩ :: others)

/-- In a timetable an active lease has exactly one entry. -/
theorem Engine.Covered.single_entry
    {issued : List GoString} {e : Engine} {leaseID : GoString} {lease : Lease}
    (hcovered : e.Covered)
    (htimed : e.Timed issued)
    (hactive : e.leases.lookup leaseID = some lease) :
    ∃ item, e.expirations.toList.filter (fun x => x.leaseID = leaseID) = [item] := by
  obtain ⟨item, hitem, rfl, _⟩ := hcovered.entry leaseID lease hactive (by simp)
  have hnodup : e.expirations.toList.Nodup := List.Nodup.of_map _ htimed.nodup
  refine ⟨item, List.perm_singleton.mp ?_⟩
  rw [List.perm_ext_iff_of_nodup (hnodup.filter _) (List.nodup_singleton item)]
  intro x
  rw [List.mem_filter, decide_eq_true_eq, List.mem_singleton]
  constructor
  · exact fun hx => htimed.entry_unique hx.1 hitem hx.2
  · rintro rfl
    exact ⟨hitem, rfl⟩

/-- If the root is not due, no entry is. -/
theorem Engine.NoneDue.all
    {issued : List GoString} {e : Engine} {now : Int} {item : ExpirationItem}
    (hnone : e.NoneDue now)
    (htimed : e.Timed issued)
    (hitem : item ∈ e.expirations.toList) :
    now < item.expiresAt := by
  obtain ⟨root, hpeek⟩ := BinaryHeap.peek_of_mem hitem
  have hroot := hnone root hpeek
  have hfirst := htimed.root_first hpeek hitem
  omega

namespace Pass

variable {now : Int} {issued : List GoString} {e e' : Engine}
  {closed : List (ExpirationItem × Lease)} {dropped rest : List ExpirationItem}
  {item : ExpirationItem} {lease : Lease}

theorem start
    (now : Int) (e : Engine) :
    Pass now e [] [] e.expirations.toList e where
  split := List.Perm.refl _
  active := by simp
  due := by simp
  ordered := List.Pairwise.nil
  later := by simp
  idle := by simp
  leases := by simp [closedIDs]

/-- No lease ID occurs twice among the old entries. -/
theorem ids_nodup
    (hp : Pass now e closed dropped rest e')
    (ht : e.Timed issued) :
    (closedIDs closed ++
      (dropped.map ExpirationItem.leaseID ++ rest.map ExpirationItem.leaseID)).Nodup := by
  have hperm := hp.split.map ExpirationItem.leaseID
  rw [List.map_append, List.map_append, List.map_map] at hperm
  exact hperm.nodup_iff.mp ht.nodup

/-- The lease of an entry that is left has not been closed. -/
theorem rest_open
    (hp : Pass now e closed dropped rest e')
    (ht : e.Timed issued)
    (hitem : item ∈ rest) :
    item.leaseID ∉ closedIDs closed := by
  intro hclosed
  exact (List.nodup_append.mp (hp.ids_nodup ht)).2.2 _ hclosed _
    (List.mem_append_right _ (List.mem_map_of_mem hitem)) rfl

/-- A lease whose entry is left is as active as it was. -/
theorem lookup_rest
    (hp : Pass now e closed dropped rest e')
    (ht : e.Timed issued)
    (hitem : item ∈ rest) :
    e'.leases.lookup item.leaseID = e.leases.lookup item.leaseID := by
  rw [hp.leases, if_neg (hp.rest_open ht hitem)]

/-- The entries that are left after the removal of the root. -/
theorem split_pop
    (hp : Pass now e closed dropped e'.expirations.toList e')
    (hpeek : BinaryHeap.peek e'.expirations = some item) :
    e.expirations.toList.Perm (closed.map Prod.fst ++
      (dropped ++ item :: e'.popExpiration.expirations.toList)) :=
  hp.split.trans (((BinaryHeap.pop_perm ExpirationItem.less hpeek).append_left
    dropped).append_left (closed.map Prod.fst))

/-- The pass goes on after the entry of a lease that is not active. -/
theorem skip
    (hp : Pass now e closed dropped e'.expirations.toList e')
    (ht : e.Timed issued)
    (hpeek : BinaryHeap.peek e'.expirations = some item)
    (hdue : item.expiresAt ≤ now)
    (hgone : e'.leases.lookup item.leaseID = none) :
    Pass now e closed (dropped ++ [item]) e'.popExpiration.expirations.toList
      e'.popExpiration where
  split := by
    rw [List.append_assoc, List.singleton_append]
    exact hp.split_pop hpeek
  active := hp.active
  due := hp.due
  ordered := hp.ordered
  later c hc x hx := hp.later c hc x (BinaryHeap.mem_of_mem_pop ExpirationItem.less hpeek hx)
  idle := by
    have hbefore : e.leases.lookup item.leaseID = none := by
      rw [← hp.lookup_rest ht (BinaryHeap.mem_of_peek hpeek)]
      exact hgone
    exact List.forall_mem_append.mpr
      ⟨hp.idle, List.forall_mem_singleton.mpr ⟨hdue, hbefore⟩⟩
  leases := hp.leases

/-- The pass goes on after the end of a lease. -/
theorem close
    (hp : Pass now e closed dropped e'.expirations.toList e')
    (ht : e.Timed issued)
    (ht' : e'.Timed issued)
    (hpeek : BinaryHeap.peek e'.expirations = some item)
    (hdue : item.expiresAt ≤ now)
    (hactive : e'.leases.lookup item.leaseID = some lease)
    (hexpired : lease.expiresAt ≤ now) :
    Pass now e (closed ++ [(item, lease)]) dropped
      e'.popExpiration.expirations.toList (e'.popExpiration.dropLease item.leaseID) where
  split := by
    rw [List.map_append, List.append_assoc]
    refine (hp.split_pop hpeek).trans (List.Perm.append_left _ ?_)
    exact List.perm_middle
  active := by
    have hbefore : e.leases.lookup item.leaseID = some lease := by
      rw [← hp.lookup_rest ht (BinaryHeap.mem_of_peek hpeek)]
      exact hactive
    exact List.forall_mem_append.mpr
      ⟨hp.active, List.forall_mem_singleton.mpr hbefore⟩
  due := List.forall_mem_append.mpr
    ⟨hp.due, List.forall_mem_singleton.mpr ⟨hdue, hexpired⟩⟩
  ordered := by
    rw [List.map_append, List.pairwise_append]
    refine ⟨hp.ordered, List.pairwise_singleton _ _, ?_⟩
    intro x hx y hy
    obtain ⟨c, hc, rfl⟩ := List.mem_map.mp hx
    rw [List.map_singleton, List.mem_singleton] at hy
    rw [hy]
    exact hp.later c hc item (BinaryHeap.mem_of_peek hpeek)
  later := by
    have hpop : ∀ x ∈ e'.popExpiration.expirations.toList,
        x ∈ e'.expirations.toList :=
      fun x hx => BinaryHeap.mem_of_mem_pop ExpirationItem.less hpeek hx
    exact List.forall_mem_append.mpr
      ⟨fun c hc x hx => hp.later c hc x (hpop x hx),
        List.forall_mem_singleton.mpr (fun x hx => ht'.root_first hpeek (hpop x hx))⟩
  idle := hp.idle
  leases := by
    intro leaseID
    have hids : closedIDs (closed ++ [(item, lease)]) =
        closedIDs closed ++ [item.leaseID] := List.map_append
    rw [hids, Engine.dropLease]
    dsimp only
    rw [Map.lookup_erase_ite]
    by_cases hid : leaseID = item.leaseID
    · rw [if_pos hid, if_pos (List.mem_append_right _ (by simp [hid]))]
    · rw [if_neg hid]
      have hmem : leaseID ∈ closedIDs closed ++ [item.leaseID] ↔
          leaseID ∈ closedIDs closed := by simp [hid]
      simp only [hmem]
      exact hp.leases leaseID

/-- The pass stops at a lease that it could not end. -/
theorem retry
    (hp : Pass now e closed dropped e'.expirations.toList e')
    (ht : e.Timed issued)
    (ht' : e'.Timed issued)
    (hconfig : e'.config = e.config)
    (hpeek : BinaryHeap.peek e'.expirations = some item)
    (hdue : item.expiresAt ≤ now)
    (hactive : e'.leases.lookup item.leaseID = some lease)
    (hexpired : lease.expiresAt ≤ now) :
    Retried now e closed dropped item lease e'.popExpiration.expirations.toList
      (e'.popExpiration.pushExpiration
        ⟨item.leaseID, now + e'.config.requeueRetryDelay⟩) where
  pass := by
    refine ⟨hp.split_pop hpeek, hp.active, hp.due, hp.ordered, ?_, hp.idle, hp.leases⟩
    intro c hc x hx
    refine hp.later c hc x ?_
    exact (BinaryHeap.pop_perm ExpirationItem.less hpeek).mem_iff.mpr hx
  active := by
    rw [← hp.lookup_rest ht (BinaryHeap.mem_of_peek hpeek)]
    exact hactive
  due := ⟨hdue, hexpired⟩
  first x hx := ht'.root_first hpeek (BinaryHeap.mem_of_mem_pop ExpirationItem.less hpeek hx)
  heap := by
    rw [hconfig]
    exact BinaryHeap.push_perm ExpirationItem.less _ _

/-- After a pass that left no due entry, the closed leases are the due ones. -/
theorem mem_closedIDs_iff
    (hp : Pass now e closed dropped rest e')
    (hrest : ∀ item ∈ rest, now < item.expiresAt) (leaseID : GoString) :
    leaseID ∈ closedIDs closed ↔ e.DueActive now leaseID := by
  constructor
  · intro hmem
    obtain ⟨c, hc, rfl⟩ := List.mem_map.mp hmem
    refine ⟨⟨c.2, hp.active c hc⟩, c.1, ?_, rfl, (hp.due c hc).1⟩
    exact hp.split.mem_iff.mpr (List.mem_append_left _ (List.mem_map_of_mem hc))
  · rintro ⟨⟨lease, hactive⟩, item, hitem, rfl, hdue⟩
    rcases List.mem_append.mp (hp.split.mem_iff.mp hitem) with hclosed | hleft
    · obtain ⟨c, hc, rfl⟩ := List.mem_map.mp hclosed
      exact List.mem_map_of_mem hc
    · rcases List.mem_append.mp hleft with hdropped | hremains
      · have hgone := (hp.idle item hdropped).2
        rw [hactive] at hgone
        cases hgone
      · have hlater := hrest item hremains
        omega

/-- The heap entries of an active lease that has not been closed stay. -/
theorem mem_iff
    (hp : Pass now e closed dropped rest e') {leaseID : GoString}
    (hactive : e.leases.lookup leaseID = some lease)
    (hopen : leaseID ∉ closedIDs closed)
    (hid : item.leaseID = leaseID) :
    item ∈ e.expirations.toList ↔ item ∈ rest := by
  rw [hp.split.mem_iff]
  constructor
  · intro hitem
    rcases List.mem_append.mp hitem with hclosed | hleft
    · obtain ⟨c, hc, rfl⟩ := List.mem_map.mp hclosed
      exact absurd (hid ▸ List.mem_map_of_mem hc) hopen
    · rcases List.mem_append.mp hleft with hdropped | hrest
      · have hgone := (hp.idle item hdropped).2
        rw [hid, hactive] at hgone
        cases hgone
      · exact hrest
  · exact fun hrest => List.mem_append_right _ (List.mem_append_right _ hrest)

/-- A lease that expires later is not closed. -/
theorem later_open
    (hp : Pass now e closed dropped rest e') {leaseID : GoString}
    (hactive : e.leases.lookup leaseID = some lease)
    (hlater : now < lease.expiresAt) :
    leaseID ∉ closedIDs closed := by
  intro hclosed
  obtain ⟨c, hc, rfl⟩ := List.mem_map.mp hclosed
  have hexpired := (hp.due c hc).2
  cases hactive.symm.trans (hp.active c hc)
  omega

/-- A pass makes no lease active. -/
theorem lookup_before
    (hp : Pass now e closed dropped rest e') {leaseID : GoString}
    (hactive : e'.leases.lookup leaseID = some lease) :
    leaseID ∉ closedIDs closed ∧ e.leases.lookup leaseID = some lease := by
  rw [hp.leases] at hactive
  split_ifs at hactive with hclosed
  exact ⟨hclosed, hactive⟩

end Pass

section Retries

variable {now : Int} {issued : List GoString} {e e' : Engine}
  {closed : List (ExpirationItem × Lease)} {dropped others : List ExpirationItem}
  {item : ExpirationItem} {lease : Lease}

/-- The failed lease has no other entry. -/
theorem Retried.others_ne
    (hr : Retried now e closed dropped item lease others e')
    (ht : e.Timed issued)
    {x : ExpirationItem}
    (hx : x ∈ others) :
    x.leaseID ≠ item.leaseID := by
  have hnodup := (List.nodup_append.mp
    (List.nodup_append.mp (hr.pass.ids_nodup ht)).2.1).2.1
  rw [List.map_cons, List.nodup_cons] at hnodup
  exact fun hid => hnodup.1 (hid ▸ List.mem_map_of_mem hx)

/-- The retried lease is still active, with one heap entry. -/
theorem Retried.entry
    (hr : Retried now e closed dropped item lease others e')
    (ht : e.Timed issued) :
    e'.leases.lookup item.leaseID = some lease ∧
      e'.expirations.toList.filter (fun x => x.leaseID = item.leaseID) =
        [⟨item.leaseID, now + e.config.requeueRetryDelay⟩] := by
  constructor
  · rw [hr.pass.lookup_rest ht List.mem_cons_self]
    exact hr.active
  · have hnone : others.filter (fun x => x.leaseID = item.leaseID) = [] := by
      rw [List.filter_eq_nil_iff]
      intro x hx hid
      rw [decide_eq_true_eq] at hid
      exact hr.others_ne ht hx hid
    have hfilter := hr.heap.filter (fun x => decide (x.leaseID = item.leaseID))
    rw [List.filter_cons_of_pos (by simp), hnone] at hfilter
    exact List.perm_singleton.mp hfilter

/-- What is due after the failure was due before, and is not the failed lease. -/
theorem Retried.dueActive
    {leaseID : GoString}
    (hr : Retried now e closed dropped item lease others e')
    (ht : e.Timed issued)
    (hdelay : 0 < e.config.requeueRetryDelay)
    (hdue : e'.DueActive now leaseID) :
    e.DueActive now leaseID ∧ leaseID ≠ item.leaseID := by
  obtain ⟨⟨l, hactive⟩, x, hx, rfl, hle⟩ := hdue
  have hothers : x ∈ others := by
    rcases List.mem_cons.mp (hr.heap.mem_iff.mp hx) with rfl | hin
    · dsimp only at hle
      omega
    · exact hin
  constructor
  · refine ⟨⟨l, (hr.pass.lookup_before hactive).2⟩, x, ?_, rfl, hle⟩
    exact hr.pass.split.mem_iff.mpr (List.mem_append_right _
      (List.mem_append_right _ (List.mem_cons_of_mem _ hothers)))
  · exact hr.others_ne ht hothers

end Retries

section Rule

variable {β γ : Type} [Backend β] [Journal γ] {now : Int} {issued : List GoString}
  {K : List (ExpirationItem × Lease) → β → γ → Prop}
  {X : List (ExpirationItem × Lease) → ExpirationItem → Lease → β → γ → Prop}

/-- What ending a lease does to backend and journal during a pass from `e`. -/
def EndsLeases (now : Int) (e : Engine)
    (K : List (ExpirationItem × Lease) → β → γ → Prop)
    (X : List (ExpirationItem × Lease) → ExpirationItem → Lease → β → γ → Prop) :
    Prop :=
  ∀ closed item lease (w : World β γ),
    K closed w.backend w.journal → w.engine.config = e.config →
    item ∈ e.expirations.toList → item.expiresAt ≤ now →
    e.leases.lookup item.leaseID = some lease →
    item.leaseID ∉ closedIDs closed →
    wp (expireLease lease)
      (fun _ w' => K (closed ++ [(item, lease)]) w'.backend w'.journal)
      (fun _ w' => X closed item lease w'.backend w'.journal)
      (fun _ => False) w

/-- What a call of the reaper leaves. -/
def Reaped (now : Int) (e : Engine)
    (K : List (ExpirationItem × Lease) → β → γ → Prop)
    (X : List (ExpirationItem × Lease) → ExpirationItem → Lease → β → γ → Prop)
    (r : Nat × Option GoError) (w : World β γ) : Prop :=
  ∃ closed dropped, closed.length = r.1 ∧
    match r.2 with
    | none =>
        Pass now e closed dropped w.engine.expirations.toList w.engine ∧
          (∀ item ∈ w.engine.expirations.toList, now < item.expiresAt) ∧
          K closed w.backend w.journal
    | some _ => ∃ item lease others,
        Retried now e closed dropped item lease others w.engine ∧
          X closed item lease w.backend w.journal

/-- The rule for a whole call. -/
theorem wp_reapExpired_pass
    {w : World β γ}
    (hends : EndsLeases now w.engine K X)
    (hcovered : w.engine.Covered)
    (htimed : w.engine.Timed issued)
    (hrec : w.engine.recoveryErr = none)
    (hK : K [] w.backend w.journal) :
    wp (reapExpired now)
      (fun r w' => Reaped now w.engine K X r w' ∧
        w.engine.Steady w'.engine ∧ w'.engine.Timed issued)
      (fun _ _ => False) (fun _ => False) w := by
  have hkeeps := Engine.scheduled_reapKeeps now w.engine issued
  refine wp_mono (wp_reapExpired
    (I := fun n w' => (w.engine.Steady w'.engine ∧ w'.engine.Timed issued) ∧
      ∃ closed dropped, closed.length = n ∧
        Pass now w.engine closed dropped w'.engine.expirations.toList w'.engine ∧
        K closed w'.backend w'.journal)
    (F := fun n _ w' => (w.engine.Steady w'.engine ∧ w'.engine.Timed issued) ∧
      ∃ closed dropped, closed.length = n ∧ ∃ item lease others,
        Retried now w.engine closed dropped item lease others w'.engine ∧
        X closed item lease w'.backend w'.journal)
    (C := fun _ => False) ?_ ?_ ?_ ?_) ?_ (fun _ _ h => h) (fun _ h => h)
  · rintro n w' item ⟨hM, closed, dropped, hlength, hp, hstore⟩ hpeek hdue hidle
    refine ⟨hkeeps.skip _ item hM hpeek hdue hidle, closed, dropped ++ [item],
      hlength, hp.skip htimed hpeek hdue ?_, hstore⟩
    -- the only entry of an active lease is not before its deadline
    cases hactive : w'.engine.leases.lookup item.leaseID with
    | none => rfl
    | some lease =>
        have hle := hM.1.1.le_entry hM.2 (BinaryHeap.mem_of_peek hpeek) hactive
        have hearly := hidle lease hactive
        omega
  · rintro n w' item lease ⟨hM, closed, dropped, hlength, hp, hstore⟩ hpeek hdue
      hactive hexpired
    have hitem := BinaryHeap.mem_of_peek hpeek
    have hold : item ∈ w.engine.expirations.toList :=
      hp.split.mem_iff.mpr (List.mem_append_right _ (List.mem_append_right _ hitem))
    have hbefore : w.engine.leases.lookup item.leaseID = some lease := by
      rw [← hp.lookup_rest htimed hitem]
      exact hactive
    refine wp_mono (hends closed item lease _ hstore hM.1.2.1 hold hdue hbefore
      (hp.rest_open htimed hitem)) ?_ ?_ (fun _ h => h)
    · intro _ w'' hstore'
      refine ⟨hkeeps.close _ item lease hM hpeek hdue hactive hexpired,
        closed ++ [(item, lease)], dropped, ?_,
        hp.close htimed hM.2 hpeek hdue hactive hexpired, hstore'⟩
      rw [List.length_append, hlength, List.length_singleton]
    · intro err w'' hfailed
      exact ⟨hkeeps.retry _ item lease hM hpeek hdue hactive hexpired,
        closed, dropped, hlength, item, lease, _,
        hp.retry htimed hM.2 hM.1.2.1 hpeek hdue hactive hexpired, hfailed⟩
  · intro err herr
    rw [hrec] at herr
    cases herr
  · intro _
    exact ⟨⟨⟨hcovered, rfl, rfl⟩, htimed⟩, [], [], rfl, Pass.start now _, hK⟩
  · rintro ⟨n, err⟩ w' hend
    cases err with
    | none =>
        obtain ⟨⟨hM, closed, dropped, hlength, hp, hstore⟩, hnone⟩ := hend
        exact ⟨⟨closed, dropped, hlength, hp,
          fun item hitem => hnone.all hM.2 hitem, hstore⟩, hM⟩
    | some err =>
        obtain ⟨hM, closed, dropped, hlength, hfailed⟩ := hend
        exact ⟨⟨closed, dropped, hlength, hfailed⟩, hM⟩

/-- A call that returns, as an event of the system. -/
theorem System.step_reap
    {s : System β γ} {engine : Engine} {r : Nat × Option GoError} {w : World β γ}
    (hprocess : s.process = some engine)
    (hend : reapExpired now ⟨engine, s.backend, s.journal⟩ = .ok r w) :
    s.step (.reap now) = (.reaped r.1 r.2, s.resume w) := by
  simp only [System.step, hprocess, System.exec, hend]
  rfl

end Rule

end Moxy
