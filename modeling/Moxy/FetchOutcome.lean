import Moxy.Replies

/-!
# Moxy: every end of a fetch

A fetch is an acquisition, an append and, if the append returns an error, a requeue
that hands the task back.  `wp_fetch_outcome` says what a fetch leaves in the store,
in terms of the state before it and of what the scripts hold for its calls.

A fetch fails without a trace unless it has claimed a task.  If it has, the task is
in processing under the lease ID of the fetch: because the reply of the acquisition
was lost, or because the append was refused and the requeue failed.  If the requeue
takes effect, the task is back in ready storage with one attempt more.
-/

namespace Moxy

open Lib Lib.CrashM

/-- The append returns an error. -/
def AppendFate.Refused : AppendFate → Prop
  | .refused _ => True
  | _ => False

instance (fate : AppendFate) : Decidable fate.Refused :=
  match fate with
  | .refused _ => inferInstanceAs (Decidable True)
  | .stored | .crashBefore | .crashDuring | .crashAfter =>
      inferInstanceAs (Decidable False)

/-- The call fails without effect. -/
def Fate.Fails : Fate → Prop
  | .fails _ => True
  | _ => False

/-- The call takes effect and reports a foreign error. -/
def Fate.Lost : Fate → Prop
  | .lost _ => True
  | _ => False

namespace World

variable (timeout : Int) (w : World Storage LeaseLog)

/-- The fate of the next backend call. -/
def nextFate : Fate :=
  (w.backend.script.headD CallEnv.calm).fate

/-- The fate of the backend call after the next one. -/
def secondFate : Fate :=
  (w.backend.script.tail.headD CallEnv.calm).fate

/-- A fetch will call the backend, and there is a task for it. -/
def Eligible : Prop :=
  0 < timeout ∧ w.engine.recoveryErr = none ∧ w.backend.store.queue.ready ≠ []

/-- A fetch will claim a task and know it. -/
def Claims : Prop :=
  w.Eligible timeout ∧ w.nextFate = .reports

/-- A fetch will claim a task and not know it. -/
def LosesClaim : Prop :=
  w.Eligible timeout ∧ w.nextFate.Lost

/-- A fetch will claim a task and its append will return an error. -/
def FetchRefused : Prop :=
  w.Claims timeout ∧
    w.engine.config.journal = true ∧ (w.journal.script.headD .stored).Refused

end World

instance (timeout : Int) (w : World Storage LeaseLog) :
    Decidable (w.FetchRefused timeout) :=
  inferInstanceAs (Decidable (((_ ∧ _ ∧ _) ∧ _ = _) ∧ _ = _ ∧ _))

/-- The store that a failed fetch leaves. -/
inductive FetchFailure (leaseID : GoString) (timeout : Int)
    (w : World Storage LeaseLog) : Store → Prop
  | kept
      (hclaims : ¬ w.Claims timeout)
      (hloses : ¬ w.LosesClaim timeout) :
      FetchFailure leaseID timeout w w.backend.store
  | lost
      (hloses : w.LosesClaim timeout) :
      FetchFailure leaseID timeout w (w.backend.store.acquire leaseID).2
  | returned {next : Task} {rest : List Task}
      (hrefused : w.FetchRefused timeout)
      (hready : w.backend.store.queue.ready = next :: rest)
      (hfate : ¬ w.secondFate.Fails) :
      FetchFailure leaseID timeout w
        ((w.backend.store.acquire leaseID).2.finish .requeued next.id leaseID).2
  | stranded
      (hrefused : w.FetchRefused timeout)
      (hfate : w.secondFate.Fails) :
      FetchFailure leaseID timeout w (w.backend.store.acquire leaseID).2

/-- A refused append is the only one that returns an error. -/
theorem wp_record_fate
    {entry : Record} {w : World Storage LeaseLog}
    {ok : Unit → World Storage LeaseLog → Prop}
    {error : GoError → World Storage LeaseLog → Prop}
    {crashed : World Storage LeaseLog → Prop}
    (hok : ∀ journal, ok () { w with journal := journal })
    (hrefused : ∀ err journal, w.engine.config.journal = true →
      (w.journal.script.headD .stored).Refused →
      error err { w with journal := journal })
    (hcrash : ∀ journal, crashed { w with journal := journal }) :
    wp (record entry) ok error crashed w := by
  rw [wp_record]
  split_ifs with hjournal
  · refine LeaseLog.wp_append_iff.mpr ?_
    cases hfate : w.journal.script.headD .stored with
    | stored => exact hok _
    | refused message =>
        exact hrefused _ _ hjournal (by rw [hfate]; exact trivial)
    | crashBefore => exact hcrash _
    | crashDuring => exact hcrash _
    | crashAfter => exact hcrash _
  · exact hok w.journal

/-- A fetch that does not reach a task leaves the store alone. -/
theorem FetchFailure.of_not_eligible
    {leaseID : GoString} {timeout : Int} {w : World Storage LeaseLog}
    (h : ¬ w.Eligible timeout) :
    FetchFailure leaseID timeout w w.backend.store :=
  .kept (fun hclaims => h hclaims.1) (fun hloses => h hloses.1)

/-- A task that has just been claimed can be handed back. -/
theorem requeue_claimed
    {s : Store} {next : Task} {rest : List Task}
    (hready : s.queue.ready = next :: rest) (leaseID : GoString) :
    ((s.acquire leaseID).2.requeue next.id leaseID).1 = .ok () := by
  rcases s.acquire_cases leaseID with ⟨next', rest', hready', heq⟩ | ⟨hnil, _⟩
  · rw [hready] at hready'
    cases hready'
    rw [heq]
    simp [Store.requeue, Store.logging, MemoryQueue.requeue, MemoryQueue.fenced]
  · rw [hready] at hnil
    cases hnil

/-- The rest of a fetch once it has claimed a task. -/
theorem wp_fetch_claimed
    (lease : Lease) {timeout : Int} {w w' : World Storage LeaseLog}
    {rest : List Task}
    (hclaims : w.Claims timeout)
    (hready : w.backend.store.queue.ready = lease.task :: rest)
    (hengine : w'.engine = w.engine)
    (hjournal : w'.journal = w.journal)
    (hbackend : w'.backend =
      ⟨(w.backend.store.acquire lease.leaseID).2, w.backend.script.tail⟩) :
    wp
      (do
        match ← attempt (record lease.fetchRecord) with
        | .error err =>
            match ← attempt
                (onBackend (Backend.requeue lease.task.id lease.leaseID)) with
            | .error requeueErr => fail (.join err requeueErr)
            | .ok _ => fail err
        | .ok _ => do
            onEngine (Engine.publish lease)
            pure lease : EngineM Storage LeaseLog Lease)
      (fun _ w'' =>
        w''.backend.store = (w.backend.store.acquire lease.leaseID).2)
      (fun _ w'' => w''.engine = w.engine ∧
        FetchFailure lease.leaseID timeout w w''.backend.store)
      (fun w'' => w''.backend.store = w.backend.store ∨
        w''.backend.store = (w.backend.store.acquire lease.leaseID).2 ∨
        w.FetchRefused timeout) w' := by
  rw [wp_bind, wp_attempt]
  refine wp_record_fate ?_ ?_ ?_
  · intro journal
    rw [wp_bind, wp_onEngine, wp_pure, hbackend]
  · intro err journal hset hrefusal
    rw [hengine] at hset
    rw [hjournal] at hrefusal
    have hrefused : w.FetchRefused timeout := ⟨hclaims, hset, hrefusal⟩
    rw [wp_bind, wp_attempt, wp_onBackend]
    refine Storage.wp_call_iff.mpr ?_
    rw [hbackend]
    have hrequeue := requeue_claimed hready lease.leaseID
    have hreturned : ¬ w.secondFate.Fails → FetchFailure lease.leaseID timeout w
        ((w.backend.store.acquire lease.leaseID).2.requeue lease.task.id
          lease.leaseID).2 :=
      fun hfate => .returned hrefused hready hfate
    cases hfate : (w.backend.script.tail.headD CallEnv.calm).fate with
    | reports =>
        simp only [hrequeue]
        exact ⟨hengine, hreturned (fun h => by rw [World.secondFate, hfate] at h; exact h)⟩
    | fails message =>
        exact ⟨hengine, .stranded hrefused (by rw [World.secondFate, hfate]; exact trivial)⟩
    | lost message =>
        exact ⟨hengine, hreturned (fun h => by rw [World.secondFate, hfate] at h; exact h)⟩
    | crashBefore => exact Or.inr (Or.inr hrefused)
    | crashAfter => exact Or.inr (Or.inr hrefused)
  · intro journal
    exact Or.inr (Or.inl (by rw [hbackend]))

/-- Every end of a fetch. -/
theorem wp_fetch_outcome
    (leaseID : GoString) (now timeout : Int) (w : World Storage LeaseLog) :
    wp (fetch leaseID now timeout)
      (fun _ w' => w'.backend.store = (w.backend.store.acquire leaseID).2)
      (fun _ w' => w'.engine = w.engine ∧
        FetchFailure leaseID timeout w w'.backend.store)
      (fun w' => w'.backend.store = w.backend.store ∨
        w'.backend.store = (w.backend.store.acquire leaseID).2 ∨
        w.FetchRefused timeout) w := by
  unfold fetch
  split_ifs with htimeout
  · exact ⟨rfl, .of_not_eligible (fun h => absurd htimeout (not_le.mpr h.1))⟩
  rw [wp_bind, wp_ensureRecovered]
  cases hrec : w.engine.recoveryErr with
  | some err =>
      refine ⟨rfl, .of_not_eligible (fun h => ?_)⟩
      rw [h.2.1] at hrec
      cases hrec
  | none =>
      dsimp only
      rw [wp_bind, wp_attempt, wp_onBackend]
      refine Storage.wp_call_iff.mpr ?_
      cases hfate : (w.backend.script.headD CallEnv.calm).fate with
      | reports =>
          rcases w.backend.store.acquire_cases leaseID with
            ⟨next, rest, hready, heq⟩ | ⟨hnil, heq⟩
          · have heligible : w.Eligible timeout :=
              ⟨by omega, hrec, by rw [hready]; exact List.cons_ne_nil _ _⟩
            have hok : (w.backend.store.acquire leaseID).1 = .ok next := by rw [heq]
            simp only [hok]
            exact wp_fetch_claimed ⟨leaseID, next, now, now + timeout⟩
              ⟨heligible, hfate⟩ hready rfl rfl rfl
          · simp only [heq]
            exact ⟨rfl, .of_not_eligible (fun h => h.2.2 hnil)⟩
      | fails message =>
          refine ⟨rfl, .kept (fun h => ?_) (fun h => ?_)⟩
          · exact Fate.noConfusion (hfate.symm.trans h.2)
          · have hlost := h.2
            rw [World.nextFate, hfate] at hlost
            exact hlost
      | lost message =>
          by_cases hready : w.backend.store.queue.ready = []
          · have hsame : (w.backend.store.acquire leaseID).2 = w.backend.store := by
              simp [Store.acquire, Store.logging, MemoryQueue.acquire, hready]
            refine ⟨rfl, ?_⟩
            show FetchFailure leaseID timeout w (w.backend.store.acquire leaseID).2
            rw [hsame]
            exact .of_not_eligible (fun h => h.2.2 hready)
          · exact ⟨rfl, .lost ⟨⟨by omega, hrec, hready⟩,
              by rw [World.nextFate, hfate]; exact trivial⟩⟩
      | crashBefore => exact Or.inl rfl
      | crashAfter => exact Or.inr (Or.inl rfl)

section FailedFetches

variable {leaseID : GoString} {now timeout : Int} {err : GoError}
  {w w' : World Storage LeaseLog}

/-- A backend that is nothing but a memory queue: its calls report their result. -/
def Storage.Plain (s : Storage) : Prop :=
  ∀ env ∈ s.script, env.fate = .reports

theorem Storage.Plain.fate
    {s : Storage} {script : List CallEnv}
    (h : s.Plain)
    (hscript : ∀ env ∈ script, env ∈ s.script) :
    (script.headD CallEnv.calm).fate = .reports :=
  headD_of_all (P := fun env : CallEnv => env.fate = .reports)
    (fun env henv => h env (hscript env henv)) rfl

/--
The tasks in the backend, and the leases and deadlines in memory, are the same; the
order of ready storage is left open.
-/
structure World.SameHoldings (w w' : World Storage LeaseLog) : Prop where
  ready : w'.backend.store.queue.ready.Perm w.backend.store.queue.ready
  processing : ∀ taskID,
    w'.backend.store.queue.processing.lookup taskID =
      w.backend.store.queue.processing.lookup taskID
  dead : w'.backend.store.queue.dead = w.backend.store.queue.dead
  leases : w'.engine.leases = w.engine.leases
  expirations : w'.engine.expirations = w.engine.expirations

theorem Task.charged_ne
    (task : Task) :
    task.charged ≠ task := by
  intro h
  have hattempts : task.attempts + 1 = task.attempts := congrArg Task.attempts h
  omega

/-- A task that is handed back has moved to the end and carries one attempt more. -/
theorem returned_ready
    {s : Store} {next : Task} {rest : List Task}
    (hready : s.queue.ready = next :: rest) (leaseID : GoString) :
    ((s.acquire leaseID).2.finish .requeued next.id leaseID).2.queue.ready =
      rest ++ [next.charged] := by
  rcases s.acquire_cases leaseID with ⟨next', rest', hready', heq⟩ | ⟨hnil, _⟩
  · rw [hready] at hready'
    cases hready'
    rw [heq]
    simp [Store.finish, Store.logging, MemoryQueue.fenced, Ending.place,
      MemoryQueue.placeReady]
  · rw [hready] at hnil
    cases hnil

/-- No order of the other tasks makes up for the attempt charged. -/
theorem not_perm_charged
    (next : Task) (rest : List Task) :
    ¬ (rest ++ [next.charged]).Perm (next :: rest) := by
  intro hperm
  have hswap : (next.charged :: rest).Perm (next :: rest) :=
    (List.perm_append_singleton next.charged rest).symm.trans hperm
  have hcount := hswap.count_eq next
  rw [List.count_cons_self, List.count_cons_of_ne next.charged_ne] at hcount
  omega

/--
A failed fetch charges nothing, unless its append was refused.  For every state of
an engine over a memory queue and every journal, a fetch that returns an error
leaves the same ready tasks up to order, the same processing and dead storage, the
same lease map and the same heap, exactly if it had not claimed a task whose record
the journal then refused.
-/
theorem failed_fetch_charges_nothing_iff
    (hplain : w.backend.Plain)
    (hfetch : fetch leaseID now timeout w = .error err w') :
    w.SameHoldings w' ↔ ¬ w.FetchRefused timeout := by
  obtain ⟨hengine, hfailure⟩ := wp_of_error (wp_fetch_outcome leaseID now timeout w) hfetch
  have hfirst : w.nextFate = .reports := hplain.fate (fun _ henv => henv)
  have hsecond : w.secondFate = .reports :=
    hplain.fate (fun _ henv => List.mem_of_mem_tail henv)
  generalize hstore : w'.backend.store = store at hfailure
  cases hfailure with
  | kept hclaims _ =>
      refine ⟨fun _ hrefused => hclaims hrefused.1, fun _ => ?_⟩
      exact ⟨by rw [hstore], fun _ => by rw [hstore], by rw [hstore],
        by rw [hengine], by rw [hengine]⟩
  | lost hloses =>
      have hlost := hloses.2
      rw [hfirst] at hlost
      exact hlost.elim
  | returned hrefused hready _ =>
      refine ⟨fun hsame => ?_, fun hnot => absurd hrefused hnot⟩
      have hperm := hsame.ready
      rw [hstore, returned_ready hready, hready] at hperm
      exact absurd hperm (not_perm_charged _ _)
  | stranded _ hfate =>
      rw [hsecond] at hfate
      exact hfate.elim

/-- A recovered engine over the given ready tasks, whose next append is refused. -/
def refusingWorld (ready : List Task) (calls : List CallEnv) :
    World Storage LeaseLog :=
  ⟨Engine.blank ⟨3, 0, true⟩, ⟨⟨⟨ready, ∅, []⟩, ready.map .enqueued⟩, calls⟩,
    ⟨[], [.refused [33]]⟩⟩

/-- The task is back in ready storage with one attempt charged. -/
theorem failed_fetch_charges :
    ∃ w', (refusingWorld [⟨[84], [1], 0⟩] []).backend.Plain ∧
      fetch [76] 5 10 (refusingWorld [⟨[84], [1], 0⟩] []) = .error (.text [33]) w' ∧
      w'.backend.store.queue.ready = [⟨[84], [1], 1⟩] ∧
      ¬ (refusingWorld [⟨[84], [1], 0⟩] []).SameHoldings w' := by
  refine ⟨_, by simp [Storage.Plain, refusingWorld], rfl, rfl, ?_⟩
  intro hsame
  exact absurd hsame.ready (by decide)

/-- If there is no task, the fetch fails and nothing has changed. -/
theorem failed_fetch_charges_nothing_empty :
    ∃ w', fetch [76] 5 10 (refusingWorld [] []) =
        .error (.sentinel .errQueueEmpty) w' ∧
      (refusingWorld [] []).SameHoldings w' := by
  obtain ⟨w', hfetch⟩ : ∃ w', fetch [76] 5 10 (refusingWorld [] []) =
      .error (.sentinel .errQueueEmpty) w' := ⟨_, rfl⟩
  have hplain : (refusingWorld [] []).backend.Plain := nofun
  exact ⟨w', hfetch, (failed_fetch_charges_nothing_iff hplain hfetch).mpr (by decide)⟩

/-- The lease ID is not in use: it fences no task and names no active lease. -/
def World.Unused (leaseID : GoString) (w : World Storage LeaseLog) : Prop :=
  (∀ taskID, ¬ w.backend.store.queue.FencedBy taskID leaseID) ∧
    w.engine.leases.lookup leaseID = none

/-- A task under the lease ID belongs to an active lease with a heap entry. -/
def World.Tended (leaseID : GoString) (w : World Storage LeaseLog) : Prop :=
  ∀ taskID, w.backend.store.queue.FencedBy taskID leaseID →
    (∃ lease, w.engine.leases.lookup leaseID = some lease) ∧
      ∃ item ∈ w.engine.expirations.toList, item.leaseID = leaseID

/-- A fetch will leave its claim behind. -/
def World.Abandons (timeout : Int) (w : World Storage LeaseLog) : Prop :=
  w.LosesClaim timeout ∨ (w.FetchRefused timeout ∧ w.secondFate.Fails)

/-- The claim of an acquisition is the only fence with its lease ID. -/
theorem acquire_fencedBy_iff
    {s : Store} {next : Task} {rest : List Task}
    (hready : s.queue.ready = next :: rest)
    (hunused : ∀ taskID, ¬ s.queue.FencedBy taskID leaseID) (taskID : GoString) :
    (s.acquire leaseID).2.queue.FencedBy taskID leaseID ↔ taskID = next.id := by
  constructor
  · rintro ⟨task, hlookup⟩
    rcases Store.acquire_lookup hready hlookup with ⟨hid, _⟩ | hold
    · exact hid
    · exact absurd ⟨task, hold⟩ (hunused taskID)
  · rintro rfl
    rcases s.acquire_cases leaseID with ⟨next', rest', hready', heq⟩ | ⟨hnil, _⟩
    · rw [hready] at hready'
      cases hready'
      rw [heq]
      exact ⟨next, AList.lookup_insert _⟩
    · rw [hready] at hnil
      cases hnil

/-- An abandoned claim has no lease, so nobody tends it. -/
theorem not_tended_of_acquired
    (helig : w.Eligible timeout)
    (hunused : w.Unused leaseID)
    (hengine : w'.engine = w.engine)
    (hstore : w'.backend.store = (w.backend.store.acquire leaseID).2) :
    ¬ w'.Tended leaseID := by
  intro htended
  obtain ⟨next, rest, hready⟩ := List.exists_cons_of_ne_nil helig.2.2
  have hfenced := (acquire_fencedBy_iff hready hunused.1 next.id).mpr rfl
  rw [← hstore] at hfenced
  obtain ⟨⟨lease, hlease⟩, _⟩ := htended next.id hfenced
  rw [hengine, hunused.2] at hlease
  cases hlease

/--
A failed fetch holds nothing, unless it abandons its claim.  For every engine state,
every unused lease ID and every pattern of failures, a fetch that returns an error
leaves no processing task under its lease ID without an active lease and a heap
entry, exactly if the acquisition did not lose its reply on a task, and no requeue
failed without effect after a refused append.
-/
theorem failed_fetch_holds_nothing_iff
    (hunused : w.Unused leaseID)
    (hfetch : fetch leaseID now timeout w = .error err w') :
    w'.Tended leaseID ↔ ¬ w.Abandons timeout := by
  obtain ⟨hengine, hfailure⟩ := wp_of_error (wp_fetch_outcome leaseID now timeout w) hfetch
  generalize hstore : w'.backend.store = store at hfailure
  cases hfailure with
  | kept hclaims hloses =>
      refine iff_of_true ?_ ?_
      · intro taskID hfenced
        rw [hstore] at hfenced
        exact absurd hfenced (hunused.1 taskID)
      · rintro (h | h)
        · exact hloses h
        · exact hclaims h.1.1
  | lost hloses =>
      exact iff_of_false (not_tended_of_acquired hloses.1 hunused hengine hstore)
        (not_not_intro (Or.inl hloses))
  | @returned next rest hrefused hready hfate =>
      refine iff_of_true ?_ ?_
      · intro taskID hfenced
        rw [hstore] at hfenced
        have hid := (acquire_fencedBy_iff hready hunused.1 taskID).mp
          (Store.finish_fencedBy hfenced)
        rw [hid] at hfenced
        exact absurd hfenced (Store.finish_not_fenced _ _ _ _)
      · rintro (h | h)
        · have hlost := h.2
          rw [hrefused.1.2] at hlost
          exact hlost
        · exact hfate h.2
  | stranded hrefused hfate =>
      exact iff_of_false (not_tended_of_acquired hrefused.1.1 hunused hengine hstore)
        (not_not_intro (Or.inr ⟨hrefused, hfate⟩))

/-- The task stays in processing if the refused claim cannot be handed back. -/
theorem failed_fetch_strands :
    ∃ w', (refusingWorld [⟨[84], [1], 0⟩]
          [CallEnv.calm, ⟨.fails [34], 0, []⟩]).Unused [76] ∧
      fetch [76] 5 10 (refusingWorld [⟨[84], [1], 0⟩]
          [CallEnv.calm, ⟨.fails [34], 0, []⟩]) =
        .error (.join (.text [33]) (.text [34])) w' ∧
      w'.backend.store.queue.processing.lookup [84] =
        some ⟨⟨[84], [1], 0⟩, [76]⟩ ∧
      ¬ w'.Tended [76] := by
  refine ⟨_, ⟨?_, rfl⟩, rfl, rfl, ?_⟩
  · rintro taskID ⟨task, hlookup⟩
    cases hlookup
  · intro htended
    obtain ⟨⟨lease, hlease⟩, _⟩ := htended [84] ⟨⟨[84], [1], 0⟩, rfl⟩
    cases hlease

/-- A claim that is handed back with a lost reply is not held by anyone. -/
theorem failed_fetch_holds_nothing_returned :
    ∃ w', fetch [76] 5 10 (refusingWorld [⟨[84], [1], 0⟩]
          [CallEnv.calm, ⟨.lost [34], 0, []⟩]) =
        .error (.join (.text [33]) (.text [34])) w' ∧
      w'.Tended [76] := by
  obtain ⟨w', hfetch⟩ : ∃ w', fetch [76] 5 10 (refusingWorld [⟨[84], [1], 0⟩]
      [CallEnv.calm, ⟨.lost [34], 0, []⟩]) =
        .error (.join (.text [33]) (.text [34])) w' := ⟨_, rfl⟩
  have hunused : (refusingWorld [⟨[84], [1], 0⟩]
      [CallEnv.calm, ⟨.lost [34], 0, []⟩]).Unused [76] := by
    refine ⟨?_, rfl⟩
    rintro taskID ⟨task, hlookup⟩
    cases hlookup
  refine ⟨w', hfetch, (failed_fetch_holds_nothing_iff hunused hfetch).mpr ?_⟩
  rintro (⟨_, hlost⟩ | ⟨_, hfails⟩)
  · exact hlost
  · exact hfails

end FailedFetches

end Moxy
