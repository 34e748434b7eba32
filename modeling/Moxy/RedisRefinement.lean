import Moxy.RedisQueue
import Moxy.Lib.Machine
import Mathlib.Data.List.Forall2

/-!
# Moxy: the Redis backend refines the memory backend

The two backends answer every sequence of calls alike.  The abstraction reads the
ready and dead lists from right to left and joins the two processing hashes into
one map (`Refines`).

The proof carries a stronger relation (`Mirrors`).  It also says that both
libraries read each stored text as the same task, and that the two processing maps
list their keys in the same order, so that a recovery visits the entries alike.
Each script is then followed command by command.  No library call inside a script
fails, so none aborts.
-/

namespace Moxy

open Lib Lib.CrashM

/-- An ID of a task or of a lease. -/
def ValidID (id : GoString) : Prop :=
  ValidUTF8 id ∧ 0 ∉ id

/-- The IDs in a call are valid. -/
def BackendCall.Valid : BackendCall → Prop
  | .enqueue task => ValidID task.id
  | .acquire leaseID => ValidID leaseID
  | .complete taskID leaseID => ValidID taskID ∧ ValidID leaseID
  | .requeue taskID leaseID => ValidID taskID ∧ ValidID leaseID
  | .deadLetter taskID leaseID _ _ _ => ValidID taskID ∧ ValidID leaseID
  | .recoverOrphanedProcessing _ activeLeases =>
      ∀ fence ∈ activeLeases, ValidID fence.taskID ∧ ValidID fence.leaseID

/-- The attempts of all tasks lie between zero and the limit. -/
structure MemoryQueue.Bounded (limit : Int) (q : MemoryQueue) : Prop where
  ready : ∀ task ∈ q.ready, 0 ≤ task.attempts ∧ task.attempts ≤ limit
  processing :
    ∀ binding ∈ q.processing.entries,
      0 ≤ binding.2.task.attempts ∧ binding.2.task.attempts ≤ limit
  dead : ∀ dead ∈ q.dead, 0 ≤ dead.task.attempts ∧ dead.task.attempts ≤ limit

/-- The memory backend, as long as the IDs are valid and the attempts bounded. -/
def memoryBackend (limit : Int) :
    Machine MemoryQueue BackendCall (Option (Except GoError BackendReply)) where
  step call q := (some (q.answer call).1, (q.answer call).2)
  guard q call := call.Valid ∧ (q.answer call).2.Bounded limit

/-- The Redis backend; a program that stops gives no reply. -/
def redisBackend (codec : TaskCodec) :
    Machine Database BackendCall (Option (Except GoError BackendReply)) where
  step call db :=
    match RedisQueue.answer codec call db with
    | .ok reply db' => (some (.ok reply), db')
    | .error err db' => (some (.error err), db')
    | .crashed db' => (none, db')
  guard _ _ := True

/-- The two processing hashes as one map. -/
def Database.joined (codec : TaskCodec) (db : Database) (id : GoString) :
    Option ProcessingEntry :=
  match db.processing.lookup id, db.processingLeases.lookup id with
  | some text, some leaseID =>
      match codec.unmarshal text with
      | .ok task => some ⟨task, leaseID⟩
      | .error _ => none
  | _, _ => none

/-- The Redis backend stands for the memory backend. -/
structure Refines (codec : TaskCodec) (db : Database) (q : MemoryQueue) : Prop where
  ready : db.ready.reverse.map codec.unmarshal = q.ready.map .ok
  processing : ∀ id, db.joined codec id = q.processing.lookup id
  keys :
    ∀ id, (db.processing.lookup id).isSome = (db.processingLeases.lookup id).isSome
  dead : List.Forall₂ codec.HoldsDead db.dead.reverse q.dead

/-- The relation that every call keeps. -/
structure Mirrors (codec : TaskCodec) (db : Database) (q : MemoryQueue) : Prop where
  ready : List.Forall₂ codec.Holds db.ready.reverse q.ready
  keys : db.processing.keys = q.processing.keys
  leases :
    ∀ id, db.processingLeases.lookup id = (q.processing.lookup id).map (·.leaseID)
  texts :
    ∀ id entry, q.processing.lookup id = some entry →
      ∃ text, db.processing.lookup id = some text ∧ codec.Holds text entry.task
  dead : List.Forall₂ codec.HoldsDead db.dead.reverse q.dead

/-- All IDs in the memory backend are valid, and entries stand under their own ID. -/
structure MemoryQueue.ValidIDs (q : MemoryQueue) : Prop where
  ready : ∀ task ∈ q.ready, ValidID task.id
  processing :
    ∀ id entry, q.processing.lookup id = some entry →
      ValidID entry.task.id ∧ ValidID id

section Mirrors

variable {codec : TaskCodec} {db : Database} {q : MemoryQueue}

theorem Mirrors.isSome
    (h : Mirrors codec db q) (id : GoString) :
    (db.processing.lookup id).isSome = (q.processing.lookup id).isSome := by
  have hkeys : id ∈ db.processing ↔ id ∈ q.processing := by
    rw [AList.mem_keys, AList.mem_keys, h.keys]
  rw [Bool.eq_iff_iff, AList.lookup_isSome, AList.lookup_isSome, hkeys]

theorem Mirrors.lookup_none
    (h : Mirrors codec db q) {id : GoString}
    (hnone : q.processing.lookup id = none) :
    db.processing.lookup id = none := by
  have hsome := h.isSome id
  rw [hnone] at hsome
  exact Option.isNone_iff_eq_none.mp (by simpa using hsome)

theorem unmarshal_of_holds
    {texts : List GoString} {tasks : List Task}
    (h : List.Forall₂ codec.Holds texts tasks) :
    texts.map codec.unmarshal = tasks.map .ok := by
  induction h with
  | nil =>
      rfl
  | cons hholds _ ih =>
      rw [List.map_cons, List.map_cons, hholds.1, ih]

theorem Mirrors.refines
    (h : Mirrors codec db q) :
    Refines codec db q := by
  refine ⟨?_, ?_, ?_, h.dead⟩
  · exact unmarshal_of_holds h.ready
  · intro id
    unfold Database.joined
    rw [h.leases]
    cases hlookup : q.processing.lookup id with
    | none =>
        rw [h.lookup_none hlookup]
    | some entry =>
        obtain ⟨text, htext, hholds⟩ := h.texts id entry hlookup
        rw [htext]
        simp only [Option.map_some, hholds.1]
  · intro id
    rw [h.isSome, h.leases, Option.isSome_map]

/-- Pushing a text on the left is appending its task. -/
theorem Mirrors.pushReady
    (h : Mirrors codec db q) {text : GoString} {task : Task}
    (hholds : codec.Holds text task) :
    Mirrors codec (db.lpushReady text) { q with ready := q.ready ++ [task] } := by
  refine ⟨?_, h.keys, h.leases, h.texts, h.dead⟩
  show List.Forall₂ codec.Holds (text :: db.ready).reverse _
  rw [List.reverse_cons]
  exact List.rel_append h.ready (List.Forall₂.cons hholds List.Forall₂.nil)

theorem Mirrors.pushDead
    (h : Mirrors codec db q) {text : GoString} {dead : DeadTask}
    (hholds : codec.HoldsDead text dead) :
    Mirrors codec (db.lpushDead text) { q with dead := q.dead ++ [dead] } := by
  refine ⟨h.ready, h.keys, h.leases, h.texts, ?_⟩
  show List.Forall₂ codec.HoldsDead (text :: db.dead).reverse _
  rw [List.reverse_cons]
  exact List.rel_append h.dead (List.Forall₂.cons hholds List.Forall₂.nil)

theorem Mirrors.erase
    (h : Mirrors codec db q) (id : GoString) :
    Mirrors codec (db.hdel id) { q with processing := q.processing.erase id } := by
  refine ⟨h.ready, ?_, ?_, ?_, h.dead⟩
  · show (db.processing.erase id).keys = (q.processing.erase id).keys
    rw [AList.keys_erase, AList.keys_erase, h.keys]
  · intro id'
    show (db.processingLeases.erase id).lookup id' = _
    rw [Map.lookup_erase_ite, Map.lookup_erase_ite, h.leases]
    split <;> rfl
  · intro id' entry hlookup
    rw [Map.lookup_erase_ite] at hlookup
    split at hlookup
    · cases hlookup
    · rename_i hne
      obtain ⟨text, htext, hholds⟩ := h.texts id' entry hlookup
      refine ⟨text, ?_, hholds⟩
      show (db.processing.erase id).lookup id' = _
      rw [Map.lookup_erase_ite, if_neg hne, htext]

theorem Mirrors.insert
    (h : Mirrors codec db q) {text leaseID : GoString} {task : Task}
    (hholds : codec.Holds text task) :
    Mirrors codec (db.hset task.id text leaseID)
      { q with processing := q.processing.insert task.id ⟨task, leaseID⟩ } := by
  refine ⟨h.ready, ?_, ?_, ?_, h.dead⟩
  · show (db.processing.insert task.id text).keys = (q.processing.insert task.id _).keys
    rw [AList.keys_insert, AList.keys_insert, h.keys]
  · intro id
    show (db.processingLeases.insert task.id leaseID).lookup id = _
    rw [Map.lookup_insert_ite, Map.lookup_insert_ite, h.leases]
    split <;> rfl
  · intro id entry hlookup
    rw [Map.lookup_insert_ite] at hlookup
    split at hlookup
    · rename_i heq
      cases hlookup
      refine ⟨text, ?_, hholds⟩
      show (db.processing.insert task.id text).lookup id = _
      rw [Map.lookup_insert_ite, if_pos heq]
    · rename_i hne
      obtain ⟨text', htext, hholds'⟩ := h.texts id entry hlookup
      refine ⟨text', ?_, hholds'⟩
      show (db.processing.insert task.id text).lookup id = _
      rw [Map.lookup_insert_ite, if_neg hne, htext]

end Mirrors

section Scripts

open Database

variable {codec : TaskCodec} {db : Database} {q : MemoryQueue}

/-- Acquiring: the right end of the list is the oldest task. -/
theorem acquireTaskScript_mirrors
    (h : Mirrors codec db q) (leaseID : GoString) :
    (q.ready = [] ∧ acquireTaskScript codec leaseID db = .ok .null db) ∨
    (∃ task rest text t,
      q.ready = task :: rest ∧
      acquireTaskScript codec leaseID db = .ok (.bulk text) t ∧
      codec.Holds text task ∧
      Mirrors codec t (q.acquire leaseID).2) := by
  rcases List.eq_nil_or_concat db.ready with hnil | ⟨older, text, hconcat⟩
  · left
    have hready := h.ready
    rw [hnil, List.reverse_nil, List.forall₂_nil_left_iff] at hready
    refine ⟨hready, ?_⟩
    have hpop : rpopReady db = .ok none db := by
      rw [rpopReady, bind_of_ok (show CrashM.read db = .ok db db from rfl), hnil]
      rfl
    exact bind_of_ok hpop _
  · right
    rw [List.concat_eq_append] at hconcat
    have hready := h.ready
    rw [hconcat, List.reverse_append, List.reverse_singleton, List.singleton_append,
      List.forall₂_cons_left_iff] at hready
    obtain ⟨task, rest, hholds, hrest, hq⟩ := hready
    have hpop : rpopReady db = .ok (some text) { db with ready := older } := by
      rw [rpopReady, bind_of_ok (show CrashM.read db = .ok db db from rfl), hconcat,
        List.getLast?_concat]
      show Outcome.ok (some text) { db with ready := db.ready.dropLast } = _
      rw [hconcat, List.dropLast_concat]
    refine ⟨task, rest, text, hset task.id text leaseID { db with ready := older }, hq, ?_,
      hholds, ?_⟩
    · rw [acquireTaskScript, bind_of_ok hpop]
      simp only [hholds.2]
      rfl
    · have hpopped : Mirrors codec { db with ready := older } { q with ready := rest } :=
        ⟨hrest, h.keys, h.leases, h.texts, h.dead⟩
      rw [MemoryQueue.acquire, hq]
      exact hpopped.insert hholds

/-- The three fenced scripts answer like the fenced transition of the memory backend. -/
theorem fencedScript_mirrors
    (h : Mirrors codec db q) (id leaseID : GoString)
    {place : GoString → CrashM GoError Database Unit}
    {placed : Task → MemoryQueue → MemoryQueue}
    (hplace : ∀ text task db',
      q.processing.lookup id = some ⟨task, leaseID⟩ →
      codec.Holds text task →
      Mirrors codec db' { q with processing := q.processing.erase id } →
      ∃ t,
        place text db' = .ok () t ∧
        Mirrors codec t (placed task { q with processing := q.processing.erase id })) :
    ∃ result t,
      fencedScript id leaseID place db = .ok (.integer result) t ∧
      RedisQueue.transitionResultError result = (q.fenced id leaseID placed).1 ∧
      Mirrors codec t (q.fenced id leaseID placed).2 := by
  have hread : (read : CrashM GoError Database Database) db = .ok db db :=
    rfl
  unfold fencedScript MemoryQueue.fenced
  rw [bind_of_ok hread]
  cases hlookup : q.processing.lookup id with
  | none =>
      rw [h.lookup_none hlookup]
      exact ⟨0, db, rfl, rfl, h⟩
  | some entry =>
      obtain ⟨text, htext, hholds⟩ := h.texts id entry hlookup
      obtain ⟨task, fence⟩ := entry
      rw [htext, h.leases, hlookup]
      by_cases hfence : fence = leaseID
      · subst hfence
        obtain ⟨t, ht, hmirrors⟩ := hplace text task (db.hdel id) hlookup hholds (h.erase id)
        refine ⟨1, t, ?_, ?_, ?_⟩
        · simp only [Option.map_some, ne_eq, not_true_eq_false, if_false]
          have hdelete : (update (hdel id) : CrashM GoError Database Unit) db =
              .ok () (db.hdel id) :=
            rfl
          rw [bind_of_ok hdelete, bind_of_ok ht]
          rfl
        · simp [RedisQueue.transitionResultError]
        · simpa using hmirrors
      · refine ⟨-1, db, ?_, ?_, ?_⟩
        · simp only [Option.map_some, ne_eq, Option.some.injEq, hfence, not_false_eq_true, if_true]
          rfl
        · simp [RedisQueue.transitionResultError, hfence]
        · simpa [hfence] using h

/-- The key of the `active` table determines both IDs. -/
theorem fence_key_injective
    {id id' leaseID leaseID' : GoString}
    (hid : (0 : UInt8) ∉ id)
    (hid' : (0 : UInt8) ∉ id')
    (h : id ++ 0 :: leaseID = id' ++ 0 :: leaseID') :
    id = id' ∧ leaseID = leaseID' := by
  induction id generalizing id' with
  | nil =>
      cases id' with
      | nil =>
          exact ⟨rfl, by simpa using h⟩
      | cons b rest =>
          have hb : (0 : UInt8) = b := (List.cons.inj h).1
          exact absurd (hb ▸ List.mem_cons_self) hid'
  | cons a rest ih =>
      cases id' with
      | nil =>
          have ha : a = (0 : UInt8) := (List.cons.inj h).1
          exact absurd (ha ▸ List.mem_cons_self) hid
      | cons b rest' =>
          obtain ⟨rfl, hrest⟩ := List.cons.inj h
          obtain ⟨rfl, hlease⟩ := ih (fun hmem => hid (List.mem_cons_of_mem _ hmem))
            (fun hmem => hid' (List.mem_cons_of_mem _ hmem)) hrest
          exact ⟨rfl, hlease⟩

theorem activeKeys_fenceArgs
    (active : List LeaseFence) :
    activeKeys (RedisQueue.fenceArgs active) =
      active.map (fun fence => fence.taskID ++ 0 :: fence.leaseID) := by
  induction active with
  | nil =>
      rfl
  | cons fence active ih =>
      show (fence.taskID ++ 0 :: fence.leaseID) :: activeKeys (RedisQueue.fenceArgs active) = _
      rw [ih, List.map_cons]

/-- The table knows exactly the active fences. -/
theorem mem_activeKeys
    {active : List LeaseFence}
    (hactive : ∀ fence ∈ active, ValidID fence.taskID ∧ ValidID fence.leaseID)
    {id leaseID : GoString}
    (hid : ValidID id) :
    id ++ 0 :: leaseID ∈ activeKeys (RedisQueue.fenceArgs active) ↔
      ⟨id, leaseID⟩ ∈ active := by
  rw [activeKeys_fenceArgs, List.mem_map]
  constructor
  · rintro ⟨⟨taskID, fenceID⟩, hmem, heq⟩
    obtain ⟨rfl, rfl⟩ := fence_key_injective (hactive _ hmem).1.2 hid.2 heq
    exact hmem
  · intro hmem
    exact ⟨_, hmem, rfl⟩

/-- One entry of the hash and one of the map, as the two loops visit them. -/
def SameVisit (codec : TaskCodec) (visited : GoString × GoString)
    (visited' : GoString × ProcessingEntry) : Prop :=
  visited.1 = visited'.1 ∧ codec.Holds visited.2 visited'.2.task

/-- Both loops move the same tasks and find the same leases. -/
theorem recoverLoop_mirrors
    {active : List LeaseFence} {keys : List GoString}
    (hkeys : ∀ id leaseID, ValidID id →
      (id ++ 0 :: leaseID ∈ keys ↔ (⟨id, leaseID⟩ : LeaseFence) ∈ active))
    {entries : List (GoString × GoString)} {visits : List (GoString × ProcessingEntry)}
    (hsame : List.Forall₂ (SameVisit codec) entries visits) :
    ∀ (db : Database) (q : MemoryQueue) (matched : List GoString) (result : RecoveryResult),
      (visits.map Prod.fst).Nodup →
      (∀ v ∈ visits, q.processing.lookup v.1 = some v.2 ∧ ValidID v.1) →
      Mirrors codec db q →
      matched.toFinset = result.matchedLeaseIDs →
      ∃ matched' t,
        recoverLoop keys entries result.moved matched db =
          .ok ((visits.foldl (MemoryQueue.recoverStep active) (result, q)).1.moved, matched') t ∧
        matched'.toFinset =
          (visits.foldl (MemoryQueue.recoverStep active) (result, q)).1.matchedLeaseIDs ∧
        Mirrors codec t (visits.foldl (MemoryQueue.recoverStep active) (result, q)).2 := by
  induction hsame with
  | nil =>
      intro db q matched result _ _ h hmatched
      exact ⟨matched, db, rfl, hmatched, h⟩
  | @cons entry visit entries visits hvisit _ ih =>
      intro db q matched result hnodup hvisits h hmatched
      obtain ⟨id, text⟩ := entry
      obtain ⟨id', task, leaseID⟩ := visit
      obtain ⟨rfl, hholds⟩ := hvisit
      obtain ⟨hlookup, hid⟩ := hvisits _ List.mem_cons_self
      simp only [List.map_cons, List.nodup_cons] at hnodup
      have hlease : db.processingLeases.lookup id = some leaseID := by
        rw [h.leases, hlookup]
        rfl
      have hread : (read : CrashM GoError Database Database) db = .ok db db :=
        rfl
      rw [recoverLoop, bind_of_ok hread, hlease, List.foldl_cons]
      by_cases hmem : (⟨id, leaseID⟩ : LeaseFence) ∈ active
      · have hkey : id ++ 0 :: leaseID ∈ keys :=
          (hkeys id leaseID hid).mpr hmem
        simp only [Option.filter_some, hkey, decide_true, if_true, MemoryQueue.recoverStep, hmem]
        refine ih db q (matched ++ [leaseID])
          { result with matchedLeaseIDs := insert leaseID result.matchedLeaseIDs } hnodup.2
          (fun v hv => hvisits v (List.mem_cons_of_mem _ hv)) h ?_
        ext id'
        simp only [← hmatched, List.mem_toFinset, List.mem_append, List.mem_singleton,
          Finset.mem_insert]
        exact or_comm
      · have hkey : id ++ 0 :: leaseID ∉ keys :=
          fun hin => hmem ((hkeys id leaseID hid).mp hin)
        simp only [Option.filter_some, hkey, decide_false, Bool.false_eq_true, if_false,
          MemoryQueue.recoverStep, hmem]
        refine ih ((db.hdel id).lpushReady text) _ matched
          { result with moved := result.moved + 1 } hnodup.2 ?_
          ((h.erase id).pushReady hholds) hmatched
        intro v hv
        obtain ⟨hv', hvalid⟩ := hvisits v (List.mem_cons_of_mem _ hv)
        refine ⟨?_, hvalid⟩
        have hne : v.1 ≠ id := by
          rintro rfl
          exact hnodup.1 (List.mem_map_of_mem hv)
        show (q.processing.erase id).lookup v.1 = _
        rw [Map.lookup_erase_ite, if_neg hne, hv']

/-- Both backends visit the same entries in the same order. -/
theorem range_sameVisit
    (h : Mirrors codec db q) (order : List GoString) :
    List.Forall₂ (SameVisit codec) (Map.range order db.processing)
      (Map.range order q.processing) := by
  have hvisit : Map.visit order db.processing = Map.visit order q.processing := by
    rw [Map.visit, Map.visit, h.keys]
  unfold Map.range
  rw [hvisit]
  induction Map.visit order q.processing with
  | nil =>
      exact List.Forall₂.nil
  | cons id ids ih =>
      cases hlookup : q.processing.lookup id with
      | none =>
          rw [List.filterMap_cons_none (by rw [h.lookup_none hlookup]; rfl),
            List.filterMap_cons_none (by rw [hlookup]; rfl)]
          exact ih
      | some entry =>
          obtain ⟨text, htext, hholds⟩ := h.texts id entry hlookup
          rw [List.filterMap_cons_some (by rw [htext]; rfl),
            List.filterMap_cons_some (by rw [hlookup]; rfl)]
          exact List.Forall₂.cons ⟨rfl, hholds⟩ ih

theorem decodeMatched_bulk
    (matched : List GoString) :
    RedisQueue.decodeMatched (matched.map .bulk) = .ok matched.toFinset := by
  induction matched with
  | nil =>
      rfl
  | cons leaseID matched ih =>
      rw [List.map_cons, RedisQueue.decodeMatched, ih, List.toFinset_cons]
      rfl

/-- The recovery script and the decoding of its reply give the memory backend's result. -/
theorem recoverScript_mirrors
    (h : Mirrors codec db q)
    (hvalid : q.ValidIDs)
    (order : List GoString) {active : List LeaseFence}
    (hactive : ∀ fence ∈ active, ValidID fence.taskID ∧ ValidID fence.leaseID) :
    ∃ items t,
      recoverOrphanedProcessingScript order (RedisQueue.fenceArgs active) db =
        .ok (.array items) t ∧
      RedisQueue.decodeRecoveryResult items = (q.recoverOrphanedProcessing order active).1 ∧
      Mirrors codec t (q.recoverOrphanedProcessing order active).2 := by
  have hvisits : ∀ v ∈ Map.range order q.processing,
      q.processing.lookup v.1 = some v.2 ∧ ValidID v.1 := by
    rintro ⟨id, entry⟩ hv
    have hlookup := (Map.mem_range order _ _ _).mp hv
    exact ⟨hlookup, (hvalid.processing id entry hlookup).2⟩
  obtain ⟨matched, t, hloop, hmatched, hmirrors⟩ :=
    recoverLoop_mirrors (fun id leaseID hid => mem_activeKeys hactive hid)
      (range_sameVisit h order) db q [] ⟨0, ∅⟩ (Map.range_keys_nodup order _) hvisits h rfl
  have hread : (read : CrashM GoError Database Database) db = .ok db db :=
    rfl
  refine ⟨.integer ((Map.range order q.processing).foldl (MemoryQueue.recoverStep active)
    (⟨0, ∅⟩, q)).1.moved :: matched.map .bulk, t, ?_, ?_, hmirrors⟩
  · rw [recoverOrphanedProcessingScript, bind_of_ok hread, bind_of_ok hloop]
    rfl
  · rw [RedisQueue.decodeRecoveryResult, decodeMatched_bulk, hmatched]
    rfl

end Scripts

section Step

variable {codec : TaskCodec} {limit : Int} {db : Database} {q : MemoryQueue}

/-- The state relation of the simulation. -/
def Simulates (codec : TaskCodec) (db : Database) (q : MemoryQueue) : Prop :=
  Mirrors codec db q ∧ q.ValidIDs

theorem MemoryQueue.ValidIDs.erase
    (h : q.ValidIDs) (id : GoString) :
    MemoryQueue.ValidIDs { q with processing := q.processing.erase id } := by
  refine ⟨h.ready, ?_⟩
  intro id' entry hlookup
  rw [Map.lookup_erase_ite] at hlookup
  split at hlookup
  · cases hlookup
  · exact h.processing id' entry hlookup

/-- A fenced transition keeps the IDs valid if placing the task does. -/
theorem MemoryQueue.ValidIDs.fenced
    (h : q.ValidIDs) {id leaseID : GoString}
    {placed : Task → MemoryQueue → MemoryQueue}
    (hplaced : ∀ task q', ValidID task.id → q'.ValidIDs → (placed task q').ValidIDs) :
    (q.fenced id leaseID placed).2.ValidIDs := by
  rcases MemoryQueue.fenced_cases id leaseID placed q with
    ⟨task, hlookup, heq⟩ | ⟨err, _, _, heq⟩
  · rw [heq]
    exact hplaced task _ (h.processing id _ hlookup).1 (h.erase id)
  · rw [heq]
    exact h

theorem MemoryQueue.ValidIDs.push
    (h : q.ValidIDs) {tasks : List Task}
    (htasks : ∀ task ∈ tasks, ValidID task.id) :
    MemoryQueue.ValidIDs { q with ready := q.ready ++ tasks } := by
  refine ⟨?_, h.processing⟩
  intro task hmem
  rcases List.mem_append.mp hmem with hmem | hmem
  · exact h.ready task hmem
  · exact htasks task hmem

/-- Every call with valid IDs keeps the IDs valid. -/
theorem MemoryQueue.ValidIDs.answer
    (h : q.ValidIDs) {call : BackendCall}
    (hcall : call.Valid) :
    (q.answer call).2.ValidIDs := by
  cases call with
  | enqueue task =>
      exact h.push (fun t ht => by rw [List.mem_singleton.mp ht]; exact hcall)
  | acquire leaseID =>
      show (q.acquire leaseID).2.ValidIDs
      unfold MemoryQueue.acquire
      cases hready : q.ready with
      | nil =>
          exact h
      | cons task rest =>
          have htask := h.ready task (by simp [hready])
          refine ⟨fun t ht => h.ready t (by simp [hready, ht]), ?_⟩
          intro id entry hlookup
          rw [Map.lookup_insert_ite] at hlookup
          split at hlookup
          · rename_i heq
            cases hlookup
            exact ⟨htask, heq ▸ htask⟩
          · exact h.processing id entry hlookup
  | complete taskID leaseID =>
      exact h.fenced (fun _ _ _ hq => hq)
  | requeue taskID leaseID =>
      exact h.fenced (fun task _ htask hq => hq.push (by simpa [Task.charged] using htask))
  | deadLetter taskID leaseID reason now _ =>
      exact h.fenced (fun _ _ _ hq => ⟨hq.ready, hq.processing⟩)
  | recoverOrphanedProcessing order active =>
      show (q.recoverOrphanedProcessing order active).2.ValidIDs
      constructor
      · intro task hmem
        rw [MemoryQueue.recoverOrphanedProcessing_ready, List.mem_append] at hmem
        rcases hmem with hmem | hmem
        · exact h.ready task hmem
        · obtain ⟨⟨id, entry⟩, horphan, rfl⟩ := List.mem_map.mp hmem
          have hlookup := (Map.mem_range order _ _ _).mp (List.mem_of_mem_filter horphan)
          exact (h.processing id entry hlookup).1
      · intro id entry hlookup
        rw [MemoryQueue.recoverOrphanedProcessing_lookup] at hlookup
        exact h.processing id entry hlookup.1

/-- How one call is answered: the reply, the next state, and no abort. -/
def Answers (codec : TaskCodec) (call : BackendCall) (db : Database) (q : MemoryQueue) : Prop :=
  ((redisBackend codec).step call db).1 = some (q.answer call).1 ∧
  Mirrors codec ((redisBackend codec).step call db).2 (q.answer call).2 ∧
  ∀ script, RedisQueue.script codec call = some script →
    ∃ reply t, script db = .ok reply t

theorem redisBackend_step_ok
    {call : BackendCall} {reply : BackendReply} {t : Database}
    (h : RedisQueue.answer codec call db = .ok reply t) :
    (redisBackend codec).step call db = (some (.ok reply), t) := by
  simp only [redisBackend, h]

theorem redisBackend_step_error
    {call : BackendCall} {err : GoError} {t : Database}
    (h : RedisQueue.answer codec call db = .error err t) :
    (redisBackend codec).step call db = (some (.error err), t) := by
  simp only [redisBackend, h]

/-- A script that returns, and a reply that Go turns into the memory backend's. -/
theorem answers_of_script
    {α : Type} {call : BackendCall} {script : CrashM GoError Database ScriptReply}
    {method : CrashM GoError Database α} {done : α → BackendReply}
    {reply : ScriptReply} {t : Database} (result : Except GoError α)
    (hanswer : RedisQueue.answer codec call = (do
      let a ← method
      pure (done a)))
    (hscript : RedisQueue.script codec call = some script)
    (hrun : script db = .ok reply t)
    (hmethod : method db = ofExcept result t)
    (hreply : (q.answer call).1 = result.map done)
    (hmirrors : Mirrors codec t (q.answer call).2) :
    Answers codec call db q := by
  have hstep : (redisBackend codec).step call db = (some (result.map done), t) := by
    cases hresult : result with
    | ok a =>
        rw [hresult] at hmethod
        refine redisBackend_step_ok ?_
        rw [hanswer]
        exact bind_of_ok hmethod _
    | error err =>
        rw [hresult] at hmethod
        refine redisBackend_step_error ?_
        rw [hanswer]
        exact bind_of_error hmethod _
  refine ⟨?_, ?_, ?_⟩
  · rw [hstep, hreply]
  · rw [hstep]
    exact hmirrors
  · intro script' hscript'
    rw [hscript] at hscript'
    cases hscript'
    exact ⟨_, t, hrun⟩

theorem runTaskScript_integer
    {script : CrashM GoError Database ScriptReply} {result : Int} {t : Database}
    (h : script db = .ok (.integer result) t) :
    RedisQueue.runTaskScript script db =
      ofExcept (RedisQueue.transitionResultError result) t := by
  rw [RedisQueue.runTaskScript, bind_of_ok h]

/-- The task that a fenced transition returns to ready is within the bounds. -/
theorem exact_of_requeue
    {taskID leaseID : GoString} {task : Task}
    (hvalid : q.ValidIDs)
    (hbounded : (q.requeue taskID leaseID).2.Bounded limit)
    (hlookup : q.processing.lookup taskID = some ⟨task, leaseID⟩) :
    Task.Exact limit task.charged := by
  refine ⟨(hvalid.processing _ _ hlookup).1.1, hbounded.ready _ ?_⟩
  simp [MemoryQueue.requeue, MemoryQueue.fenced, hlookup, MemoryQueue.placeReady]

theorem exact_of_deadLetter
    {taskID leaseID reason : GoString} {now : Int} {task : Task}
    (hvalid : q.ValidIDs)
    (hbounded : (q.deadLetter taskID leaseID reason now).2.Bounded limit)
    (hlookup : q.processing.lookup taskID = some ⟨task, leaseID⟩) :
    Task.Exact limit task.charged := by
  refine ⟨(hvalid.processing _ _ hlookup).1.1,
    hbounded.dead ⟨task.charged, reason, now⟩ ?_⟩
  simp [MemoryQueue.deadLetter, MemoryQueue.fenced, hlookup, MemoryQueue.placeDead]

theorem completeTaskScript_mirrors
    (h : Mirrors codec db q) (taskID leaseID : GoString) :
    ∃ result t,
      Database.completeTaskScript taskID leaseID db = .ok (.integer result) t ∧
      RedisQueue.transitionResultError result = (q.complete taskID leaseID).1 ∧
      Mirrors codec t (q.complete taskID leaseID).2 :=
  fencedScript_mirrors h taskID leaseID (fun _ _ db' _ _ hq => ⟨db', rfl, hq⟩)

theorem requeueTaskScript_mirrors
    (hcodec : codec.Faithful limit)
    (h : Mirrors codec db q)
    (hvalid : q.ValidIDs)
    (taskID leaseID : GoString)
    (hbounded : (q.requeue taskID leaseID).2.Bounded limit) :
    ∃ result t,
      Database.requeueTaskScript codec taskID leaseID db = .ok (.integer result) t ∧
      RedisQueue.transitionResultError result = (q.requeue taskID leaseID).1 ∧
      Mirrors codec t (q.requeue taskID leaseID).2 := by
  refine fencedScript_mirrors h taskID leaseID ?_
  intro text task db' hlookup hholds hq
  obtain ⟨text', htext', hholds'⟩ :=
    hcodec.encode task.charged (exact_of_requeue hvalid hbounded hlookup)
  have hencode : codec.encode task.toLua.charged = .ok text' :=
    htext'
  refine ⟨db'.lpushReady text', ?_, hq.pushReady hholds'⟩
  simp only [hholds.2]
  show (ofExcept (codec.encode task.toLua.charged) >>= _) db' = _
  rw [hencode]
  rfl

theorem deadLetterTaskScript_mirrors
    (hcodec : codec.Faithful limit)
    (h : Mirrors codec db q)
    (hvalid : q.ValidIDs)
    (taskID leaseID reason : GoString)
    (memoryNow redisNow : Int)
    (hbounded : (q.deadLetter taskID leaseID reason memoryNow).2.Bounded limit) :
    ∃ result t,
      Database.deadLetterTaskScript codec taskID leaseID reason (codec.formatTime redisNow) db =
        .ok (.integer result) t ∧
      RedisQueue.transitionResultError result =
        (q.deadLetter taskID leaseID reason memoryNow).1 ∧
      Mirrors codec t (q.deadLetter taskID leaseID reason memoryNow).2 := by
  refine fencedScript_mirrors h taskID leaseID ?_
  intro text task db' hlookup hholds hq
  obtain ⟨text', htext', hholds'⟩ :=
    hcodec.encodeDead task.charged reason redisNow memoryNow
      (exact_of_deadLetter hvalid hbounded hlookup)
  have hencode :
      codec.encodeDead task.toLua.charged reason (codec.formatTime redisNow) = .ok text' :=
    htext'
  refine ⟨db'.lpushDead text', ?_, hq.pushDead hholds'⟩
  simp only [hholds.2]
  show (ofExcept (codec.encodeDead task.toLua.charged _ _) >>= _) db' = _
  rw [hencode]
  rfl

/-- Every admitted call is answered alike. -/
theorem answers
    (hcodec : codec.Faithful limit)
    (h : Simulates codec db q) {call : BackendCall}
    (hguard : (memoryBackend limit).guard q call) :
    Answers codec call db q := by
  obtain ⟨hmirrors, hvalid⟩ := h
  obtain ⟨hcall, hbounded⟩ := hguard
  cases call with
  | enqueue task =>
      have hbound := hbounded.ready task (by simp [MemoryQueue.answer, MemoryQueue.enqueue])
      obtain ⟨text, htext, hholds⟩ := hcodec.marshal task ⟨hcall.1, hbound⟩
      have hstep : (redisBackend codec).step (.enqueue task) db =
          (some (.ok .done), db.lpushReady text) := by
        simp only [redisBackend, RedisQueue.answer, RedisQueue.enqueue, htext]
        rfl
      refine ⟨by rw [hstep]; rfl, ?_, by intro script hscript; cases hscript⟩
      rw [hstep]
      exact hmirrors.pushReady hholds
  | acquire leaseID =>
      rcases acquireTaskScript_mirrors hmirrors leaseID with
        ⟨hnil, hrun⟩ | ⟨task, rest, text, t, hready, hrun, hholds, hnext⟩
      · refine answers_of_script (.error (.sentinel .errQueueEmpty)) rfl rfl hrun ?_ ?_ ?_
        · rw [RedisQueue.acquire, bind_of_ok hrun]
          rfl
        · simp only [MemoryQueue.answer, MemoryQueue.acquire, hnil]
        · simpa only [MemoryQueue.answer, MemoryQueue.acquire, hnil] using hmirrors
      · refine answers_of_script (.ok task) rfl rfl hrun ?_ ?_ hnext
        · rw [RedisQueue.acquire, bind_of_ok hrun]
          simp only [hholds.1]
        · simp only [MemoryQueue.answer, MemoryQueue.acquire, hready]
  | complete taskID leaseID =>
      obtain ⟨result, t, hrun, hresult, hnext⟩ :=
        completeTaskScript_mirrors hmirrors taskID leaseID
      exact answers_of_script _ rfl rfl hrun (runTaskScript_integer hrun)
        (by rw [hresult]; rfl) hnext
  | requeue taskID leaseID =>
      obtain ⟨result, t, hrun, hresult, hnext⟩ :=
        requeueTaskScript_mirrors hcodec hmirrors hvalid taskID leaseID hbounded
      exact answers_of_script _ rfl rfl hrun (runTaskScript_integer hrun)
        (by rw [hresult]; rfl) hnext
  | deadLetter taskID leaseID reason memoryNow redisNow =>
      obtain ⟨result, t, hrun, hresult, hnext⟩ :=
        deadLetterTaskScript_mirrors hcodec hmirrors hvalid taskID leaseID reason
          memoryNow redisNow hbounded
      exact answers_of_script _ rfl rfl hrun (runTaskScript_integer hrun)
        (by rw [hresult]; rfl) hnext
  | recoverOrphanedProcessing order active =>
      obtain ⟨items, t, hrun, hresult, hnext⟩ :=
        recoverScript_mirrors hmirrors hvalid order hcall
      refine answers_of_script (RedisQueue.decodeRecoveryResult items) rfl rfl hrun ?_ ?_ hnext
      · rw [RedisQueue.recoverOrphanedProcessing, bind_of_ok hrun]
      · rw [hresult]
        rfl

theorem simulates_empty :
    Simulates codec Database.empty MemoryQueue.new := by
  refine ⟨⟨List.Forall₂.nil, rfl, fun _ => rfl, ?_, List.Forall₂.nil⟩, ?_, ?_⟩
  · intro id entry hlookup
    cases hlookup
  · intro task htask
    cases htask
  · intro id entry hlookup
    cases hlookup

/-- The two backends answer a whole sequence of calls alike. -/
theorem simulates_calls
    (hcodec : codec.Faithful limit) {calls : List BackendCall}
    (hcalls : (memoryBackend limit).Admits MemoryQueue.new calls) :
    (redisBackend codec).trace Database.empty calls =
      (memoryBackend limit).trace MemoryQueue.new calls ∧
    Simulates codec ((redisBackend codec).final Database.empty calls)
      ((memoryBackend limit).final MemoryQueue.new calls) := by
  refine Machine.trace_of_simulation (R := Simulates codec) ?_ calls _ _ simulates_empty hcalls
  intro db q call hrel hguard
  obtain ⟨hreply, hmirrors, _⟩ := answers hcodec hrel hguard
  exact ⟨hreply, hmirrors, hrel.2.answer hguard.1⟩

end Step

/--
The Redis backend refines the memory backend.  Take any sequence of calls with valid
IDs during which the attempts of all tasks stay between zero and a limit, up to
which the two JSON libraries are exact.

* Both backends return the same tasks, errors, counts of moved tasks and matched
  leases, call by call.
* Afterwards the Redis lists, read from right to left, and the two processing
  hashes, joined into one map, hold what the memory backend holds, up to the times
  of death; the two hashes have the same keys.
* No script that was run on the way has aborted.
-/
theorem redis_refines_memory
    {codec : TaskCodec} {limit : Int}
    (hcodec : codec.Faithful limit)
    {calls : List BackendCall}
    (hcalls : (memoryBackend limit).Admits MemoryQueue.new calls) :
    (redisBackend codec).trace Database.empty calls =
      (memoryBackend limit).trace MemoryQueue.new calls ∧
    Refines codec ((redisBackend codec).final Database.empty calls)
      ((memoryBackend limit).final MemoryQueue.new calls) ∧
    ∀ before call after script,
      calls = before ++ call :: after →
      RedisQueue.script codec call = some script →
      ∃ reply t,
        script ((redisBackend codec).final Database.empty before) = .ok reply t := by
  obtain ⟨htrace, hmirrors, _⟩ := simulates_calls hcodec hcalls
  refine ⟨htrace, hmirrors.refines, ?_⟩
  rintro before call after script rfl hscript
  obtain ⟨hbefore, hguard, _⟩ := (Machine.admits_append _ _ _).mp hcalls
  obtain ⟨_, hrel⟩ := simulates_calls hcodec hbefore
  exact (answers hcodec hrel hguard).2.2 script hscript

section Plain

/-- A number in unary, in front of some bytes. -/
def writeUnary : Nat → GoString → GoString
  | 0, rest => 0 :: rest
  | n + 1, rest => 1 :: writeUnary n rest

def readUnary : GoString → Nat × GoString
  | [] => (0, [])
  | b :: rest =>
      if b = 0 then (0, rest) else ((readUnary rest).1 + 1, (readUnary rest).2)

theorem readUnary_writeUnary
    (n : Nat) (rest : GoString) :
    readUnary (writeUnary n rest) = (n, rest) := by
  induction n with
  | zero =>
      rfl
  | succ n ih =>
      simp [writeUnary, readUnary, ih]

/-- A task as its ID, its attempts and its payload. -/
def writePlain (task : LuaTask) : GoString :=
  writeUnary task.id.length (task.id ++ writeUnary (task.attempts.getD 0).toNat task.payload)

def readPlain (text : GoString) : LuaTask :=
  let afterID := (readUnary text).2.drop (readUnary text).1
  ⟨(readUnary text).2.take (readUnary text).1, (readUnary afterID).2, some (readUnary afterID).1⟩

def LuaTask.toTask (task : LuaTask) : Task :=
  ⟨task.id, task.payload, task.attempts.getD 0⟩

theorem readPlain_writePlain
    {task : Task}
    (h : 0 ≤ task.attempts) :
    readPlain (writePlain task.toLua) = task.toLua := by
  simp [readPlain, writePlain, readUnary_writeUnary, Task.toLua, Int.toNat_of_nonneg h]

/-- Two libraries that agree on a plain format. -/
def plainCodec : TaskCodec where
  marshal task := .ok (writePlain task.toLua)
  unmarshal text := .ok (readPlain text).toTask
  unmarshalDead text :=
    .ok ⟨(readPlain ((readUnary text).2.take (readUnary text).1)).toTask,
      (readUnary text).2.drop (readUnary text).1, 0⟩
  formatTime _ := []
  decode text := .ok (readPlain text)
  encode task := .ok (writePlain task)
  encodeDead task reason _ :=
    .ok (writeUnary (writePlain task).length (writePlain task ++ reason))

theorem plainCodec_holds
    {task : Task}
    (h : 0 ≤ task.attempts) :
    plainCodec.Holds (writePlain task.toLua) task := by
  have hread := readPlain_writePlain h
  constructor
  · show Except.ok (readPlain _).toTask = Except.ok task
    rw [hread]
    rfl
  · show Except.ok (readPlain _) = _
    rw [hread]

theorem plainCodec_faithful
    (limit : Int) :
    plainCodec.Faithful limit where
  marshal task h := ⟨_, rfl, plainCodec_holds h.2.1⟩
  encode task h := ⟨_, rfl, plainCodec_holds h.2.1⟩
  encodeDead task reason time deadAt h := by
    refine ⟨_, rfl, _, rfl, ?_, fun _ => ?_⟩
    · show (readPlain _).toTask = task
      simp only [readUnary_writeUnary, List.take_left, readPlain_writePlain h.2.1]
      rfl
    · simp [readUnary_writeUnary]

end Plain

/-- A task is enqueued, acquired and requeued, on both backends. -/
theorem redis_refines_memory_requeued :
    (redisBackend plainCodec).trace Database.empty
        [.enqueue ⟨goString "t", goString "p", 0⟩, .acquire (goString "L"),
          .requeue (goString "t") (goString "L")] =
      [(.enqueue ⟨goString "t", goString "p", 0⟩, some (.ok .done)),
        (.acquire (goString "L"), some (.ok (.task ⟨goString "t", goString "p", 0⟩))),
        (.requeue (goString "t") (goString "L"), some (.ok .done))] := by
  have ht : ValidID (goString "t") := ⟨⟨"t", rfl⟩, by decide⟩
  have hL : ValidID (goString "L") := ⟨⟨"L", rfl⟩, by decide⟩
  have hcalls : (memoryBackend (10 ^ 14)).Admits MemoryQueue.new
      [.enqueue ⟨goString "t", goString "p", 0⟩, .acquire (goString "L"),
        .requeue (goString "t") (goString "L")] := by
    exact ⟨⟨ht, by decide, by decide, by decide⟩, ⟨hL, by decide, by decide, by decide⟩,
      ⟨⟨ht, hL⟩, by decide, by decide, by decide⟩, trivial⟩
  obtain ⟨htrace, _, _⟩ := redis_refines_memory (plainCodec_faithful (10 ^ 14)) hcalls
  exact htrace.trans (by decide +kernel)

end Moxy
