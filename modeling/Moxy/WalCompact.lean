import Moxy.WalRecovery
import Moxy.LeaseJournal
import Moxy.Lib.CrashProgram
import Mathlib.Data.List.Sort

/-!
# Moxy: compaction of the journal file

`compact` rewrites the journal with one fetch record for each open lease.  It
replays the file, writes the open records in the order of their lease IDs to a
temporary file, closes both files, renames the temporary one over the journal and
opens the result for appending.

Each call into the operating system takes effect, fails, or sees the process stop
before, during or after it; what it does is written down in advance as a script.
The rename is the only call that changes the content at the journal path, and it
changes it at once.  So the path holds the old bytes or the new ones whatever
happens in between (`compact_ends`), and the records in both leave the same leases
open (`live_openRecords`).
-/

namespace Moxy

open Lib Lib.CrashM

/-- How one call into the operating system turns out. -/
inductive SystemFate where
  | done
  | fails (message : GoString)
  | stopsBefore
  | stopsDuring
  | stopsAfter
deriving DecidableEq, Repr

/--
One call into the operating system.  The count is the number of bytes that a call
moved which did not end: accepted by a write, delivered by a read.  For a read that
ended, it is the place up to which the buffered reader has read ahead.
-/
structure SystemCall where
  fate : SystemFate
  count : Nat
deriving DecidableEq, Repr

def SystemCall.calm : SystemCall :=
  ⟨.done, 0⟩

/--
An open journal with the files it works on.  `log.file.bytes` is the content at the
journal path; the handle that the journal holds may have been closed.
-/
structure JournalFiles where
  path : GoString
  log : Log
  closed : Bool
  temporary : Option Bytes
  calls : List SystemCall
deriving DecidableEq

namespace JournalFiles

/-- The files after the next call has been taken from the script. -/
def advance (s : JournalFiles) : JournalFiles :=
  { s with calls := s.calls.tail }

/-- A call that takes effect as a whole, or of which only a part took place. -/
def call (context : GoString) (part : Nat → JournalFiles → JournalFiles)
    (whole : JournalFiles → JournalFiles) : CrashM GoError JournalFiles Unit :=
  fun s =>
    let c := s.calls.headD SystemCall.calm
    match c.fate with
    | .done => .ok () (whole s.advance)
    | .fails message => .error (walError context message) (part c.count s.advance)
    | .stopsBefore => .crashed s.advance
    | .stopsDuring => .crashed (part c.count s.advance)
    | .stopsAfter => .crashed (whole s.advance)

/-- A call without a part: it takes effect or it does not. -/
def atomically (context : GoString) (whole : JournalFiles → JournalFiles) :
    CrashM GoError JournalFiles Unit :=
  call context (fun _ s => s) whole

def seek (position : Nat) (s : JournalFiles) : JournalFiles :=
  { s with log := { s.log with file := { s.log.file with position := position } } }

/-- Move the journal's handle to the start of the file. -/
def seekToStart : CrashM GoError JournalFiles Unit := do
  let s ← read
  if s.closed then
    fail (walError (goString "seek to start")
      (goString "seek " ++ s.path ++ goString ": file already closed"))
  else
    atomically (goString "seek to start") (seek 0)

/--
Read the records of the journal.  Afterwards the handle stands where the buffered
reader has stopped, which is not in front of the last intact record.
-/
def readRecords (codec : Codec) : CrashM GoError JournalFiles (List Record) :=
  fun s =>
    let c := s.calls.headD SystemCall.calm
    let bytes := s.log.file.bytes
    let stopped := min c.count bytes.length
    match c.fate with
    | .done =>
        match replay codec none bytes with
        | .ok (records, good) => .ok records (s.advance.seek (max good stopped))
        | .error err => .error err (s.advance.seek stopped)
    | .fails message =>
        match replay codec (some message) (bytes.take c.count) with
        | .ok (records, good) => .ok records (s.advance.seek (max good stopped))
        | .error err => .error err (s.advance.seek stopped)
    | .stopsBefore | .stopsDuring | .stopsAfter => .crashed s.advance

/-- Create the temporary file, or empty the one that a stopped process left. -/
def openTemporary : CrashM GoError JournalFiles Unit :=
  atomically (goString "open compaction file") (fun s => { s with temporary := some [] })

def extend (data : Bytes) (s : JournalFiles) : JournalFiles :=
  { s with temporary := s.temporary.map (· ++ data) }

def writeTemporary (frame : Bytes) : CrashM GoError JournalFiles Unit :=
  call (goString "write compacted record") (fun n => extend (frame.take n)) (extend frame)

def syncTemporary : CrashM GoError JournalFiles Unit :=
  atomically (goString "sync compacted journal") id

def closeTemporary : CrashM GoError JournalFiles Unit :=
  atomically (goString "close compacted journal") id

/-- The source ignores whether the temporary file could be removed. -/
def removeTemporary : CrashM GoError JournalFiles Unit := do
  let _ ← attempt (atomically [] (fun s => { s with temporary := none }))
  pure ()

/-- A handle whose close failed is closed all the same. -/
def closeJournal : CrashM GoError JournalFiles Unit :=
  call (goString "close journal before rename") (fun _ s => { s with closed := true })
    (fun s => { s with closed := true })

/-- Replace the journal by the temporary file. -/
def replaceJournal (s : JournalFiles) : JournalFiles :=
  match s.temporary with
  | none => s
  | some bytes =>
      { s with
        log := { s.log with file := { s.log.file with bytes := bytes } }
        temporary := none }

def renameTemporary : CrashM GoError JournalFiles Unit :=
  atomically (goString "replace journal") replaceJournal

def reopenJournal : CrashM GoError JournalFiles Unit :=
  atomically (goString "reopen compacted journal")
    (fun s =>
      { s with
        log := { s.log with file := ⟨s.log.file.bytes, 0, true⟩ }
        closed := false })

/-- Give up: close the temporary file, whatever that reports, and remove it. -/
def discardTemporary : CrashM GoError JournalFiles Unit := do
  let _ ← attempt closeTemporary
  removeTemporary

/-- Run a step; if it fails, clean up and report its error. -/
def orElse (m cleanup : CrashM GoError JournalFiles Unit) :
    CrashM GoError JournalFiles Unit := do
  match ← attempt m with
  | .ok _ => pure ()
  | .error err => do
      cleanup
      fail err

/-- Write the records to the temporary file; the number of bytes written. -/
def writeRecords (codec : Codec) :
    List Record → Nat → CrashM GoError JournalFiles Nat
  | [], written => pure written
  | record :: rest, written =>
      match encode codec record with
      | .error err => do
          discardTemporary
          fail err
      | .ok frame => do
          orElse (writeTemporary frame) discardTemporary
          writeRecords codec rest (written + frame.length)

end JournalFiles

/-- The lease IDs of a map, collected in the order of a visit and then sorted. -/
def openIDs (order : List GoString) (open_ : Map GoString Record) : List GoString :=
  ((Map.range order open_).map Prod.fst).insertionSort (· ≤ ·)

/-- The open records in the order of their lease IDs; each ID is a key of the map. -/
def openRecords (order : List GoString) (open_ : Map GoString Record) : List Record :=
  (openIDs order open_).filterMap (fun id => open_.lookup id)

open JournalFiles in
/-- Rewrite the journal with one fetch record for each lease that is still open. -/
def compact (codec : Codec) (order : List GoString) :
    CrashM GoError JournalFiles Unit := do
  seekToStart
  let records ← readRecords codec
  let open_ := live records
  openTemporary
  let written ← writeRecords codec (openRecords order open_) 0
  orElse syncTemporary discardTemporary
  orElse closeTemporary removeTemporary
  orElse closeJournal removeTemporary
  renameTemporary
  reopenJournal
  update (fun s => { s with log := { s.log with offset := written } })

section OpenRecords

/-- Two maps with the same bindings have the same IDs in the same order. -/
theorem openIDs_congr
    (order order' : List GoString) {m m' : Map GoString Record}
    (h : ∀ id, m.lookup id = m'.lookup id) :
    openIDs order m = openIDs order' m' := by
  have hperm :
      ((Map.range order m).map Prod.fst).Perm ((Map.range order' m').map Prod.fst) :=
    (Map.range_perm order order' h).map Prod.fst
  exact List.Perm.eq_of_pairwise' (List.pairwise_insertionSort _ _)
    (List.pairwise_insertionSort _ _)
    ((List.perm_insertionSort _ _).trans
      (hperm.trans (List.perm_insertionSort _ _).symm))

theorem openRecords_congr
    (order order' : List GoString) {m m' : Map GoString Record}
    (h : ∀ id, m.lookup id = m'.lookup id) :
    openRecords order m = openRecords order' m' := by
  unfold openRecords
  rw [openIDs_congr order order' h]
  exact List.filterMap_congr (fun id _ => h id)

theorem mem_openIDs
    {order : List GoString} {m : Map GoString Record} {id : GoString} {record : Record}
    (h : m.lookup id = some record) :
    id ∈ openIDs order m := by
  rw [openIDs, (List.perm_insertionSort _ _).mem_iff, List.mem_map]
  exact ⟨(id, record), (Map.mem_range order m id record).mpr h, rfl⟩

/-- The records of some lease IDs leave exactly these leases open. -/
theorem live_filterMap
    {m : Map GoString Record}
    (hm : ∀ id record, m.lookup id = some record →
      record.leaseID = id ∧ record.op = .fetch)
    (ids : List GoString) (id : GoString) :
    (live (ids.filterMap (fun id => m.lookup id))).lookup id =
      if id ∈ ids then m.lookup id else none := by
  induction ids using List.reverseRecOn with
  | nil =>
      rfl
  | append_singleton ids last ih =>
      rw [List.filterMap_append]
      cases hlast : m.lookup last with
      | none =>
          rw [show [last].filterMap (fun id => m.lookup id) = [] by simp [hlast],
            List.append_nil, ih]
          by_cases h : id = last
          · subst h
            simp [hlast]
          · simp [h]
      | some record =>
          obtain ⟨hid, hop⟩ := hm last record hlast
          rw [show [last].filterMap (fun id => m.lookup id) = [record] by simp [hlast],
            live_append]
          simp only [liveStep, hop, hid, Map.lookup_insert_ite, ih]
          by_cases h : id = last
          · subst h
            simp [hlast]
          · simp [h]

/-- The open records leave the same leases open as the whole history. -/
theorem live_openRecords
    (order : List GoString) (rs : List Record) (id : GoString) :
    (live (openRecords order (live rs))).lookup id = (live rs).lookup id := by
  rw [openRecords, live_filterMap (fun _ _ h => (live_lookup_some h).2)]
  split
  · rfl
  · rename_i hout
    cases h : (live rs).lookup id with
    | none =>
        rfl
    | some record =>
        exact absurd (mem_openIDs h) hout

/-- Histories that leave the same leases open do so after the same continuation. -/
theorem live_append_congr
    {rs rs' : List Record}
    (h : ∀ id, (live rs').lookup id = (live rs).lookup id)
    (later : List Record) (id : GoString) :
    (live (rs' ++ later)).lookup id = (live (rs ++ later)).lookup id := by
  induction later using List.reverseRecOn with
  | nil =>
      simpa using h id
  | append_singleton later record ih =>
      rw [← List.append_assoc, ← List.append_assoc, live_append, live_append]
      exact liveStep_lookup_congr record id ih

/-- Compacting twice gives the records of compacting once. -/
theorem openRecords_openRecords
    (order order' : List GoString) (rs : List Record) :
    openRecords order' (live (openRecords order (live rs))) =
      openRecords order (live rs) :=
  openRecords_congr order' order (live_openRecords order rs)

theorem mem_of_mem_openRecords
    {order : List GoString} {rs : List Record} {record : Record}
    (h : record ∈ openRecords order (live rs)) :
    record ∈ rs := by
  rw [openRecords, List.mem_filterMap] at h
  obtain ⟨id, _, hlookup⟩ := h
  exact (live_lookup_some hlookup).1

end OpenRecords

section Encodes

variable {codec : Codec} {rs : List Record} {frames : List Bytes}

theorem Encodes.encode_of_mem
    (h : Encodes codec rs frames) {record : Record}
    (hmem : record ∈ rs) :
    ∃ frame, encode codec record = .ok frame := by
  induction h with
  | nil =>
      cases hmem
  | cons hencode _ ih =>
      rcases List.mem_cons.mp hmem with rfl | hrest
      · exact ⟨_, hencode⟩
      · exact ih hrest

theorem encodes_of_mem
    (h : ∀ record ∈ rs, ∃ frame, encode codec record = .ok frame) :
    ∃ frames, Encodes codec rs frames := by
  induction rs with
  | nil =>
      exact ⟨[], List.Forall₂.nil⟩
  | cons record rest ih =>
      obtain ⟨frame, hframe⟩ := h record (by simp)
      obtain ⟨frames, hframes⟩ := ih (fun r hr => h r (by simp [hr]))
      exact ⟨frame :: frames, List.Forall₂.cons hframe hframes⟩

theorem Encodes.openRecords
    (h : Encodes codec rs frames) (order : List GoString) :
    ∃ compacted, Encodes codec (openRecords order (live rs)) compacted :=
  encodes_of_mem (fun _ hmem => h.encode_of_mem (mem_of_mem_openRecords hmem))

end Encodes

namespace JournalFiles

/-- Some call of the script does not simply take effect. -/
def Disturbed (s : JournalFiles) : Prop :=
  ∃ c ∈ s.calls, c.fate ≠ .done

theorem disturbed_of_tail
    {s : JournalFiles}
    (h : ∃ c ∈ s.calls.tail, c.fate ≠ .done) :
    s.Disturbed := by
  obtain ⟨c, hc, hfate⟩ := h
  exact ⟨c, List.mem_of_mem_tail hc, hfate⟩

theorem disturbed_of_head
    {s : JournalFiles}
    (h : (s.calls.headD SystemCall.calm).fate ≠ .done) :
    s.Disturbed := by
  cases hcalls : s.calls with
  | nil =>
      rw [hcalls] at h
      exact absurd rfl h
  | cons c rest =>
      rw [hcalls] at h
      exact ⟨c, by simp [hcalls], h⟩

/--
The content at the journal path is `old`, the handle and the temporary file are as
given, and a disturbance of the calls to come is one of the whole compaction.
-/
structure Stands (disturbed : Prop) (log : Log) (old : Bytes) (closed : Bool)
    (temporary : Option Bytes) (s : JournalFiles) : Prop where
  bytes : s.log.file.bytes = old
  sync : s.log.sync = log.sync
  recovered : s.log.recovered = log.recovered
  closed : s.closed = closed
  temporary : s.temporary = temporary
  disturbed : s.Disturbed → disturbed

/-- An early end: something disturbed the compaction, and the path holds `old`. -/
def Ends (disturbed : Prop) (old : Bytes) (s : JournalFiles) : Prop :=
  disturbed ∧ s.log.file.bytes = old

section Calls

variable {bad : Prop} {log : Log} {old : Bytes} {closed : Bool}
  {temporary : Option Bytes} {s : JournalFiles}

theorem Stands.advance
    (h : s.Stands bad log old closed temporary) :
    s.advance.Stands bad log old closed temporary :=
  ⟨h.bytes, h.sync, h.recovered, h.closed, h.temporary,
    fun hd => h.disturbed (disturbed_of_tail hd)⟩

/-- A call, by what the script says about it. -/
theorem wp_call_fate
    {context : GoString} {part : Nat → JournalFiles → JournalFiles}
    {whole : JournalFiles → JournalFiles}
    {ok : Unit → JournalFiles → Prop} {error : GoError → JournalFiles → Prop}
    {crashed : JournalFiles → Prop}
    (hdone : (s.calls.headD SystemCall.calm).fate = .done → ok () (whole s.advance))
    (hfails : (s.calls.headD SystemCall.calm).fate ≠ .done →
      ∀ err n, error err (part n s.advance))
    (hstops : (s.calls.headD SystemCall.calm).fate ≠ .done →
      crashed s.advance ∧ (∀ n, crashed (part n s.advance)) ∧ crashed (whole s.advance)) :
    wp (call context part whole) ok error crashed s := by
  unfold wp call
  cases hfate : (s.calls.headD SystemCall.calm).fate with
  | done =>
      simpa only [hfate] using hdone hfate
  | fails message =>
      simpa only [hfate] using hfails (by rw [hfate]; nofun) _ _
  | stopsBefore =>
      simpa only [hfate] using (hstops (by rw [hfate]; nofun)).1
  | stopsDuring =>
      simpa only [hfate] using (hstops (by rw [hfate]; nofun)).2.1 _
  | stopsAfter =>
      simpa only [hfate] using (hstops (by rw [hfate]; nofun)).2.2

/-- A call: what it leaves when it ends, and in the middle. -/
theorem wp_call
    {context : GoString} {part : Nat → JournalFiles → JournalFiles}
    {whole : JournalFiles → JournalFiles}
    {ok : Unit → JournalFiles → Prop} {error : GoError → JournalFiles → Prop}
    {crashed : JournalFiles → Prop}
    (hdone : ok () (whole s.advance))
    (hfails : s.Disturbed → ∀ err n, error err (part n s.advance))
    (hstops : s.Disturbed → crashed s.advance ∧ (∀ n, crashed (part n s.advance)) ∧
      crashed (whole s.advance)) :
    wp (call context part whole) ok error crashed s :=
  wp_call_fate (fun _ => hdone) (fun hfate => hfails (disturbed_of_head hfate))
    (fun hfate => hstops (disturbed_of_head hfate))

/-- A property of the journal: the script and the temporary file do not matter to it. -/
def AboutJournal (P : JournalFiles → Prop) : Prop :=
  ∀ s calls temporary, P s → P { s with calls := calls, temporary := temporary }

theorem ends_aboutJournal :
    AboutJournal (Ends bad old) :=
  fun _ _ _ h => h

section Cleanup

variable {P : JournalFiles → Prop}

theorem preserves_removeTemporary
    (hP : AboutJournal P) :
    Preserves P removeTemporary := by
  refine Preserves.bind (Preserves.attempt ?_) (fun _ => preserves_pure _)
  intro s hs
  have hkept : P s.advance := hP s _ s.temporary hs
  have hremoved : P { s.advance with temporary := none } := hP s _ none hs
  exact wp_call hremoved (fun _ _ _ => hkept) (fun _ => ⟨hkept, fun _ => hkept, hremoved⟩)

theorem preserves_discardTemporary
    (hP : AboutJournal P) :
    Preserves P discardTemporary := by
  refine Preserves.bind (Preserves.attempt ?_) (fun _ => preserves_removeTemporary hP)
  intro s hs
  have hkept : P s.advance := hP s _ s.temporary hs
  rw [closeTemporary, atomically]
  exact wp_call hkept (fun _ _ _ => hkept) (fun _ => ⟨hkept, fun _ => hkept, hkept⟩)

/-- A failing step is cleaned up, and nothing else happens. -/
theorem wp_orElse
    {m cleanup : CrashM GoError JournalFiles Unit}
    {ok : Unit → JournalFiles → Prop} {crashed : JournalFiles → Prop}
    (hcleanup : Preserves P cleanup)
    (hcrashed : ∀ t, P t → crashed t)
    (hm : wp m ok (fun _ => P) crashed s) :
    wp (orElse m cleanup) ok (fun _ => P) crashed s := by
  unfold orElse
  rw [wp_bind, wp_attempt]
  refine wp_mono hm (fun _ _ h => h) ?_ (fun _ h => h)
  intro err t ht
  show wp (cleanup >>= fun _ => fail err) _ _ _ t
  rw [wp_bind]
  exact wp_mono (hcleanup t ht) (fun _ _ h => h) (fun _ _ h => h) hcrashed

end Cleanup

/-- A step in front of the rename leaves the journal path alone. -/
theorem Stands.step
    {context : GoString} {part : Nat → JournalFiles → JournalFiles}
    {whole : JournalFiles → JournalFiles}
    {closed' : Bool} {temporary' : Option Bytes}
    (h : s.Stands bad log old closed temporary)
    (hpart : ∀ n s, (part n s).log.file.bytes = s.log.file.bytes)
    (hwhole : ∀ t, t.Stands bad log old closed temporary →
      (whole t).Stands bad log old closed' temporary') :
    wp (call context part whole)
      (fun _ t => t.Stands bad log old closed' temporary')
      (fun _ => Ends bad old) (Ends bad old) s := by
  have hdone := hwhole s.advance h.advance
  refine wp_call hdone ?_ ?_
  · intro hbad _ n
    exact ⟨h.disturbed hbad, (hpart n _).trans h.bytes⟩
  · intro hbad
    exact ⟨⟨h.disturbed hbad, h.bytes⟩,
      fun n => ⟨h.disturbed hbad, (hpart n _).trans h.bytes⟩,
      h.disturbed hbad, hdone.bytes⟩

theorem Stands.guarded
    {context : GoString} {part : Nat → JournalFiles → JournalFiles}
    {whole : JournalFiles → JournalFiles} {cleanup : CrashM GoError JournalFiles Unit}
    {closed' : Bool} {temporary' : Option Bytes}
    (h : s.Stands bad log old closed temporary)
    (hcleanup : Preserves (Ends bad old) cleanup)
    (hpart : ∀ n s, (part n s).log.file.bytes = s.log.file.bytes)
    (hwhole : ∀ t, t.Stands bad log old closed temporary →
      (whole t).Stands bad log old closed' temporary') :
    wp (orElse (call context part whole) cleanup)
      (fun _ t => t.Stands bad log old closed' temporary')
      (fun _ => Ends bad old) (Ends bad old) s :=
  wp_orElse hcleanup (fun _ ht => ht) (h.step hpart hwhole)

end Calls

section Compact

variable {bad : Prop} {log : Log} {closed : Bool} {temporary : Option Bytes}
  {s : JournalFiles} {codec : Codec} {rs : List Record} {frames : List Bytes}

/-- A read that fails in the middle of a journal is reported. -/
theorem replay_device_fails
    (h : Encodes codec rs frames) (message : GoString) (n : Nat) :
    ∃ err, replay codec (some message) (frames.flatten.take n) = .error err := by
  obtain ⟨k, _, torn, htake, htorn, _⟩ :=
    h.cut (min n frames.flatten.length) (Nat.min_le_right _ _)
  obtain ⟨err, herr⟩ := htorn.fails message
  rw [List.take_eq_take_min, htake]
  exact ⟨err, replay_fails (h.take k).isFrames herr⟩

theorem Stands.seek
    {old : Bytes}
    (h : s.Stands bad log old closed temporary) (position : Nat) :
    (s.seek position).Stands bad log old closed temporary :=
  ⟨h.bytes, h.sync, h.recovered, h.closed, h.temporary, h.disturbed⟩

/-- The records of a journal that holds the frames of `rs` are `rs`. -/
theorem Stands.readRecords
    (h : s.Stands bad log frames.flatten closed temporary)
    (hencodes : Encodes codec rs frames) :
    wp (readRecords codec)
      (fun records t =>
        records = rs ∧ t.Stands bad log frames.flatten closed temporary)
      (fun _ => Ends bad frames.flatten) (Ends bad frames.flatten) s := by
  have hbad : (s.calls.headD SystemCall.calm).fate ≠ .done → bad :=
    fun hfate => h.disturbed (disturbed_of_head hfate)
  have hreplay := replay_frames hencodes.isFrames
  unfold wp JournalFiles.readRecords
  rw [h.bytes]
  cases hfate : (s.calls.headD SystemCall.calm).fate with
  | done =>
      simp only [hfate, hreplay]
      exact ⟨trivial, h.advance.seek _⟩
  | fails message =>
      obtain ⟨err, herr⟩ :=
        replay_device_fails hencodes message (s.calls.headD SystemCall.calm).count
      simp only [hfate, herr]
      exact ⟨hbad (by rw [hfate]; nofun), h.bytes⟩
  | stopsBefore | stopsDuring | stopsAfter =>
      simp only [hfate]
      exact ⟨hbad (by rw [hfate]; nofun), h.bytes⟩

theorem Stands.extend
    {old data content : Bytes}
    (h : s.Stands bad log old closed (some content)) :
    (s.extend data).Stands bad log old closed (some (content ++ data)) :=
  ⟨h.bytes, h.sync, h.recovered, h.closed,
    by simp [JournalFiles.extend, h.temporary], h.disturbed⟩

theorem Stands.emptied
    {old : Bytes}
    (h : s.Stands bad log old closed temporary) :
    JournalFiles.Stands bad log old closed (some []) { s with temporary := some [] } :=
  ⟨h.bytes, h.sync, h.recovered, h.closed, rfl, h.disturbed⟩

theorem Stands.closeHandle
    {old : Bytes}
    (h : s.Stands bad log old closed temporary) :
    JournalFiles.Stands bad log old true temporary { s with closed := true } :=
  ⟨h.bytes, h.sync, h.recovered, rfl, h.temporary, h.disturbed⟩

/-- Writing the records appends their frames to the temporary file. -/
theorem Stands.writeRecords
    {old content : Bytes} {written : Nat}
    (hencodes : Encodes codec rs frames)
    (h : s.Stands bad log old closed (some content)) :
    wp (writeRecords codec rs written)
      (fun total t =>
        total = written + frames.flatten.length ∧
        t.Stands bad log old closed (some (content ++ frames.flatten)))
      (fun _ => Ends bad old) (Ends bad old) s := by
  induction hencodes generalizing s content written with
  | nil =>
      exact ⟨rfl, by simpa using h⟩
  | @cons record frame rs frames hencode _ ih =>
      simp only [JournalFiles.writeRecords, hencode, wp_bind]
      refine wp_mono (h.guarded (preserves_discardTemporary ends_aboutJournal) (fun _ _ => rfl)
        (fun _ ht => ht.extend)) ?_ (fun _ _ h => h) (fun _ h => h)
      intro _ t ht
      refine wp_mono (ih ht) ?_ (fun _ _ h => h) (fun _ h => h)
      rintro total u ⟨rfl, hu⟩
      rw [List.flatten_cons, List.length_append, ← Nat.add_assoc, ← List.append_assoc]
      exact ⟨rfl, hu⟩

/-- The rename is the only step that changes the journal path. -/
theorem Stands.replace
    {old new : Bytes}
    (h : s.Stands bad log old closed (some new)) :
    wp renameTemporary
      (fun _ t => t.Stands bad log new closed none)
      (fun _ => Ends bad old) (fun t => Ends bad old t ∨ Ends bad new t) s := by
  have hreplaced : (replaceJournal s.advance).Stands bad log new closed none := by
    have h' := h.advance
    simp only [replaceJournal, h'.temporary]
    exact ⟨rfl, h'.sync, h'.recovered, h'.closed, rfl, h'.disturbed⟩
  unfold renameTemporary atomically
  refine wp_call hreplaced ?_ ?_
  · intro hbad _ _
    exact ⟨h.disturbed hbad, h.bytes⟩
  · intro hbad
    exact ⟨Or.inl ⟨h.disturbed hbad, h.bytes⟩, fun _ => Or.inl ⟨h.disturbed hbad, h.bytes⟩,
      Or.inr ⟨h.disturbed hbad, hreplaced.bytes⟩⟩

theorem Stands.reopen
    {new : Bytes}
    (h : s.Stands bad log new closed temporary) :
    wp reopenJournal
      (fun _ t => t.closed = false ∧
        t.log = ⟨⟨new, 0, true⟩, log.sync, s.log.offset, log.recovered⟩)
      (fun _ => Ends bad new) (Ends bad new) s := by
  unfold reopenJournal atomically
  refine wp_call ⟨rfl, ?_⟩ ?_ ?_
  · show (⟨⟨s.log.file.bytes, 0, true⟩, s.log.sync, s.log.offset, s.log.recovered⟩ : Log) = _
    rw [h.bytes, h.sync, h.recovered]
  · intro hbad _ _
    exact ⟨h.disturbed hbad, h.bytes⟩
  · intro hbad
    exact ⟨⟨h.disturbed hbad, h.bytes⟩, fun _ => ⟨h.disturbed hbad, h.bytes⟩,
      h.disturbed hbad, h.bytes⟩

end Compact

end JournalFiles

open JournalFiles in
/--
Compaction returns with the new journal at the path.  If it ends early, something
disturbed it, and the path holds the old journal or the new one.
-/
theorem compact_ends
    {codec : Codec} {rs : List Record} {frames compacted : List Bytes}
    {order : List GoString} {s : JournalFiles}
    (hencodes : Encodes codec rs frames)
    (hcompacted : Encodes codec (openRecords order (live rs)) compacted)
    (hbytes : s.log.file.bytes = frames.flatten)
    (hopen : s.closed = false) :
    wp (compact codec order)
      (fun _ t =>
        t.closed = false ∧
        t.log = ⟨⟨compacted.flatten, 0, true⟩, s.log.sync, compacted.flatten.length,
          s.log.recovered⟩)
      (fun _ t => s.Disturbed ∧
        (t.log.file.bytes = frames.flatten ∨ t.log.file.bytes = compacted.flatten))
      (fun t => s.Disturbed ∧
        (t.log.file.bytes = frames.flatten ∨ t.log.file.bytes = compacted.flatten)) s := by
  have hold : ∀ t, Ends s.Disturbed frames.flatten t →
      s.Disturbed ∧
        (t.log.file.bytes = frames.flatten ∨ t.log.file.bytes = compacted.flatten) :=
    fun t ht => ⟨ht.1, Or.inl ht.2⟩
  have hnew : ∀ t, Ends s.Disturbed compacted.flatten t →
      s.Disturbed ∧
        (t.log.file.bytes = frames.flatten ∨ t.log.file.bytes = compacted.flatten) :=
    fun t ht => ⟨ht.1, Or.inr ht.2⟩
  have hstart : s.Stands s.Disturbed s.log frames.flatten false s.temporary :=
    ⟨hbytes, rfl, rfl, hopen, rfl, id⟩
  unfold compact seekToStart
  simp only [wp_bind, wp_read, hopen, Bool.false_eq_true, if_false]
  refine wp_mono (hstart.step (fun _ _ => rfl) (fun t ht => ht.seek 0)) ?_
    (fun _ => hold) hold
  intro _ t ht
  refine wp_mono (ht.readRecords hencodes) ?_ (fun _ => hold) hold
  rintro records t ⟨rfl, ht⟩
  refine wp_mono (ht.step (fun _ _ => rfl) (fun _ hu => hu.emptied)) ?_ (fun _ => hold) hold
  intro _ t ht
  refine wp_mono (ht.writeRecords hcompacted) ?_ (fun _ => hold) hold
  rintro written t ⟨hwritten, ht⟩
  refine wp_mono (ht.guarded (preserves_discardTemporary ends_aboutJournal)
    (fun _ _ => rfl) (fun _ hu => hu)) ?_
    (fun _ => hold) hold
  intro _ t ht
  refine wp_mono (ht.guarded (preserves_removeTemporary ends_aboutJournal)
    (fun _ _ => rfl) (fun _ hu => hu)) ?_
    (fun _ => hold) hold
  intro _ t ht
  refine wp_mono (ht.guarded (preserves_removeTemporary ends_aboutJournal)
    (fun _ _ => rfl) (fun _ hu => hu.closeHandle)) ?_ (fun _ => hold) hold
  intro _ t ht
  refine wp_mono ht.replace ?_ (fun _ => hold) (fun u hu => hu.elim (hold u) (hnew u))
  intro _ t ht
  refine wp_mono ht.reopen ?_ (fun _ => hnew) hnew
  rintro _ t ⟨hopen', hlog⟩
  refine ⟨hopen', ?_⟩
  simp only [hlog, hwritten, Nat.zero_add, List.nil_append]

/-- A compacted journal leaves the old leases open. -/
theorem compacted_opens
    {codec : Codec} {rs : List Record} {order : List GoString} {compacted : List Bytes}
    (h : Encodes codec (openRecords order (live rs)) compacted) :
    ∃ rs',
      replay codec none compacted.flatten = .ok (rs', compacted.flatten.length) ∧
      ∀ id, (live rs').lookup id = (live rs).lookup id :=
  ⟨_, replay_frames h.isFrames, live_openRecords order rs⟩

/--
Compaction preserves recovery at every moment.  Let the journal hold the frames of
any records.

* When compaction returns, the size that the journal reports is the length of the
  file.  After any appends that return, in particular after none, opening the file
  recovers records that leave the same leases open, with the same fetch records, as
  the old ones followed by the appended ones.  A second compaction does not change
  the content at the path, however it ends.
* However compaction ends, the content at the path replays to records that leave
  the old leases open.
* If every call into the operating system takes effect, compaction returns.
-/
theorem compaction_preserves_recovery
    {codec : Codec} {rs : List Record} {frames : List Bytes} {s : JournalFiles}
    (order : List GoString)
    (hencodes : Encodes codec rs frames)
    (hbytes : s.log.file.bytes = frames.flatten)
    (hopen : s.closed = false) :
    (∀ t, compact codec order s = .ok () t →
      t.closed = false ∧
      t.log.offset = t.log.file.bytes.length ∧
      (∀ es u,
        (appends codec).Run t.log es u →
        (∀ er ∈ es, er.2 = .ok ()) →
        u.offset = u.file.bytes.length ∧
        ∀ path sync, ∃ log',
          (openWith codec path sync OpenEnv.calm u.file.bytes).1 = .ok log' ∧
          ∀ id, (live log'.recovered).lookup id =
            (live (rs ++ es.map (fun er => er.1.record))).lookup id) ∧
      ∀ order' calls,
        (compact codec order' { t with calls := calls }).state.log.file.bytes =
          t.log.file.bytes) ∧
    (∃ rs',
      replay codec none (compact codec order s).state.log.file.bytes =
        .ok (rs', (compact codec order s).state.log.file.bytes.length) ∧
      ∀ id, (live rs').lookup id = (live rs).lookup id) ∧
    ((∀ c ∈ s.calls, c.fate = .done) → ∃ t, compact codec order s = .ok () t) := by
  obtain ⟨compacted, hcompacted⟩ := hencodes.openRecords order
  have hends := compact_ends hencodes hcompacted hbytes hopen
  refine ⟨?_, ?_, ?_⟩
  · intro t ht
    obtain ⟨hopen', hlog⟩ := wp_of_ok hends ht
    refine ⟨hopen', by rw [hlog], ?_, ?_⟩
    · intro es u hrun hreturned
      have hpositioned : t.log.Positioned codec (openRecords order (live rs)) := by
        rw [hlog]
        exact ⟨hcompacted.isFrames, rfl⟩
      obtain ⟨⟨hframes, _⟩, hoffset⟩ := appends_frames hpositioned hrun hreturned
      constructor
      · rw [hlog] at hoffset
        change u.offset + compacted.flatten.length = compacted.flatten.length + _ at hoffset
        omega
      · intro path sync
        refine ⟨_, by rw [openWith_frames path sync hframes], ?_⟩
        exact live_append_congr (live_openRecords order rs) _
    · intro order' calls
      -- The new journal holds the frames of what a second compaction writes.
      have hagain : Encodes codec
          (openRecords order' (live (openRecords order (live rs)))) compacted := by
        rw [openRecords_openRecords]
        exact hcompacted
      have hsecond := compact_ends hcompacted hagain
        (s := { t with calls := calls }) (by rw [hlog]) hopen'
      have hnew : t.log.file.bytes = compacted.flatten := by rw [hlog]
      rw [hnew]
      exact wp_state (wp_mono hsecond (fun _ _ h => by rw [h.2]) (fun _ _ h => h.2.elim id id)
        (fun _ h => h.2.elim id id))
  · have hpath : (compact codec order s).state.log.file.bytes = frames.flatten ∨
        (compact codec order s).state.log.file.bytes = compacted.flatten :=
      wp_state (P := fun t => t.log.file.bytes = frames.flatten ∨
          t.log.file.bytes = compacted.flatten)
        (wp_mono hends (fun _ _ h => Or.inr (by rw [h.2])) (fun _ _ h => h.2) (fun _ h => h.2))
    rcases hpath with hpath | hpath
    · rw [hpath]
      exact ⟨rs, replay_frames hencodes.isFrames, fun _ => rfl⟩
    · rw [hpath]
      exact compacted_opens hcompacted
  · intro hcalm
    have hquiet : ¬ s.Disturbed := by
      rintro ⟨c, hc, hfate⟩
      exact hfate (hcalm c hc)
    obtain ⟨_, t, ht, _⟩ := wp_returns (wp_mono hends (fun _ _ h => h)
      (fun _ _ h => hquiet h.1) (fun _ h => hquiet h.1))
    exact ⟨t, ht⟩

/-- The record that opens the lease `L`, and its text. -/
def fetchOfL : Record :=
  ⟨.fetch, goString "L", ⟨goString "t", goString "p", 0⟩, zeroTime, zeroTime⟩

def fetchOfLText : Bytes :=
  goString ("\x7b\"op\":\"fetch\",\"lease_id\":\"L\",\"task\":\x7b\"id\":\"t\"," ++
    "\"payload\":\"cA==\",\"attempts\":0\x7d,\"created_at\":\"0001-01-01T00:00:00Z\"," ++
    "\"expires_at\":\"0001-01-01T00:00:00Z\"\x7d")

theorem fetchOfL_textIDs : fetchOfL.TextIDs :=
  ⟨⟨"L", rfl⟩, "t", rfl⟩

def fetchOfLCodec : Codec :=
  Codec.only fetchOfL fetchOfLText (by decide +kernel) fetchOfL_textIDs

theorem encode_fetchOfL :
    encode fetchOfLCodec fetchOfL = .ok (frameOf fetchOfLText) :=
  encode_of_marshal (Codec.only_marshal _ _ _ _) (by decide +kernel)

/-- A journal that holds the fetch of `L` twice, compacted without a disturbance. -/
theorem compaction_preserves_recovery_two :
    ∃ t rs',
      compact fetchOfLCodec []
          ⟨goString "moxy.wal",
            ⟨⟨frameOf fetchOfLText ++ frameOf fetchOfLText, 0, false⟩, true, 0, []⟩,
            false, none, []⟩ = .ok () t ∧
      t.log.offset = t.log.file.bytes.length ∧
      replay fetchOfLCodec none t.log.file.bytes = .ok (rs', t.log.file.bytes.length) ∧
      (live rs').lookup (goString "L") = some fetchOfL := by
  have hencodes : Encodes fetchOfLCodec [fetchOfL, fetchOfL]
      [frameOf fetchOfLText, frameOf fetchOfLText] :=
    List.Forall₂.cons encode_fetchOfL (List.Forall₂.cons encode_fetchOfL List.Forall₂.nil)
  obtain ⟨hreturns, ⟨rs', hreplay, hlive⟩, hcalm⟩ :=
    compaction_preserves_recovery
      (s := ⟨goString "moxy.wal",
        ⟨⟨frameOf fetchOfLText ++ frameOf fetchOfLText, 0, false⟩, true, 0, []⟩,
        false, none, []⟩) [] hencodes (by simp) rfl
  obtain ⟨t, ht⟩ := hcalm (by simp)
  rw [ht] at hreplay
  exact ⟨t, rs', ht, (hreturns t ht).2.1, hreplay, (hlive _).trans (by decide +kernel)⟩

end Moxy
