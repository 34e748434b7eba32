import Moxy.EngineLockstep
import Moxy.WalRecovery

/-!
# Moxy: the journal file behind the engine

The journal of the earlier modules is a list of records.  Here it is the file: an
append writes one frame, and the operating system may accept only some bytes of it,
fail to sync it, or see the process stop after any byte.  A start opens what is
left of the file.  After a power failure this is any prefix that contains the bytes
synced so far.

The file answers as the list does (`file_journalsTrack`).  A list journal reads in
advance how its appends turn out, so the file journal notes how each of them did
(`history`); nothing else reads these notes.  The comparison is called off when
bytes land behind a partial frame, because such bytes are lost: a start then reads less
than was acknowledged.  For results that do not need the records, the notes alone are
enough, and the file may contain anything (`notes_journalsTrack`).
-/

namespace Moxy

open Lib Lib.CrashM

/-- What the operating system does with the frame of one append. -/
inductive WriteFate where
  | written
  | short (n : Nat) (message : GoString)
  | unsynced (message : GoString)
  | stops (n : Nat)
deriving DecidableEq, Repr

namespace WriteFate

/-- How many bytes of a frame reach the file. -/
def accepts (frame : Bytes) : WriteFate → Nat
  | written => frame.length
  | short n _ => min n frame.length
  | unsynced _ => frame.length
  | stops n => min n frame.length

/-- The append as the operating system answers it. -/
def appending (record : Record) : WriteFate → Appending
  | written => ⟨record, none, none⟩
  | short n message => ⟨record, some (n, message), none⟩
  | unsynced message => ⟨record, none, some message⟩
  | stops _ => ⟨record, none, none⟩

end WriteFate

/--
An open journal with the script of its next appends.  The other fields are notes:
the number of bytes that were synced, whether the file ends in a partial frame,
whether bytes landed behind one, and how the appends so far turned out.
-/
structure FileJournal (codec : Codec) where
  log : Log
  script : List WriteFate
  synced : Nat
  torn : Bool
  spoiled : Bool
  history : List AppendFate
deriving DecidableEq

namespace FileJournal

variable {codec : Codec}

/-- A journal whose file is empty. -/
def empty (codec : Codec) : FileJournal codec :=
  ⟨⟨⟨[], 0, false⟩, true, 0, []⟩, [], 0, false, false, []⟩

instance : Inhabited (FileJournal codec) :=
  ⟨empty codec⟩

/-- Take the notes of an append that turned out like `fate`. -/
def noting (fate : AppendFate) (j : FileJournal codec) : FileJournal codec :=
  { j with script := j.script.tail, history := j.history ++ [fate] }

/-- Note that `n` bytes of a frame reached the file. -/
def marking (frame : Bytes) (n : Nat) (j : FileJournal codec) : FileJournal codec :=
  { j with
    torn := j.torn || (decide (0 < n) && decide (n < frame.length))
    spoiled := j.spoiled || (j.torn && decide (0 < n)) }

/-- The process stops after `n` bytes of the frame reached the file. -/
def stopped (frame : Bytes) (n : Nat) (j : FileJournal codec) : FileJournal codec :=
  let j' := (j.marking frame n).noting (if n < frame.length then .crashBefore else .crashDuring)
  { j' with log := { j.log with file := j.log.file.write (frame.take n) } }

/-- One append, with the fate that the script holds for it. -/
def append (record : Record) : CrashM GoError (FileJournal codec) Unit :=
  fun j =>
    let fate := j.script.headD .written
    match encode codec record with
    | .error err => .error err (j.noting (.refused err.message))
    | .ok frame =>
        let n := fate.accepts frame
        match fate with
        | .stops _ => .crashed (j.stopped frame n)
        | .written | .short _ _ | .unsynced _ =>
            match Moxy.append codec (fate.appending record) j.log with
            | (.ok _, log) =>
                .ok () { (j.marking frame n).noting .stored with
                  log := log
                  synced := if log.sync then log.file.bytes.length else j.synced }
            | (.error err, log) =>
                .error err { (j.marking frame n).noting (.refused err.message) with log := log }

instance : Journal (FileJournal codec) where
  append := append

/-- Open the first `n` bytes of the file again. -/
def reopen (path : GoString) (n : Nat) (script : List WriteFate) (j : FileJournal codec) :
    Except GoError (FileJournal codec) :=
  (openWith codec path true OpenEnv.calm (j.log.file.bytes.take n)).1.map
    (fun log => ⟨log, script, j.synced, false, false, j.history⟩)

/-- The file holds the frames of the entries, and behind them at most a partial frame. -/
structure Holds (j : FileJournal codec) (entries : List JournalEntry) (frames : List Bytes)
    (tail : Bytes) : Prop where
  encodes : Encodes codec (entries.map JournalEntry.record) frames
  bytes : j.log.file.bytes = frames.flatten ++ tail
  torn : Torn codec tail
  whole : j.torn = false → tail = []
  atEnd : j.log.file.AtEnd
  sync : j.log.sync = true
  synced : ∀ k entry, entries[k]? = some entry → entry.acked = true →
    (frames.take (k + 1)).flatten.length ≤ j.synced

end FileJournal

section Survival

variable {before after : List JournalEntry}

theorem LeaseLog.Survives.refl
    (entries : List JournalEntry) :
    LeaseLog.Survives entries entries :=
  ⟨List.Sublist.refl _, rfl⟩

theorem LeaseLog.Survives.trans
    {last : List JournalEntry}
    (h : LeaseLog.Survives before after)
    (h' : LeaseLog.Survives after last) :
    LeaseLog.Survives before last :=
  ⟨h'.1.trans h.1, h'.2.trans h.2⟩

/-- An entry that was not acknowledged may be missing. -/
theorem LeaseLog.Survives.missing
    (h : LeaseLog.Survives before after) (record : Record) :
    LeaseLog.Survives (before ++ [⟨record, false⟩]) after := by
  refine ⟨h.1.trans (List.sublist_append_left _ _), ?_⟩
  rw [List.filter_append, h.2]
  simp

theorem LeaseLog.Survives.append
    (h : LeaseLog.Survives before after) (entry : JournalEntry) :
    LeaseLog.Survives (before ++ [entry]) (after ++ [entry]) := by
  refine ⟨h.1.append (List.Sublist.refl _), ?_⟩
  rw [List.filter_append, List.filter_append, h.2]

/-- A prefix that contains every acknowledged entry. -/
theorem LeaseLog.survives_take
    {entries : List JournalEntry} {k : Nat}
    (h : ∀ i entry, entries[i]? = some entry → entry.acked = true → i < k) :
    LeaseLog.Survives entries (entries.take k) := by
  refine ⟨List.take_sublist _ _, ?_⟩
  have hrest : (entries.drop k).filter JournalEntry.acked = [] := by
    rw [List.filter_eq_nil_iff]
    intro entry hmem hacked
    obtain ⟨i, hi⟩ := List.mem_iff_getElem?.mp hmem
    rw [List.getElem?_drop] at hi
    have := h _ entry hi hacked
    omega
  conv_rhs => rw [← List.take_append_drop k entries, List.filter_append, hrest, List.append_nil]

end Survival

namespace FileJournal

variable {codec : Codec} {j j' : FileJournal codec} {entries : List JournalEntry}
  {frames : List Bytes} {tail frame : Bytes} {record : Record}

/-- A journal that ends in a partial frame is spoiled by any further byte. -/
theorem marking_whole
    {n : Nat}
    (h : (j.marking frame n).spoiled = false)
    (hn : 0 < n) :
    j.torn = false := by
  simp only [marking, Bool.or_eq_false_iff, Bool.and_eq_false_iff, decide_eq_false_iff_not] at h
  rcases h.2 with ht | hzero
  · exact ht
  · exact absurd hn hzero

/-- Some bytes of a frame, but not all: the entries stay, and the tail may be torn. -/
theorem Holds.torn_frame
    (h : j.Holds entries frames tail)
    (hencode : encode codec record = .ok frame)
    {n : Nat} (hn : n < frame.length)
    (hfile : j'.log.file = j.log.file.write (frame.take n))
    (hsync : j'.log.sync = true)
    (hsynced : j'.synced = j.synced)
    (htorn : j'.torn = (j.marking frame n).torn)
    (hspoiled : (j.marking frame n).spoiled = false) :
    ∃ tail', j'.Holds entries frames tail' := by
  have hbytes : j'.log.file.bytes = frames.flatten ++ (tail ++ frame.take n) := by
    rw [hfile, h.atEnd.bytes_write, h.bytes, List.append_assoc]
  have hend : j'.log.file.AtEnd := by
    rw [hfile]
    exact h.atEnd.write _
  rcases Nat.eq_zero_or_pos n with rfl | hpos
  · refine ⟨tail, h.encodes, by simpa using hbytes, h.torn, ?_, hend, hsync, ?_⟩
    · intro hwhole
      refine h.whole ?_
      rw [htorn] at hwhole
      simpa [marking] using hwhole
    · rw [hsynced]
      exact h.synced
  · have htail := h.whole (marking_whole hspoiled hpos)
    rw [htail, List.nil_append] at hbytes
    refine ⟨frame.take n, h.encodes, hbytes, ?_, ?_, hend, hsync, ?_⟩
    · refine Or.inr ⟨record, frame.drop n, ?_, ?_⟩
      · rw [ne_eq, List.drop_eq_nil_iff]
        omega
      · rw [List.take_append_drop]
        exact encode_isFrame hencode
    · intro hwhole
      rw [htorn] at hwhole
      simp [marking, hpos, hn] at hwhole
    · rw [hsynced]
      exact h.synced

/-- A whole frame: one more entry. -/
theorem Holds.whole_frame
    (h : j.Holds entries frames tail)
    (hencode : encode codec record = .ok frame)
    (hfile : j'.log.file = j.log.file.write frame)
    (hsync : j'.log.sync = true)
    (hspoiled : (j.marking frame frame.length).spoiled = false)
    (acked : Bool)
    (hsynced : j'.synced = if acked then j'.log.file.bytes.length else j.synced) :
    j'.Holds (entries ++ [⟨record, acked⟩]) (frames ++ [frame]) [] := by
  have hpos : 0 < frame.length := (encode_isFrame hencode).1
  have htail := h.whole (marking_whole hspoiled hpos)
  have hbytes : j'.log.file.bytes = (frames ++ [frame]).flatten := by
    rw [hfile, h.atEnd.bytes_write, h.bytes, htail]
    simp
  have hlength : entries.length = frames.length := by
    simpa using h.encodes.length_eq
  refine ⟨?_, by simpa using hbytes, Or.inl rfl, fun _ => rfl, ?_, hsync, ?_⟩
  · rw [List.map_append]
    exact List.rel_append h.encodes (.cons hencode .nil)
  · rw [hfile]
    exact h.atEnd.write _
  · intro k entry hk hacked
    have hshorter : ((frames ++ [frame]).take (k + 1)).flatten.length ≤
        j'.log.file.bytes.length := by
      rw [hbytes]
      conv_rhs =>
        rw [← List.take_append_drop (k + 1) (frames ++ [frame]), List.flatten_append,
          List.length_append]
      omega
    cases acked with
    | true => simpa [hsynced] using hshorter
    | false =>
        rcases Nat.lt_or_ge k entries.length with hold | hnew
        · rw [List.getElem?_append_left hold] at hk
          rw [List.take_append_of_le_length (by omega)]
          simpa [hsynced] using h.synced k entry hk hacked
        · rw [List.getElem?_append_right hnew] at hk
          have hzero : k - entries.length = 0 := by
            by_contra hne
            rw [List.getElem?_eq_none (by simp; omega)] at hk
            cases hk
          rw [hzero] at hk
          cases hk
          cases hacked

end FileJournal

/-- The texts of two errors are the same. -/
def SameText (err err' : GoError) : Prop :=
  err.message = err'.message

theorem errorsMatch_sameText :
    ErrorsMatch SameText where
  refl _ := rfl
  join first first' second second' hfirst hsecond := by
    simp only [SameText, GoError.message] at hfirst hsecond ⊢
    rw [hfirst, hsecond]

/--
The file holds entries that survive of the list, and the list's script is what is
left of the notes `all` that the file will have taken in the end.
-/
def fileCoupling (codec : Codec) (all : List AppendFate) :
    Coupling (FileJournal codec) LeaseLog where
  rel j l :=
    (∃ entries frames tail,
      LeaseLog.Survives l.entries entries ∧ j.Holds entries frames tail) ∧
    j.history ++ l.script = all ∧ j.spoiled = false
  offLeft j := j.spoiled = true ∨ ¬ j.history <+: all
  offRight _ := False

section Append

variable {codec : Codec} {all : List AppendFate}

/-- The list's next append turns out as the file noted. -/
theorem script_of_noted
    {history script : List AppendFate} {fate : AppendFate}
    (hall : history ++ script = all)
    (hnoted : history ++ [fate] <+: all) :
    ∃ rest, script = fate :: rest := by
  rw [← hall, List.prefix_append_right_inj] at hnoted
  obtain ⟨rest, hrest⟩ := hnoted
  exact ⟨rest, hrest.symm⟩

/-- How an append ends, and the note that the journal takes of it. -/
inductive FileJournal.Noted (j : FileJournal codec) :
    Outcome GoError (FileJournal codec) Unit → Prop
  | stored {j' : FileJournal codec} (h : j'.history = j.history ++ [.stored]) :
      Noted j (.ok () j')
  | refused {err : GoError} {j' : FileJournal codec}
      (h : j'.history = j.history ++ [.refused err.message]) : Noted j (.error err j')
  | stoppedBefore {j' : FileJournal codec} (h : j'.history = j.history ++ [.crashBefore]) :
      Noted j (.crashed j')
  | stoppedDuring {j' : FileJournal codec} (h : j'.history = j.history ++ [.crashDuring]) :
      Noted j (.crashed j')

theorem FileJournal.append_noted
    (record : Record) (j : FileJournal codec) :
    j.Noted (FileJournal.append record j) := by
  unfold FileJournal.append
  dsimp only
  cases encode codec record with
  | error err => exact .refused rfl
  | ok frame =>
      dsimp only
      cases j.script.headD .written with
      | stops n =>
          dsimp only
          by_cases hlt : (WriteFate.stops n).accepts frame < frame.length
          · refine .stoppedBefore ?_
            simp only [FileJournal.stopped, FileJournal.noting, FileJournal.marking, if_pos hlt]
          · refine .stoppedDuring ?_
            simp only [FileJournal.stopped, FileJournal.noting, FileJournal.marking, if_neg hlt]
      | written | short | unsynced =>
          dsimp only
          rcases Moxy.append codec _ j.log with ⟨_ | _, log⟩
          · exact .refused rfl
          · exact .stored rfl

/-- However an append ends, the notes grow. -/
theorem FileJournal.append_history
    (record : Record) (j : FileJournal codec) :
    ∃ fate, (FileJournal.append record j).state.history = j.history ++ [fate] := by
  have hnoted := FileJournal.append_noted record j
  generalize FileJournal.append record j = o at hnoted ⊢
  cases hnoted with
  | stored h | refused h | stoppedBefore h | stoppedDuring h => exact ⟨_, h⟩

/-- A spoiled journal stays spoiled. -/
theorem FileJournal.append_spoiled
    {j : FileJournal codec}
    (h : j.spoiled = true) (record : Record) :
    (FileJournal.append record j).state.spoiled = true := by
  unfold FileJournal.append
  dsimp only
  cases encode codec record with
  | error err => exact h
  | ok frame =>
      dsimp only
      cases j.script.headD .written with
      | stops n =>
          simp [FileJournal.stopped, FileJournal.marking, FileJournal.noting, Outcome.state, h]
      | written | short | unsynced =>
          dsimp only
          rcases Moxy.append codec _ j.log with ⟨_ | _, log⟩
          · simp [FileJournal.marking, FileJournal.noting, Outcome.state, h]
          · simp [FileJournal.marking, FileJournal.noting, Outcome.state, h]

/-- What one append does to a journal that syncs, when the record has a frame. -/
inductive FileJournal.Appended (record : Record) (frame : Bytes) (j : FileJournal codec) :
    Outcome GoError (FileJournal codec) Unit → Prop
  | stored (log : Log) (hfile : log.file = j.log.file.write frame) (hsync : log.sync = true) :
      Appended record frame j (.ok ()
        { (j.marking frame frame.length).noting .stored with
          log := log
          synced := log.file.bytes.length })
  | refused (err : GoError) (n : Nat) (log : Log) (hn : n ≤ frame.length)
      (hfile : log.file = j.log.file.write (frame.take n)) (hsync : log.sync = true) :
      Appended record frame j (.error err
        { (j.marking frame n).noting (.refused err.message) with log := log })
  | stopped (n : Nat) (hn : n ≤ frame.length) :
      Appended record frame j (.crashed (j.stopped frame n))

theorem FileJournal.append_appended
    {record : Record} {frame : Bytes} {j : FileJournal codec}
    (hencode : encode codec record = .ok frame)
    (hsync : j.log.sync = true) :
    FileJournal.Appended record frame j (FileJournal.append record j) := by
  unfold FileJournal.append
  simp only [hencode]
  cases j.script.headD .written with
  | stops n => exact .stopped _ (Nat.min_le_right _ _)
  | written =>
      have heq : Moxy.append codec (WriteFate.written.appending record) j.log =
          (.ok (), { j.log with
            file := j.log.file.write frame
            offset := j.log.offset + frame.length }) := by
        simp [Moxy.append, WriteFate.appending, hencode]
      simp only [heq, hsync, if_true]
      exact .stored _ rfl rfl
  | short n message =>
      have heq : Moxy.append codec ((WriteFate.short n message).appending record) j.log =
          (.error (walError (goString "append") message),
            { j.log with file := j.log.file.write (frame.take n) }) := by
        simp [Moxy.append, WriteFate.appending, hencode]
      simp only [heq]
      refine .refused _ _ _ (Nat.min_le_right _ _) ?_ hsync
      rw [WriteFate.accepts, ← List.take_take, List.take_length]
  | unsynced message =>
      have heq : Moxy.append codec ((WriteFate.unsynced message).appending record) j.log =
          (.error (walError (goString "sync") message),
            { j.log with file := j.log.file.write frame }) := by
        simp [Moxy.append, WriteFate.appending, hencode, hsync]
      simp only [heq]
      exact .refused _ _ _ (Nat.le_refl _) (by simp [WriteFate.accepts]) hsync

/-- Notes that do not fit will not fit later. -/
theorem FileJournal.append_unfit
    (all : List AppendFate) (record : Record) :
    Preserves (fun j : FileJournal codec => ¬ j.history <+: all) (FileJournal.append record) := by
  refine preserves_of_state fun j hnot hfits => hnot ?_
  obtain ⟨fate, hhistory⟩ := FileJournal.append_history record j
  rw [hhistory] at hfits
  exact (List.prefix_append _ _).trans hfits

/-- A journal whose notes do not fit, or that is spoiled, stays so. -/
theorem fileCoupling_offLeft
    (record : Record) :
    Preserves (fileCoupling codec all).offLeft
      (FileJournal.append record : CrashM GoError (FileJournal codec) Unit) :=
  preserves_of_state fun j hj =>
    hj.imp (fun hspoiled => FileJournal.append_spoiled hspoiled record)
      (fun hnot => wp_state (FileJournal.append_unfit all record j hnot))

/-- A frame of which some bytes reached the file, and an entry that was not acknowledged. -/
theorem FileJournal.Holds.unacked
    {j : FileJournal codec} (j' : FileJournal codec) {noted entries : List JournalEntry} {frames : List Bytes}
    {tail frame : Bytes} {record : Record} {n : Nat}
    (h : j.Holds entries frames tail)
    (hsurvives : LeaseLog.Survives noted entries)
    (hencode : encode codec record = .ok frame)
    (hn : n ≤ frame.length)
    (hfile : j'.log.file = j.log.file.write (frame.take n))
    (hsync : j'.log.sync = true)
    (hsynced : j'.synced = j.synced)
    (htorn : j'.torn = (j.marking frame n).torn)
    (hspoiled : (j.marking frame n).spoiled = false) :
    ∃ entries' frames' tail',
      (LeaseLog.Survives (noted ++ [⟨record, false⟩]) entries' ∧
        j'.Holds entries' frames' tail') ∧
      (n < frame.length → LeaseLog.Survives noted entries') := by
  rcases Nat.lt_or_ge n frame.length with hlt | hge
  · obtain ⟨tail', hholds⟩ := h.torn_frame hencode hlt hfile hsync hsynced htorn hspoiled
    exact ⟨entries, frames, tail', ⟨hsurvives.missing record, hholds⟩, fun _ => hsurvives⟩
  · obtain rfl : n = frame.length := Nat.le_antisymm hn hge
    rw [List.take_length] at hfile
    exact ⟨_, _, _, ⟨hsurvives.append _,
      h.whole_frame hencode hfile hsync hspoiled false hsynced⟩,
      fun hlt => absurd hlt (Nat.lt_irrefl _)⟩

/-- The file appends as the list does. -/
theorem file_journalsTrack
    (codec : Codec) (all : List AppendFate) :
    JournalsTrack SameText (fileCoupling codec all) := by
  intro record
  refine ⟨fileCoupling_offLeft record, fun _ h => h.elim, ?_⟩
  rintro j l ⟨⟨entries, frames, tail, hsurvives, hholds⟩, hall, hclean⟩
  show (fileCoupling codec all).offLeft (FileJournal.append record j).state ∨ _ ∨
    Outcome.Alike Eq SameText _ (FileJournal.append record j) (LeaseLog.append record l)
  by_cases hoff : (fileCoupling codec all).offLeft (FileJournal.append record j).state
  · exact Or.inl hoff
  obtain ⟨hspoiled, hfits⟩ := not_or.mp hoff
  rw [Bool.not_eq_true] at hspoiled
  rw [not_not] at hfits
  right
  right
  cases hencode : encode codec record with
  | error err =>
      have heq : FileJournal.append record j =
          .error err (j.noting (.refused err.message)) := by
        simp only [FileJournal.append, hencode]
      rw [heq] at hfits ⊢
      obtain ⟨rest, hscript⟩ := script_of_noted hall hfits
      simp only [LeaseLog.append, hscript, List.headD_cons, List.tail_cons]
      refine .error rfl ⟨⟨entries, frames, tail, hsurvives.missing record, ?_⟩, ?_, hclean⟩
      · exact ⟨hholds.encodes, hholds.bytes, hholds.torn, hholds.whole, hholds.atEnd,
          hholds.sync, hholds.synced⟩
      · simpa [FileJournal.noting, hscript] using hall
  | ok frame =>
      have happended := FileJournal.append_appended hencode hholds.sync
      generalize FileJournal.append record j = o at happended hspoiled hfits ⊢
      cases happended with
      | stored log hfile hsync =>
          obtain ⟨rest, hscript⟩ := script_of_noted hall hfits
          simp only [LeaseLog.append, hscript, List.headD_cons, List.tail_cons]
          refine .ok rfl ⟨⟨_, _, _, hsurvives.append ⟨record, true⟩,
            hholds.whole_frame hencode hfile hsync hspoiled true rfl⟩, ?_, hspoiled⟩
          simpa [FileJournal.noting, FileJournal.marking, hscript] using hall
      | refused err n log hn hfile hsync =>
          obtain ⟨rest, hscript⟩ := script_of_noted hall hfits
          obtain ⟨entries', frames', tail', hstands, _⟩ :=
            hholds.unacked
              { (j.marking frame n).noting (.refused err.message) with log := log }
              hsurvives hencode hn hfile hsync rfl rfl hspoiled
          simp only [LeaseLog.append, hscript, List.headD_cons, List.tail_cons]
          refine .error rfl ⟨⟨entries', frames', tail', hstands⟩, ?_, hspoiled⟩
          simpa [FileJournal.noting, FileJournal.marking, hscript] using hall
      | stopped n hn =>
          obtain ⟨rest, hscript⟩ := script_of_noted hall hfits
          obtain ⟨entries', frames', tail', hstands, hshort⟩ :=
            hholds.unacked (j.stopped frame n) hsurvives hencode hn rfl hholds.sync
              rfl rfl hspoiled
          have hall' : (j.stopped frame n).history ++ rest = all := by
            simpa [FileJournal.stopped, FileJournal.noting, FileJournal.marking, hscript] using hall
          by_cases hlt : n < frame.length
          · simp only [LeaseLog.append, hscript, List.headD_cons, List.tail_cons, if_pos hlt]
            exact .crashed ⟨⟨entries', frames', tail', hshort hlt, hstands.2⟩, hall', hspoiled⟩
          · simp only [LeaseLog.append, hscript, List.headD_cons, List.tail_cons, if_neg hlt]
            exact .crashed ⟨⟨entries', frames', tail', hstands⟩, hall', hspoiled⟩

end Append

section Reopen

variable {codec : Codec} {all : List AppendFate}

theorem Torn.take
    {torn : Bytes}
    (h : Torn codec torn) (n : Nat) :
    Torn codec (torn.take n) := by
  rcases h with rfl | ⟨record, missing, hmissing, hframe⟩
  · exact Or.inl (List.take_nil)
  · refine Or.inr ⟨record, torn.drop n ++ missing, ?_, ?_⟩
    · simp [hmissing]
    · rw [← List.append_assoc, List.take_append_drop]
      exact hframe

/-- What is left of a journal file: the frames in front of the cut, and a torn one. -/
theorem Encodes.cut_torn
    {rs : List Record} {frames : List Bytes} {tail : Bytes}
    (h : Encodes codec rs frames)
    (htail : Torn codec tail)
    (n : Nat) :
    ∃ k torn,
      (frames.flatten ++ tail).take n = (frames.take k).flatten ++ torn ∧
      Torn codec torn ∧
      ∀ i ≤ rs.length, (frames.take i).flatten.length ≤ n → i ≤ k := by
  rcases Nat.le_total n frames.flatten.length with hle | hge
  · obtain ⟨k, _, torn, htake, htorn, _, hmax⟩ := h.cut n hle
    exact ⟨k, torn, by rw [List.take_append_of_le_length hle, htake], htorn, hmax⟩
  · refine ⟨rs.length, tail.take (n - frames.flatten.length), ?_, htail.take _, fun i hi _ => hi⟩
    rw [List.take_append, List.take_of_length_le hge, h.length_eq, List.take_length]

/-- A journal that is opened again holds a part of the list that survives. -/
theorem FileJournal.reopen_coupled
    {j : FileJournal codec} {l : LeaseLog}
    (h : (fileCoupling codec all).rel j l)
    (path : GoString) {n : Nat} (script : List WriteFate) (hn : j.synced ≤ n) :
    ∃ j' entries,
      j.reopen path n script = .ok j' ∧
      LeaseLog.Survives l.entries entries ∧
      j'.log.recovered = entries.map JournalEntry.record ∧
      (fileCoupling codec all).rel j' ⟨entries, l.script⟩ := by
  obtain ⟨⟨entries, frames, tail, hsurvives, hholds⟩, hall, hclean⟩ := h
  obtain ⟨k, torn, htake, htorn, hmax⟩ := hholds.encodes.cut_torn hholds.torn n
  have hencodes : Encodes codec ((entries.take k).map JournalEntry.record) (frames.take k) := by
    rw [List.map_take]
    exact hholds.encodes.take k
  have hreplay := replay_stops hencodes.isFrames htorn.stops
  have hopen := openWith_calm path true hreplay
  rw [← htake, ← hholds.bytes] at hopen
  have hkept : LeaseLog.Survives entries (entries.take k) := by
    refine LeaseLog.survives_take fun i entry hi hacked => ?_
    have hlt : i < entries.length := (List.getElem?_eq_some_iff.mp hi).1
    exact hmax (i + 1) (by rw [List.length_map]; exact hlt) ((hholds.synced i entry hi hacked).trans hn)
  have hbytes : (j.log.file.bytes.take n).take (frames.take k).flatten.length =
      (frames.take k).flatten := by
    rw [hholds.bytes, htake, List.take_left]
  rw [hbytes] at hopen
  have hreopen : j.reopen path n script = .ok
      ⟨⟨⟨(frames.take k).flatten, (frames.take k).flatten.length, false⟩, true,
          (frames.take k).flatten.length, (entries.take k).map JournalEntry.record⟩,
        script, j.synced, false, false, j.history⟩ := by
    rw [FileJournal.reopen, hopen]
    rfl
  refine ⟨_, entries.take k, hreopen, hsurvives.trans hkept, rfl,
    ⟨entries.take k, frames.take k, [], .refl _, ?_⟩, hall, rfl⟩
  refine ⟨hencodes, by simp, Or.inl rfl, fun _ => rfl, rfl, rfl, ?_⟩
  intro i entry hi hacked
  rw [List.getElem?_take] at hi
  split_ifs at hi with hik
  rw [List.take_take, Nat.min_eq_left hik]
  exact hholds.synced i entry hi hacked

end Reopen

end Moxy
