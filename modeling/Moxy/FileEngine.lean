import Moxy.FileJournal
import Moxy.LeaseAgreement
import Moxy.Lib.Simulation

/-!
# Moxy: the engine on a journal file

Runs of the engine on the journal file are runs of the engine on the list of
records.  The events are the same, except that a start names the journal it found;
the start of the list journal names the entries that are left of it.

A start also needs to know that the recovered IDs are valid.  They are, because the
journal of a durable run only names UUIDs that were generated in it (`durable_named`).
-/

namespace Moxy

open Lib Lib.CrashM

section Named

/-- The tasks that journal and memory know by name are tasks that were enqueued. -/
structure Custody.Named (c : Custody) : Prop where
  entries : ∀ entry ∈ c.entries, entry.record.op = .fetch → entry.record.task.id ∈ c.issued
  claim : ∀ leases claim, c.phase = .leasing leases claim → claim.task.id ∈ c.issued

theorem Move.named
    {amb : Prop} {e : Event LeaseLog} {c c' : Custody}
    (hmove : Move amb True e c c')
    (hconsistent : c.Consistent)
    (h : c.Named) :
    c'.Named := by
  have hold : ∀ entry ∈ c.entries, entry.record.op = .fetch →
      entry.record.task.id ∈ c'.issued :=
    fun entry hentry hop => hmove.issued _ (h.entries entry hentry hop)
  have hclaim : ∀ leases claim, c.phase = .leasing leases claim →
      claim.task.id ∈ c'.issued :=
    fun leases claim hp => hmove.issued _ (h.claim leases claim hp)
  cases hmove with
  | waste | enqueue | finish | reconcile => exact ⟨hold, hclaim⟩
  | acquire _ _ _ hready =>
      refine ⟨hold, ?_⟩
      rintro leases claim ⟨⟩
      refine List.mem_cons_of_mem _ (hconsistent.sound.taskIDs_issued _ ?_)
      exact Store.Sound.mem_taskIDs_of_ready (by rw [hready]; exact List.mem_cons_self)
  | note hp acked =>
      refine ⟨?_, hclaim⟩
      intro entry hentry hop
      rcases List.mem_append.mp hentry with hentry | hlast
      · exact hold entry hentry hop
      · rw [List.mem_singleton.mp hlast]
        exact h.claim _ _ hp
  | close hp _ _ hop acked =>
      refine ⟨?_, hclaim⟩
      intro entry hentry hfetch
      rcases List.mem_append.mp hentry with hentry | hlast
      · exact hold entry hentry hfetch
      · rw [List.mem_singleton.mp hlast] at hfetch
        exact absurd hfetch (closeRecord_op_ne_fetch hop _)
  | closeStale hp _ _ acked =>
      refine ⟨?_, hclaim⟩
      intro entry hentry hfetch
      rcases List.mem_append.mp hentry with hentry | hlast
      · exact hold entry hentry hfetch
      · rw [List.mem_singleton.mp hlast] at hfetch
        exact absurd hfetch (closeRecord_op_ne_fetch (show Op.stale.Closes from trivial) _)
  | reopen _ hdur =>
      obtain ⟨⟨hsub, _⟩, _⟩ := hdur trivial
      refine ⟨fun entry hentry hop => hold entry (hsub.subset hentry) hop, ?_⟩
      rintro leases claim ⟨⟩
  | publish | rollback | abandon | drop | stop | recovered =>
      refine ⟨hold, ?_⟩
      rintro leases claim ⟨⟩

theorem System.named_empty
    {calls : List CallEnv} {appends : List AppendFate} :
    (System.empty calls appends).custody.Named where
  entries _ h := by cases h
  claim _ _ h := by cases h

/-- The IDs in the journal of a durable run were generated in that run. -/
theorem durable_named
    {calls : List CallEnv} {appends : List AppendFate}
    {es : List (Event LeaseLog × Reply)} {t : System Storage LeaseLog}
    (hrun : durable.Run (System.empty calls appends) es t) :
    ∀ entry ∈ t.journal.entries, entry.record.op = .fetch →
      entry.record.task.id ∈ t.issued ∧ entry.record.leaseID ∈ t.issued := by
  obtain ⟨_, hconsistent, hnamed⟩ :=
    durable_keeps (K := fun _ => True)
      (P := fun c => c.Consistent ∧ c.Named) hrun (fun _ _ => trivial)
      (fun _ _ _ _ hmove hc => ⟨hmove.consistent hc.1, hmove.named hc.1 hc.2⟩)
      (System.regular_empty (Storage.within_true calls))
      ⟨System.consistent_empty, System.named_empty⟩
  intro entry hentry hop
  exact ⟨hnamed.entries entry hentry hop, hconsistent.noted entry hentry⟩

end Named

section Runs

/-- A start that opens what is left of the journal file. -/
def System.Resumes {β : Type} {codec : Codec} (s : System β (FileJournal codec))
    (e : Event (FileJournal codec)) : Prop :=
  match e with
  | .restart config _ journal recovered =>
      config.journal = true ∧
      recovered = journal.log.recovered ∧
      ∃ path n script,
        s.journal.synced ≤ n ∧ s.journal.reopen path n script = .ok journal
  | _ => True

/--
Engines on a journal file, over any backend.  UUIDs are valid and do not repeat, the
backend stays `within` its bounds, and no bytes land behind a partial frame.  After a
failed append the file may end in such a frame, and the log goes on writing behind it;
what it writes there is lost for the next start, even if the append returns nil.
-/
def fileEngines {β : Type} [Backend β] (codec : Codec) (valid : GoString → Prop)
    (within : β → Prop) :
    Machine (System β (FileJournal codec)) (Event (FileJournal codec)) Reply where
  step := System.step
  guard s e :=
    s.Fresh e ∧ s.Resumes e ∧ (∀ id ∈ e.newIDs, valid id) ∧
      within (s.step e).2.backend ∧ (s.step e).2.journal.spoiled = false

/-- A start that goes on with the notes of the journal. -/
def System.KeepsNotes {β : Type} {codec : Codec} (s : System β (FileJournal codec))
    (e : Event (FileJournal codec)) : Prop :=
  match e with
  | .restart _ _ journal _ => journal.history = s.journal.history
  | _ => True

/-- The same request with the same answer, up to the texts of journal errors. -/
def Matches {γ γ' : Type} (er : Event γ × Reply) (fr : Event γ' × Reply) : Prop :=
  Event.Alike (fun _ _ => True) er.1 fr.1 ∧ Reply.Alike SameText er.2 fr.2

theorem Event.Alike.any
    {γ γ' : Type} {K : γ → γ' → Prop} {e : Event γ} {f : Event γ'}
    (h : Event.Alike K e f) :
    Event.Alike (fun _ _ => True) e f := by
  cases h with
  | enqueue newID payload => exact .enqueue newID payload
  | fetch leaseID now timeout => exact .fetch leaseID now timeout
  | ack leaseID => exact .ack leaseID
  | reap now => exact .reap now
  | restart config orders recovered _ => exact .restart config orders recovered trivial

variable {β : Type} {codec : Codec} {valid : GoString → Prop} {within : β → Prop}
  {B : Coupling β Storage} {all : List AppendFate}

/-- The event of the list journal that stands for an event of the file journal. -/
theorem exists_listEvent
    {s : System β (FileJournal codec)} {t : System Storage LeaseLog}
    {e : Event (FileJournal codec)}
    (hs : (systems SameText B (fileCoupling codec all)).rel s t)
    (hfresh : s.Fresh e)
    (hresumes : s.Resumes e) :
    ∃ f, Event.Alike (fileCoupling codec all).rel e f ∧ durable.guard t f := by
  obtain ⟨_, _, hjournal, hissued⟩ := hs
  have hfresh' : ∀ id ∈ e.newIDs, id ∉ t.issued := by
    rw [← hissued]
    exact hfresh
  cases e with
  | enqueue newID payload => exact ⟨_, .enqueue newID payload, hfresh', trivial⟩
  | fetch leaseID now timeout => exact ⟨_, .fetch leaseID now timeout, hfresh', trivial⟩
  | ack leaseID => exact ⟨_, .ack leaseID, hfresh', trivial⟩
  | reap now => exact ⟨_, .reap now, hfresh', trivial⟩
  | restart config orders journal recovered =>
      obtain ⟨hconfig, rfl, path, n, script, hn, hreopen⟩ := hresumes
      obtain ⟨journal', entries, hreopen', hsurvives, hrecords, hrel⟩ :=
        FileJournal.reopen_coupled hjournal path script hn
      rw [hreopen] at hreopen'
      cases hreopen'
      exact ⟨_, .restart config orders _ hrel, hfresh', hconfig, hsurvives, hrecords⟩

/-- The IDs that come in with an event are valid, if all generated ones are. -/
theorem valid_of_issued
    {K : FileJournal codec → LeaseLog → Prop} {calls : List CallEnv}
    {fs : List (Event LeaseLog × Reply)} {t : System Storage LeaseLog}
    {e : Event (FileJournal codec)} {f : Event LeaseLog}
    (hrun : durable.Run (System.empty calls all) fs t)
    (hissued : ∀ id ∈ t.issued, valid id)
    (hnew : ∀ id ∈ e.newIDs, valid id)
    (hef : Event.Alike K e f)
    (hguard : durable.guard t f) :
    e.Valid valid := by
  cases hef with
  | enqueue newID payload => exact hnew newID List.mem_cons_self
  | fetch leaseID now timeout => exact hnew leaseID List.mem_cons_self
  | ack | reap => trivial
  | restart config orders recovered _ =>
      obtain ⟨_, _, hsurvives, rfl⟩ := hguard
      intro record hrecord hop
      obtain ⟨entry, hentry, rfl⟩ := List.mem_map.mp hrecord
      obtain ⟨htask, hlease⟩ := durable_named hrun entry (hsurvives.1.subset hentry) hop
      exact ⟨hissued _ htask, hissued _ hlease⟩

theorem FileJournal.reopen_history
    {j j' : FileJournal codec} {path : GoString} {n : Nat} {script : List WriteFate}
    (h : j.reopen path n script = .ok j') :
    j'.history = j.history := by
  unfold FileJournal.reopen at h
  cases hopen : (openWith codec path true OpenEnv.calm (j.log.file.bytes.take n)).1 with
  | error err =>
      rw [hopen] at h
      cases h
  | ok log =>
      rw [hopen] at h
      cases h
      rfl

theorem System.Resumes.keepsNotes
    {s : System β (FileJournal codec)} {e : Event (FileJournal codec)}
    (h : s.Resumes e) :
    s.KeepsNotes e := by
  cases e with
  | restart config orders journal recovered =>
      obtain ⟨_, _, path, n, script, _, hreopen⟩ := h
      exact FileJournal.reopen_history hreopen
  | enqueue | fetch | ack | reap => trivial

theorem fileCoupling_empty
    (all : List AppendFate) :
    (fileCoupling codec all).rel (.empty codec) ⟨[], all⟩ := by
  refine ⟨⟨[], [], [], .refl _, .nil, rfl, Or.inl rfl, fun _ => rfl, rfl, rfl, ?_⟩, rfl, rfl⟩
  intro k entry hk
  simp at hk

/-- A state on the journal file, and a state of a durable run that it stands for. -/
structure FileStands (codec : Codec) (valid : GoString → Prop) (B : Coupling β Storage)
    (calls : List CallEnv) (all : List AppendFate)
    (s : System β (FileJournal codec)) (t : System Storage LeaseLog) : Prop where
  reached : ∃ fs, durable.Run (System.empty calls all) fs t
  valid : ∀ id ∈ t.issued, valid id
  rel : (systems SameText B (fileCoupling codec all)).rel s t

variable [Backend β] [Inhabited β]

/-- The notes of the journal only grow. -/
theorem System.step_history
    {s : System β (FileJournal codec)} {e : Event (FileJournal codec)}
    (hkeeps : s.KeepsNotes e)
    (h : (s.step e).2.journal.history <+: all) :
    s.journal.history <+: all := by
  by_contra hnot
  refine System.step_journal (P := fun j : FileJournal codec => ¬ j.history <+: all)
    (FileJournal.append_unfit all) ?_ hnot h
  rintro config orders journal recovered rfl hj
  rw [show journal.history = s.journal.history from hkeeps]
  exact hj

/-- The engine on the file beside the engine on the list. -/
abbrev fileJoint (codec : Codec) (valid : GoString → Prop) (within : β → Prop)
    (B : Coupling β Storage) (calls : List CallEnv) (all : List AppendFate) :=
  Machine.joint (fileEngines codec valid within) durable
    (FileStands codec valid B calls all) Matches

/-- One event on the file is one event on the list. -/
theorem FileStands.step
    (hB : BackendsTrack valid B)
    (hright : ∀ b, ¬ B.offRight b)
    (hwithin : ∀ b, within b → ¬ B.offLeft b) {calls : List CallEnv}
    {s : System β (FileJournal codec)} {t : System Storage LeaseLog}
    {e : Event (FileJournal codec)}
    (hst : FileStands codec valid B calls all s t)
    (hguard : (fileEngines codec valid within).guard s e)
    (hall : (s.step e).2.journal.history <+: all) :
    ∃ f, durable.guard t f ∧ Matches (e, (s.step e).1) (f, (t.step f).1) ∧
      FileStands codec valid B calls all (s.step e).2 (t.step f).2 := by
  obtain ⟨hfresh, hresumes, hnew, hbackend, hclean⟩ := hguard
  obtain ⟨⟨fs, hdurable⟩, hissued, hrel⟩ := hst
  obtain ⟨f, hf, hg⟩ := exists_listEvent hrel hfresh hresumes
  have hvalid := valid_of_issued hdurable hissued hnew hf hg
  rcases System.step_tracks errorsMatch_sameText hB (file_journalsTrack codec all) hf hvalid
      hrel with (hoff | hspoiled | hnot) | (hoff | hoff) | ⟨hreply, hrel'⟩
  · exact absurd hoff (hwithin _ hbackend)
  · rw [hclean] at hspoiled
    cases hspoiled
  · exact absurd hall hnot
  · exact absurd hoff (hright _)
  · exact hoff.elim
  · refine ⟨f, hg, ⟨hf.any, hreply⟩, ⟨_, hdurable.next f hg⟩, ?_, hrel'⟩
    intro id hid
    rw [System.step_issued] at hid
    rcases List.mem_append.mp hid with hid | hid
    · refine hnew id ?_
      cases hf <;> exact hid
    · exact hissued id hid

/-- A run on the file goes along with a run on the list, with the notes as script. -/
theorem fileEngines_joint
    (hB : BackendsTrack valid B)
    (hright : ∀ b, ¬ B.offRight b)
    (hwithin : ∀ b, within b → ¬ B.offLeft b)
    {b : β} {calls : List CallEnv} (hb : B.rel b ⟨⟨MemoryQueue.new, []⟩, calls⟩)
    {es : List (Event (FileJournal codec) × Reply)} {s : System β (FileJournal codec)}
    (hrun : (fileEngines codec valid within).Run ⟨none, b, .empty codec, []⟩ es s)
    (hall : s.journal.history <+: all) :
    FileStands codec valid B calls all ⟨none, b, .empty codec, []⟩ (System.empty calls all) ∧
    ∃ gs t,
      (fileJoint codec valid within B calls all).Run
        (⟨none, b, .empty codec, []⟩, System.empty calls all) gs (s, t) ∧
      gs.map Machine.leftOf = es := by
  have hempty : FileStands codec valid B calls all ⟨none, b, .empty codec, []⟩
      (System.empty calls all) :=
    ⟨⟨[], .refl _⟩, fun _ h => (List.not_mem_nil h).elim, .none, hb, fileCoupling_empty all, rfl⟩
  refine ⟨hempty, ?_⟩
  exact Machine.exists_joint (M := fileEngines codec valid within)
    (Q := fun s => s.journal.history <+: all)
    (fun _ _ hguard h => System.step_history hguard.2.1.keepsNotes h)
    (fun _ _ _ hst hguard h => hst.step hB hright hwithin hguard h) hrun hempty hall

end Runs

/-- Storage with nothing in it, an empty journal file, and no process. -/
def System.emptyFile (codec : Codec) (calls : List CallEnv) :
    System Storage (FileJournal codec) where
  process := none
  backend := ⟨⟨MemoryQueue.new, []⟩, calls⟩
  journal := .empty codec
  issued := []

/--
The engine on a journal file behaves as the engine on a list of records.  Take any
run with fresh UUIDs in which no bytes land behind a partial frame: calls fail or
lose their replies, records do not encode, writes are short, syncs fail, the process
stops after any byte of a frame, and a start opens any part of the file that
contains the synced bytes.  Then some durable run gives the same answers to the same
requests, up to the kind of journal errors, and ends with the same memory, the same
store and the same UUIDs.
-/
theorem engine_on_file_as_on_list
    {codec : Codec} {calls : List CallEnv}
    {es : List (Event (FileJournal codec) × Reply)} {s : System Storage (FileJournal codec)}
    (hrun : (fileEngines codec (fun _ => True) (fun _ => True)).Run
      (System.emptyFile codec calls) es s) :
    ∃ fs t,
      durable.Run (System.empty calls s.journal.history) fs t ∧
      List.Forall₂ Matches es fs ∧
      Option.Rel (SameMemory SameText) s.process t.process ∧
      s.backend = t.backend ∧
      s.issued = t.issued := by
  obtain ⟨hempty, gs, t, hjoint, rfl⟩ :=
    fileEngines_joint (backendsTrack_itself Storage) (fun _ h => h) (fun _ _ h => h) rfl hrun
      (List.prefix_refl _)
  obtain ⟨hprocess, hbackend, _, hissued⟩ := (Machine.joint_rel hjoint hempty).rel
  refine ⟨_, t, Machine.joint_right hjoint, ?_, hprocess, hbackend, hissued⟩
  rw [List.forall₂_map_left_iff, List.forall₂_map_right_iff, List.forall₂_same]
  exact Machine.joint_matches hjoint

section TornFetch

/-- A codec that knows one fetch record, by a text of one byte. -/
def oneLeaseCodec : Codec :=
  Codec.only (Lease.fetchRecord ⟨goString "L", ⟨goString "t", goString "p", 0⟩, 0, 5⟩) [7]
    (by decide) ⟨⟨"L", rfl⟩, "t", rfl⟩

/-- A task is leased while the process stops five bytes into the fetch record. -/
def tornFetch : List (Event (FileJournal oneLeaseCodec)) :=
  [.restart ⟨0, 0, true⟩ ⟨[], [], []⟩ { FileJournal.empty oneLeaseCodec with script := [.stops 5] } [],
    .enqueue (goString "t") (goString "p"),
    .fetch (goString "L") 0 5,
    .restart ⟨0, 0, true⟩ ⟨[], [], []⟩
      { FileJournal.empty oneLeaseCodec with history := [.crashBefore] } []]

theorem tornFetch_admitted :
    (fileEngines oneLeaseCodec (fun _ => True) (fun _ => True)).Admits
      (System.emptyFile oneLeaseCodec []) tornFetch := by
  refine ⟨⟨by decide, ⟨rfl, rfl, [], 0, _, by decide, rfl⟩, fun _ _ => trivial, trivial, rfl⟩,
    ⟨by decide, trivial, fun _ _ => trivial, trivial, by decide +kernel⟩,
    ⟨by decide, trivial, fun _ _ => trivial, trivial, by decide +kernel⟩,
    ⟨by decide, ⟨rfl, rfl, [], 5, [], by decide +kernel, by decide +kernel⟩,
      fun _ _ => trivial, trivial, by decide +kernel⟩, trivial⟩

/-- The torn fetch is matched by one whose record never reached the list. -/
theorem engine_on_file_as_on_list_torn :
    ∃ fs t,
      durable.Run (System.empty [] [.crashBefore]) fs t ∧
      fs.length = 4 ∧
      t.backend.store.queue.ready = [⟨goString "t", goString "p", 0⟩] := by
  have hrun := Machine.run_of_admits _ _ tornFetch_admitted
  obtain ⟨fs, t, hdurable, hmatches, _, hbackend, _⟩ := engine_on_file_as_on_list hrun
  have hhistory : ((fileEngines oneLeaseCodec (fun _ => True) (fun _ => True)).final
      (System.emptyFile oneLeaseCodec []) tornFetch).journal.history = [.crashBefore] := by
    decide +kernel
  rw [hhistory] at hdurable
  refine ⟨fs, t, hdurable, ?_, ?_⟩
  · rw [← hmatches.length_eq]
    rfl
  · rw [← hbackend]
    decide +kernel

end TornFetch

end Moxy
