import Moxy.Domain
import Moxy.Lib.KeyedRange
import Mathlib.Data.List.Induction

/-!
# Moxy: the leases that a record stream leaves open

`live` folds a record stream: a fetch record opens a lease, each of the four
closing operations closes one, and a record of an unknown operation is ignored.

Two facts carry the later proofs.  The fold can be read at the end of the stream
(`live_append`), and what it says about one lease depends only on the records of
that lease (`live_lookup_filter`).
-/

namespace Moxy

open Lib

/-- One step of the fold. -/
def liveStep (open_ : Map GoString Record) (record : Record) :
    Map GoString Record :=
  match record.op with
  | .fetch => open_.insert record.leaseID record
  | .ack | .expire | .deadLetter | .stale => open_.erase record.leaseID
  | .unknown _ => open_

/-- The leases still open at the end of a record stream. -/
def live (records : List Record) : Map GoString Record :=
  records.foldl liveStep ∅

/-- The lease that a fetch record describes. -/
def Record.lease (record : Record) : Lease :=
  ⟨record.leaseID, record.task, record.createdAt, record.expiresAt⟩

theorem live_append
    (records : List Record) (record : Record) :
    live (records ++ [record]) = liveStep (live records) record := by
  simp [live]

theorem liveStep_lookup_ne
    {record : Record} {leaseID : GoString}
    (h : record.leaseID ≠ leaseID)
    (m : Map GoString Record) :
    (liveStep m record).lookup leaseID = m.lookup leaseID := by
  unfold liveStep
  cases record.op with
  | fetch =>
      exact AList.lookup_insert_ne h.symm
  | ack | expire | deadLetter | stale =>
      exact AList.lookup_erase_ne h.symm
  | unknown name =>
      rfl

theorem liveStep_lookup_congr
    (record : Record) (leaseID : GoString)
    {m m' : Map GoString Record}
    (h : m.lookup leaseID = m'.lookup leaseID) :
    (liveStep m record).lookup leaseID =
      (liveStep m' record).lookup leaseID := by
  by_cases he : record.leaseID = leaseID
  · subst he
    unfold liveStep
    cases record.op with
    | fetch =>
        simp
    | ack | expire | deadLetter | stale =>
        simp
    | unknown name =>
        exact h
  · rw [liveStep_lookup_ne he, liveStep_lookup_ne he, h]

/-- The open state of a lease depends only on the records of that lease. -/
theorem live_lookup_filter
    (records : List Record) (leaseID : GoString) :
    (live records).lookup leaseID =
      (live (records.filter (fun r => r.leaseID = leaseID))).lookup leaseID := by
  induction records using List.reverseRecOn with
  | nil =>
      rfl
  | append_singleton records record ih =>
      rw [live_append, List.filter_append]
      by_cases h : record.leaseID = leaseID
      · rw [List.filter_cons_of_pos (by simpa using h), List.filter_nil,
          live_append]
        exact liveStep_lookup_congr record leaseID ih
      · rw [List.filter_cons_of_neg (by simpa using h), List.filter_nil,
          List.append_nil, liveStep_lookup_ne h]
        exact ih

/-- An open lease is described by a fetch record of the stream. -/
theorem live_lookup_some
    {records : List Record} {leaseID : GoString} {record : Record}
    (h : (live records).lookup leaseID = some record) :
    record ∈ records ∧ record.leaseID = leaseID ∧ record.op = .fetch := by
  induction records using List.reverseRecOn with
  | nil =>
      cases h
  | append_singleton records last ih =>
      rw [live_append] at h
      by_cases he : last.leaseID = leaseID
      · subst he
        unfold liveStep at h
        cases hop : last.op with
        | fetch =>
            simp only [hop, AList.lookup_insert] at h
            cases h
            exact ⟨by simp, rfl, hop⟩
        | ack | expire | deadLetter | stale =>
            simp only [hop, AList.lookup_erase] at h
            cases h
        | unknown name =>
            simp only [hop] at h
            obtain ⟨hmem, hid, hfetch⟩ := ih h
            exact ⟨List.mem_append_left _ hmem, hid, hfetch⟩
      · rw [liveStep_lookup_ne he] at h
        obtain ⟨hmem, hid, hfetch⟩ := ih h
        exact ⟨List.mem_append_left _ hmem, hid, hfetch⟩

/-- The key of an open lease is the lease ID of its record. -/
theorem live_lookup_leaseID
    {records : List Record} {leaseID : GoString} {record : Record}
    (h : (live records).lookup leaseID = some record) :
    record.leaseID = leaseID :=
  (live_lookup_some h).2.1

end Moxy
