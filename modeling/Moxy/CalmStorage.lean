import Moxy.FaultyStorage

/-!
# Moxy: storage that answers for a while

A script says how each call turns out.  `World.CalmFor n` says that the next `n`
calls on the backend and on the journal take effect and report their result; what
comes after them is left open.
-/

namespace Moxy

open Lib Lib.CrashM

/-- The next `n` elements of a script satisfy `P`. -/
def Upcoming {α : Type} (P : α → Prop) (n : Nat) (script : List α) : Prop :=
  ∀ x ∈ script.take n, P x

section Scripts

variable {α : Type} {P : α → Prop} {n : Nat} {script : List α}

theorem Upcoming.head
    {default : α}
    (h : Upcoming P (n + 1) script)
    (hdefault : P default) :
    P (script.headD default) := by
  cases script with
  | nil => exact hdefault
  | cons first rest => exact h first (by simp)

theorem Upcoming.tail
    (h : Upcoming P (n + 1) script) :
    Upcoming P n script.tail := by
  intro x hx
  cases script with
  | nil => simp at hx
  | cons first rest =>
      rw [List.tail_cons] at hx
      exact h x (by simp [hx])

theorem Upcoming.mono
    (h : Upcoming P (n + 1) script) :
    Upcoming P n script :=
  fun x hx => h x ((List.take_sublist_take_left (Nat.le_succ n)).subset hx)

end Scripts

/-- The next `n` calls on either side take effect and report their result. -/
structure World.CalmFor (n : Nat) (w : World Storage LeaseLog) : Prop where
  calls : Upcoming (fun env => env.fate = .reports) n w.backend.script
  appends : Upcoming (fun fate => fate = .stored) n w.journal.script

theorem World.calmFor_of_nil
    {n : Nat} {engine : Engine} {backend : Storage} {journal : LeaseLog}
    (hcalls : backend.script = [])
    (happends : journal.script = []) :
    World.CalmFor n ⟨engine, backend, journal⟩ where
  calls := by
    intro env henv
    simp [hcalls] at henv
  appends := by
    intro fate hfate
    simp [happends] at hfate

section Calls

variable {w : World Storage LeaseLog}

theorem Storage.wp_call_calm
    {α : Type} {effect : CallEnv → Store → Except GoError α × Store}
    {ok : α → Storage → Prop} {error : GoError → Storage → Prop}
    {crashed : Storage → Prop} {s : Storage}
    (hcalm : (s.script.headD CallEnv.calm).fate = .reports)
    (hok : ∀ env a, (effect env s.store).1 = .ok a →
      ok a ⟨(effect env s.store).2, s.script.tail⟩)
    (herror : ∀ env err, (effect env s.store).1 = .error err →
      error err ⟨(effect env s.store).2, s.script.tail⟩) :
    wp (Storage.call effect) ok error crashed s := by
  rw [Storage.wp_call_iff]
  generalize s.script.headD CallEnv.calm = env at hcalm ⊢
  rw [hcalm]
  cases hr : (effect env s.store).1 with
  | ok a => exact hok env a hr
  | error err => exact herror env err hr

theorem wp_record_calm
    {entry : Record}
    {ok : Unit → World Storage LeaseLog → Prop}
    {error : GoError → World Storage LeaseLog → Prop}
    {crashed : World Storage LeaseLog → Prop}
    (hjournal : w.engine.config.journal = true)
    (hcalm : w.journal.script.headD .stored = .stored)
    (hok : ok () { w with
      journal := ⟨w.journal.entries ++ [⟨entry, true⟩], w.journal.script.tail⟩ }) :
    wp (record entry) ok error crashed w := by
  rw [wp_record, if_pos hjournal]
  refine LeaseLog.wp_append_iff.mpr ?_
  rw [hcalm]
  exact hok

/-- A calm append returns, whether or not there is a journal. -/
theorem wp_record_ok
    {entry : Record}
    {ok : Unit → World Storage LeaseLog → Prop}
    {error : GoError → World Storage LeaseLog → Prop}
    {crashed : World Storage LeaseLog → Prop}
    (hcalm : w.journal.script.headD .stored = .stored)
    (hok : ∀ journal, ok () { w with journal := journal }) :
    wp (record entry) ok error crashed w := by
  by_cases hjournal : w.engine.config.journal = true
  · exact wp_record_calm hjournal hcalm (hok _)
  · rw [wp_record, if_neg hjournal]
    exact hok w.journal

end Calls

end Moxy
