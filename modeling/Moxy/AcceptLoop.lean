import Moxy.Domain
import Moxy.Lib.Machine
import Mathlib.Algebra.Group.Nat.Defs
import Mathlib.Data.List.Nodup
import Mathlib.Order.Basic

/-!
# Moxy: the accept loop of the server

`ListenAndServe` accepts connections and starts a goroutine for each.  With a limit on
connections, a goroutine needs a token of the channel `slots`, and gives it back when
its connection is closed; a wait group counts the goroutines.  A failed accept is
retried after a delay if the failure is temporary, and ends the loop otherwise.  When
the context is cancelled, another goroutine closes the listener.

The model is a machine.  It starts behind `net.Listen`, whose failure `ListenAndServe`
returns before there is a goroutine.  Its state is what these goroutines share, together
with the point at which each of them is; its events are their steps, in any order, and
what the network and the context do.  A handler serves its connection (`handleConn`),
then gives back its token, then leaves the wait group.

**Results.**
* `server_within_limits`: the limit on connections holds, no handler waits for its own
  token, and the wait group never runs below zero.
* `server_returns_clean`: `ListenAndServe` returns only when every connection is closed
  and every goroutine is gone; it returns an error only for a failure that is not
  temporary, and not if the context was cancelled before.
* `server_can_shut_down`: after a cancellation it can always come to its end, as soon
  as the clients hang up.
* `accept_backoff`: the delay after `n` temporary failures in a row.
-/

namespace Moxy

open Lib

/-- An error of `Accept`, as far as the loop looks at it. -/
structure AcceptError where
  /-- It is `net.ErrClosed`. -/
  closed : Bool
  /-- It is `EMFILE` or `ENFILE`. -/
  exhausted : Bool
  /-- It is a `net.Error` that reports a timeout. -/
  timeout : Bool
  message : GoString
deriving DecidableEq, Repr

/-- Failures after which the loop tries again. -/
def isTemporaryAccept (err : AcceptError) : Bool :=
  err.exhausted || err.timeout

/-- Where the loop is. -/
inductive LoopState where
  | accepting
  | choosing (conn : Nat)
  | sleeping
  | waiting (err : AcceptError)
  | returned (result : Option AcceptError)
deriving DecidableEq, Repr

/--
The server while `ListenAndServe` runs.  The handlers are listed by where they are:
`serving` a connection, with the connection `ended`, or with the token `released`.
-/
structure Server where
  maxConns : Int
  listener : Bool
  loop : LoopState
  delay : Nat
  slots : Nat
  wg : Nat
  serving : List Nat
  ended : List Nat
  released : List Nat
  sockets : List Nat
  cancelled : Bool
  listening : Bool
deriving DecidableEq, Repr

/-- What can happen. -/
inductive ServerEvent where
  | accept (conn : Nat)
  | acceptFails (err : AcceptError)
  | wake
  | takeSlot
  | giveUp
  | hangUp (conn : Nat)
  | release (conn : Nat)
  | leave (conn : Nat)
  | cancel
  | closeListener
  | drained
deriving DecidableEq, Repr

/-- Durations are in nanoseconds. -/
def millisecond : Nat :=
  1000000

def second : Nat :=
  1000 * millisecond

/-- The delay before the next try. -/
def nextDelay (delay : Nat) : Nat :=
  if delay = 0 then 5 * millisecond
  else if delay * 2 > second then second
  else delay * 2

namespace Server

/-- The server once `net.Listen` has succeeded; a failed `net.Listen` is returned at once. -/
def start (maxConns : Int) : Server where
  maxConns := maxConns
  listener := true
  loop := .accepting
  delay := 0
  slots := 0
  wg := 0
  serving := []
  ended := []
  released := []
  sockets := []
  cancelled := false
  listening := true

/-- Start the goroutine of a connection. -/
def spawn (conn : Nat) (s : Server) : Server :=
  { s with wg := s.wg + 1, serving := conn :: s.serving, loop := .accepting }

/-- One event. -/
def step (e : ServerEvent) (s : Server) : Server :=
  match e with
  | .accept conn =>
      if (0 : Int) < s.maxConns then
        { s with delay := 0, sockets := conn :: s.sockets, loop := .choosing conn }
      else { s with delay := 0, sockets := conn :: s.sockets }.spawn conn
  | .acceptFails err =>
      if s.cancelled = false ∧ err.closed = false ∧ isTemporaryAccept err = true then
        { s with delay := nextDelay s.delay, loop := .sleeping }
      else { s with listener := false, loop := .waiting err }
  | .wake => { s with loop := .accepting }
  | .takeSlot =>
      match s.loop with
      | .choosing conn => { s with slots := s.slots + 1 }.spawn conn
      | _ => s
  | .giveUp =>
      match s.loop with
      | .choosing conn => { s with sockets := s.sockets.erase conn, loop := .accepting }
      | _ => s
  | .hangUp conn =>
      { s with
        serving := s.serving.erase conn
        ended := conn :: s.ended
        sockets := s.sockets.erase conn }
  | .release conn =>
      { s with
        slots := if (0 : Int) < s.maxConns then s.slots - 1 else s.slots
        ended := s.ended.erase conn
        released := conn :: s.released }
  | .leave conn => { s with wg := s.wg - 1, released := s.released.erase conn }
  | .cancel => { s with cancelled := true }
  | .closeListener => { s with listening := false }
  | .drained =>
      match s.loop with
      | .waiting err =>
          { s with
            loop := .returned
              (if s.cancelled = true ∨ err.closed = true then none else some err) }
      | _ => s

/--
The events that can happen.  A goroutine that sends to the channel waits while it is
full, and one that receives waits while it is empty.  `Accept` reports `net.ErrClosed`
once the listener is closed, and not before.
-/
def Admits (s : Server) (e : ServerEvent) : Prop :=
  match e with
  | .accept conn =>
      s.loop = .accepting ∧ s.listening = true ∧
        conn ∉ s.sockets ∧ conn ∉ s.serving ∧ conn ∉ s.ended ∧ conn ∉ s.released
  | .acceptFails err => s.loop = .accepting ∧ (err.closed = true ↔ s.listening = false)
  | .wake => s.loop = .sleeping
  | .takeSlot => (∃ conn, s.loop = .choosing conn) ∧ (s.slots : Int) < s.maxConns
  | .giveUp => (∃ conn, s.loop = .choosing conn) ∧ s.cancelled = true
  | .hangUp conn => conn ∈ s.serving
  | .release conn => conn ∈ s.ended ∧ (0 < s.maxConns → 0 < s.slots)
  | .leave conn => conn ∈ s.released
  | .cancel => True
  | .closeListener => s.cancelled = true ∧ s.listening = true
  | .drained => (∃ err, s.loop = .waiting err) ∧ s.wg = 0

instance (s : Server) (e : ServerEvent) : Decidable (s.Admits e) :=
  have choosing : Decidable (∃ conn, s.loop = .choosing conn) :=
    match s.loop with
    | .choosing conn => .isTrue ⟨conn, rfl⟩
    | .accepting | .sleeping | .waiting _ | .returned _ => .isFalse (by rintro ⟨_, ⟨⟩⟩)
  have waiting : Decidable (∃ err, s.loop = .waiting err) :=
    match s.loop with
    | .waiting err => .isTrue ⟨err, rfl⟩
    | .accepting | .sleeping | .choosing _ | .returned _ => .isFalse (by rintro ⟨_, ⟨⟩⟩)
  match e with
  | .accept conn =>
      inferInstanceAs (Decidable (s.loop = .accepting ∧ s.listening = true ∧
        conn ∉ s.sockets ∧ conn ∉ s.serving ∧ conn ∉ s.ended ∧ conn ∉ s.released))
  | .acceptFails err =>
      inferInstanceAs (Decidable (s.loop = .accepting ∧
        (err.closed = true ↔ s.listening = false)))
  | .wake => inferInstanceAs (Decidable (s.loop = .sleeping))
  | .takeSlot =>
      inferInstanceAs (Decidable ((∃ conn, s.loop = .choosing conn) ∧
        (s.slots : Int) < s.maxConns))
  | .giveUp =>
      inferInstanceAs (Decidable ((∃ conn, s.loop = .choosing conn) ∧ s.cancelled = true))
  | .hangUp conn => inferInstanceAs (Decidable (conn ∈ s.serving))
  | .release conn =>
      inferInstanceAs (Decidable (conn ∈ s.ended ∧ (0 < s.maxConns → 0 < s.slots)))
  | .leave conn => inferInstanceAs (Decidable (conn ∈ s.released))
  | .cancel => inferInstanceAs (Decidable True)
  | .closeListener => inferInstanceAs (Decidable (s.cancelled = true ∧ s.listening = true))
  | .drained => inferInstanceAs (Decidable ((∃ err, s.loop = .waiting err) ∧ s.wg = 0))

/-- The server as a machine. -/
def machine : Machine Server ServerEvent Unit where
  step e s := ((), s.step e)
  guard := Admits

instance (s : Server) (e : ServerEvent) : Decidable (machine.guard s e) :=
  inferInstanceAs (Decidable (s.Admits e))

/-- The connection that waits for a token. -/
def pending (s : Server) : List Nat :=
  match s.loop with
  | .choosing conn => [conn]
  | _ => []

/-- The loop has been left. -/
def left (s : Server) : Bool :=
  match s.loop with
  | .waiting _ | .returned _ => true
  | _ => false

/-- What holds between the goroutines at any time. -/
structure Balanced (s : Server) : Prop where
  slots : 0 < s.maxConns → s.slots = s.serving.length + s.ended.length
  full : 0 < s.maxConns → (s.slots : Int) ≤ s.maxConns
  wg : s.wg = s.serving.length + s.ended.length + s.released.length
  distinct : s.sockets.Nodup
  sockets : s.sockets.Perm (s.pending ++ s.serving)
  listener : s.listener = !s.left
  closes : s.listening = false → s.cancelled = true
  waits : ∀ err, s.loop = .waiting err →
    (err.closed = true → s.cancelled = true) ∧
    (s.cancelled = true ∨ err.closed = true ∨ isTemporaryAccept err = false)
  ends : ∀ result, s.loop = .returned result →
    s.wg = 0 ∧ (result = none → s.cancelled = true) ∧
    ∀ err, result = some err → isTemporaryAccept err = false

theorem balanced_start
    (maxConns : Int) :
    (start maxConns).Balanced where
  slots _ := rfl
  full h := Int.le_of_lt h
  wg := rfl
  distinct := List.nodup_nil
  sockets := .refl _
  listener := rfl
  closes h := by cases h
  waits _ h := by cases h
  ends _ h := by cases h

section Steps

variable {s : Server} {conn : Nat}

/-- A handler that stops serving was not waiting for a token. -/
theorem Balanced.erase
    (h : s.Balanced)
    (hconn : conn ∈ s.serving) :
    (s.sockets.erase conn).Perm (s.pending ++ s.serving.erase conn) := by
  have hnodup : (s.pending ++ s.serving).Nodup := h.sockets.nodup_iff.mp h.distinct
  have hnot : conn ∉ s.pending := fun hp => List.disjoint_of_nodup_append hnodup hp hconn
  rw [← List.erase_append_right _ hnot]
  exact h.sockets.erase conn

theorem Balanced.accept
    (h : s.Balanced)
    (hguard : s.Admits (.accept conn)) :
    (s.step (.accept conn)).Balanced := by
  obtain ⟨hloop, hopen, hnew, _⟩ := hguard
  have hpending : s.pending = [] := by rw [pending, hloop]
  have hsockets : (conn :: s.sockets).Perm (conn :: s.serving) := by
    have hperm := h.sockets
    rw [hpending] at hperm
    exact hperm.cons conn
  have hleft : s.left = false := by rw [left, hloop]
  by_cases hlimit : 0 < s.maxConns
  · rw [step, if_pos hlimit]
    exact
      { h with
        distinct := List.nodup_cons.mpr ⟨hnew, h.distinct⟩
        sockets := hsockets
        listener := by rw [h.listener, hleft]; rfl
        waits := fun _ hw => by cases hw
        ends := fun _ hr => by cases hr }
  · rw [step, if_neg hlimit]
    exact
      { h with
        slots := fun hl => absurd hl hlimit
        full := fun hl => absurd hl hlimit
        wg := by
          have hwg := h.wg
          simp only [spawn, List.length_cons]
          omega
        distinct := List.nodup_cons.mpr ⟨hnew, h.distinct⟩
        sockets := hsockets
        listener := by rw [spawn, h.listener, hleft]; rfl
        waits := fun _ hw => by cases hw
        ends := fun _ hr => by cases hr }

theorem Balanced.acceptFails
    {err : AcceptError}
    (h : s.Balanced)
    (hguard : s.Admits (.acceptFails err)) :
    (s.step (.acceptFails err)).Balanced := by
  obtain ⟨hloop, hclosed⟩ := hguard
  have hsockets := h.sockets
  rw [show s.pending = [] by rw [pending, hloop]] at hsockets
  by_cases hretry : s.cancelled = false ∧ err.closed = false ∧ isTemporaryAccept err = true
  · rw [step, if_pos hretry]
    exact
      { h with
        sockets := hsockets
        listener := by rw [h.listener, left, hloop]; rfl
        waits := fun _ hw => by cases hw
        ends := fun _ hr => by cases hr }
  · rw [step, if_neg hretry]
    refine
      { h with
        sockets := hsockets
        listener := rfl
        waits := ?_
        ends := fun _ hr => by cases hr }
    rintro _ ⟨⟩
    refine ⟨fun hc => h.closes (hclosed.mp hc), ?_⟩
    by_contra hnone
    simp only [not_or, Bool.not_eq_true, Bool.not_eq_false] at hnone
    exact hretry hnone

theorem Balanced.wake
    (h : s.Balanced)
    (hguard : s.Admits .wake) :
    (s.step .wake).Balanced := by
  have hloop : s.loop = .sleeping := hguard
  have hsockets := h.sockets
  rw [show s.pending = [] by rw [pending, hloop]] at hsockets
  exact
    { h with
      sockets := hsockets
      listener := by rw [step, h.listener, left, hloop]; rfl
      waits := fun _ hw => by cases hw
      ends := fun _ hr => by cases hr }

theorem Balanced.takeSlot
    (h : s.Balanced)
    (hguard : s.Admits .takeSlot) :
    (s.step .takeSlot).Balanced := by
  obtain ⟨⟨conn, hloop⟩, hroom⟩ := hguard
  have hsockets := h.sockets
  rw [show s.pending = [conn] by rw [pending, hloop]] at hsockets
  have hstep : s.step .takeSlot = { s with slots := s.slots + 1 }.spawn conn := by
    rw [step, hloop]
  rw [hstep]
  exact
    { h with
      slots := fun hl => by
        have hslots := h.slots hl
        simp only [spawn, List.length_cons]
        omega
      full := fun _ => by
        simp only [spawn]
        omega
      wg := by
        have hwg := h.wg
        simp only [spawn, List.length_cons]
        omega
      sockets := hsockets
      listener := by rw [spawn, h.listener, left, hloop]; rfl
      waits := fun _ hw => by cases hw
      ends := fun _ hr => by cases hr }

theorem Balanced.giveUp
    (h : s.Balanced)
    (hguard : s.Admits .giveUp) :
    (s.step .giveUp).Balanced := by
  obtain ⟨⟨conn, hloop⟩, _⟩ := hguard
  have hsockets := h.sockets.erase conn
  rw [show s.pending = [conn] by rw [pending, hloop], List.singleton_append,
    List.erase_cons_head] at hsockets
  have hstep : s.step .giveUp =
      { s with sockets := s.sockets.erase conn, loop := .accepting } := by
    rw [step, hloop]
  rw [hstep]
  exact
    { h with
      distinct := h.distinct.erase conn
      sockets := hsockets
      listener := by rw [h.listener, left, hloop]; rfl
      waits := fun _ hw => by cases hw
      ends := fun _ hr => by cases hr }

theorem Balanced.hangUp
    (h : s.Balanced)
    (hguard : s.Admits (.hangUp conn)) :
    (s.step (.hangUp conn)).Balanced := by
  have hconn : conn ∈ s.serving := hguard
  have hlength := List.length_erase_of_mem hconn
  have hpos := List.length_pos_of_mem hconn
  exact
    { h with
      slots := fun hl => by
        have hslots := h.slots hl
        simp only [step, List.length_cons, hlength]
        omega
      wg := by
        have hwg := h.wg
        simp only [step, List.length_cons, hlength]
        omega
      distinct := h.distinct.erase conn
      sockets := h.erase hconn }

theorem Balanced.release
    (h : s.Balanced)
    (hguard : s.Admits (.release conn)) :
    (s.step (.release conn)).Balanced := by
  obtain ⟨hconn, _⟩ := hguard
  have hlength := List.length_erase_of_mem hconn
  have hpos := List.length_pos_of_mem hconn
  have hslots : 0 < s.maxConns → (s.step (.release conn)).slots = s.slots - 1 :=
    fun hl => if_pos hl
  exact
    { h with
      slots := fun hl => by
        have hbefore := h.slots hl
        rw [hslots hl]
        simp only [step, hlength]
        omega
      full := fun hl => by
        have hfull := h.full hl
        rw [hslots hl]
        simp only [step]
        omega
      wg := by
        have hwg := h.wg
        simp only [step, List.length_cons, hlength]
        omega }

theorem Balanced.leave
    (h : s.Balanced)
    (hguard : s.Admits (.leave conn)) :
    (s.step (.leave conn)).Balanced := by
  have hconn : conn ∈ s.released := hguard
  have hlength := List.length_erase_of_mem hconn
  have hpos := List.length_pos_of_mem hconn
  have hwg := h.wg
  exact
    { h with
      wg := by
        simp only [step, hlength]
        omega
      ends := fun result hr => by
        obtain ⟨hzero, _⟩ := h.ends result hr
        omega }

theorem Balanced.drained
    (h : s.Balanced)
    (hguard : s.Admits .drained) :
    (s.step .drained).Balanced := by
  obtain ⟨⟨err, hloop⟩, hwg⟩ := hguard
  have hsockets := h.sockets
  rw [show s.pending = [] by rw [pending, hloop]] at hsockets
  obtain ⟨hclosed, hfatal⟩ := h.waits err hloop
  have hstep : s.step .drained =
      { s with
        loop := .returned
          (if s.cancelled = true ∨ err.closed = true then none else some err) } := by
    rw [step, hloop]
  rw [hstep]
  refine
    { h with
      sockets := hsockets
      listener := by rw [h.listener, left, hloop]; rfl
      waits := fun _ hw => by cases hw
      ends := ?_ }
  rintro _ ⟨⟩
  refine ⟨hwg, ?_, ?_⟩
  · intro hnone
    split_ifs at hnone with hc
    exact hc.elim id hclosed
  · intro err' hsome
    split_ifs at hsome with hc
    cases hsome
    exact (or_assoc.mpr hfatal).resolve_left hc

/-- Every event keeps the balance. -/
theorem Balanced.step
    {e : ServerEvent}
    (h : s.Balanced)
    (hguard : s.Admits e) :
    (s.step e).Balanced := by
  cases e with
  | accept conn => exact h.accept hguard
  | acceptFails err => exact h.acceptFails hguard
  | wake => exact h.wake hguard
  | takeSlot => exact h.takeSlot hguard
  | giveUp => exact h.giveUp hguard
  | hangUp conn => exact h.hangUp hguard
  | release conn => exact h.release hguard
  | leave conn => exact h.leave hguard
  | drained => exact h.drained hguard
  | cancel =>
      exact
        { h with
          closes := fun _ => rfl
          waits := fun err hw => ⟨fun _ => rfl, .inl rfl⟩
          ends := fun result hr => ⟨(h.ends result hr).1, fun _ => rfl, (h.ends result hr).2.2⟩ }
  | closeListener => exact { h with closes := fun _ => hguard.1 }

end Steps

variable {s t : Server} {es : List (ServerEvent × Unit)} {maxConns : Int}

/-- The balance holds in every state that the server can come to. -/
theorem run_balanced
    (hrun : machine.Run (start maxConns) es s) :
    s.Balanced :=
  hrun.invariant (P := Balanced) (fun _ _ h hguard => h.step hguard) (balanced_start maxConns)

theorem step_maxConns
    (e : ServerEvent) :
    (s.step e).maxConns = s.maxConns := by
  cases e with
  | accept conn =>
      rw [step]
      split_ifs <;> rfl
  | acceptFails err =>
      rw [step]
      split_ifs <;> rfl
  | takeSlot | giveUp | drained =>
      rw [step]
      cases s.loop <;> rfl
  | wake | hangUp | release | leave | cancel | closeListener => rfl

theorem run_maxConns
    (hrun : machine.Run (start maxConns) es s) :
    s.maxConns = maxConns :=
  hrun.invariant (P := fun s => s.maxConns = maxConns)
    (fun _ e h _ => (step_maxConns e).trans h) rfl

section Shutdown

/-- How far the loop is from its return, once it is cancelled. -/
def loopRank (s : Server) : Nat :=
  match s.loop with
  | .accepting => if s.listening then 3 else 2
  | .choosing _ | .sleeping => 4
  | .waiting _ => 1
  | .returned _ => 0

/-- What is left to do before the return. -/
def work (s : Server) : Nat :=
  3 * s.serving.length + 2 * s.ended.length + s.released.length + s.loopRank

/-- Some goroutine can go on, if clients may hang up. -/
theorem Balanced.goes_on
    (h : s.Balanced)
    (hcancelled : s.cancelled = true)
    (hnot : ∀ result, s.loop ≠ .returned result) :
    ∃ e, s.Admits e ∧ (s.step e).work < s.work ∧ (s.step e).cancelled = true ∧
      ∀ conn, e ≠ .accept conn := by
  cases hloop : s.loop with
  | returned result => exact absurd hloop (hnot result)
  | accepting =>
      by_cases hopen : s.listening = true
      · refine ⟨.closeListener, ⟨hcancelled, hopen⟩, ?_, hcancelled, by rintro _ ⟨⟩⟩
        simp [work, loopRank, Server.step, hloop, hopen]
      · refine ⟨.acceptFails ⟨true, false, false, []⟩, ⟨hloop, by simpa using hopen⟩, ?_, ?_,
          by rintro _ ⟨⟩⟩
        · simp [work, loopRank, Server.step, hloop, hopen, hcancelled]
        · simp [Server.step, hcancelled]
  | choosing conn =>
      refine ⟨.giveUp, ⟨⟨conn, hloop⟩, hcancelled⟩, ?_, ?_, by rintro _ ⟨⟩⟩
      · cases hopen : s.listening <;> simp [work, loopRank, Server.step, hloop, hopen]
      · simp [Server.step, hloop, hcancelled]
  | sleeping =>
      refine ⟨.wake, hloop, ?_, hcancelled, by rintro _ ⟨⟩⟩
      cases hopen : s.listening <;> simp [work, loopRank, Server.step, hloop, hopen]
  | waiting err =>
      -- The wait ends with the last handler.
      cases hserving : s.serving with
      | cons conn rest =>
          refine ⟨.hangUp conn, by simp [Admits, hserving], ?_, hcancelled, by rintro _ ⟨⟩⟩
          simp only [work, loopRank, Server.step, hserving, hloop, List.erase_cons_head,
            List.length_cons]
          omega
      | nil =>
          cases hended : s.ended with
          | cons conn rest =>
              have hslots : 0 < s.maxConns → 0 < s.slots := by
                intro hl
                rw [h.slots hl, hended, List.length_cons]
                omega
              refine ⟨.release conn, ⟨by simp [hended], hslots⟩, ?_, hcancelled, by rintro _ ⟨⟩⟩
              simp only [work, loopRank, Server.step, hserving, hended, hloop, List.erase_cons_head,
                List.length_cons]
              omega
          | nil =>
              cases hreleased : s.released with
              | cons conn rest =>
                  refine ⟨.leave conn, by simp [Admits, hreleased], ?_, hcancelled,
                    by rintro _ ⟨⟩⟩
                  simp only [work, loopRank, Server.step, hserving, hended, hreleased, hloop,
                    List.erase_cons_head, List.length_cons]
                  omega
              | nil =>
                  have hwg := h.wg
                  rw [hserving, hended, hreleased] at hwg
                  refine ⟨.drained, ⟨⟨err, hloop⟩, hwg⟩, ?_, ?_, by rintro _ ⟨⟩⟩
                  · simp [work, loopRank, Server.step, hloop]
                  · simp [Server.step, hloop, hcancelled]

/-- From a balanced state the cancelled server can come to its return. -/
theorem Balanced.shuts_down :
    ∀ (n : Nat) (s : Server), s.work ≤ n → s.Balanced → s.cancelled = true →
      ∃ es t, machine.Run s es t ∧ (∃ result, t.loop = .returned result) ∧
        ∀ er ∈ es, ∀ conn, er.1 ≠ .accept conn := by
  intro n
  induction n with
  | zero =>
      intro s hwork h hcancelled
      by_cases hreturned : ∃ result, s.loop = .returned result
      · exact ⟨[], s, .refl s, hreturned, fun _ her => (List.not_mem_nil her).elim⟩
      · obtain ⟨e, _, hless, _⟩ := h.goes_on hcancelled (not_exists.mp hreturned)
        omega
  | succ n ih =>
      intro s hwork h hcancelled
      by_cases hreturned : ∃ result, s.loop = .returned result
      · exact ⟨[], s, .refl s, hreturned, fun _ her => (List.not_mem_nil her).elim⟩
      · obtain ⟨e, hguard, hless, hcancelled', he⟩ :=
          h.goes_on hcancelled (not_exists.mp hreturned)
        obtain ⟨es, t, hrun, hend, hes⟩ :=
          ih (s.step e) (by omega) (h.step hguard) hcancelled'
        have hfirst : machine.Run s ([] ++ [(e, ())]) (s.step e) :=
          Machine.Run.next e (.refl s) hguard
        refine ⟨(e, ()) :: es, t, hfirst.trans hrun, hend, ?_⟩
        intro er her
        rcases List.mem_cons.mp her with rfl | her
        · exact he
        · exact hes er her

end Shutdown

section Backoff

/-- The delay before the retry after `n` temporary failures in a row. -/
def backoff (n : Nat) : Nat :=
  if n = 0 then 0 else min (5 * millisecond * 2 ^ (n - 1)) second

theorem nextDelay_backoff
    (n : Nat) :
    nextDelay (backoff n) = backoff (n + 1) := by
  cases n with
  | zero => decide
  | succ n =>
      have hpos : 0 < 2 ^ n := Nat.two_pow_pos n
      simp only [backoff, Nat.succ_ne_zero, if_false, Nat.add_sub_cancel, pow_succ, nextDelay,
        second, millisecond]
      generalize 2 ^ n = k at hpos ⊢
      split_ifs <;> omega

/-- The number of failed accepts since the last connection. -/
def streak (es : List ServerEvent) : Nat :=
  es.foldl (fun n e =>
    match e with
    | .accept _ => 0
    | .acceptFails _ => n + 1
    | _ => n) 0

theorem streak_next
    (es : List ServerEvent) (e : ServerEvent) :
    streak (es ++ [e]) =
      match e with
      | .accept _ => 0
      | .acceptFails _ => streak es + 1
      | _ => streak es := by
  rw [streak, List.foldl_append]
  rfl

/--
As long as the loop goes on, its delay depends only on the failures since the last
connection: five milliseconds after the first, twice as long after each further one,
but no more than a second; a connection resets it.
-/
theorem accept_backoff
    (hrun : machine.Run (start maxConns) es s)
    (hleft : s.left = false) :
    s.delay = backoff (streak (es.map Prod.fst)) := by
  induction hrun with
  | refl => rfl
  | @next u es e hrun hguard ih =>
      rw [List.map_append, List.map_singleton, streak_next]
      change (u.step e).left = false at hleft
      change (u.step e).delay = _
      -- An event that leaves the loop running does not touch the delay, apart from accepts.
      have hsame : ∀ t : Server, t.loop = u.loop → t.delay = u.delay → t.left = false →
          t.delay = backoff (streak (es.map Prod.fst)) := by
        intro t hloop hdelay ht
        rw [hdelay]
        refine ih ?_
        rw [← ht, left, left, hloop]
      cases e with
      | accept conn =>
          rw [step]
          split_ifs <;> rfl
      | acceptFails err =>
          rw [step] at hleft ⊢
          split_ifs at hleft ⊢ with hretry
          · have hbefore : u.delay = backoff (streak (es.map Prod.fst)) :=
              ih (by rw [left, hguard.1])
            dsimp only
            rw [hbefore]
            exact nextDelay_backoff _
          · cases hleft
      | wake => exact ih (by rw [left, show u.loop = .sleeping from hguard])
      | takeSlot =>
          obtain ⟨⟨conn, hloop⟩, _⟩ := hguard
          rw [step, hloop]
          exact ih (by rw [left, hloop])
      | giveUp =>
          obtain ⟨⟨conn, hloop⟩, _⟩ := hguard
          rw [step, hloop]
          exact ih (by rw [left, hloop])
      | drained =>
          obtain ⟨⟨err, hloop⟩, _⟩ := hguard
          rw [step, hloop] at hleft
          cases hleft
      | hangUp | release | leave | cancel | closeListener => exact hsame _ rfl rfl hleft

/-- Ten failures in a row, after a connection. -/
def failingAccepts : List ServerEvent :=
  [.accept 1] ++ (List.replicate 9 [.acceptFails ⟨false, true, false, []⟩, .wake]).flatten ++
    [.hangUp 1, .acceptFails ⟨false, true, false, []⟩]

theorem accept_backoff_ten :
    (machine.final (start 0) failingAccepts).delay = second := by
  have hadmits : machine.Admits (start 0) failingAccepts := by decide +kernel
  exact accept_backoff (Machine.run_of_admits _ _ hadmits) (by decide)

end Backoff

end Server

section Results

variable {s : Server} {es : List (ServerEvent × Unit)} {maxConns : Int}

/--
In every state of the server, in whatever order its goroutines run: with a limit, no
more connections are served than it allows, and at most one more is open; a handler
that gives its token back finds one in the channel, and the wait group counts every
handler that has yet to leave it.
-/
theorem server_within_limits
    (hrun : Server.machine.Run (Server.start maxConns) es s) :
    (0 < maxConns →
      (s.serving.length : Int) ≤ maxConns ∧ (s.sockets.length : Int) ≤ maxConns + 1 ∧
      (s.ended ≠ [] → 0 < s.slots)) ∧
    (s.released ≠ [] → 0 < s.wg) := by
  have h := Server.run_balanced hrun
  have hlimit := Server.run_maxConns hrun
  have hpending : s.pending.length ≤ 1 := by
    unfold Server.pending
    cases s.loop <;> simp
  refine ⟨fun hpos => ?_, fun hne => ?_⟩
  · have hslots := h.slots (by rw [hlimit]; exact hpos)
    have hfull := h.full (by rw [hlimit]; exact hpos)
    have hsockets := h.sockets.length_eq
    rw [List.length_append] at hsockets
    refine ⟨by omega, by omega, fun hne => ?_⟩
    have hsome := List.length_pos_iff.mpr hne
    omega
  · have hsome := List.length_pos_iff.mpr hne
    have hwg := h.wg
    omega

/-- With a limit of one connection, a second one is accepted and waits. -/
def oneSlot : List ServerEvent :=
  [.accept 1, .takeSlot, .accept 2, .hangUp 1]

theorem server_within_limits_one :
    ((Server.machine.final (Server.start 1) oneSlot).sockets.length : Int) ≤ 1 + 1 ∧
      0 < (Server.machine.final (Server.start 1) oneSlot).slots := by
  have hadmits : Server.machine.Admits (Server.start 1) oneSlot := by decide +kernel
  obtain ⟨h, _⟩ := server_within_limits (Machine.run_of_admits _ _ hadmits)
  obtain ⟨_, hsockets, hslots⟩ := h Int.one_pos
  exact ⟨hsockets, hslots (by decide)⟩

/--
`ListenAndServe` returns only when it has nothing left to do: every connection it
accepted is closed, every handler is gone and `Addr` has no listener any more.  It
returns without an error only after a cancellation, and an error that it returns is
not one that it would retry.
-/
theorem server_returns_clean
    (hrun : Server.machine.Run (Server.start maxConns) es s) {result : Option AcceptError}
    (hreturned : s.loop = .returned result) :
    s.serving = [] ∧ s.ended = [] ∧ s.released = [] ∧ s.sockets = [] ∧ s.listener = false ∧
    (result = none → s.cancelled = true) ∧
    ∀ err, result = some err → isTemporaryAccept err = false := by
  have h := Server.run_balanced hrun
  obtain ⟨hzero, hnone, hsome⟩ := h.ends result hreturned
  have hwg := h.wg
  have hserving : s.serving = [] := List.length_eq_zero_iff.mp (by omega)
  have hsockets := h.sockets
  rw [show s.pending = [] by rw [Server.pending, hreturned], hserving] at hsockets
  refine ⟨hserving, List.length_eq_zero_iff.mp (by omega), List.length_eq_zero_iff.mp (by omega),
    hsockets.eq_nil, ?_, hnone, hsome⟩
  rw [h.listener, Server.left, hreturned]
  rfl

/-- The second connection is given up after a cancellation, and the first one ends. -/
def cancelledServer : List ServerEvent :=
  [.accept 1, .takeSlot, .accept 2, .cancel, .giveUp, .closeListener]

/-- The loop ends, the handler ends, and the server returns. -/
def serverReturns : List ServerEvent :=
  [.acceptFails ⟨true, false, false, []⟩, .hangUp 1, .release 1, .leave 1, .drained]

theorem server_returns_clean_cancelled :
    (Server.machine.final (Server.start 1) (cancelledServer ++ serverReturns)).sockets = [] := by
  have hadmits : Server.machine.Admits (Server.start 1) (cancelledServer ++ serverReturns) := by
    decide +kernel
  exact (server_returns_clean (Machine.run_of_admits _ _ hadmits)
    (show _ = LoopState.returned none by decide)).2.2.2.1

/--
A cancelled server can always come to its end: from every state that it can be in
after the cancellation there is a way to the return of `ListenAndServe`, on which no
further connection is accepted and the clients do no more than hang up.
-/
theorem server_can_shut_down
    (hrun : Server.machine.Run (Server.start maxConns) es s)
    (hcancelled : s.cancelled = true) :
    ∃ es' t,
      Server.machine.Run s es' t ∧ (∃ result, t.loop = .returned result) ∧
      ∀ er ∈ es', ∀ conn, er.1 ≠ .accept conn :=
  Server.Balanced.shuts_down s.work s (Nat.le_refl _) (Server.run_balanced hrun) hcancelled

theorem server_can_shut_down_cancelled :
    ∃ es t,
      Server.machine.Run (Server.machine.final (Server.start 1) cancelledServer) es t ∧
      (∃ result, t.loop = .returned result) ∧ ∀ er ∈ es, ∀ conn, er.1 ≠ .accept conn := by
  have hadmits : Server.machine.Admits (Server.start 1) cancelledServer := by decide +kernel
  exact server_can_shut_down (Machine.run_of_admits _ _ hadmits) (by decide)

end Results

end Moxy
