import Moxy.Dispatch
import Moxy.RespStream
import Mathlib.Logic.Function.Basic

/-!
# Moxy: connections that use the service at once

Every connection has a handler that reads a request, waits for the call of the service
that the request asks for, and writes the reply.  The handlers share one service, and
the sections of their calls interleave (`Process`).  The reaper is one more caller.

A `Line` is a connection: the bytes that its handler has not read yet, the place of the
handler in its loop, and what has been read and written so far.  The bytes that a
client sends until it hangs up are given from the start; that its handler waits for
them shows in the moment of the read.  A write may fail, a read may fail for reasons
of the network, and the process may stop anywhere.

A run with connections is one of the service below (`front_project`).  For a single
connection, each event is one of a few steps of its handler and of its call
(`Front.step_line`); all that is said about conversations follows from these.
-/

namespace Moxy

open Lib Lib.CrashM

section Stream

/-- Enough fuel for every value of the input. -/
theorem readLoop_fuel
    (fuel : Nat) :
    ∀ (fuel' : Nat) (bytes : Bytes), bytes.length < fuel → bytes.length < fuel' →
      readLoop fuel bytes = readLoop fuel' bytes := by
  induction fuel with
  | zero =>
      intro fuel' bytes h
      omega
  | succ fuel ih =>
      intro fuel' bytes h h'
      obtain ⟨fuel', rfl⟩ := Nat.exists_eq_succ_of_ne_zero (Nat.ne_zero_of_lt h')
      rw [readLoop, readLoop]
      cases hread : readValue (bytes.length + 1) bytes with
      | error e => rfl
      | ok result =>
          obtain ⟨v, rest⟩ := result
          have hless := readValue_shrinks _ bytes v rest hread
          simp only [ih fuel' rest (by omega) (by omega)]

/-- The values of an input are the next one and those of the rest. -/
theorem readAll_of_readNext
    {bytes rest : Bytes} {v : Value}
    (h : readNext bytes = .ok (v, rest)) :
    readAll bytes = (v :: (readAll rest).1, (readAll rest).2) := by
  have hless : rest.length < bytes.length := readValue_shrinks _ bytes v rest h
  have hfuel : readLoop bytes.length rest = readAll rest :=
    readLoop_fuel _ _ rest hless (Nat.lt_succ_self _)
  rw [readAll, readLoop, show readValue (bytes.length + 1) bytes = .ok (v, rest) from h]
  simp only [hfuel]

theorem readAll_of_readNext_error
    {bytes : Bytes} {e : ReadEnd}
    (h : readNext bytes = .error e) :
    readAll bytes = ([], e) := by
  rw [readAll, readLoop, show readValue (bytes.length + 1) bytes = .error e from h]

end Stream

/-- Where the handler of a connection is in its loop. -/
inductive Handler where
  | reading
  | calling (name : GoString)
  | writing (reply : Value)
  | failing (reply : Value)
  | closed

/--
A connection: the bytes that are left to read, the place of its handler, the requests
read, the replies written to them, and the error reply that ended it.
-/
structure Line where
  input : Bytes
  handler : Handler
  requests : List Value
  replies : List Value
  farewell : Option Value

namespace Line

/-- A connection that was just accepted. -/
def accepted (input : Bytes) : Line :=
  ⟨input, .reading, [], [], none⟩

def isReading (line : Line) : Bool :=
  match line.handler with
  | .reading => true
  | _ => false

def isWriting (line : Line) : Bool :=
  match line.handler with
  | .writing _ | .failing _ => true
  | _ => false

/-- The next request, and the call that it makes. -/
def read (line : Line) : Line × Option Call :=
  match readNext line.input with
  | .error .eof => ({ line with handler := .closed }, none)
  | .error (.fails err) => ({ line with handler := .failing (errorReply err) }, none)
  | .ok (request, rest) =>
      let line := { line with input := rest, requests := line.requests ++ [request] }
      match dispatch request with
      | .reply value => ({ line with handler := .writing value }, none)
      | .call name call => ({ line with handler := .calling name }, some call)

/-- A read that fails for reasons of the network. -/
def lose (err : GoError) (line : Line) : Line :=
  { line with handler := .failing (errorReply err) }

/-- The call has ended. -/
def answer (a : Answer) (line : Line) : Line :=
  match line.handler with
  | .calling name => { line with handler := .writing (answerReply name a) }
  | _ => line

/-- A reply is written, or the write fails. -/
def write (delivered : Bool) (line : Line) : Line :=
  match line.handler with
  | .writing reply =>
      if delivered then { line with handler := .reading, replies := line.replies ++ [reply] }
      else { line with handler := .closed }
  | .failing reply =>
      { line with handler := .closed, farewell := if delivered then some reply else none }
  | _ => line

def close (line : Line) : Line :=
  { line with handler := .closed }

/-- The bytes that the handler has written. -/
def output (line : Line) : Bytes :=
  writeValues (line.replies ++ line.farewell.toList)

end Line

/-- The caller that the reaper is; connections have other numbers. -/
def reaper : Nat :=
  0

/-- A service and its connections, by number. -/
structure Front (β γ : Type) where
  process : Process β γ
  lines : Nat → Option Line

/-- What can happen to a service with connections. -/
inductive FrontEvent (γ : Type) where
  | connect (conn : Nat) (input : Bytes)
  | read (conn : Nat)
  | lose (conn : Nat) (err : GoError)
  | write (conn : Nat) (delivered : Bool)
  | reap (now : Int)
  | turn (caller : Nat) (env : TurnEnv γ)
  | stop
  | start (config : ServiceConfig)

namespace Front

variable {β γ : Type} [Backend β] [Journal γ]

/-- No connection yet. -/
def cold (p : Process β γ) : Front β γ :=
  ⟨p, fun _ => none⟩

/-- Change one connection. -/
def onLine (conn : Nat) (change : Line → Line) (f : Front β γ) : Front β γ :=
  { f with lines := Function.update f.lines conn ((f.lines conn).map change) }

/-- An event of the service, with what happens to the connections. -/
def take (turn : Turn γ) (change : Note γ → (Nat → Option Line) → Nat → Option Line)
    (f : Front β γ) : Option (Turn γ × Note γ) × Front β γ :=
  (some (turn, (f.process.step turn).1),
    ⟨(f.process.step turn).2, change (f.process.step turn).1 f.lines⟩)

/-- The connections after a section: one of them may have its answer. -/
def hear (note : Note γ) (lines : Nat → Option Line) : Nat → Option Line :=
  match note.answer with
  | none => lines
  | some (conn, _, a) => Function.update lines conn ((lines conn).map (Line.answer a))

/-- One event; what it is for the service, if it concerns the service. -/
def step (e : FrontEvent γ) (f : Front β γ) : Option (Turn γ × Note γ) × Front β γ :=
  match e with
  | .connect conn input =>
      (none, { f with lines := Function.update f.lines conn (some (.accepted input)) })
  | .read conn =>
      match (f.lines conn).bind (fun line => line.read.2) with
      | none => (none, f.onLine conn (fun line => line.read.1))
      | some call => (f.onLine conn (fun line => line.read.1)).take (.call conn call) (fun _ => id)
  | .lose conn err => (none, f.onLine conn (Line.lose err))
  | .write conn delivered => (none, f.onLine conn (Line.write delivered))
  | .reap now => f.take (.call reaper (.reap now)) (fun _ => id)
  | .turn caller env => f.take (.turn caller env) hear
  | .stop => f.take .stop (fun _ lines conn => (lines conn).map Line.close)
  | .start config => f.take (.start config) (fun _ lines conn => (lines conn).map Line.close)

/-- The events that the handlers can bring about. -/
def Admits (f : Front β γ) (e : FrontEvent γ) : Prop :=
  match e with
  | .connect conn _ => f.process.life = .up ∧ conn ≠ reaper ∧ (f.lines conn).isNone
  | .read conn | .lose conn _ =>
      f.process.life = .up ∧ ∃ line ∈ f.lines conn, line.isReading
  | .write conn _ => f.process.life = .up ∧ ∃ line ∈ f.lines conn, line.isWriting
  | .reap _ | .turn _ _ | .stop | .start _ => True

instance (f : Front β γ) (e : FrontEvent γ) : Decidable (f.Admits e) :=
  match e with
  | .connect conn _ =>
      inferInstanceAs (Decidable (f.process.life = .up ∧ conn ≠ reaper ∧ (f.lines conn).isNone))
  | .read conn | .lose conn _ =>
      inferInstanceAs (Decidable (f.process.life = .up ∧ ∃ line ∈ f.lines conn, line.isReading))
  | .write conn _ =>
      inferInstanceAs (Decidable (f.process.life = .up ∧ ∃ line ∈ f.lines conn, line.isWriting))
  | .reap _ | .turn _ _ | .stop | .start _ => inferInstanceAs (Decidable True)

end Front

/-- The connections of a service whose engines run as `N` admits. -/
def front {β γ : Type} [Backend β] [Journal γ] (N : Machine (System β γ) (Event γ) Reply) :
    Machine (Front β γ) (FrontEvent γ) (Option (Turn γ × Note γ)) where
  step := Front.step
  guard f e := f.Admits e ∧ ∀ tn ∈ (f.step e).1, (concurrent N).guard f.process tn.1

instance {β γ : Type} [Backend β] [Journal γ] (N : Machine (System β γ) (Event γ) Reply)
    [∀ s e, Decidable (N.guard s e)] (f : Front β γ) (e : FrontEvent γ) :
    Decidable ((front N).guard f e) :=
  inferInstanceAs (Decidable (f.Admits e ∧ ∀ tn ∈ (f.step e).1, (concurrent N).guard f.process tn.1))

section Projection

variable {β γ : Type} [Backend β] [Journal γ] {N : Machine (System β γ) (Event γ) Reply}
  {f f' : Front β γ} {conn : Nat}

/-- A read that makes no call. -/
theorem Front.step_read_none
    (h : (f.lines conn).bind (fun line => line.read.2) = none) :
    f.step (.read conn) = (none, f.onLine conn (fun line => line.read.1)) := by
  simp only [step, h]

/-- A read of a request that makes a call. -/
theorem Front.step_read_some
    {call : Call}
    (h : (f.lines conn).bind (fun line => line.read.2) = some call) :
    f.step (.read conn) =
      (f.onLine conn (fun line => line.read.1)).take (.call conn call) (fun _ => id) := by
  simp only [step, h]

/-- The service sees the events that concern it, and no others. -/
theorem Front.step_process
    (e : FrontEvent γ) (f : Front β γ) :
    ((f.step e).1 = none ∧ (f.step e).2.process = f.process) ∨
    ∃ turn,
      (f.step e).1 = some (turn, (f.process.step turn).1) ∧
      (f.step e).2.process = (f.process.step turn).2 := by
  cases e with
  | connect | lose | write => exact .inl ⟨rfl, rfl⟩
  | reap | turn | stop | start => exact .inr ⟨_, rfl, rfl⟩
  | read conn =>
      cases hcall : (f.lines conn).bind (fun line => line.read.2) with
      | none =>
          rw [step_read_none hcall]
          exact .inl ⟨rfl, rfl⟩
      | some call =>
          rw [step_read_some hcall]
          exact .inr ⟨_, rfl, rfl⟩

/-- A run with connections is one of the service. -/
theorem front_project
    {es : List (FrontEvent γ × Option (Turn γ × Note γ))}
    (hrun : (front N).Run f es f') :
    (concurrent N).Run f.process (es.filterMap Prod.snd) f'.process := by
  obtain ⟨p, hp, rfl⟩ := @Machine.Run.project _ _ _ _ _ _ (front N) (concurrent N)
    (fun g p => p = g.process) Prod.snd
    (by
      rintro g _ e rfl _ hnone
      rcases Front.step_process e g with ⟨_, hsame⟩ | ⟨turn, hsome, _⟩
      · exact hsame.symm
      · exact absurd (hsome.symm.trans hnone) (Option.some_ne_none _))
    (by
      rintro g _ e turn note rfl hguard hview
      rcases Front.step_process e g with ⟨hnone, _⟩ | ⟨turn', hsome, hprocess⟩
      · exact absurd (hview.symm.trans hnone) (Option.some_ne_none _)
      · cases hview.symm.trans hsome
        exact ⟨hguard.2 _ hview, rfl, hprocess.symm⟩)
    _ _ _ _ hrun rfl
  exact hp

end Projection

section OneLine

variable {γ : Type}

/-- The answer of an event to one connection, with its call. -/
def answerTo (conn : Nat) (r : Option (Turn γ × Note γ)) : Option (Call × Answer) :=
  r.bind fun tn => tn.2.answer.bind fun answer =>
    if answer.1 = conn then some answer.2 else none

/-- The calls of a connection that have ended in a run. -/
def answersOf (conn : Nat) (es : List (FrontEvent γ × Option (Turn γ × Note γ))) :
    List (Call × Answer) :=
  es.filterMap (fun er => answerTo conn er.2)

/-- What an event is for one connection and for its call in progress. -/
inductive LineStep (conn : Nat) :
    FrontEvent γ → Option (Call × Answer) →
      Option Line × Option Stage → Option Line × Option Stage → Prop
  | idle {e line place} : LineStep conn e none (line, place) (line, place)
  | accept {place} (input : Bytes) :
      LineStep conn (.connect conn input) none (none, place) (some (.accepted input), place)
  | reads {e place} (line : Line) : line.isReading = true → line.read.2 = none →
      LineStep conn e none (some line, place) (some line.read.1, place)
  | calls {e place} (line : Line) (call : Call) : line.isReading = true →
      line.read.2 = some call →
      LineStep conn e none (some line, place) (some line.read.1, some (.entered call))
  | loses {e place} (line : Line) (err : GoError) : line.isReading = true →
      LineStep conn e none (some line, place) (some (line.lose err), place)
  | writes {e place} (line : Line) (delivered : Bool) : line.isWriting = true →
      LineStep conn e none (some line, place) (some (line.write delivered), place)
  | goes_on {e line} {place : Option Stage} (stage : Stage) :
      (∀ stage' ∈ place, stage'.call = stage.call) →
      LineStep conn e none (line, some stage) (line, place)
  | answered {e line} (stage : Stage) (a : Answer) : stage.call.Yields a →
      LineStep conn e (some (stage.call, a)) (line, some stage) (line.map (Line.answer a), none)
  | closes {e line place} :
      LineStep conn e none (line, place) (line.map Line.close, none)

end OneLine

namespace Front

variable {β γ : Type} {f : Front β γ} {conn : Nat}

/-- One connection, and the place of its call. -/
def place (conn : Nat) (f : Front β γ) : Option Line × Option Stage :=
  (f.lines conn, f.process.calls.lookup conn)

@[simp] theorem onLine_self
    (change : Line → Line) :
    (f.onLine conn change).lines conn = (f.lines conn).map change :=
  Function.update_self ..

theorem onLine_of_ne
    {c : Nat} (change : Line → Line)
    (h : conn ≠ c) :
    (f.onLine c change).lines conn = f.lines conn :=
  Function.update_of_ne h ..

/-- A change of another connection. -/
theorem onLine_idle
    {c : Nat} {e : FrontEvent γ} (change : Line → Line)
    (h : conn ≠ c) :
    LineStep conn e none (f.place conn) ((f.onLine c change).place conn) := by
  have hsame : (f.onLine c change).place conn = f.place conn :=
    Prod.ext (onLine_of_ne change h) rfl
  rw [hsame]
  exact .idle

variable [Backend β] [Journal γ]

/-- A call of another caller. -/
theorem call_other
    {p : Process β γ} {c : Nat} {call : Call}
    (h : conn ≠ c) :
    (p.step (.call c call)).2.calls.lookup conn = p.calls.lookup conn :=
  (Map.lookup_insert_ite _ _ _ _).trans (if_neg h)

theorem read_line
    {c : Nat}
    (hguard : f.Admits (.read c)) :
    LineStep conn (.read c : FrontEvent γ) (answerTo conn (f.step (.read c)).1) (f.place conn)
      ((f.step (.read c)).2.place conn) := by
  obtain ⟨_, line, (hline : f.lines c = some line), hreading⟩ := hguard
  cases hcall : line.read.2 with
  | none =>
      rw [step_read_none (by rw [hline]; exact hcall)]
      by_cases hc : conn = c
      · subst hc
        change LineStep conn _ none _ ((f.onLine conn _).lines conn, _)
        rw [onLine_self, place, hline]
        exact .reads line hreading hcall
      · exact onLine_idle _ hc
  | some call =>
      rw [step_read_some (by rw [hline]; exact hcall)]
      change LineStep conn _ none _ ((f.onLine c _).lines conn,
        (f.process.step (.call c call)).2.calls.lookup conn)
      by_cases hc : conn = c
      · subst hc
        have hplace : (f.process.step (.call conn call)).2.calls.lookup conn =
            some (.entered call) :=
          AList.lookup_insert _
        rw [hplace, onLine_self, place, hline]
        exact .calls line call hreading hcall
      · rw [onLine_of_ne _ hc, call_other hc]
        exact .idle

omit [Backend β] [Journal γ] in
/-- A connection hears nothing of an answer to another one. -/
theorem hear_of_unanswered
    {note : Note γ} {lines : Nat → Option Line}
    (h : ∀ call a, note.answer ≠ some (conn, call, a)) :
    hear note lines conn = lines conn := by
  rw [hear]
  cases hanswer : note.answer with
  | none => rfl
  | some answer =>
      obtain ⟨c, call, a⟩ := answer
      refine Function.update_of_ne ?_ ..
      rintro rfl
      exact h call a hanswer

omit [Backend β] [Journal γ] in
theorem answerTo_of_unanswered
    {turn : Turn γ} {note : Note γ}
    (h : ∀ call a, note.answer ≠ some (conn, call, a)) :
    answerTo conn (some (turn, note)) = none := by
  cases hanswer : note.answer with
  | none => simp [answerTo, hanswer]
  | some answer =>
      obtain ⟨c, call, a⟩ := answer
      have hc : c ≠ conn := by
        rintro rfl
        exact h call a hanswer
      simp [answerTo, hanswer, hc]

theorem turn_answer
    {c : Nat} {env : TurnEnv γ} :
    answerTo conn (f.step (.turn c env)).1 =
      answerTo conn (some (Turn.turn c env, (f.process.step (.turn c env)).1)) :=
  rfl

theorem turn_place
    {c : Nat} {env : TurnEnv γ} :
    (f.step (.turn c env)).2.place conn =
      (hear (f.process.step (.turn c env)).1 f.lines conn,
        (f.process.step (.turn c env)).2.calls.lookup conn) :=
  rfl

/-- A section of another caller. -/
theorem turn_line_other
    {c : Nat} {env : TurnEnv γ}
    (hc : conn ≠ c) :
    LineStep conn (.turn c env) (answerTo conn (f.step (.turn c env)).1) (f.place conn)
      ((f.step (.turn c env)).2.place conn) := by
  obtain ⟨hplace, hunanswered⟩ := @Process.step_other β γ f.process conn _ _ (.turn c env)
    (by rintro _ ⟨⟩; exact hc rfl) (by rintro _ ⟨⟩)
  have hsame : (f.process.step (.turn c env)).2.calls.lookup conn =
      f.process.calls.lookup conn := by
    rcases hplace with hsame | ⟨_, hends⟩
    · exact hsame
    · rcases hends with hends | ⟨_, hends⟩ <;> cases hends
  rw [turn_place, turn_answer, answerTo_of_unanswered hunanswered,
    hear_of_unanswered hunanswered, hsame]
  exact .idle

/-- A section of the call that the connection has made. -/
theorem turn_line_own
    {env : TurnEnv γ} {stage : Stage}
    (hstage : f.process.calls.lookup conn = some stage) :
    LineStep conn (.turn conn env) (answerTo conn (f.step (.turn conn env)).1) (f.place conn)
      ((f.step (.turn conn env)).2.place conn) := by
  rw [turn_place, turn_answer, Process.step_turn hstage, place, hstage]
  have hunanswered : (f.process.advance conn env stage).1.answer = none →
      ∀ call a, (f.process.advance conn env stage).1.answer ≠ some (conn, call, a) := by
    intro hnone call a h
    exact absurd (hnone.symm.trans h) (Option.some_ne_none _).symm
  rcases @Process.advance_continues β γ f.process conn _ _ env stage with
    ⟨a, hanswer, hyields, hended⟩ | ⟨hnone, later, hlater, hcall⟩ | ⟨hnone, hended, _⟩
  · have hto : answerTo conn (some (Turn.turn conn env, (f.process.advance conn env stage).1)) =
        some (stage.call, a) := by
      simp [answerTo, hanswer]
    have hhears : hear (f.process.advance conn env stage).1 f.lines conn =
        (f.lines conn).map (Line.answer a) := by
      rw [hear, hanswer]
      exact Function.update_self ..
    rw [hto, hhears, hended]
    exact .answered stage a hyields
  · rw [answerTo_of_unanswered (hunanswered hnone), hear_of_unanswered (hunanswered hnone), hlater]
    refine .goes_on stage ?_
    rintro _ ⟨⟩
    exact hcall
  · rw [answerTo_of_unanswered (hunanswered hnone), hear_of_unanswered (hunanswered hnone), hended]
    refine .goes_on stage ?_
    rintro _ ⟨⟩

theorem turn_line
    {c : Nat} {env : TurnEnv γ} :
    LineStep conn (.turn c env) (answerTo conn (f.step (.turn c env)).1) (f.place conn)
      ((f.step (.turn c env)).2.place conn) := by
  by_cases hc : conn = c
  · subst hc
    cases hstage : f.process.calls.lookup conn with
    | none =>
        rw [turn_place, turn_answer, Process.step_turn_none hstage]
        exact .idle
    | some stage => exact turn_line_own hstage
  · exact turn_line_other hc

/-- What an admitted event is for one connection. -/
theorem step_line
    {e : FrontEvent γ}
    (hconn : conn ≠ reaper)
    (hguard : f.Admits e) :
    LineStep conn e (answerTo conn (f.step e).1) (f.place conn) ((f.step e).2.place conn) := by
  cases e with
  | read c => exact read_line hguard
  | turn c env => exact turn_line
  | stop | start => exact .closes
  | reap now =>
      change LineStep conn _ none _ (f.lines conn,
        (f.process.step (.call reaper (.reap now))).2.calls.lookup conn)
      rw [call_other hconn]
      exact .idle
  | connect c input =>
      obtain ⟨_, _, hnone⟩ := hguard
      change LineStep conn _ none _ (Function.update f.lines c _ conn, _)
      by_cases hc : conn = c
      · subst hc
        rw [Function.update_self, place, Option.isNone_iff_eq_none.mp hnone]
        exact .accept input
      · rw [Function.update_of_ne hc]
        exact .idle
  | lose c err =>
      obtain ⟨_, line, hline, hreading⟩ := hguard
      by_cases hc : conn = c
      · subst hc
        change LineStep conn _ none _ ((f.onLine conn _).lines conn, _)
        rw [onLine_self, place, show f.lines conn = some line from hline]
        exact .loses line err hreading
      · exact onLine_idle _ hc
  | write c delivered =>
      obtain ⟨_, line, hline, hwriting⟩ := hguard
      by_cases hc : conn = c
      · subst hc
        change LineStep conn _ none _ ((f.onLine conn _).lines conn, _)
        rw [onLine_self, place, show f.lines conn = some line from hline]
        exact .writes line delivered hwriting
      · exact onLine_idle _ hc

end Front

end Moxy
