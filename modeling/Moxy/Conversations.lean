import Moxy.Connections
import Mathlib.Data.List.Infix

/-!
# Moxy: conversations

A client writes requests without waiting for replies and tells the replies apart by
their order only.  `Conversation` says what it may rely on: the replies belong to the
requests one by one, and each call that a request made has given the answer that its
reply shows.

In every run the connections hold such conversations (`connection_conversation`), no
matter which calls of others come in between.  The handler of a connection takes one
request at a time, and an answer goes to the handler that made the call.
-/

namespace Moxy

open Lib Lib.CrashM

section Conversation

/--
Requests and the replies to them, in order.  A request is answered at once, or with the
answer to the call that it is dispatched to; the calls are listed with their answers.
-/
inductive Conversation : List Value → List (Call × Answer) → List Value → Prop
  | start : Conversation [] [] []
  | direct {requests replies : List Value} {answers : List (Call × Answer)} (request value : Value) :
      Conversation requests answers replies → dispatch request = .reply value →
      Conversation (requests ++ [request]) answers (replies ++ [value])
  | called {requests replies : List Value} {answers : List (Call × Answer)} (request : Value)
      (name : GoString) (call : Call) (a : Answer) :
      Conversation requests answers replies → dispatch request = .call name call →
      call.Yields a →
      Conversation (requests ++ [request]) (answers ++ [(call, a)])
        (replies ++ [answerReply name a])

theorem Conversation.length_eq
    {requests replies : List Value} {answers : List (Call × Answer)}
    (h : Conversation requests answers replies) :
    requests.length = replies.length := by
  induction h with
  | start => rfl
  | direct request value _ _ ih => simp [ih]
  | called request name call a _ _ _ ih => simp [ih]

end Conversation

namespace Line

variable {line : Line} {input : Bytes} {answers : List (Call × Answer)} {place : Option Stage}

/-- How far the conversation of a connection has come. -/
structure Spoken (answers : List (Call × Answer)) (line : Line) (answered heard : List Value) :
    Prop where
  conversation : Conversation answered answers heard
  requests : answered <+: line.requests
  replies : line.replies <+: heard
  pending : line.requests.length ≤ line.replies.length + 1
  farewell : ∀ v ∈ line.farewell,
    answered = line.requests ∧ heard = line.replies ∧ ∃ err, v = errorReply err

/-- The conversation at each place of the handler. -/
def Speaks (answers : List (Call × Answer)) (place : Option Stage) (line : Line) : Prop :=
  match line.handler with
  | .reading =>
      place = none ∧ line.farewell = none ∧
        Conversation line.requests answers line.replies
  | .calling name =>
      line.farewell = none ∧
        ∃ earlier request call,
          line.requests = earlier ++ [request] ∧
          dispatch request = .call name call ∧
          (∀ stage ∈ place, stage.call = call) ∧
          Conversation earlier answers line.replies
  | .writing reply =>
      place = none ∧ line.farewell = none ∧
        Conversation line.requests answers (line.replies ++ [reply])
  | .failing reply =>
      place = none ∧ line.farewell = none ∧
        Conversation line.requests answers line.replies ∧ ∃ err, reply = errorReply err
  | .closed => place = none ∧ ∃ answered heard, line.Spoken answers answered heard

/-- What was read and what is left are the input, and what was said is in order. -/
structure Talks (input : Bytes) (answers : List (Call × Answer)) (place : Option Stage)
    (line : Line) : Prop where
  stream : line.requests ++ (readAll line.input).1 = (readAll input).1
  speaks : line.Speaks answers place

/-- All requests are answered, and all replies written. -/
theorem spoken_of_all
    (h : Conversation line.requests answers line.replies)
    (hfarewell : line.farewell = none) :
    line.Spoken answers line.requests line.replies where
  conversation := h
  requests := List.prefix_refl _
  replies := List.prefix_refl _
  pending := Nat.le_succ_of_le (Nat.le_of_eq h.length_eq)
  farewell v hv := by
    rw [hfarewell] at hv
    cases hv

/-- All requests are answered, and the last reply is not written. -/
theorem spoken_of_unwritten
    {reply : Value}
    (h : Conversation line.requests answers (line.replies ++ [reply]))
    (hfarewell : line.farewell = none) :
    line.Spoken answers line.requests (line.replies ++ [reply]) where
  conversation := h
  requests := List.prefix_refl _
  replies := List.prefix_append _ _
  pending := by
    rw [h.length_eq, List.length_append]
    exact Nat.le_refl _
  farewell v hv := by
    rw [hfarewell] at hv
    cases hv

/-- The last request has no answer. -/
theorem spoken_of_unanswered
    {earlier : List Value} {request : Value}
    (h : Conversation earlier answers line.replies)
    (hrequests : line.requests = earlier ++ [request])
    (hfarewell : line.farewell = none) :
    line.Spoken answers earlier line.replies where
  conversation := h
  requests := hrequests ▸ List.prefix_append _ _
  replies := List.prefix_refl _
  pending := by
    rw [hrequests, List.length_append, h.length_eq]
    exact Nat.le_refl _
  farewell v hv := by
    rw [hfarewell] at hv
    cases hv

theorem Speaks.of_reading
    (h : line.Speaks answers place)
    (hreading : line.isReading = true) :
    place = none ∧ line.farewell = none ∧
      Conversation line.requests answers line.replies := by
  obtain ⟨input, handler, requests, replies, farewell⟩ := line
  cases handler with
  | reading => exact h
  | calling | writing | failing | closed => cases hreading

theorem Speaks.spoken
    (h : line.Speaks answers place) :
    ∃ answered heard, line.Spoken answers answered heard := by
  obtain ⟨input, handler, requests, replies, farewell⟩ := line
  cases handler with
  | reading =>
      obtain ⟨_, hfarewell, hconversation⟩ := h
      exact ⟨_, _, spoken_of_all hconversation hfarewell⟩
  | calling name =>
      obtain ⟨hfarewell, earlier, request, call, hrequests, _, _, hconversation⟩ := h
      exact ⟨_, _, spoken_of_unanswered hconversation hrequests hfarewell⟩
  | writing reply =>
      obtain ⟨_, hfarewell, hconversation⟩ := h
      exact ⟨_, _, spoken_of_unwritten hconversation hfarewell⟩
  | failing reply =>
      obtain ⟨_, hfarewell, hconversation, _⟩ := h
      exact ⟨_, _, spoken_of_all hconversation hfarewell⟩
  | closed => exact h.2

theorem Talks.close
    (h : line.Talks input answers place) :
    line.close.Talks input answers none := by
  obtain ⟨answered, heard, hspoken⟩ := h.speaks.spoken
  exact ⟨h.stream, rfl, answered, heard, hspoken.1, hspoken.2, hspoken.3, hspoken.4, hspoken.5⟩

theorem Talks.lose
    (h : line.Talks input answers place)
    (hreading : line.isReading = true)
    (err : GoError) :
    (line.lose err).Talks input answers place := by
  obtain ⟨hplace, hfarewell, hconversation⟩ := h.speaks.of_reading hreading
  exact ⟨h.stream, hplace, hfarewell, hconversation, err, rfl⟩

/-- A read that makes no call. -/
theorem Talks.read
    (h : line.Talks input answers place)
    (hreading : line.isReading = true)
    (hcall : line.read.2 = none) :
    line.read.1.Talks input answers place := by
  obtain ⟨hplace, hfarewell, hconversation⟩ := h.speaks.of_reading hreading
  unfold Line.read at hcall ⊢
  cases hread : readNext line.input with
  | error e =>
      cases e with
      | eof => exact ⟨h.stream, hplace, _, _, spoken_of_all hconversation hfarewell⟩
      | fails err => exact ⟨h.stream, hplace, hfarewell, hconversation, err, rfl⟩
  | ok result =>
      obtain ⟨request, rest⟩ := result
      rw [hread] at hcall
      dsimp only at hcall ⊢
      cases hdispatch : dispatch request with
      | call name call =>
          rw [hdispatch] at hcall
          cases hcall
      | reply value =>
          refine ⟨?_, hplace, hfarewell, hconversation.direct request value hdispatch⟩
          have hstream := h.stream
          rw [readAll_of_readNext hread] at hstream
          rw [← hstream]
          exact List.append_assoc _ _ _

/-- A read of a request that makes a call. -/
theorem Talks.call
    {call : Call}
    (h : line.Talks input answers place)
    (hreading : line.isReading = true)
    (hcall : line.read.2 = some call) :
    line.read.1.Talks input answers (some (.entered call)) := by
  obtain ⟨_, hfarewell, hconversation⟩ := h.speaks.of_reading hreading
  unfold Line.read at hcall ⊢
  cases hread : readNext line.input with
  | error e =>
      rw [hread] at hcall
      cases e <;> cases hcall
  | ok result =>
      obtain ⟨request, rest⟩ := result
      rw [hread] at hcall
      dsimp only at hcall ⊢
      cases hdispatch : dispatch request with
      | reply value =>
          rw [hdispatch] at hcall
          cases hcall
      | call name call' =>
          rw [hdispatch] at hcall
          cases hcall
          refine ⟨?_, hfarewell, _, request, call, rfl, hdispatch, ?_, hconversation⟩
          · have hstream := h.stream
            rw [readAll_of_readNext hread] at hstream
            rw [← hstream]
            exact List.append_assoc _ _ _
          · rintro _ ⟨⟩
            rfl

theorem Talks.write
    (h : line.Talks input answers place)
    (hwriting : line.isWriting = true)
    (delivered : Bool) :
    (line.write delivered).Talks input answers place := by
  obtain ⟨hstream, hspeaks⟩ := h
  obtain ⟨rest, handler, requests, replies, farewell⟩ := line
  cases handler with
  | reading | calling | closed => cases hwriting
  | writing reply =>
      obtain ⟨hplace, hfarewell, hconversation⟩ := hspeaks
      cases delivered with
      | true => exact ⟨hstream, hplace, hfarewell, hconversation⟩
      | false => exact ⟨hstream, hplace, _, _, spoken_of_unwritten hconversation hfarewell⟩
  | failing reply =>
      obtain ⟨hplace, hfarewell, hconversation, err, rfl⟩ := hspeaks
      refine ⟨hstream, hplace, requests, replies, hconversation, List.prefix_refl _,
        List.prefix_refl _, Nat.le_succ_of_le (Nat.le_of_eq hconversation.length_eq), ?_⟩
      intro v hv
      refine ⟨rfl, rfl, err, ?_⟩
      cases delivered with
      | true => exact (Option.some.inj hv).symm
      | false => cases hv

/-- A call in progress belongs to the last request. -/
theorem Speaks.calling
    {stage : Stage}
    (h : line.Speaks answers (some stage)) :
    ∃ name earlier request,
      line.handler = .calling name ∧
      line.farewell = none ∧
      line.requests = earlier ++ [request] ∧
      dispatch request = .call name stage.call ∧
      Conversation earlier answers line.replies := by
  obtain ⟨rest, handler, requests, replies, farewell⟩ := line
  cases handler with
  | calling name =>
      obtain ⟨hfarewell, earlier, request, call, hrequests, hdispatch, hcall, hconversation⟩ := h
      rw [← hcall stage rfl] at hdispatch
      exact ⟨name, earlier, request, rfl, hfarewell, hrequests, hdispatch, hconversation⟩
  | reading | writing | failing | closed => cases h.1

theorem Talks.goes_on
    {stage : Stage}
    (h : line.Talks input answers (some stage))
    (hgoes : ∀ stage' ∈ place, stage'.call = stage.call) :
    line.Talks input answers place := by
  obtain ⟨name, earlier, request, hhandler, hfarewell, hrequests, hdispatch, hconversation⟩ :=
    h.speaks.calling
  refine ⟨h.stream, ?_⟩
  unfold Speaks
  rw [hhandler]
  exact ⟨hfarewell, earlier, request, stage.call, hrequests, hdispatch, hgoes, hconversation⟩

theorem Talks.answer
    {stage : Stage}
    (h : line.Talks input answers (some stage))
    {a : Answer}
    (ha : stage.call.Yields a) :
    (line.answer a).Talks input (answers ++ [(stage.call, a)]) none := by
  obtain ⟨name, earlier, request, hhandler, hfarewell, hrequests, hdispatch, hconversation⟩ :=
    h.speaks.calling
  unfold Line.answer
  rw [hhandler]
  refine ⟨h.stream, rfl, hfarewell, ?_⟩
  rw [hrequests]
  exact hconversation.called request name stage.call a hdispatch ha

end Line

/-- A connection talks in order; before it is accepted, it says nothing. -/
def Talking (known : Bytes → Prop) (answers : List (Call × Answer)) :
    Option Line × Option Stage → Prop
  | (none, place) => place = none ∧ answers = []
  | (some line, place) => ∃ input, known input ∧ line.Talks input answers place

/-- What an event does to a conversation. -/
theorem LineStep.talking
    {γ : Type} {conn : Nat} {e : FrontEvent γ} {answer : Option (Call × Answer)}
    {s s' : Option Line × Option Stage} {known known' : Bytes → Prop}
    {answers : List (Call × Answer)}
    (hstep : LineStep conn e answer s s')
    (h : Talking known answers s)
    (hknown : ∀ input, known input → known' input)
    (hconnect : ∀ input, e = .connect conn input → known' input) :
    Talking known' (answers ++ answer.toList) s' := by
  cases hstep with
  | @idle _ line place =>
      rw [Option.toList_none, List.append_nil]
      cases line with
      | none => exact h
      | some line =>
          obtain ⟨input, hinput, h⟩ := h
          exact ⟨input, hknown input hinput, h⟩
  | accept input =>
      obtain ⟨rfl, rfl⟩ := h
      exact ⟨input, hconnect input rfl, rfl, rfl, rfl, .start⟩
  | reads line hreading hcall =>
      rw [Option.toList_none, List.append_nil]
      obtain ⟨input, hinput, h⟩ := h
      exact ⟨input, hknown input hinput, h.read hreading hcall⟩
  | calls line call hreading hcall =>
      rw [Option.toList_none, List.append_nil]
      obtain ⟨input, hinput, h⟩ := h
      exact ⟨input, hknown input hinput, h.call hreading hcall⟩
  | loses line err hreading =>
      rw [Option.toList_none, List.append_nil]
      obtain ⟨input, hinput, h⟩ := h
      exact ⟨input, hknown input hinput, h.lose hreading err⟩
  | writes line delivered hwriting =>
      rw [Option.toList_none, List.append_nil]
      obtain ⟨input, hinput, h⟩ := h
      exact ⟨input, hknown input hinput, h.write hwriting delivered⟩
  | @goes_on _ line _ stage hgoes =>
      rw [Option.toList_none, List.append_nil]
      cases line with
      | none => cases h.1
      | some line =>
          obtain ⟨input, hinput, h⟩ := h
          exact ⟨input, hknown input hinput, h.goes_on hgoes⟩
  | @answered _ line stage a hyields =>
      cases line with
      | none => cases h.1
      | some line =>
          obtain ⟨input, hinput, h⟩ := h
          exact ⟨input, hknown input hinput, h.answer hyields⟩
  | @closes _ line _ =>
      rw [Option.toList_none, List.append_nil]
      cases line with
      | none => exact ⟨rfl, h.2⟩
      | some line =>
          obtain ⟨input, hinput, h⟩ := h
          exact ⟨input, hknown input hinput, h.close⟩

section Results

variable {β γ : Type} [Backend β] [Journal γ] {N : Machine (System β γ) (Event γ) Reply}
  {p : Process β γ} {f : Front β γ} {conn : Nat}
  {es : List (FrontEvent γ × Option (Turn γ × Note γ))}

/-- In every run, a connection talks in order. -/
theorem front_talking
    (hcalls : p.calls = ∅)
    (hconn : conn ≠ reaper)
    (hrun : (front N).Run (.cold p) es f) :
    Talking (fun input => FrontEvent.connect conn input ∈ es.map Prod.fst) (answersOf conn es)
      (f.place conn) := by
  induction hrun with
  | refl =>
      have hnone : (Front.cold p).process.calls.lookup conn = none := by
        rw [show (Front.cold p).process.calls = ∅ from hcalls]
        rfl
      exact ⟨hnone, rfl⟩
  | @next g es e hrun hguard ih =>
      have hstep := Front.step_line hconn hguard.1
      have hanswers : answersOf conn (es ++ [(e, (g.step e).1)]) =
          answersOf conn es ++ (answerTo conn (g.step e).1).toList := by
        rw [answersOf, List.filterMap_append, List.filterMap_cons, List.filterMap_nil]
        cases answerTo conn (g.step e).1 <;> rfl
      change Talking _ (answersOf conn (es ++ [(e, (g.step e).1)])) _
      rw [hanswers]
      refine hstep.talking ih ?_ ?_
      · intro input hinput
        rw [List.map_append]
        exact List.mem_append_left _ hinput
      · rintro input rfl
        rw [List.map_append]
        exact List.mem_append_right _ List.mem_cons_self

/--
Conversations do not mix.  In every run of a service with connections, whatever calls
of others come in between and wherever the process stops, each connection has read
the values of its own input in order.  It has written the replies to these requests in
order, each with the answer of the one call that the request made, and it made no
other calls.  At most one request is open: its call may still run, its reply may wait
to be written or be lost with the connection.  An error reply that ends a connection
comes after all others.  The calls of all connections together, with those of the
reaper, are an interleaving that the service admits.
-/
theorem connection_conversation
    (hcalls : p.calls = ∅)
    (hconn : conn ≠ reaper)
    (hrun : (front N).Run (.cold p) es f)
    {line : Line}
    (hline : f.lines conn = some line) :
    (concurrent N).Run p (es.filterMap Prod.snd) f.process ∧
    (∃ input,
      FrontEvent.connect conn input ∈ es.map Prod.fst ∧
      line.requests ++ (readAll line.input).1 = (readAll input).1) ∧
    (∃ answered heard, line.Spoken (answersOf conn es) answered heard) ∧
    (line.isReading = true → Conversation line.requests (answersOf conn es) line.replies) := by
  have htalking := front_talking hcalls hconn hrun
  rw [Front.place, hline] at htalking
  obtain ⟨input, hinput, htalks⟩ := htalking
  exact ⟨front_project hrun, ⟨input, hinput, htalks.stream⟩, htalks.speaks.spoken,
    fun hreading => (htalks.speaks.of_reading hreading).2.2⟩

/-- The bytes of a command. -/
def commandBytes (parts : List String) : Bytes :=
  writeValue (.array (parts.map (fun part => .bulkString (goString part))))

/-- A client asks for a sign of life and enqueues a task, while another one fetches. -/
def twoClients : List (FrontEvent LeaseLog) :=
  [.start ⟨3, 0, [], true, 0⟩,
    .connect 1 (commandBytes ["ping"] ++ commandBytes ["moxy.enqueue", "a", "p"]),
    .connect 2 (commandBytes ["moxy.fetch", "a", "5"]),
    .read 1, .read 2, .write 1 true,
    .turn 2 (turnWith []), .read 1, .turn 1 (turnWith []), .turn 1 (turnWith (goString "t")),
    .turn 2 (turnWith (goString "L")), .write 2 true, .write 1 true]

/-- The first client has the replies to its two requests. -/
theorem connection_conversation_two :
    ∃ line,
      ((front durable).final (.cold reliable) twoClients).lines 1 = some line ∧
      line.output = goString "+PONG\r\n*2\r\n$7\r\ntask_id\r\n$1\r\nt\r\n" ∧
      Conversation line.requests
        (answersOf 1 ((front durable).trace (.cold reliable) twoClients)) line.replies := by
  have hadmits : (front durable).Admits (.cold reliable) twoClients := by decide +kernel
  have houtput : (((front durable).final (.cold reliable) twoClients).lines 1).map
      (fun line => (line.isReading, line.output)) =
      some (true, goString "+PONG\r\n*2\r\n$7\r\ntask_id\r\n$1\r\nt\r\n") := by
    decide +kernel
  obtain ⟨line, hline, houtput⟩ := Option.map_eq_some_iff.mp houtput
  obtain ⟨hreading, houtput⟩ := Prod.ext_iff.mp houtput
  exact ⟨line, hline, houtput, (connection_conversation rfl (by decide)
    (Machine.run_of_admits _ _ hadmits) hline).2.2.2 hreading⟩

end Results

end Moxy
