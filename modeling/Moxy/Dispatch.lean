import Moxy.ConcurrentAlone
import Moxy.RespServer

/-!
# Moxy: from requests to calls

The handler of a connection turns a request into a command and checks its arguments.
What passes is one call of the service, and the answer to the call becomes the reply.
`dispatch` is the part before the call, and `answerReply` the part behind it.

Between the two, other connections may use the service.  If none does, the parts make
up the sequential `handle`: a request that needs no call has its reply at once
(`wp_handle_of_reply`), and any other ends like its call (`wp_handle_of_call`).
-/

namespace Moxy

open Lib Lib.CrashM

/-- What the handler of a connection does with a request. -/
inductive Dispatch where
  | reply (value : Value)
  | call (name : GoString) (call : Call)

def enqueueCall : List GoString → Except GoError Call
  | [queueName, payload] => .ok (.enqueue queueName payload)
  | _ => .error (.sentinel .errInvalidArguments)

def fetchCall : List GoString → Except GoError Call
  | [queueName, timeout] =>
      match parseInt64 timeout with
      | none => .error (.sentinel .errCommandTimeout)
      | some timeoutMS =>
          if timeoutMS < 1 ∨ maxLeaseTimeoutMS < timeoutMS then
            .error (.sentinel .errCommandTimeout)
          else .ok (.fetch queueName (timeoutMS * 1000000))
  | _ => .error (.sentinel .errInvalidArguments)

def ackCall : List GoString → Except GoError Call
  | [leaseID] => .ok (.ack leaseID)
  | _ => .error (.sentinel .errInvalidArguments)

def statsCall : List GoString → Except GoError Call
  | [queueName] => .ok (.stats queueName)
  | _ => .error (.sentinel .errInvalidArguments)

/-- The call of the service that a valid command makes. -/
def callOf (command : Command) : Except GoError Call :=
  let name := toUpper command.name
  if name = enqueueName then enqueueCall command.args
  else if name = fetchName then fetchCall command.args
  else if name = ackName then ackCall command.args
  else if name = statsName then statsCall command.args
  else .error (.sentinel .errUnknownCommand)

/-- The reply to a command that failed. -/
def failureReply (err : GoError) : Value :=
  if err.is .errQueueEmpty then .nullBulkString else errorReply err

/-- The result of a command whose call succeeded. -/
def Answer.response : Answer → Response
  | .reply (.enqueued task) => { Response.done with taskID := task.id }
  | .reply (.fetched lease) =>
      { Response.done with
        taskID := lease.task.id
        leaseID := lease.leaseID
        payload := lease.task.payload
        expiresAt := lease.expiresAt }
  | .reply _ => Response.done
  | .stats counts => { Response.done with stats := counts.getD Stats.zero }

/-- The reply to a command whose call has ended. -/
def answerReply (name : GoString) (a : Answer) : Value :=
  match a with
  | .reply (.failed err) => failureReply err
  | a => responseToRESP name a.response

/-- `Adapter.Handle` up to the call of the service. -/
def dispatch (request : Value) : Dispatch :=
  match commandFromRESP request with
  | .error err => .reply (errorReply err)
  | .ok command =>
      if command.name = pingName then .reply (.simpleString (goString "PONG"))
      else
        match callOf command with
        | .error err => .reply (failureReply err)
        | .ok call => .call command.name call

section Sequential

variable {β γ : Type} [Backend β] [Journal γ]

/-- The surroundings of a request, for the sections of its call. -/
def RequestEnv.turn (env : RequestEnv γ) : TurnEnv γ :=
  ⟨env.newID, env.now, env.opening, env.order⟩

/-- The result of the call of a command, if it makes one. -/
def Service.runCall (env : RequestEnv γ) : Except GoError Call → ServiceM β γ Response
  | .error err => fail err
  | .ok call => do
      let a ← Service.perform env.turn call
      pure a.response

/-- Two functions of what a program returns, one after the other. -/
theorem andThen_pure_pure
    {ε σ α δ τ : Type} (m : CrashM ε σ α) (f : α → δ) (g : δ → τ) :
    ((m >>= fun a => pure (f a)) >>= fun b => pure (g b) : CrashM ε σ τ) =
      m >>= fun a => pure (g (f a)) := by
  funext s
  change CrashM.andThen (CrashM.andThen m _) _ s = CrashM.andThen m _ s
  unfold CrashM.andThen
  cases m s <;> rfl

theorem handleEnqueue_eq
    (env : RequestEnv γ) (args : List GoString) :
    (handleEnqueue env args : ServiceM β γ Response) =
      Service.runCall env (enqueueCall args) := by
  rcases args with _ | ⟨queueName, _ | ⟨payload, _ | ⟨extra, rest⟩⟩⟩
  · rfl
  · rfl
  · exact (andThen_pure_pure
      (Service.enqueue env.opening queueName env.newID payload : ServiceM β γ Task)
      (fun task => .reply (.enqueued task)) Answer.response).symm
  · rfl

theorem handleFetch_eq
    (env : RequestEnv γ) (args : List GoString) :
    (handleFetch env args : ServiceM β γ Response) =
      Service.runCall env (fetchCall args) := by
  rcases args with _ | ⟨queueName, _ | ⟨timeout, _ | ⟨extra, rest⟩⟩⟩
  · rfl
  · rfl
  · rw [handleFetch, fetchCall]
    cases parseInt64 timeout with
    | none => rfl
    | some timeoutMS =>
        dsimp only
        split_ifs
        · rfl
        · exact (andThen_pure_pure
            (Service.fetch env.opening queueName env.newID env.now (timeoutMS * 1000000) :
              ServiceM β γ Lease)
            (fun lease => .reply (.fetched lease)) Answer.response).symm
  · rfl

theorem handleAck_eq
    (env : RequestEnv γ) (args : List GoString) :
    (handleAck env args : ServiceM β γ Response) = Service.runCall env (ackCall args) := by
  rcases args with _ | ⟨leaseID, _ | ⟨extra, rest⟩⟩
  · rfl
  · exact (andThen_pure_pure (Service.ack env.order leaseID : ServiceM β γ Unit) (fun _ => .reply .acked)
      Answer.response).symm
  · rfl

theorem handleStats_eq
    (env : RequestEnv γ) (args : List GoString) :
    (handleStats args : ServiceM β γ Response) = Service.runCall env (statsCall args) := by
  rcases args with _ | ⟨queueName, _ | ⟨extra, rest⟩⟩
  · rfl
  · rfl
  · rfl

/-- A command is its call, or refused. -/
theorem handleCommand_eq
    (env : RequestEnv γ) (command : Command) :
    (handleCommand env command : ServiceM β γ Response) =
      Service.runCall env (callOf command) := by
  unfold handleCommand callOf
  dsimp only
  split_ifs
  · exact handleEnqueue_eq env command.args
  · exact handleFetch_eq env command.args
  · exact handleAck_eq env command.args
  · exact handleStats_eq env command.args
  · rfl

theorem answerReply_of_ne
    {name : GoString} {a : Answer}
    (h : ∀ err, a ≠ .reply (.failed err)) :
    answerReply name a = responseToRESP name a.response := by
  cases a with
  | stats counts => rfl
  | reply r =>
      cases r with
      | failed err => exact absurd rfl (h err)
      | enqueued | fetched | acked | reaped | started | crashed | down => rfl

/-- An operation that fails has no answer of its own. -/
theorem perform_succeeds
    {env : TurnEnv γ} {call : Call} {s : Service β γ} :
    wp (Service.perform env call) (fun a _ => ∀ err, a ≠ .reply (.failed err))
      (fun _ _ => True) (fun _ => True) s := by
  have hall : ∀ {α : Type} (m : ServiceM β γ α),
      wp m (fun _ _ => True) (fun _ _ => True) (fun _ => True) s := by
    intro α m
    unfold wp
    cases m s <;> trivial
  have hreturns : ∀ {α : Type} (m : ServiceM β γ α) (answer : α → Answer),
      (∀ x err, answer x ≠ .reply (.failed err)) →
      wp (m >>= fun x => pure (answer x)) (fun a _ => ∀ err, a ≠ .reply (.failed err))
        (fun _ _ => True) (fun _ => True) s := by
    intro α m answer h
    rw [wp_bind]
    exact wp_mono (hall m) (fun x _ _ => h x) (fun _ _ _ => trivial) (fun _ _ => trivial)
  cases call with
  | enqueue => exact hreturns _ (fun task => .reply (.enqueued task)) (fun _ _ h => by cases h)
  | fetch => exact hreturns _ (fun lease => .reply (.fetched lease)) (fun _ _ h => by cases h)
  | ack => exact hreturns _ (fun _ => .reply .acked) (fun _ _ h => by cases h)
  | reap => exact hreturns _ (fun r : Nat × Option GoError => .reply (.reaped r.1 r.2)) (fun _ _ h => by cases h)
  | stats queueName =>
      exact hreturns _ (fun t : Service β γ => .stats (t.stats queueName)) (fun _ _ h => by cases h)

/-- A request that is answered at once. -/
theorem wp_handle_of_reply
    {env : RequestEnv γ} {request value : Value}
    {ok : Value → Service β γ → Prop} {error : GoError → Service β γ → Prop}
    {crashed : Service β γ → Prop} {s : Service β γ}
    (h : dispatch request = .reply value) :
    wp (handle env request) ok error crashed s ↔ ok value s := by
  unfold dispatch at h
  unfold handle
  cases hcommand : commandFromRESP request with
  | error err =>
      rw [hcommand] at h
      cases h
      rfl
  | ok command =>
      rw [hcommand] at h
      dsimp only at h ⊢
      by_cases hping : command.name = pingName
      · rw [if_pos hping] at h ⊢
        cases h
        rfl
      · rw [if_neg hping] at h ⊢
        rw [wp_bind, wp_attempt, handleCommand_eq]
        cases hcall : callOf command with
        | error err =>
            rw [hcall] at h
            cases h
            unfold failureReply
            dsimp only [Service.runCall]
            rw [wp_fail]
            split_ifs <;> rfl
        | ok call =>
            rw [hcall] at h
            cases h

/-- A request ends like its call, with the reply that its answer becomes. -/
theorem wp_handle_of_call
    {env : RequestEnv γ} {request : Value} {name : GoString} {call : Call}
    {ok : Value → Service β γ → Prop} {error : GoError → Service β γ → Prop}
    {crashed : Service β γ → Prop} {s : Service β γ}
    (h : dispatch request = .call name call) :
    wp (handle env request) ok error crashed s ↔
      wp (Service.perform env.turn call) (fun a => ok (answerReply name a))
        (fun err => ok (answerReply name (.reply (.failed err)))) crashed s := by
  unfold dispatch at h
  unfold handle
  cases hcommand : commandFromRESP request with
  | error err =>
      rw [hcommand] at h
      cases h
  | ok command =>
      rw [hcommand] at h
      dsimp only at h ⊢
      by_cases hping : command.name = pingName
      · rw [if_pos hping] at h
        cases h
      · rw [if_neg hping] at h ⊢
        rw [wp_bind, wp_attempt, handleCommand_eq]
        cases hcall : callOf command with
        | error err =>
            rw [hcall] at h
            cases h
        | ok call' =>
            rw [hcall] at h
            cases h
            dsimp only [Service.runCall]
            rw [wp_bind]
            have hsucceeds := @perform_succeeds β γ _ _ env.turn call s
            cases hm : Service.perform env.turn call s with
            | ok a s' =>
                rw [wp_iff_of_ok hm] at hsucceeds ⊢
                rw [wp_iff_of_ok hm, answerReply_of_ne hsucceeds]
                rfl
            | error err s' =>
                rw [wp, wp, hm]
                change (wp (if err.is .errQueueEmpty then pure .nullBulkString
                  else pure (errorReply err)) ok error crashed s') ↔ ok (failureReply err) s'
                unfold failureReply
                split_ifs <;> rfl
            | crashed s' =>
                rw [wp, wp, hm]

end Sequential

end Moxy
