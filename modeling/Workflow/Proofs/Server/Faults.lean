import Workflow.Proofs.Server.Replies
import Workflow.Proofs.Spec.Faults

/-! Requests that break the server. -/

namespace Workflow.Server

theorem status_ofReading {read : Except Spec.ReadFault Decoded}
    (told : ∀ fault, read = .error fault → fault.message? ≠ none → fault.IsTold) :
    (Reply.ofReading read).sent.status ∈ [200, 400, 500] ∧
      ((Reply.ofReading read).sent.status = 500 ↔
        (∃ fault, read = .error fault ∧ fault.message? = none) ∨
          ∃ decoded, read = .ok decoded ∧ ¬decoded.IsEncodable) := by
  cases read with
  | ok decoded =>
      by_cases known : (decodedBody decoded).isEncodable = true
      · simp [Reply.ofReading, Reply.sent, known, Reply.status, isEncodable_decodedBody.mp known]
      · simp [Reply.ofReading, Reply.sent, known, Reply.status, isEncodable_decodedBody.not.mp known]
  | error fault =>
      cases spoken : fault.message? with
      | none => simp [Reply.ofReading, Reply.sent, Reply.status, spoken]
      | some text =>
          obtain ⟨message, same, encodable⟩ := told fault rfl (by simp [spoken])
          obtain rfl := Option.some.inj (spoken.symm.trans same)
          simp [Reply.ofReading, Reply.sent, Reply.status, spoken, encodable]

/-- What writing a graph gives cannot be sent: a text or a message without an encoding. -/
def Unsendable (written : Except WriteFault Text) : Prop :=
  (∃ spec, written = .ok spec ∧ spec.isEncodable = false) ∨
    ∃ cause, written = .error (.violation cause) ∧ cause.message.isEncodable = false

theorem status_ofWriting (written : Except WriteFault Text) :
    (Reply.ofWriting written).sent.status ∈ [200, 400, 500] ∧
      ((Reply.ofWriting written).sent.status = 500 ↔
        (∃ cause, written = .error (.markup cause)) ∨ Unsendable written) := by
  cases written with
  | ok spec =>
      cases known : spec.isEncodable <;>
        simp [Reply.ofWriting, Reply.sent, Reply.status, Unsendable, Json.isEncodable,
          Json.fieldsEncodable, known]
  | error fault =>
      cases fault with
      | violation cause =>
          cases known : cause.message.isEncodable <;>
            simp [Reply.ofWriting, Reply.sent, Reply.status, Unsendable, known]
      | markup cause => simp [Reply.ofWriting, Reply.sent, Reply.status]

def misdated : Graph :=
  { Graph.empty with
    nodes := [.entry, .terminal, .step "step-1" "2024-13-45" .origin]
    edges := [.direct "edge-1" "source" "step-1"] }

section Usual

attribute [local instance] Host.usual

theorem decode_misdated : Graph.decode "name: 2024-13-45" = .error (.markup .impossibleTime) := by
  decide +kernel

theorem encode_misdated : misdated.encode .standard none = .error (.markup .impossibleTime) := by
  decide +kernel

end Usual

end Workflow.Server
