import Workflow.Proofs.Graph.Dump
import Workflow.Proofs.Graph.Editing
import Workflow.Proofs.Graph.Encodable
import Workflow.Server.Answer

/-! Reading and writing specifications through the server. -/

namespace Workflow.Server

def posting (path : Text) (body : Json) : Request := ⟨"POST", path, some body, none⟩

def decodedBody (decoded : Decoded) : Json :=
  .object [("graph", decoded.graph.toJson), ("config", decoded.config.toJson),
    ("unresolved", Json.texts decoded.unresolved)]

def Reply.ofReading : Except Spec.ReadFault Decoded → Reply
  | .ok decoded => .success (decodedBody decoded)
  | .error fault =>
    match fault.message? with
    | some message => .refused message
    | none => .broken

def Reply.ofWriting : Except WriteFault Text → Reply
  | .ok spec => .success (.object [("spec", .text spec)])
  | .error (.violation cause) => .refused cause.message
  | .error (.markup _) => .broken

def specBody (text : Text) : Json := .object [("spec", .text text)]

def graphBody (graph config : Json) : Json := .object [("graph", graph), ("config", config)]

theorem read_graphBody {graph : Graph} (made : graph.withReserved = .ok graph)
    (config : Spec.Config) :
    checked EncodeBody.ofFields (some (graphBody graph.toJson config.toJson)) =
      .ok ⟨graph, config, none⟩ := by
  have readGraph : Graph.ofJson .modelAttributesType graph.toJson = .ok graph := by
    rw [Graph.ofJson_toJson, made]
  have readConfig := Spec.Config.ofJson_toJson .modelAttributesType config
  simp [checked, graphBody, Check.fields, EncodeBody.ofFields, Check.required, Check.withDefault,
    Table.get?, readGraph, readConfig, Checked.under, Checked.arg]

/-- Tells of a writing what came of it: its text, why it was refused, or that it broke. -/
def Reply.Tells (reply : Reply) : Except WriteFault Text → Prop
  | .ok spec => reply.status = 200 ∧ reply = .success (.object [("spec", .text spec)])
  | .error (.violation cause) => reply.status = 400 ∧ reply.detail? = some cause.message
  | .error (.markup _) => reply.status = 500

theorem tells_ofWriting {written : Except WriteFault Text}
    (spelled : ∀ text, written = .ok text → text.isEncodable = true)
    (blamed : ∀ cause, written = .error (.violation cause) → cause.message.isEncodable = true) :
    (Reply.ofWriting written).sent.Tells written := by
  cases written with
  | ok spec =>
      have sent : (Json.object [("spec", .text spec)]).isEncodable = true := by simp [spelled spec rfl]
      simp [Reply.ofWriting, Reply.sent, sent, Reply.Tells, Reply.status]
  | error fault =>
      cases fault with
      | violation cause =>
          simp [Reply.ofWriting, Reply.sent, blamed cause rfl, Reply.Tells, Reply.status, Reply.detail?]
      | markup cause => exact rfl

theorem isEncodable_decodedBody {decoded : Decoded} :
    (decodedBody decoded).isEncodable = true ↔ decoded.IsEncodable := by
  have parts : (decodedBody decoded).isEncodable = true ↔
      decoded.graph.toJson.isEncodable = true ∧ decoded.config.toJson.isEncodable = true ∧
        ∀ name ∈ decoded.unresolved, name.isEncodable = true := by
    simp [decodedBody, Json.texts]
  rw [parts, Graph.isEncodable_toJson, Spec.Config.isEncodable_toJson]
  exact ⟨fun ⟨graph, config, unresolved⟩ => ⟨graph, config, unresolved⟩,
    fun known => ⟨known.graph, known.config, known.unresolved⟩⟩

section Serving

variable [Host]

theorem decodeReply_of_read {body : Option Json} {text : Text}
    (read : checked specText body = .ok text) : decodeReply body = .ofReading (Graph.decode text) := by
  simp only [decodeReply, read]
  cases Graph.decode text with
  | ok decoded => rfl
  | error fault =>
      cases message : fault.message? with
      | some text => simp only [Reply.ofReading, message]
      | none => simp only [Reply.ofReading, message]

theorem encodeReply_of_read {body : Option Json} {parts : EncodeBody}
    (read : checked EncodeBody.ofFields body = .ok parts) :
    encodeReply body =
      .ofWriting (parts.graph.encode parts.config (parts.language.map Language.word)) := by
  simp only [encodeReply, read]
  cases parts.graph.encode parts.config (parts.language.map Language.word) with
  | ok spec => rfl
  | error fault =>
      cases fault with
      | violation cause => rfl
      | markup cause => rfl

theorem answer_posting {path : Text} {route : Route}
    (found : Route.table.lookup (Route.barePath path) = some (("POST" : Text), route))
    (outcome : Codegen.Outcome) (body : Json) :
    answer outcome (posting path body) = (answerRoute outcome (posting path body) route).sent := by
  rw [answer, posting, found]
  exact if_pos rfl

theorem answer_decode (outcome : Codegen.Outcome) (body : Json) :
    answer outcome (posting "/api/spec/decode" body) = ⟨(decodeReply (some body)).sent, []⟩ :=
  answer_posting (by decide +kernel : _ = some (("POST" : Text), Route.decode)) outcome body

theorem answer_encode (outcome : Codegen.Outcome) (body : Json) :
    answer outcome (posting "/api/spec/encode" body) = ⟨(encodeReply (some body)).sent, []⟩ :=
  answer_posting (by decide +kernel : _ = some (("POST" : Text), Route.encode)) outcome body

theorem tells_of_decoded {text : Text} {decoded : Decoded}
    (found : Graph.decode text = .ok decoded) (known : decoded.IsEncodable) :
    (Reply.ofWriting (decoded.graph.encode decoded.config none)).sent.Tells
      (decoded.graph.encode decoded.config none) := by
  obtain ⟨entry, terminal, shaped⟩ :=
    Graph.shaped_of_agreed (Graph.coherent_decode found) (Graph.agreed_decode found)
  refine tells_ofWriting (fun spec made => known.graph.encode known.config made) fun cause refused => ?_
  rw [Graph.encode] at refused
  split at refused
  · rename_i violation blamed
    obtain rfl := WriteFault.violation.inj (Except.error.inj refused)
    exact known.graph.message (Graph.labelError_of_refused shaped blamed)
  · rename_i document _
    cases spelled : document.text none with
    | ok spec => simp [spelled, Except.mapError] at refused
    | error fault => simp [spelled, Except.mapError] at refused

/-- Whatever text the library reads, the server reads, and hands it out if it has an encoding; what it
hands out it takes back, and then does just what the library does. No checked part of a graph or of
naming fields changes on the way out and in. -/
theorem decode_then_encode (outcome : Codegen.Outcome) :
    (∀ text decoded, Graph.decode text = .ok decoded →
      let reply := (answer outcome (posting "/api/spec/decode" (specBody text))).reply
      (¬decoded.IsEncodable → reply.status = 500) ∧
      (decoded.IsEncodable → ∃ body graph config,
        reply = .success body ∧
        body.get? "graph" = some graph ∧ body.get? "config" = some config ∧
        (answer outcome (posting "/api/spec/encode" (graphBody graph config))).reply.Tells
          (decoded.graph.encode decoded.config none))) ∧
    (∀ graph : Graph, (graph.ofKind .entry).length = 1 → (graph.ofKind .terminal).length = 1 →
      (∀ node ∈ graph.nodes, node.position.IsFinite) →
      ∀ otherwise, Graph.ofJson otherwise graph.toJson.dumped = .ok graph) ∧
    ∀ (config : Spec.Config) (otherwise : Problem),
      Spec.Config.ofJson otherwise config.toJson.dumped = .ok config := by
  refine ⟨fun text decoded found => ?_, ?_, ?_⟩
  · have read : checked specText (some (specBody text)) = .ok text := rfl
    have replied : (answer outcome (posting "/api/spec/decode" (specBody text))).reply =
        (Reply.success (decodedBody decoded)).sent := by
      rw [answer_decode, decodeReply_of_read read, found, Reply.ofReading]
    dsimp only
    rw [replied, Reply.sent]
    refine ⟨fun unsent => ?_, fun known => ?_⟩
    · rw [if_neg (isEncodable_decodedBody.not.mpr unsent)]
      rfl
    · have coherent := Graph.coherent_decode found
      have made := Graph.withReserved_of_single coherent.entry coherent.terminal
      refine ⟨decodedBody decoded, decoded.graph.toJson, decoded.config.toJson, ?_, rfl, rfl, ?_⟩
      · rw [if_pos (isEncodable_decodedBody.mpr known)]
      · rw [answer_encode, encodeReply_of_read (read_graphBody made decoded.config)]
        exact tells_of_decoded found known
  · intro graph entry terminal finite otherwise
    rw [Graph.dumped_toJson finite, Graph.ofJson_toJson, Graph.withReserved_of_single entry terminal]
  · intro config otherwise
    rw [Spec.Config.toJson, Json.dumped_textTable]
    exact Spec.Config.ofJson_toJson otherwise config

end Serving

def askingText : Text :=
  "nodes:\n- name: ask\nedges:\n- from: __start__\n  to: ask\n" ++
    "- from: ask\n  condition: more\n  paths: [ask, __end__]"

def asking : Graph where
  nodes := [.entry, .terminal, .step "step-1" "ask" (Layout.place 2 0)]
  edges := [.direct "edge-0" "source" "step-1", .branch "edge-1-0" "step-1" "step-1" "more",
    .branch "edge-1-1" "step-1" "end" "more"]
  conditionLabels := [("step-1", "more")]
  groupCount := 0
  nodeCount := 1
  edgeCount := 3

section Usual

attribute [local instance] Host.usual

theorem decode_then_encode_asking :
    let outcome : Codegen.Outcome := .unreachable "refused"
    (∃ body graph config,
      (answer outcome (posting "/api/spec/decode" (specBody askingText))).reply = .success body ∧
      body.get? "graph" = some graph ∧ body.get? "config" = some config ∧
      (answer outcome (posting "/api/spec/encode" (graphBody graph config))).reply.Tells
        (asking.encode .standard none)) ∧
    Graph.ofJson .modelType asking.toJson.dumped = .ok asking := by
  intro outcome
  obtain ⟨served, dumped, _⟩ := decode_then_encode outcome
  have found : Graph.decode askingText = .ok ⟨asking, .standard, [], []⟩ := by decide +kernel
  have encodable : (decodedBody ⟨asking, .standard, [], []⟩).isEncodable = true := by decide +kernel
  have finite : ∀ node ∈ asking.nodes, node.position.IsFinite := by
    simp only [Position.IsFinite]
    decide +kernel
  exact ⟨(served askingText _ found).2 (isEncodable_decodedBody.mp encodable),
    dumped asking rfl rfl finite .modelType⟩

/-- A name with half a pair is read, and cannot be handed out. -/
theorem half_named_unsent :
    ¬∀ (outcome : Codegen.Outcome) (text : Text) (decoded : Decoded), Graph.decode text = .ok decoded →
      (answer outcome (posting "/api/spec/decode" (specBody text))).reply.status = 200 := by
  intro all
  have found : Graph.decode "name: \x22\\ud800\x22" =
      .ok ⟨.empty, { Spec.Config.standard with name := ⟨[.half 0]⟩ }, [], []⟩ := by decide +kernel
  have broken : (answer (.unreachable "refused") (posting "/api/spec/decode"
      (specBody "name: \x22\\ud800\x22"))).reply.status = 500 := by decide +kernel
  have sent := all (.unreachable "refused") _ _ found
  rw [broken] at sent
  cases sent

end Usual

end Workflow.Server
