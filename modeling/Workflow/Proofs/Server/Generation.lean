import Workflow.Proofs.Check.Field
import Workflow.Proofs.Server.Replies

/-! Calls of the code generation service. Whatever comes back, a call is made once and ends in a result or
in a fault of the service; it gives a result if and only if what came back is data of the right form. Set
apart are texts without an encoding, which cannot be sent, and data that are nested too deep. -/

namespace Workflow

namespace Codegen

/-- What came back is data: a status of success, and a body that can be read. -/
inductive Outcome.Delivers [Host] : Outcome → Json → Prop where
  | answered {status : Int} {body : List UInt8} {source : Text} {data : Json}
    (least : 200 ≤ status) (below : status < 300) (decoded : Text.decode? body = some source)
    (read : Json.read source = .ok data) : (Outcome.answered status body).Delivers data

/-- What came back with a status of success is nested too deep to be read. -/
inductive Outcome.Overflows [Host] : Outcome → Prop where
  | answered {status : Int} {body : List UInt8} {source : Text}
    (least : 200 ≤ status) (below : status < 300) (decoded : Text.decode? body = some source)
    (deep : Json.read source = .error .tooDeep) : (Outcome.answered status body).Overflows

/-- Fields that hold files, if any, and no error but an empty one. -/
structure Files.StandIn (files : Files) (fields : Table Json) : Prop where
  given : fields.get? "files" = none ∧ files.files = [] ∨
    fields.get? "files" = some (Json.textTable files.files)
  error : fields.get? "error" = none ∧ files.error = none ∨
    fields.get? "error" = some .null ∧ files.error = none ∨
    fields.get? "error" = some (.text "") ∧ files.error = some ""

/-- Fields that hold a template; its path and its content may be missing. -/
structure Template.StandsIn (template : Template) (fields : Table Json) : Prop where
  name : fields.get? "name" = some (.text template.name)
  path : fields.get? "path" = none ∧ template.path = "" ∨
    fields.get? "path" = some (.text template.path)
  language : fields.get? "language" = some (.text template.language)
  templateType : fields.get? "template_type" = some (.text template.templateType)
  content : fields.get? "content" = none ∧ template.content = "" ∨
    fields.get? "content" = some (.text template.content)

/-- Fields that hold a list of templates, one by one. -/
def Template.ListedIn (templates : List Template) (fields : Table Json) : Prop :=
  ∃ items, fields.get? "templates" = some (.array items) ∧
    List.Forall₂ (fun item template => ∃ own, item = Json.object own ∧ StandsIn template own)
      items templates

variable {outcome : Outcome} {data : Json} {fields : Table Json} {client : Client}

theorem files_ofJson_eq_ok_iff {files : Files} :
    Files.ofJson data = .ok files ↔ ∃ fields, data = .object fields ∧
      Check.withDefault "files" [] Check.textTable fields = .ok files.files ∧
      Check.withDefault "error" none (Check.optional Check.text) fields = .ok files.error := by
  rw [Files.ofJson]
  cases found : Check.fields .modelType data with
  | error issues =>
      refine iff_of_false (fun read => by cases read) ?_
      rintro ⟨fields, rfl, _⟩
      cases found
  | ok fields =>
      obtain rfl := Check.fields_eq_ok_iff.mp found
      simp only [Checked.arg_eq_ok_iff, Except.ok.injEq, Json.object.injEq]
      constructor
      · rintro ⟨_, error, ⟨_, table, rfl, given, rfl⟩, told, rfl⟩
        exact ⟨fields, rfl, given, told⟩
      · rintro ⟨_, rfl, given, told⟩
        exact ⟨_, files.error, ⟨_, files.files, rfl, given, rfl⟩, told, rfl⟩

theorem filesOf_eq_ok_iff_silent {files : Files} :
    Client.filesOf data = .ok files ↔
      Files.ofJson data = .ok files ∧ ∀ text ∈ files.error, text = "" := by
  rw [Client.filesOf]
  cases Files.ofJson data with
  | error issues => simp
  | ok found =>
      cases told : found.error with
      | none =>
          simp only [told, Except.ok.injEq]
          refine ⟨?_, fun held => held.1⟩
          rintro rfl
          simp [told]
      | some text =>
          by_cases empty : text = ""
          · simp only [told, empty, if_true, Except.ok.injEq]
            refine ⟨?_, fun held => held.1⟩
            rintro rfl
            simp [told, empty]
          · simp only [told, empty, if_false, Except.ok.injEq]
            refine iff_of_false (fun read => by cases read) ?_
            rintro ⟨rfl, quiet⟩
            exact empty (quiet text told)

theorem filesOf_eq_ok_iff {files : Files} :
    Client.filesOf data = .ok files ↔ ∃ fields, data = .object fields ∧ files.StandIn fields := by
  rw [filesOf_eq_ok_iff_silent, files_ofJson_eq_ok_iff]
  constructor
  · rintro ⟨⟨fields, rfl, given, told⟩, quiet⟩
    refine ⟨fields, rfl, (Check.withDefault_iff_of_form fun _ _ => Check.textTable_eq_ok_iff).mp given, ?_⟩
    rcases Check.withDefault_eq_ok_iff.mp told with absent | ⟨value, held, read⟩
    · exact .inl absent
    · rcases Check.optional_text_eq_ok_iff.mp read with ⟨rfl, none⟩ | ⟨content, rfl, some⟩
      · exact .inr (.inl ⟨held, none⟩)
      · obtain rfl := quiet content some
        exact .inr (.inr ⟨held, some⟩)
  · rintro ⟨fields, rfl, given, told⟩
    refine ⟨⟨fields, rfl,
      (Check.withDefault_iff_of_form fun _ _ => Check.textTable_eq_ok_iff).mpr given, ?_⟩, ?_⟩
    · rw [Check.withDefault_eq_ok_iff]
      rcases told with absent | ⟨held, none⟩ | ⟨held, some⟩
      · exact .inl absent
      · exact .inr ⟨_, held, Check.optional_text_eq_ok_iff.mpr (.inl ⟨rfl, none⟩)⟩
      · exact .inr ⟨_, held, Check.optional_text_eq_ok_iff.mpr (.inr ⟨"", rfl, some⟩)⟩
    · intro text member
      rcases told with ⟨_, none⟩ | ⟨_, none⟩ | ⟨_, some⟩
      · exact absurd (none.symm.trans member) (by simp)
      · exact absurd (none.symm.trans member) (by simp)
      · exact (Option.some.inj (some.symm.trans member)).symm

theorem template_ofJson_eq_ok_iff {template : Template} :
    Template.ofJson data = .ok template ↔
      ∃ fields, data = .object fields ∧ template.StandsIn fields := by
  rw [Template.ofJson]
  cases found : Check.fields .modelType data with
  | error issues =>
      refine iff_of_false (fun read => by cases read) ?_
      rintro ⟨fields, rfl, _⟩
      cases found
  | ok fields =>
      obtain rfl := Check.fields_eq_ok_iff.mp found
      have text (value : Json) (content : Text) :
          Check.text value = .ok content ↔ value = .text content := Check.text_eq_ok_iff
      simp only [Template.ofFields, Checked.arg_eq_ok_iff, Check.required_iff_of_form text,
        Check.withDefault_iff_of_form text, Except.ok.injEq, Json.object.injEq]
      constructor
      · rintro ⟨_, content, ⟨_, kind, ⟨_, language, ⟨_, path, ⟨_, name, rfl, named, rfl⟩, placed, rfl⟩,
          spoken, rfl⟩, typed, rfl⟩, filled, rfl⟩
        exact ⟨fields, rfl, named, placed, spoken, typed, filled⟩
      · rintro ⟨_, rfl, named, placed, spoken, typed, filled⟩
        exact ⟨_, _, ⟨_, _, ⟨_, _, ⟨_, _, ⟨_, _, rfl, named, rfl⟩, placed, rfl⟩, spoken, rfl⟩, typed, rfl⟩,
          filled, rfl⟩

theorem templatesOf_eq_ok_iff {templates : List Template} :
    Client.templatesOf data = .ok templates ↔
      ∃ fields, data = .object fields ∧ Template.ListedIn templates fields := by
  have listed : Client.templatesOf data = .ok templates ↔
      ∃ items, data.get? "templates" = some (.array items) ∧
        items.mapM Template.ofJson = .ok templates := by
    unfold Client.templatesOf
    split
    · rename_i items held
      simp only [held, Option.some.injEq, Json.array.injEq, exists_eq_left']
      cases items.mapM Template.ofJson <;> simp
    · rename_i other
      exact iff_of_false (fun read => by cases read) fun ⟨items, held, _⟩ => other items held
  simp only [listed, Checked.mapM_eq_ok_iff, template_ofJson_eq_ok_iff]
  cases data with
  | object fields => simp [Json.get?, Template.ListedIn]
  | _ => simp [Json.get?]

theorem filesOf_spoken {fault : Fault} (failed : Client.filesOf data = .error fault) :
    fault.message? ≠ none := by
  unfold Client.filesOf at failed
  split at failed
  · obtain rfl := Except.error.inj failed
    simp [Fault.message?]
  · split at failed
    · cases failed
    · split at failed
      · cases failed
      · obtain rfl := Except.error.inj failed
        simp [Fault.message?]

theorem templatesOf_spoken {fault : Fault} (failed : Client.templatesOf data = .error fault) :
    fault.message? ≠ none := by
  unfold Client.templatesOf at failed
  split at failed
  · split at failed
    · cases failed
    · obtain rfl := Except.error.inj failed
      simp [Fault.message?]
  · obtain rfl := Except.error.inj failed
    simp [Fault.message?]

variable [Host]

theorem received_eq_ok_iff {onStatus : Int → Fault} :
    client.received onStatus outcome = .ok data ↔ outcome.Delivers data := by
  cases outcome with
  | unreachable reason => exact iff_of_false (fun read => by cases read) fun delivers => by cases delivers
  | answered status body =>
      rw [Client.received, Client.isSuccess]
      constructor
      · intro read
        split at read
        · rename_i success
          obtain ⟨least, below⟩ := of_decide_eq_true success
          rw [Client.readBody] at read
          split at read
          · cases read
          · rename_i source decoded
            split at read
            · rename_i value found
              obtain rfl := Except.ok.inj read
              exact .answered least below decoded found
            · cases read
            · cases read
            · cases read
        · cases read
      · rintro ⟨least, below, decoded, found⟩
        rw [if_pos (decide_eq_true ⟨least, below⟩), Client.readBody, decoded]
        dsimp only
        rw [found]

/-- Whatever else came back has a message. -/
theorem received_silent_iff {onStatus : Int → Fault} (spoken : ∀ status, (onStatus status).message? ≠ none) :
    (∃ fault, client.received onStatus outcome = .error fault ∧ fault.message? = none) ↔
      outcome.Overflows := by
  cases outcome with
  | unreachable reason =>
      refine iff_of_false ?_ fun overflows => by cases overflows
      rintro ⟨fault, read, silent⟩
      obtain rfl := Except.error.inj read
      cases silent
  | answered status body =>
      rw [Client.received, Client.isSuccess]
      constructor
      · rintro ⟨fault, read, silent⟩
        split at read
        · rename_i success
          obtain ⟨least, below⟩ := of_decide_eq_true success
          rw [Client.readBody] at read
          split at read
          · obtain rfl := Except.error.inj read
            cases silent
          · rename_i source decoded
            split at read
            · cases read
            · rename_i deep
              exact .answered least below decoded deep
            · obtain rfl := Except.error.inj read
              cases silent
            · obtain rfl := Except.error.inj read
              cases silent
        · obtain rfl := Except.error.inj read
          exact absurd silent (spoken status)
      · rintro ⟨least, below, decoded, deep⟩
        refine ⟨.tooDeep, ?_, rfl⟩
        rw [if_pos (decide_eq_true ⟨least, below⟩), Client.readBody, decoded]
        dsimp only
        rw [deep]

section Reading

variable {α : Type} {onStatus : Int → Fault} {read : Json → Except Fault α}

/-- A call reads the data that came back, if there are any. -/
def resultOf (client : Client) (onStatus : Int → Fault) (read : Json → Except Fault α)
    (outcome : Outcome) : Except Fault α :=
  match client.received onStatus outcome with
  | .error fault => .error fault
  | .ok data => read data

theorem resultOf_eq_ok_iff {Held : α → Table Json → Prop} {value : α}
    (reads : ∀ data, read data = .ok value ↔ ∃ fields, data = .object fields ∧ Held value fields) :
    resultOf client onStatus read outcome = .ok value ↔
      ∃ fields, outcome.Delivers (.object fields) ∧ Held value fields := by
  rw [resultOf]
  constructor
  · intro result
    split at result
    · cases result
    · rename_i data received
      obtain ⟨fields, rfl, held⟩ := (reads data).mp result
      exact ⟨fields, received_eq_ok_iff.mp received, held⟩
  · rintro ⟨fields, delivers, held⟩
    rw [received_eq_ok_iff.mpr delivers]
    exact (reads _).mpr ⟨fields, rfl, held⟩

theorem resultOf_silent_iff (told : ∀ status, (onStatus status).message? ≠ none)
    (spoken : ∀ data fault, read data = .error fault → fault.message? ≠ none) :
    (∃ fault, resultOf client onStatus read outcome = .error fault ∧ fault.message? = none) ↔
      outcome.Overflows := by
  rw [← @received_silent_iff outcome client _ _ told, resultOf]
  cases client.received onStatus outcome with
  | error fault => simp
  | ok data =>
      refine iff_of_false ?_ (by simp)
      rintro ⟨fault, failed, silent⟩
      exact spoken data fault failed silent

end Reading

theorem generate_of_encodable {request : Request} (sent : request.payload.isEncodable = true) :
    client.generate request outcome =
      ⟨[⟨"POST", client.base ++ "/generate", some request.payload⟩],
        resultOf client .generationStatus Client.filesOf outcome⟩ :=
  if_pos sent

/-- A request without an encoding is not sent, and what would come back does not matter. -/
theorem generate_of_not_encodable {request : Request} (unsent : ¬request.payload.isEncodable = true) :
    client.generate request outcome = ⟨[], .error .invalidJson⟩ :=
  if_neg unsent

theorem generate_eq_ok_iff {request : Request} {files : Files} :
    (client.generate request outcome).result = .ok files ↔ request.payload.isEncodable = true ∧
      ∃ fields, outcome.Delivers (.object fields) ∧ files.StandIn fields := by
  by_cases sent : request.payload.isEncodable = true
  · rw [generate_of_encodable sent, and_iff_right sent]
    exact resultOf_eq_ok_iff fun _ => filesOf_eq_ok_iff
  · rw [generate_of_not_encodable sent]
    exact iff_of_false (by simp) fun held => sent held.1

theorem generate_silent_iff {request : Request} :
    (∃ fault, (client.generate request outcome).result = .error fault ∧ fault.message? = none) ↔
      request.payload.isEncodable = true ∧ outcome.Overflows := by
  by_cases sent : request.payload.isEncodable = true
  · rw [generate_of_encodable sent, and_iff_right sent]
    exact resultOf_silent_iff (by simp [Fault.message?]) fun _ _ => filesOf_spoken
  · rw [generate_of_not_encodable sent]
    exact iff_of_false (by simp [Fault.message?]) fun held => sent held.1

theorem listTemplates_eq_ok_iff {templates : List Template} :
    (client.listTemplates outcome).result = .ok templates ↔
      ∃ fields, outcome.Delivers (.object fields) ∧ Template.ListedIn templates fields :=
  resultOf_eq_ok_iff fun _ => templatesOf_eq_ok_iff

theorem listTemplates_silent_iff :
    (∃ fault, (client.listTemplates outcome).result = .error fault ∧ fault.message? = none) ↔
      outcome.Overflows :=
  resultOf_silent_iff (by simp [Fault.message?]) fun _ _ => templatesOf_spoken

end Codegen

namespace Server

open Codegen (Exchange Template)

/-- An exchange that cannot be answered: what it gave has no encoding, or why it gave nothing has none
or no message at all. -/
def Strands {α : Type} (toJson : α → Json) (exchange : Exchange α) : Prop :=
  (∃ value, exchange.result = .ok value ∧ (toJson value).isEncodable = false) ∨
    ∃ fault, exchange.result = .error fault ∧
      ∀ message, fault.message? = some message → message.isEncodable = false

theorem status_ofExchange {α : Type} (toJson : α → Json) (exchange : Exchange α) :
    (ofExchange toJson exchange).sent.reply.status ∈ [200, 502, 500] ∧
      ((ofExchange toJson exchange).sent.reply.status = 200 ↔
        ∃ value, exchange.result = .ok value ∧ (toJson value).isEncodable = true) ∧
      ((ofExchange toJson exchange).sent.reply.status = 500 ↔ Strands toJson exchange) := by
  cases result : exchange.result with
  | ok value =>
      cases known : (toJson value).isEncodable <;>
        simp [ofExchange, Answer.sent, Reply.sent, Strands, result, known, Reply.status]
  | error fault =>
      cases spoken : fault.message? with
      | none => simp [ofExchange, Answer.sent, Reply.sent, Strands, result, spoken, Reply.status]
      | some message =>
          cases known : message.isEncodable <;>
            simp [ofExchange, Answer.sent, Reply.sent, Strands, result, spoken, known, Reply.status]

def filesBody (files : Codegen.Files) : Json := .object [("files", Json.textTable files.files)]

def templatesBody (templates : List Template) : Json :=
  .object [("templates", .array (templates.map Template.toJson))]

section Service

variable [Host]

theorem answer_generate (outcome : Codegen.Outcome) {body : Json} {parts : GenerateBody}
    (read : checked GenerateBody.ofFields (some body) = .ok parts) :
    answer outcome (posting "/api/generate-code" body) =
      (ofExchange filesBody ((client parts.address).generate parts.request outcome)).sent := by
  rw [answer_posting (by decide +kernel : _ = some (("POST" : Text), Route.generate))]
  simp only [answerRoute, generateAnswer, posting, read]
  rfl

theorem answer_templates (outcome : Codegen.Outcome) (body : Option Json) (address : Option Text) :
    answer outcome ⟨"GET", "/api/templates", body, address⟩ =
      (ofExchange templatesBody ((client address).listTemplates outcome)).sent := by
  have found : Route.table.lookup (Route.barePath "/api/templates") =
      some (("GET" : Text), Route.templates) := by decide +kernel
  rw [answer, found]
  exact if_pos rfl

/-- A service is called once, at its address, unless the request has no encoding. The call gives a result
just if what came back is data that hold one, and then this one; any other call fails with a message, but
for data nested too deep. The server answers with the result, or with a bad gateway just if the call
fails; what it would say of either must have an encoding. -/
theorem service_outcomes (outcome : Codegen.Outcome) :
    (∀ address request, let exchange := (Codegen.Client.ofAddress address).generate request outcome
      exchange.calls = (if request.payload.isEncodable then
        [⟨"POST", Codegen.baseAddress address ++ "/generate", some request.payload⟩] else []) ∧
      (∀ files, exchange.result = .ok files ↔ request.payload.isEncodable = true ∧
        ∃ fields, outcome.Delivers (.object fields) ∧ files.StandIn fields) ∧
      ((∃ fault, exchange.result = .error fault ∧ fault.message? = none) ↔
        request.payload.isEncodable = true ∧ outcome.Overflows)) ∧
    (∀ address, let exchange := (Codegen.Client.ofAddress address).listTemplates outcome
      exchange.calls = [⟨"GET", Codegen.baseAddress address ++ "/templates", none⟩] ∧
      (∀ templates, exchange.result = .ok templates ↔
        ∃ fields, outcome.Delivers (.object fields) ∧ Template.ListedIn templates fields) ∧
      ((∃ fault, exchange.result = .error fault ∧ fault.message? = none) ↔ outcome.Overflows)) ∧
    (∀ body parts, checked GenerateBody.ofFields (some body) = .ok parts →
      let exchange := (client parts.address).generate parts.request outcome
      let answer := answer outcome (posting "/api/generate-code" body)
      answer.calls = exchange.calls ∧ answer.reply.status ∈ [200, 502, 500] ∧
        (answer.reply.status = 200 ↔
          ∃ files, exchange.result = .ok files ∧ (filesBody files).isEncodable = true) ∧
        (answer.reply.status = 500 ↔ Strands filesBody exchange)) ∧
    ∀ body address, let exchange := (client address).listTemplates outcome
      let answer := answer outcome ⟨"GET", "/api/templates", body, address⟩
      answer.calls = exchange.calls ∧ answer.reply.status ∈ [200, 502, 500] ∧
        (answer.reply.status = 200 ↔
          ∃ templates, exchange.result = .ok templates ∧ (templatesBody templates).isEncodable = true) ∧
        (answer.reply.status = 500 ↔ Strands templatesBody exchange) := by
  refine ⟨fun address request => ⟨?_, fun files => Codegen.generate_eq_ok_iff,
      Codegen.generate_silent_iff⟩,
    fun address => ⟨rfl, fun templates => Codegen.listTemplates_eq_ok_iff,
      Codegen.listTemplates_silent_iff⟩, ?_, ?_⟩
  · rw [Codegen.Client.generate]
    split <;> rfl
  · intro body parts read
    simp only [answer_generate outcome read]
    exact ⟨rfl, status_ofExchange _ _⟩
  · intro body address
    simp only [answer_templates]
    exact ⟨rfl, status_ofExchange _ _⟩

end Service

section Usual

attribute [local instance] Host.usual

def asked : Json := .object
  [("spec", .text "name: x"), ("skip", .array []), ("server_url", .text "http://h/generate/")]

theorem read_asked : checked GenerateBody.ofFields (some asked) =
    .ok ⟨⟨"name: x", .python, none, []⟩, some "http://h/generate/"⟩ := by decide +kernel

def came (text : String) : Codegen.Outcome := .answered 201 text.toUTF8.data.toList

/-- Files that come with an error are not taken, as they are with an empty one. -/
theorem service_outcomes_reported :
    let request : Codegen.Request := ⟨"name: x", .python, none, []⟩
    let fine := came "\x7b\"files\": \x7b\"stub\": \"pass\"\x7d, \"error\": \"\"\x7d"
    let faulty := came "\x7b\"files\": \x7b\"stub\": \"pass\"\x7d, \"error\": \"bad\"\x7d"
    checked GenerateBody.ofFields (some asked) = .ok ⟨request, some "http://h/generate/"⟩ ∧
      (answer fine (posting "/api/generate-code" asked)).reply.status = 200 ∧
      (answer faulty (posting "/api/generate-code" asked)).calls =
        [⟨"POST", "http://h/generate", some request.payload⟩] ∧
      (answer faulty (posting "/api/generate-code" asked)).reply.status = 502 := by
  intro request fine faulty
  have given : ((client (some "http://h/generate/")).generate request fine).result =
      .ok ⟨[("stub", "pass")], some ""⟩ := by decide +kernel
  have reported : ((client (some "http://h/generate/")).generate request faulty).result =
      .error (.reported "bad") := by decide +kernel
  obtain ⟨_, _, success, _⟩ := service_outcomes fine
  obtain ⟨_, _, failure, _⟩ := service_outcomes faulty
  obtain ⟨_, _, served, _⟩ := success asked _ read_asked
  obtain ⟨calls, kinds, refused, stranded⟩ := failure asked _ read_asked
  have unserved : (answer faulty (posting "/api/generate-code" asked)).reply.status ≠ 200 := by
    intro same
    obtain ⟨files, taken, _⟩ := refused.mp same
    exact absurd (reported.symm.trans taken) (by simp)
  have unbroken : (answer faulty (posting "/api/generate-code" asked)).reply.status ≠ 500 := by
    intro same
    rcases stranded.mp same with ⟨files, taken, _⟩ | ⟨fault, failed, silent⟩
    · exact absurd (reported.symm.trans taken) (by simp)
    · obtain rfl := Except.error.inj (reported.symm.trans failed)
      exact absurd (silent "bad" rfl) (by simp)
  have base : (client (some "http://h/generate/")).base = "http://h" := by decide +kernel
  have sent : request.payload.isEncodable = true := by decide +kernel
  refine ⟨read_asked, served.mpr ⟨_, given, by decide +kernel⟩, ?_, by simpa [unserved, unbroken] using kinds⟩
  rw [calls, Codegen.generate_of_encodable sent, base]
  rfl

/-- Half a pair in what a service reports breaks the server, and half a pair in a request keeps it from
being sent. -/
theorem half_reported_breaks :
    (¬∀ (outcome : Codegen.Outcome) (body : Json) (parts : GenerateBody),
      checked GenerateBody.ofFields (some body) = .ok parts →
        (answer outcome (posting "/api/generate-code" body)).reply.status ∈ [200, 502]) ∧
    ¬∀ (outcome : Codegen.Outcome) (address : Text) (request : Codegen.Request),
      ((Codegen.Client.ofAddress address).generate request outcome).calls =
        [⟨"POST", Codegen.baseAddress address ++ "/generate", some request.payload⟩] := by
  refine ⟨fun all => ?_, fun all => ?_⟩
  · have broken : (answer (came "\x7b\"error\": \"\\ud800\"\x7d")
        (posting "/api/generate-code" asked)).reply.status = 500 := by decide +kernel
    have known := all (came "\x7b\"error\": \"\\ud800\"\x7d") asked _ read_asked
    rw [broken] at known
    exact absurd known (by decide)
  · have unsent := all (.unreachable "refused") "http://h" ⟨⟨[.half 0]⟩, .python, none, []⟩
    rw [Codegen.generate_of_not_encodable (by decide +kernel)] at unsent
    cases unsent

end Usual

end Server

end Workflow
