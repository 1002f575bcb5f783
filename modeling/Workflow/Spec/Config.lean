import Workflow.Check.Field

/-! The naming fields of a specification, in the order in which they are written. -/

namespace Workflow

inductive Language where
  | python
  | typescript
  deriving DecidableEq, Repr

namespace Language

def word : Language → Text
  | python => "python"
  | typescript => "typescript"

def choices : List (Text × Language) := [("python", python), ("typescript", typescript)]

def ofWord? (word : Text) : Option Language := choices.lookup word

/-- The ending of generated files; a word that is no language has the first one. -/
def extension (word : Text) : Text := if word = "typescript" then ".ts" else ".py"

theorem ofWord?_word (language : Language) : ofWord? language.word = some language := by
  cases language <;> decide

theorem word_of_ofWord? {word : Text} {language : Language} (found : ofWord? word = some language) :
    language.word = word := by
  simp only [ofWord?, choices, List.lookup_cons, List.lookup_nil] at found
  split at found
  · rename_i same
    obtain rfl := Option.some.inj found
    exact (beq_iff_eq.mp same).symm
  · split at found
    · rename_i same
      obtain rfl := Option.some.inj found
      exact (beq_iff_eq.mp same).symm
    · exact absurd found (by simp)

end Language

namespace Spec

structure Config where
  name : Text
  builderName : Text
  compiledName : Text
  config : Text
  state : Text
  input : Text
  output : Text
  implementation : Text
  language : Language
  prompts : Text
  pipeline : Text
  tools : Text
  deriving DecidableEq, Repr

namespace Config

def standard : Config where
  name := "CustomAgent"
  builderName := "builder"
  compiledName := "graph"
  config := "config.Configuration"
  state := "state.State"
  input := "state.InputState"
  output := "Any"
  implementation := "implementation.IMPLEMENTATION"
  language := .python
  prompts := "prompts.Prompts"
  pipeline := "pipeline.Pipeline"
  tools := "tools.Tools"

def keys : List Text :=
  ["name", "builder_name", "compiled_name", "config", "state", "input", "output",
    "implementation", "language", "prompts", "pipeline", "tools"]

def entries (config : Config) : Table Text :=
  [("name", config.name), ("builder_name", config.builderName),
    ("compiled_name", config.compiledName), ("config", config.config), ("state", config.state),
    ("input", config.input), ("output", config.output),
    ("implementation", config.implementation), ("language", config.language.word),
    ("prompts", config.prompts), ("pipeline", config.pipeline), ("tools", config.tools)]

theorem keys_entries (config : Config) : config.entries.keys = keys := rfl

/-- A configuration from texts; what is left out, and an unknown language, are the standard ones. -/
def ofEntries (entries : Table Text) : Config :=
  let field (key : Text) (default : Text) : Text := (entries.get? key).getD default
  { name := field "name" standard.name
    builderName := field "builder_name" standard.builderName
    compiledName := field "compiled_name" standard.compiledName
    config := field "config" standard.config
    state := field "state" standard.state
    input := field "input" standard.input
    output := field "output" standard.output
    implementation := field "implementation" standard.implementation
    language := ((entries.get? "language").bind Language.ofWord?).getD standard.language
    prompts := field "prompts" standard.prompts
    pipeline := field "pipeline" standard.pipeline
    tools := field "tools" standard.tools }

theorem ofEntries_entries (config : Config) : ofEntries config.entries = config := by
  cases config
  rename_i language _ _ _
  cases language <;> rfl

def toJson (config : Config) : Json := Json.textTable config.entries

def ofFields (fields : Table Json) : Checked Config :=
  let field (key : Text) (default : Text) : Checked Text :=
    Check.withDefault key default Check.text fields
  .ok Config.mk
    |> Checked.arg (field "name" standard.name)
    |> Checked.arg (field "builder_name" standard.builderName)
    |> Checked.arg (field "compiled_name" standard.compiledName)
    |> Checked.arg (field "config" standard.config)
    |> Checked.arg (field "state" standard.state)
    |> Checked.arg (field "input" standard.input)
    |> Checked.arg (field "output" standard.output)
    |> Checked.arg (field "implementation" standard.implementation)
    |> Checked.arg
      (Check.withDefault "language" standard.language (Check.oneOf Language.choices) fields)
    |> Checked.arg (field "prompts" standard.prompts)
    |> Checked.arg (field "pipeline" standard.pipeline)
    |> Checked.arg (field "tools" standard.tools)
    |> Checked.also (Check.noOthers keys fields)

def ofJson (otherwise : Problem) (value : Json) : Checked Config :=
  match Check.fields otherwise value with
  | .ok fields => ofFields fields
  | .error issues => .error issues

theorem ofJson_toJson (otherwise : Problem) (config : Config) :
    ofJson otherwise config.toJson = .ok config := by
  cases config
  rename_i language _ _ _
  cases language <;> rfl

end Config

end Spec

end Workflow
