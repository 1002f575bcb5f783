import Workflow.Spec.Config

/-! Addresses of the code generation service, and names of the files that it generates. -/

namespace Workflow.Codegen

def standardAddress : Text := "http://localhost:8001"

def dropSlashes (address : Text) : Text :=
  ⟨(address.letters.reverse.dropWhile (· == .char '/')).reverse⟩

def dropEnding (ending address : Text) : Text :=
  if ending.letters.isSuffixOf address.letters then
    ⟨address.letters.take (address.letters.length - ending.letters.length)⟩
  else address

/-- The address without the slashes and the endpoint names that tend to be pasted with it. -/
def baseAddress (address : Text) : Text :=
  dropEnding "/templates" (dropEnding "/generate" (dropSlashes address))

def fileName (templateType language : Text) : Text := templateType ++ Language.extension language

example : baseAddress "http://h/templates/generate/" = "http://h" := by decide +kernel
example : baseAddress "http://h/generate/generate" = "http://h/generate" := by decide +kernel

end Workflow.Codegen
