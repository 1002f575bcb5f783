import Workflow.Table

/-! Stored texts. Any single write may be refused; removing and reading always work. -/

namespace Workflow

inductive StoreFault where
  | refused
  deriving DecidableEq, Repr

structure Store where
  values : Table Text
  /-- Whether the write after so many others is refused. -/
  refuses : Nat → Bool

namespace Store

def ofTable (values : Table Text) : Store := ⟨values, fun _ => false⟩

def get? (key : Text) (store : Store) : Option Text := store.values.get? key

def set (key value : Text) (store : Store) : Store × Except StoreFault Unit :=
  if store.refuses 0 then
    ({ store with refuses := fun count => store.refuses (count + 1) }, .error .refused)
  else
    (⟨store.values.put key value, fun count => store.refuses (count + 1)⟩, .ok ())

/-- Writes a text and catches the refusal, which loses only this text. -/
def put (key value : Text) (store : Store) : Store :=
  match store.set key value with
  | (store, .ok ()) => store
  | (store, .error .refused) => store

def delete (key : Text) (store : Store) : Store := { store with values := store.values.erase key }

def clear (store : Store) : Store := { store with values := [] }

def specKey : Text := "flowspec-yaml-spec"
def labelsKey : Text := "flowspec-edge-labels"
def configKey : Text := "flowspec-graph-config"
def languageKey : Text := "flowspec-language"
def skipKey : Text := "flowspec-skip-templates"
def templatesKey : Text := "flowspec-custom-templates"

def sessionKeys : List Text :=
  [specKey, labelsKey, configKey, languageKey, skipKey, templatesKey]

theorem specKey_ne_labelsKey : specKey ≠ labelsKey := by decide +kernel

theorem specKey_ne_configKey : specKey ≠ configKey := by decide +kernel

theorem specKey_ne_languageKey : specKey ≠ languageKey := by decide +kernel

theorem labelsKey_ne_configKey : labelsKey ≠ configKey := by decide +kernel

theorem labelsKey_ne_languageKey : labelsKey ≠ languageKey := by decide +kernel

theorem configKey_ne_languageKey : configKey ≠ languageKey := by decide +kernel

theorem get?_put_self {key value : Text} {store : Store} (accepted : store.refuses 0 = false) :
    (store.put key value).get? key = some value := by
  simp [put, set, accepted, get?, Table.get?_put_self]

theorem get?_put_of_ne {key other : Text} (different : other ≠ key) (value : Text)
    (store : Store) : (store.put key value).get? other = store.get? other := by
  unfold put set
  cases store.refuses 0 <;> simp [get?, Table.get?_put_of_ne different]

end Store

end Workflow
