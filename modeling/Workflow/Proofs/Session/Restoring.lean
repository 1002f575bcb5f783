import Workflow.Proofs.Graph.NormalForm
import Workflow.Proofs.Session.InStep
import Workflow.Proofs.Spec.TextRoundTrip

/-! Restoring a session: first its settings, then its graph. What was committed over a store is loaded
from it by a new session to the same specification. -/

namespace Workflow

theorem Spec.Document.config_of_toGraph {document : Spec.Document} {decoded : Decoded}
    (found : document.toGraph = .ok decoded) : decoded.config = document.config := by
  obtain ⟨labels, groups, read, counted, _⟩ := parts_of_toGraph found
  rw [toGraph_of_parts read counted] at found
  rw [← Except.ok.inj found]

namespace Session

variable {session restored : Session} {store : Store} {config other : Spec.Config}

theorem exists_record {config : Spec.Config}
    (encodable : ∀ field ∈ config.entries, field.2.isEncodable = true) :
    ∃ record, (configRecord config).dump? = some record := by
  have named : ∀ field ∈ config.entries, field.1.isEncodable = true := by
    simp [Spec.Config.entries]
  have whole : (configRecord config).isEncodable = true := by
    refine Json.isEncodable_textTable.mpr fun field member => ?_
    have inside := List.mem_of_mem_filter member
    exact ⟨named field inside, encodable field inside⟩
  exact ⟨_, if_pos whole⟩

variable [Host]

theorem loaded_of_restoreSpec (blank : session.spec = "") (filled : session.restoreSpec.1.spec ≠ "") :
    ∃ text decoded, session.store.get? Store.specKey = some text ∧
      Graph.decode text = .ok decoded ∧ session.restoreSpec.1.graph = decoded.graph := by
  rcases restoreSpec_cases session with same | ⟨text, stored, _, loaded, _⟩
  · rw [same] at filled
    exact absurd blank filled
  · rw [loaded] at filled ⊢
    rcases load_cases text session with
      ⟨fault, _, refused⟩ | ⟨decoded, spec, found, _, ⟨_, raised⟩ | ⟨record, _, done⟩⟩
    · rw [refused] at filled
      exact absurd blank filled
    · rw [raised]
      exact ⟨text, decoded, stored, found, rfl⟩
    · rw [done]
      exact ⟨text, decoded, stored, found, rfl⟩

theorem loaded_of_restore (blank : session.spec = "")
    (done : session.restore = (restored, .ok ())) (filled : restored.spec ≠ "") :
    ∃ text decoded, session.store.get? Store.specKey = some text ∧
      Graph.decode text = .ok decoded ∧ restored.graph = decoded.graph := by
  obtain ⟨reached, same, ⟨fault, _, stopped⟩ | led⟩ := restore_cases session
  · rw [stopped] at done
    cases done
  · rw [led] at done
    have loaded := @loaded_of_restoreSpec reached _ (same.spec.trans blank)
    rw [done, same.store] at loaded
    exact loaded filled

theorem restoreSettings_bare
    (bare : ∀ key ∈ [Store.configKey, Store.languageKey, Store.skipKey, Store.templatesKey],
      store.get? key = none) :
    (start store other).restoreSettings = (start store other, .ok ()) := by
  have config : (start store other).store.get? Store.configKey = none := bare _ (by decide)
  have language : (start store other).store.get? Store.languageKey = none := bare _ (by decide)
  have skip : (start store other).store.get? Store.skipKey = none := bare _ (by decide)
  have templates : (start store other).store.get? Store.templatesKey = none := bare _ (by decide)
  have noSkip : (start store other).restoreSkip = (start store other, .ok ()) := by
    rw [restoreSkip, readStored, skip]
    rfl
  have noTemplates : (start store other).restoreTemplates = (start store other, .ok ()) := by
    rw [restoreTemplates, readStored, templates]
    rfl
  rw [restoreSettings, restoreConfig_of_kept (.inl ⟨config, language⟩)]
  simp only [andThen, restoreLanguage_of_kept (.inl ⟨config, language⟩), noSkip, noTemplates]

/-- The specification that a session has committed is loaded again as it is. -/
theorem restore_committed (committed : session.Committed) {document : Spec.Document}
    (projected : session.graph.toDocument session.config = .ok document)
    (readable : document.IsReadable) (distinct : session.graph.nodeIds.Nodup)
    (countable : ∀ edge ∈ session.graph.edges, ∀ condition ∈ edge.condition,
      Spec.Document.IsCountable condition)
    (settled : (start session.store other).restoreSettings = (start session.store other, .ok ())) :
    ∃ restored, (start session.store other).restore = (restored, .ok ()) ∧
      restored.spec = session.spec := by
  obtain ⟨written, made, text⟩ := Graph.encode_eq_ok_iff.mp committed.spec
  obtain rfl := Except.ok.inj (projected.symm.trans made)
  obtain ⟨decoded, rebuilt, again⟩ := Graph.toDocument_rebuilt projected distinct countable
  have found : Graph.decode session.spec = .ok decoded := by
    rw [Graph.decode, Spec.parse_of_spelled readable.spelled text,
      Spec.Config.filled_of_named readable.named]
    exact rebuilt
  have encoded : decoded.graph.encode decoded.config none = .ok session.spec := by
    obtain ⟨entry, terminal, owner, _, rfl⟩ := Graph.toDocument_eq_ok_iff.mp projected
    rw [Spec.Document.config_of_toGraph rebuilt]
    exact Graph.encode_eq_ok_iff.mpr ⟨_, again, text⟩
  rw [restore_eq, settled, andThen, restoreSpec]
  rw [show (start session.store other).store.get? Store.specKey = some session.spec
    from committed.stored]
  dsimp only
  rw [if_neg (Graph.encode_ne_empty committed.spec)]
  have same : decoded.config = document.config := Spec.Document.config_of_toGraph rebuilt
  obtain ⟨record, dumped⟩ : ∃ record, (configRecord decoded.config).dump? = some record := by
    refine exists_record fun field member => ?_
    rw [same] at member
    exact Text.isEncodable_of_all
      (readable.ordinary _ (Spec.Document.mem_texts_of_field member))
  rw [load_of_decode found encoded dumped]
  exact ⟨_, rfl, rfl⟩

theorem exists_restored {operation : Operation} (works : session.store.Works)
    (commits : operation.commits = true) {graph : Graph}
    (facts : (session.perform operation).2.isOk = true ∧ (session.perform operation).1.graph = graph ∧
      (session.perform operation).1.config = config ∧
      (session.perform operation).1.store.values.keys = [Store.specKey, Store.labelsKey])
    {document : Spec.Document} (projected : graph.toDocument config = .ok document)
    (readable : document.IsReadable) (distinct : graph.nodeIds.Nodup)
    (countable : ∀ edge ∈ graph.edges, ∀ condition ∈ edge.condition,
      Spec.Document.IsCountable condition) :
    ∃ after outcome restored, session.perform operation = (after, .ok outcome) ∧
      after.Committed ∧ after.graph = graph ∧
      after.graph.toDocument after.config = .ok document ∧
      (start after.store config).restore = (restored, .ok ()) ∧ restored.spec ≠ "" := by
  have ran := commits_perform commits session
  cases done : session.perform operation with
  | mk after result =>
      rw [done] at ran facts
      obtain ⟨ok, rfl, rfl, keys⟩ := facts
      obtain ⟨outcome, rfl⟩ : ∃ outcome, result = .ok outcome := by
        cases result with
        | error fault => cases ok
        | ok outcome => exact ⟨outcome, rfl⟩
      have committed := ran.committed works
      have bare : ∀ key ∈ [Store.configKey, Store.languageKey, Store.skipKey, Store.templatesKey],
          after.store.get? key = none := by
        intro key member
        apply Table.get?_eq_none_iff.mpr
        rw [keys]
        revert key
        decide
      obtain ⟨restored, restoring, same⟩ := @restore_committed after after.config _ committed
        document projected readable distinct countable (restoreSettings_bare bare)
      have filled : restored.spec ≠ "" := same ▸ Graph.encode_ne_empty committed.spec
      exact ⟨after, outcome, restored, rfl, committed, rfl, projected, restoring, filled⟩

end Session

end Workflow
