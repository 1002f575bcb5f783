import Mathlib.Data.List.DropRight
import Mathlib.Data.List.TFAE
import Mathlib.Tactic.TFAE
import Workflow.Codegen.Client

/-! Addresses with endings pasted behind them. Every address is a bare one with slashes and endpoint
names behind it. Cleaning takes off the slashes at the end, then one name of each endpoint, and so
comes to the bare address if and only if nothing else was pasted. -/

namespace Workflow.Codegen

/-- What tends to be pasted behind an address. -/
inductive Ending where
  | slash
  | generate
  | templates
  deriving DecidableEq, Repr

def Ending.text : Ending → Text
  | slash => "/"
  | generate => "/generate"
  | templates => "/templates"

/-- An address with no ending behind it. -/
def Bare (address : Text) : Prop := ∀ ending : Ending, ¬ ending.text.letters <:+ address.letters

def pasted (base : Text) (endings : List Ending) : Text :=
  endings.foldl (fun address ending => address ++ ending.text) base

def dropLastIf (ending : Ending) (endings : List Ending) : List Ending :=
  if endings.getLast? = some ending then endings.dropLast else endings

/-- What is left of pasted endings: the slashes at the end go, and then one name of each endpoint. -/
def remaining (endings : List Ending) : List Ending :=
  dropLastIf .templates (dropLastIf .generate (endings.rdropWhile (· == .slash)))

/-- At most one name of each endpoint, that of the templates first, and slashes at the end only. -/
def Tidy (endings : List Ending) : Prop :=
  ∃ named ∈ [[], [.generate], [.templates], [.templates, .generate]], ∃ count,
    endings = named ++ List.replicate count Ending.slash

variable {base address : Text} {endings : List Ending} {ending : Ending}

theorem bare_iff : Bare address ↔ ¬ Ending.slash.text.letters <:+ address.letters ∧
    ¬ Ending.generate.text.letters <:+ address.letters ∧
    ¬ Ending.templates.text.letters <:+ address.letters := by
  constructor
  · exact fun bare => ⟨bare .slash, bare .generate, bare .templates⟩
  · rintro ⟨slash, generate, templates⟩ (_ | _ | _)
    · exact slash
    · exact generate
    · exact templates

instance : Decidable (Bare address) := decidable_of_iff _ bare_iff.symm

theorem pasted_concat : pasted base (endings ++ [ending]) = pasted base endings ++ ending.text :=
  List.foldl_append

theorem letters_pasted_concat : (pasted base (endings ++ [ending])).letters =
    (pasted base endings).letters ++ ending.text.letters := by
  rw [pasted_concat, Text.letters_append]

theorem Ending.eq_of_suffix {other : Ending} (ends : ending.text.letters <:+ other.text.letters) :
    ending = other := by
  cases ending <;> cases other <;> first | rfl | exact absurd ends (by decide +kernel)

theorem suffix_pasted_iff (bare : Bare base) (ending : Ending) :
    ending.text.letters <:+ (pasted base endings).letters ↔ endings.getLast? = some ending := by
  rcases endings.eq_nil_or_concat' with rfl | ⟨rest, last, rfl⟩
  · exact iff_of_false (bare ending) (by simp)
  · rw [letters_pasted_concat, List.getLast?_concat, Option.some.injEq]
    constructor
    · intro ends
      -- of two endings of one text, one is an ending of the other
      rcases List.suffix_or_suffix_of_suffix ends (List.suffix_append _ _) with inner | outer
      · exact (Ending.eq_of_suffix inner).symm
      · exact Ending.eq_of_suffix outer
    · rintro rfl
      exact List.suffix_append _ _

theorem bare_pasted_iff (bare : Bare base) : Bare (pasted base endings) ↔ endings = [] := by
  constructor
  · intro clean
    rw [← List.getLast?_eq_none_iff, Option.eq_none_iff_forall_ne_some]
    exact fun ending last => clean ending ((suffix_pasted_iff bare ending).mpr last)
  · rintro rfl
    exact bare

theorem pasted_inj {other : Text} {others : List Ending} (bare : Bare base) (bareOther : Bare other)
    (same : pasted base endings = pasted other others) : base = other ∧ endings = others := by
  induction endings using List.reverseRecOn generalizing others with
  | nil =>
      have clean : Bare (pasted other others) := same ▸ bare
      obtain rfl := (bare_pasted_iff bareOther).mp clean
      exact ⟨same, rfl⟩
  | append_singleton rest last ih =>
      have ends : others.getLast? = some last := by
        rw [← suffix_pasted_iff bareOther, ← same, suffix_pasted_iff bare, List.getLast?_concat]
      obtain ⟨others, rfl⟩ := List.getLast?_eq_some_iff.mp ends
      rw [pasted_concat, pasted_concat, Text.append_left_inj] at same
      obtain ⟨rfl, rfl⟩ := ih same
      exact ⟨rfl, rfl⟩

theorem exists_pasted (address : Text) :
    ∃ base endings, Bare base ∧ address = pasted base endings := by
  induction size : address.letters.length using Nat.strong_induction_on generalizing address with
  | _ length ih =>
      by_cases bare : Bare address
      · exact ⟨address, [], bare, rfl⟩
      · simp only [Bare, not_forall, not_not] at bare
        obtain ⟨ending, start, split⟩ := bare
        have shorter : start.length < length := by
          rw [← size, ← split, List.length_append]
          cases ending <;> simp [Ending.text]
        obtain ⟨base, endings, clean, same⟩ :=
          ih _ shorter ⟨start⟩ rfl
        refine ⟨base, endings ++ [ending], clean, ?_⟩
        rw [pasted_concat, ← same]
        exact Text.ext split.symm

theorem dropLastIf_concat (ending : Ending) (endings : List Ending) :
    dropLastIf ending (endings ++ [ending]) = endings := by
  rw [dropLastIf, if_pos List.getLast?_concat, List.dropLast_concat]

theorem dropLastIf_of_ne {other : Ending} (different : other ≠ ending) :
    dropLastIf ending (endings ++ [other]) = endings ++ [other] := by
  rw [dropLastIf, if_neg]
  rwa [List.getLast?_concat, Option.some.injEq]

theorem dropEnding_append (address ending : Text) :
    dropEnding ending (address ++ ending) = address := by
  rw [dropEnding, Text.letters_append, if_pos (List.isSuffixOf_iff_suffix.mpr (List.suffix_append _ _)),
    List.length_append, Nat.add_sub_cancel, List.take_left]

theorem dropEnding_of_not_suffix {ending : Text} (other : ¬ ending.letters <:+ address.letters) :
    dropEnding ending address = address := by
  rw [dropEnding, if_neg (by rwa [List.isSuffixOf_iff_suffix])]

theorem dropEnding_pasted (bare : Bare base) (ending : Ending) (endings : List Ending) :
    dropEnding ending.text (pasted base endings) = pasted base (dropLastIf ending endings) := by
  by_cases last : endings.getLast? = some ending
  · obtain ⟨rest, rfl⟩ := List.getLast?_eq_some_iff.mp last
    rw [dropLastIf_concat, pasted_concat, dropEnding_append]
  · rw [dropLastIf, if_neg last]
    exact dropEnding_of_not_suffix fun ends => last ((suffix_pasted_iff bare ending).mp ends)

theorem dropSlashes_append (address : Text) :
    dropSlashes (address ++ Ending.slash.text) = dropSlashes address :=
  Text.ext (List.rdropWhile_concat_pos _ _ _ rfl)

theorem dropSlashes_of_not_suffix (other : ¬ Ending.slash.text.letters <:+ address.letters) :
    dropSlashes address = address := by
  refine Text.ext (List.rdropWhile_eq_self_iff.mpr fun filled last => other ?_)
  have slash : address.letters.getLast filled = .char '/' := by simpa using last
  rw [← List.dropLast_append_getLast filled, slash]
  exact List.suffix_append _ _

theorem dropSlashes_pasted (bare : Bare base) :
    dropSlashes (pasted base endings) = pasted base (endings.rdropWhile (· == .slash)) := by
  induction endings using List.reverseRecOn with
  | nil => exact dropSlashes_of_not_suffix (bare .slash)
  | append_singleton rest last ih =>
      by_cases slash : last = .slash
      · subst slash
        rw [List.rdropWhile_concat_pos _ _ _ rfl, ← ih, pasted_concat]
        exact dropSlashes_append _
      · rw [List.rdropWhile_concat_neg _ _ _ (by simpa using slash)]
        refine dropSlashes_of_not_suffix fun ends => slash ?_
        have found := (suffix_pasted_iff bare .slash).mp ends
        rwa [List.getLast?_concat, Option.some.injEq] at found

theorem baseAddress_pasted (bare : Bare base) (endings : List Ending) :
    baseAddress (pasted base endings) = pasted base (remaining endings) := by
  have generate := dropEnding_pasted bare .generate (endings.rdropWhile (· == .slash))
  have templates := dropEnding_pasted bare .templates
    (dropLastIf .generate (endings.rdropWhile (· == .slash)))
  simp only [Ending.text] at generate templates
  rw [baseAddress, dropSlashes_pasted bare, generate, templates, remaining]

theorem eq_of_dropLastIf {rest : List Ending} (left : dropLastIf ending endings = rest) :
    endings = rest ++ [ending] ∨ endings = rest := by
  by_cases last : endings.getLast? = some ending
  · obtain ⟨start, rfl⟩ := List.getLast?_eq_some_iff.mp last
    rw [dropLastIf_concat] at left
    exact .inl (by rw [left])
  · rw [dropLastIf, if_neg last] at left
    exact .inr left

theorem length_dropLastIf_le (ending : Ending) (endings : List Ending) :
    (dropLastIf ending endings).length ≤ endings.length := by
  rw [dropLastIf]
  split
  · rw [List.length_dropLast]
    exact Nat.sub_le _ _
  · exact Nat.le_refl _

theorem rdropWhile_slashes_iff {named : List Ending} (other : named.getLast? ≠ some .slash) :
    endings.rdropWhile (· == .slash) = named ↔
      ∃ count, endings = named ++ List.replicate count Ending.slash := by
  constructor
  · rintro rfl
    have slashes : ∀ ending ∈ endings.rtakeWhile (· == .slash), ending = .slash :=
      fun ending member => by simpa using List.mem_rtakeWhile_imp member
    refine ⟨(endings.rtakeWhile (· == .slash)).length, ?_⟩
    rw [← List.eq_replicate_iff.mpr ⟨rfl, slashes⟩, List.rdropWhile_append_rtakeWhile]
  · rintro ⟨count, rfl⟩
    induction count with
    | zero =>
        rw [List.replicate_zero, List.append_nil, List.rdropWhile_eq_self_iff]
        intro filled slash
        rw [List.getLast?_eq_some_getLast filled] at other
        exact other (by simpa using slash)
    | succ count ih =>
        rw [List.replicate_succ', ← List.append_assoc, List.rdropWhile_concat_pos _ _ _ rfl, ih]

theorem names_dropped_iff : dropLastIf .templates (dropLastIf .generate endings) = [] ↔
    endings ∈ [[], [.generate], [.templates], [.templates, .generate]] := by
  simp only [List.mem_cons, List.not_mem_nil, or_false]
  constructor
  · intro gone
    rcases eq_of_dropLastIf gone with templates | nothing
    · rcases eq_of_dropLastIf templates with rfl | rfl
      · exact .inr (.inr (.inr rfl))
      · exact .inr (.inr (.inl rfl))
    · rcases eq_of_dropLastIf nothing with rfl | rfl
      · exact .inr (.inl rfl)
      · exact .inl rfl
  · rintro (rfl | rfl | rfl | rfl) <;> rfl

theorem remaining_eq_nil_iff : remaining endings = [] ↔ Tidy endings := by
  have unslashed : ∀ named ∈ [[], [.generate], [.templates], [.templates, .generate]],
      named.getLast? ≠ some Ending.slash := by decide
  rw [remaining, names_dropped_iff]
  constructor
  · exact fun named => ⟨_, named, (rdropWhile_slashes_iff (unslashed _ named)).mp rfl⟩
  · rintro ⟨named, member, slashes⟩
    rwa [(rdropWhile_slashes_iff (unslashed named member)).mpr slashes]

theorem length_remaining_concat (ending : Ending) (endings : List Ending) :
    (remaining (endings ++ [ending])).length ≤ endings.length := by
  rw [remaining]
  cases ending with
  | slash =>
      rw [List.rdropWhile_concat_pos _ _ _ rfl]
      calc
        _ ≤ (dropLastIf .generate (endings.rdropWhile (· == .slash))).length :=
          length_dropLastIf_le _ _
        _ ≤ (endings.rdropWhile (· == .slash)).length := length_dropLastIf_le _ _
        _ ≤ endings.length := (List.rdropWhile_prefix _ _).length_le
  | generate =>
      rw [List.rdropWhile_concat_neg _ _ _ (by decide), dropLastIf_concat]
      exact length_dropLastIf_le _ _
  | templates =>
      rw [List.rdropWhile_concat_neg _ _ _ (by decide), dropLastIf_of_ne (by decide),
        dropLastIf_concat]

theorem remaining_eq_self_iff : remaining endings = endings ↔ endings = [] := by
  constructor
  · intro same
    rcases endings.eq_nil_or_concat' with rfl | ⟨rest, last, rfl⟩
    · rfl
    · have shorter := length_remaining_concat last rest
      rw [same, List.length_append, List.length_singleton] at shorter
      omega
  · rintro rfl
    rfl

/-- An address is one bare address with endings behind it. Cleaning leaves some of them; it comes to the
bare address, to a bare one at all, and to one that cleaning no longer changes, if and only if the
endings are tidy. -/
theorem base_of_address [Host] (address : Text) :
    (∃! parts : Text × List Ending, Bare parts.1 ∧ address = pasted parts.1 parts.2) ∧
    ∀ base endings, Bare base → address = pasted base endings →
      [Tidy endings, baseAddress address = base, Bare (baseAddress address),
        baseAddress (baseAddress address) = baseAddress address].TFAE ∧
      baseAddress address = pasted base (remaining endings) ∧
      (∀ request outcome,
        ((Client.ofAddress address).generate request outcome).calls.map Call.address =
          if request.payload.isEncodable then [pasted base (remaining endings) ++ "/generate"]
          else []) ∧
      ∀ outcome, ((Client.ofAddress address).listTemplates outcome).calls.map Call.address =
        [pasted base (remaining endings) ++ "/templates"] := by
  constructor
  · obtain ⟨base, endings, bare, rfl⟩ := exists_pasted address
    refine ⟨(base, endings), ⟨bare, rfl⟩, ?_⟩
    rintro ⟨other, others⟩ ⟨bareOther, same⟩
    obtain ⟨rfl, rfl⟩ := pasted_inj bare bareOther same
    rfl
  · rintro base endings bare rfl
    have cleaned := baseAddress_pasted bare endings
    have again := baseAddress_pasted bare (remaining endings)
    have same (left right : List Ending) : pasted base left = pasted base right ↔ left = right :=
      ⟨fun equal => (pasted_inj bare bare equal).2, fun equal => by rw [equal]⟩
    refine ⟨?_, cleaned, fun request outcome => ?_, fun outcome => ?_⟩
    · tfae_have 1 ↔ 2 := by
        rw [cleaned, ← remaining_eq_nil_iff]
        exact (same (remaining endings) []).symm
      tfae_have 1 ↔ 3 := by rw [cleaned, bare_pasted_iff bare, remaining_eq_nil_iff]
      tfae_have 1 ↔ 4 := by
        rw [cleaned, again, same, remaining_eq_self_iff, remaining_eq_nil_iff]
      tfae_finish
    · rw [← cleaned, Client.generate]
      split <;> rfl
    · rw [← cleaned]
      rfl

section Usual

attribute [local instance] Host.usual

/-- Both names are taken off where that of the templates comes first; in the other order one stays. -/
theorem base_of_address_ordered :
    let tidy : List Ending := [.templates, .generate, .slash, .slash]
    let reversed : List Ending := [.generate, .templates, .slash]
    Bare "http://h" ∧
      "http://h/templates/generate//" = pasted "http://h" tidy ∧
      (∀ outcome, ((Client.ofAddress "http://h/templates/generate//").listTemplates
        outcome).calls.map Call.address = ["http://h/templates"]) ∧
      baseAddress (baseAddress "http://h/templates/generate//") =
        baseAddress "http://h/templates/generate//" ∧
      "http://h/generate/templates/" = pasted "http://h" reversed ∧
      baseAddress "http://h/generate/templates/" = "http://h/generate" ∧
      ¬ Bare (baseAddress "http://h/generate/templates/") := by
  intro tidy reversed
  have bare : Bare "http://h" := by decide +kernel
  obtain ⟨forms, _, _, listing⟩ :=
    (base_of_address "http://h/templates/generate//").2 "http://h" tidy bare rfl
  obtain ⟨others, cleaned, _, _⟩ :=
    (base_of_address "http://h/generate/templates/").2 "http://h" reversed bare rfl
  have isTidy : Tidy tidy := ⟨[.templates, .generate], by decide, 2, rfl⟩
  have untidy : baseAddress "http://h/generate/templates/" ≠ "http://h" := by decide +kernel
  refine ⟨bare, rfl, listing, (forms.out 0 3).mp isTidy, rfl, cleaned, ?_⟩
  exact fun clean => untidy ((others.out 2 1).mp clean)

end Usual

/-- A slash in front of the name of an endpoint stays behind when the name is taken off. -/
theorem slash_before_name_stays :
    Bare "http://h" ∧ "http://h//generate" = pasted "http://h" [.slash, .generate] ∧
      baseAddress "http://h//generate" = "http://h/" ∧ ¬ Bare "http://h/" ∧
      baseAddress "http://h/" = "http://h" ∧
      ¬ ∀ base endings, Bare base → baseAddress (pasted base endings) = base := by
  have bare : Bare "http://h" := by decide +kernel
  have slashed : baseAddress "http://h//generate" = "http://h/" := by decide +kernel
  refine ⟨bare, rfl, slashed, by decide +kernel, by decide +kernel, fun all => ?_⟩
  exact absurd (slashed.symm.trans (all "http://h" [.slash, .generate] bare)) (by decide)

end Workflow.Codegen
