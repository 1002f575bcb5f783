import Workflow.Proofs.Yaml.PlainText
import Workflow.Proofs.Yaml.Tree
import Workflow.Proofs.Yaml.WrittenScalar
import Workflow.Spec.Scalar

/-! Scalars of a specification are written so that a reader gets the same text back: plain ones have
no form of another kind, and the others are in quotes. -/

namespace Workflow

namespace Yaml

/-- Characters that mean nothing special inside of a flow sequence. -/
def IsTame (c : Char) : Prop := c ∉ Spec.Scalar.flowMarks ∧ c ≠ '?'

theorem Plain.ends_of_tame {c : Char} (tame : IsTame c) (rest : List Char) :
    ends true c rest = ends false c rest := by
  have other (d : Char) (special : d ∈ '?' :: Spec.Scalar.flowMarks) : (c == d) = false := by
    apply beq_eq_false_iff_ne.mpr
    intro equal
    subst equal
    rcases List.mem_cons.mp special with question | mark
    · exact tame.2 question
    · exact tame.1 mark
  simp only [ends, isFlowMark, other ':' (by decide), other '?' (by decide), other ',' (by decide),
    other '[' (by decide), other ']' (by decide), other '\x7b' (by decide),
    other '\x7d' (by decide), Bool.false_and, Bool.and_false, Bool.or_self]

theorem Plain.run_of_tame {text : List Char} (tame : ∀ c ∈ text, IsTame c) :
    run true text = run false text := by
  induction text with
  | nil => rfl
  | cons c rest ih =>
      have others := ih fun d member => tame d (List.mem_cons_of_mem _ member)
      rw [run, run, Plain.ends_of_tame (tame c List.mem_cons_self), others]

theorem Plain.Word.of_tame {word : List Char} (first : Word false word)
    (tame : ∀ c ∈ word, IsTame c) : Word true word :=
  ⟨first.filled, first.noComment, (run_of_tame tame).trans first.whole⟩

theorem Plain.Line.of_tame {text : List Char} (line : Line false text)
    (tame : ∀ c ∈ text, IsTame c) : Line true text := by
  induction line with
  | last first => exact .last (first.of_tame tame)
  | more first blanks _ ih =>
      refine .more (first.of_tame fun c member => tame c (List.mem_append_left _ member)) blanks
        (ih fun c member => tame c ?_)
      exact List.mem_append_right _ (List.mem_append_right _ member)

theorem Lexer.startsPlain_of_tame {c : Char} {rest : List Char} (tame : IsTame c)
    (starts : startsPlain false c rest = true) : startsPlain true c rest = true := by
  obtain ⟨marks, question⟩ := tame
  simp only [Spec.Scalar.flowMarks, List.mem_cons, not_or] at marks
  simpa [startsPlain, marks, question] using starts

end Yaml

namespace Spec.Scalar

open Yaml Yaml.Lexer

variable [Host] {flow : Bool} {value : List Char}

/-- Whether a text is written without quotes. -/
def staysPlain (flow : Bool) (value : List Char) : Bool :=
  match needsQuotes flow (Text.ofChars value) with
  | .ok quotes => !quotes
  | .error _ => false

/-- Texts that the format keeps: inside of a flow sequence a question mark must stand between quotes. -/
structure Readable (flow : Bool) (value : List Char) : Prop where
  kept : ∀ c ∈ value, isKept c = true
  noQuestion : flow = true → staysPlain flow value = true → '?' ∉ value

def shape (flow : Bool) (value : List Char) : List Char :=
  if staysPlain flow value then value else Text.quotedChars value

theorem shape_of_write {written : Text} (known : write flow (.ofChars value) = .ok written) :
    written = .ofChars (shape flow value) := by
  obtain ⟨quotes, needed, rfl⟩ := except_map_eq_ok known
  cases quotes <;> simp [shape, staysPlain, needed, Text.quoted_ofChars]

theorem load_of_readsBack {text : Text} (reads : readsBack text = .ok true) :
    ∃ collections, load text = .ok (.text text, collections) := by
  rw [readsBack] at reads
  split at reads
  · rename_i read collections found
    obtain rfl := beq_iff_eq.mp (Except.ok.inj reads)
    exact ⟨collections, found⟩
  · exact absurd (Except.ok.inj reads) (by simp)
  · exact absurd (Except.ok.inj reads) (by simp)
  · exact absurd reads (by simp)

theorem of_staysPlain (plain : staysPlain flow value = true) :
    readsBack (.ofChars value) = .ok true ∧ (flow = true → ∀ c ∈ value, c ∉ flowMarks) := by
  rw [staysPlain] at plain
  split at plain
  · rename_i quotes needed
    obtain rfl : quotes = false := by simpa using plain
    rw [needsQuotes] at needed
    split at needed
    · exact absurd (Except.ok.inj needed) (by simp)
    · rename_i free
      obtain ⟨back, reads, same⟩ := except_map_eq_ok needed
      obtain rfl : back = true := by simpa using same.symm
      refine ⟨reads, ?_⟩
      rintro rfl c member mark
      refine free (Bool.or_eq_true _ _ |>.mpr (.inr ?_))
      rw [Bool.true_and, Text.chars_ofChars]
      exact List.any_eq_true.mpr ⟨c, member, by simpa using mark⟩
  · exact absurd plain (by simp)

theorem readsBack_empty : readsBack "" = .ok false := rfl

theorem allowed_of_staysPlain (plain : staysPlain flow value = true) :
    ∀ c ∈ value, isAllowed c = true := by
  obtain ⟨reads, _⟩ := of_staysPlain plain
  obtain ⟨collections, found⟩ := load_of_readsBack reads
  simpa using allowed_of_load found

theorem isPlainText_of_staysPlain (readable : Readable flow value)
    (plain : staysPlain flow value = true) : IsPlainText value := by
  obtain ⟨reads, _⟩ := of_staysPlain plain
  have filled : Text.ofChars value ≠ "" := by
    intro equal
    rw [equal, readsBack_empty] at reads
    exact absurd reads (by simp)
  obtain ⟨collections, found⟩ := load_of_readsBack reads
  have plain := isPlainText_of_load filled (fun c member => ?_) found
  · rwa [Text.chars_ofChars] at plain
  · have kept := readable.kept c (by rwa [Text.chars_ofChars] at member)
    exact isOrdinary_of_kept kept (allowed_of_load found c member)

theorem written_of_readable (readable : Readable flow value) :
    Written flow value (staysPlain flow value) (shape flow value) := by
  cases plain : staysPlain flow value with
  | false =>
      rw [shape, plain]
      exact .quoted readable.kept
  | true =>
      obtain ⟨line, ⟨c, rest, same, noMark, starts⟩, _⟩ := isPlainText_of_staysPlain readable plain
      rw [shape, plain]
      cases flow with
      | false => exact .plain same noMark starts line
      | true =>
          have tame : ∀ d ∈ value, IsTame d := fun d member =>
            ⟨(of_staysPlain plain).2 rfl d member, fun question =>
              readable.noQuestion rfl plain (question ▸ member)⟩
          have first : c ∈ value := same ▸ List.mem_cons_self
          exact .plain same noMark (startsPlain_of_tame (tame c first) starts) (line.of_tame tame)

theorem scalarTag_of_readable (readable : Readable flow value) :
    Reading.scalarTag none (staysPlain flow value) (.ofChars value) = .str := by
  cases plain : staysPlain flow value with
  | false => rfl
  | true =>
      rw [Reading.scalarTag_plain]
      exact (isPlainText_of_staysPlain readable plain).noForm

end Spec.Scalar

end Workflow
