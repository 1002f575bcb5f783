import Workflow.Proofs.Yaml.BlockLine
import Workflow.Proofs.Yaml.NodeText

/-! Texts that are read as themselves: each is a single plain scalar, on one line and with no form of
another kind. -/

namespace Workflow.Yaml

namespace Lexer

variable {text : List Char} {c : Char} {rest : List Char}

theorem solid_of_startsPlain (noMark : c ≠ byteOrderMark) (starts : startsPlain false c rest = true) :
    Solid (c :: rest) := by
  obtain ⟨inside, noComment⟩ := inside_of_startsPlain starts
  obtain ⟨blank, _, ordinary⟩ := Plain.not_blank_of_inside inside
  exact solid_cons blank noComment ordinary noMark

theorem dropStale_start (solid : Solid text) : (start text).toToken.dropStale = .ok (start text) :=
  (congrArg dropStale (toToken_solid solid)).trans (dropStale_block _ _ _ _)

theorem run_start {after : Lexer} (solid : Solid (c :: rest))
    (fetched : (start (c :: rest)).fetch c rest = .ok after) (fuel : Nat) :
    run (fuel + 1) (start (c :: rest)) = run fuel after := by
  have kept : (start (c :: rest)).closeBlocks (start (c :: rest)).cursor.column = start (c :: rest) :=
    @closeBlocks_block [] 0 (by simp) _ rfl
  have here : (start (c :: rest)).cursor.rest = c :: rest := rfl
  simp only [run, dropStale_start solid, kept, here, fetched]

theorem atDivider_eq_true (divides : atDivider text = true) :
    ∃ mark rest, text = mark :: mark :: mark :: rest ∧ (mark = '-' ∨ mark = '.') := by
  rcases text with _ | ⟨first, _ | ⟨second, _ | ⟨third, rest⟩⟩⟩
  · exact absurd divides (by decide)
  · exact absurd divides (by simp [atDivider])
  · exact absurd divides (by simp [atDivider])
  · simp only [atDivider, Bool.and_eq_true, Bool.or_eq_true, beq_iff_eq] at divides
    rcases divides.1 with same | same <;> obtain ⟨rfl, rfl, rfl, _⟩ := by simpa using same
    · exact ⟨'-', rest, rfl, .inl rfl⟩
    · exact ⟨'.', rest, rfl, .inr rfl⟩

theorem not_divider_of_scan {plain : Bool} (solid : Solid text)
    (member : .scalar (.ofChars text) plain ∈ (Token.scan text).tokens) : atDivider text = false := by
  apply Bool.eq_false_iff.mpr
  intro divides
  obtain ⟨mark, rest, rfl, known⟩ := atDivider_eq_true divides
  obtain ⟨token, fetched, different⟩ : ∃ token,
      (start (mark :: mark :: mark :: rest)).fetch mark (mark :: mark :: rest) =
        (start (mark :: mark :: mark :: rest)).documentMark token ∧ token.size = 0 := by
    rcases known with rfl | rfl
    · exact ⟨.documentStart, by simp [fetch, start, Cursor.start, divides], rfl⟩
    · exact ⟨.documentEnd, by simp [fetch, start, Cursor.start, divides], rfl⟩
  obtain ⟨after, marked⟩ : ∃ after,
      (start (mark :: mark :: mark :: rest)).documentMark token = .ok after := ⟨_, rfl⟩
  have advances := documentMark_advances different (by simp [start, Cursor.start]) marked
  have scanned : Token.scalar (.ofChars (mark :: mark :: mark :: rest)) plain ∈
      (run (mark :: mark :: mark :: rest).length after).tokens := by
    rw [Token.scan] at member
    split at member
    · rwa [run_start solid (fetched.trans marked)] at member
    · exact absurd member List.not_mem_nil
  have shorter : after.cursor.rest.length < (mark :: mark :: mark :: rest).length := advances.shorter
  have size : (Token.scalar (.ofChars (mark :: mark :: mark :: rest)) plain).size =
      (mark :: mark :: mark :: rest).length := by simp [Token.size]
  rcases tokens_of_run _ after scanned with old | small
  · rcases advances.tokens _ old with none | small
    · exact absurd none List.not_mem_nil
    · exact Nat.lt_irrefl _ (size ▸ small)
  · omega

theorem run_end {s : Lexer} (ended : s.cursor.rest = []) (optional : IsOptional s.candidate)
    (outer : s.outer = []) (columns : s.columns = []) (fuel : Nat) :
    run (fuel + 1) s = ⟨s.tokens.reverse, none⟩ := by
  have here : s.toToken = s := toToken_solid (ended ▸ solid_nil)
  obtain ⟨fresh, still, clean⟩ := dropStale_optional optional (by rw [outer]; rfl)
  have finished : ({ s with candidate := fresh } : Lexer).finish = .ok s.tokens.reverse := by
    have closed : ({ s with candidate := fresh } : Lexer).closeAll = { s with candidate := fresh } := by
      simp [closeAll, closeWhere, inFlow, outer, columns]
    rw [finish, closed, forgetCandidate_optional still]
    rfl
  have closed (column : Nat) : ({ s with candidate := fresh } : Lexer).closeBlocks column =
      { s with candidate := fresh } := by
    simp [closeBlocks, closeWhere, inFlow, outer, columns]
  simp only [run, here, clean, closed, ended, finished]

theorem scan_of_line (allowed : (c :: rest).all isAllowed = true) (noMark : c ≠ byteOrderMark)
    (starts : startsPlain false c rest = true) (line : Plain.Line false (c :: rest))
    (whole : atDivider (c :: rest) = false) :
    Token.scan (c :: rest) = ⟨[.scalar (.ofChars (c :: rest)) true], none⟩ := by
  have read := @Plain.read_line false 0 (c :: rest) [] line rfl rfl
  rw [List.append_nil] at read
  let after : Lexer := ⟨(Cursor.start (c :: rest)).skipTo [], [.scalar (.ofChars (c :: rest)) true],
    some ⟨0, false, 0, 0, 0⟩, [], [], false⟩
  have fetched : (start (c :: rest)).fetch c rest = .ok after := by
    rw [@fetch_plain (start (c :: rest)) c rest starts (.inr whole), plainScalar]
    have saved : (start (c :: rest)).saveCandidate =
        .ok { start (c :: rest) with candidate := some ⟨0, false, 0, 0, 0⟩ } := rfl
    have found : Plain.read (start (c :: rest)).inFlow (start (c :: rest)).margin
        (start (c :: rest)).cursor.rest = ⟨c :: rest, [], false⟩ := read
    rw [saved, found]
    rfl
  have ended : after.cursor.rest = [] :=
    @rest_skipTo (Cursor.start (c :: rest)) (c :: rest) [] (List.append_nil _).symm
  have optional : IsOptional after.candidate := by
    intro place member
    obtain rfl := Option.some.inj member
    rfl
  rw [Token.scan, if_pos allowed, run_start (solid_of_startsPlain noMark starts) fetched]
  exact run_end ended optional rfl rfl rest.length

end Lexer

section Load

variable [Host]

theorem load_of_refused {text : Text} {c : Char} (member : c ∈ text.chars)
    (refused : isAllowed c = false) : load text = .error .malformed := by
  have some : ¬text.chars.all isAllowed = true := fun all =>
    absurd (refused.symm.trans (List.all_eq_true.mp all c member)) (by decide)
  unfold load
  split
  · rfl
  · rw [Token.scan, if_neg some]
    rfl

theorem encodable_of_load {text : Text} {found : Value × Collections}
    (loaded : load text = .ok found) : text.isEncodable = true := by
  unfold load at loaded
  split at loaded
  · exact absurd loaded (by simp)
  · rename_i encodable
    simpa using encodable

theorem allowed_of_load {text : Text} {found : Value × Collections}
    (loaded : load text = .ok found) : ∀ c ∈ text.chars, isAllowed c = true := by
  intro c member
  cases allowed : isAllowed c with
  | true => rfl
  | false => exact absurd (loaded.symm.trans (load_of_refused member allowed)) (by simp)

/-- A text that is read as itself. -/
structure IsPlainText (text : List Char) : Prop where
  line : Plain.Line false text
  starts : ∃ c rest, text = c :: rest ∧ c ≠ byteOrderMark ∧ Lexer.startsPlain false c rest = true
  noForm : Tag.ofPlain text = .str

theorem isPlainText_of_load {text : Text} {collections : Collections} (filled : text ≠ "")
    (ordinary : ∀ c ∈ text.chars, isOrdinary c = true)
    (found : load text = .ok (.text text, collections)) : IsPlainText text.chars := by
  obtain ⟨plain, member⟩ := scalar_of_load filled found
  have whole : .ofChars text.chars = text := Text.ofChars_chars (encodable_of_load found)
  have some : text.chars ≠ [] := by
    intro none
    rw [none] at whole
    exact filled whole.symm
  have unbroken : ∀ c ∈ text.chars, c ≠ '\u2028' ∧ c ≠ '\u2029' := by
    intro c inside
    have known := ordinary c inside
    simp only [isOrdinary, Bool.and_eq_true, bne_iff_ne, ne_eq] at known
    exact ⟨known.1.2, known.2⟩
  have allowed : text.chars.all isAllowed = true := by
    refine List.all_eq_true.mpr fun c inside => ?_
    exact isAllowed_of_ordinary (ordinary c inside)
  rw [← whole, Text.chars_ofChars] at member
  obtain ⟨c, rest, same, noMark, starts, line⟩ := Lexer.line_of_scan some unbroken member
  have solid : Lexer.Solid text.chars := same ▸ Lexer.solid_of_startsPlain noMark starts
  have undivided := Lexer.not_divider_of_scan solid member
  have scanned : Token.scan text.chars = ⟨[.scalar (.ofChars text.chars) true], none⟩ := by
    rw [same] at allowed line undivided ⊢
    exact Lexer.scan_of_line allowed noMark starts line undivided
  rw [whole] at scanned
  exact ⟨line, ⟨c, rest, same, noMark, starts⟩, ofPlain_of_load scanned found⟩

end Load

end Workflow.Yaml
