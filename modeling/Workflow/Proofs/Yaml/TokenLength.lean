import Workflow.Yaml.Token.Basic
import Workflow.Yaml.Token.Block
import Workflow.Yaml.Token.Property
import Workflow.Proofs.Yaml.QuotedScalar

/-! What is read for a token, together with what is left, is never longer than the text that it was
read from. -/

namespace Workflow.Yaml

theorem except_map_eq_ok {ε α β : Type} {f : α → β} {found : Except ε α} {value : β}
    (same : found.map f = .ok value) : ∃ inner, found = .ok inner ∧ f inner = value := by
  cases found with
  | error fault => exact absurd same (by simp [Except.map])
  | ok inner => exact ⟨inner, rfl, Except.ok.inj same⟩

theorem except_bind_eq_ok {ε α β : Type} {first : Except ε α} {next : α → Except ε β} {value : β}
    (found : (first >>= next) = .ok value) : ∃ middle, first = .ok middle ∧ next middle = .ok value := by
  cases first with
  | error fault => exact absurd found (by simp [Bind.bind, Except.bind])
  | ok middle => exact ⟨middle, rfl, found⟩

theorem length_dropWhile_le (p : Char → Bool) (text : List Char) :
    (text.dropWhile p).length ≤ text.length :=
  (List.dropWhile_sublist p).length_le

theorem length_dropComment_le (text : List Char) :
    (if text.head? == some '#' then text.dropWhile (!isBreak ·) else text).length ≤ text.length := by
  split
  · exact length_dropWhile_le _ text
  · exact Nat.le_refl _

namespace Quoted

theorem length_of_emptyLines (fuel : Nat) (text : List Char) {found : List Char × List Char}
    (same : emptyLines fuel text = .ok found) : found.1.length + found.2.length ≤ text.length := by
  induction fuel generalizing text found with
  | zero => exact absurd same (by simp [emptyLines])
  | succ fuel ih =>
      rw [emptyLines] at same
      have dropped := length_dropWhile_le isTabOrBlank text
      split at same
      · exact absurd same (by simp)
      · simp only at same
        split at same
        · obtain rfl := Except.ok.inj same
          simpa using dropped
        · rename_i c rest broken
          have consumed := length_of_lineBreak? broken
          obtain ⟨inner, further, rfl⟩ := except_map_eq_ok same
          have bound := ih rest further
          simp only [List.length_cons]
          omega

theorem length_of_gap {text : List Char} {found : List Char × List Char}
    (same : gap text = .ok found) : found.1.length + found.2.length ≤ text.length := by
  have split := congrArg List.length (List.takeWhile_append_dropWhile (p := isTabOrBlank) (l := text))
  rw [List.length_append] at split
  rw [gap] at same
  simp only at same
  split at same
  · split at same
    · exact absurd same (by simp)
    · obtain rfl := Except.ok.inj same
      exact Nat.le_of_eq split
  · rename_i first rest broken
    have consumed := length_of_lineBreak? broken
    obtain ⟨inner, lines, rfl⟩ := except_map_eq_ok same
    have bound := length_of_emptyLines _ rest lines
    have folded := Plain.length_fold_le first inner.1
    simp only
    omega

theorem length_of_hexEscape {width : Nat} {text : List Char} {value : Letter} {rest : List Char}
    (same : hexEscape width text = .ok (value, rest)) : rest.length ≤ text.length := by
  rw [hexEscape] at same
  split at same
  · exact absurd same (by simp)
  · split at same
    · exact absurd same (by simp)
    · obtain ⟨inner, _, pair⟩ := except_map_eq_ok same
      obtain ⟨_, rfl⟩ := Prod.mk.inj pair
      simp

theorem length_of_escape {text : List Char} {found : List Letter × List Char}
    (same : escape text = .ok found) : found.1.length + found.2.length ≤ text.length := by
  unfold escape at same
  split at same
  · exact absurd same (by simp)
  · rename_i c rest
    split at same
    · obtain rfl := Except.ok.inj same
      simp only [List.length_cons, List.length_nil]
      omega
    · split at same
      · obtain ⟨inner, digits, rfl⟩ := except_map_eq_ok same
        have bound := length_of_hexEscape digits
        simp only [List.length_cons, List.length_nil]
        omega
      · split at same
        · rename_i after broken
          have consumed := length_of_lineBreak? broken
          obtain ⟨inner, lines, rfl⟩ := except_map_eq_ok same
          have bound := length_of_emptyLines _ _ lines
          simp only [List.length_map]
          omega
        · exact absurd same (by simp)

theorem length_of_body (double : Bool) (fuel : Nat) (text : List Char)
    {found : List Letter × List Char} (same : body double fuel text = .ok found) :
    found.1.length + found.2.length < text.length := by
  induction fuel generalizing text found with
  | zero => exact absurd same (by simp [body])
  | succ fuel ih =>
      -- Every way to go on puts a part in front of what is read from a shorter text.
      have further {part : List Letter} {after whole : List Char}
          (found' : (body double fuel after).map (fun read => (part ++ read.1, read.2)) = .ok found)
          (bound : part.length + after.length ≤ whole.length) :
          found.1.length + found.2.length < whole.length := by
        obtain ⟨inner, deeper, rfl⟩ := except_map_eq_ok found'
        have shorter := ih after deeper
        simp only [List.length_append]
        omega
      cases text with
      | nil => exact absurd same (by simp [body])
      | cons c rest =>
          unfold body at same
          simp only at same
          split at same
          · split at same
            · exact absurd same (by simp)
            · rename_i part after between
              exact further same (by simpa using length_of_gap between)
          · split at same
            · split at same
              · obtain rfl := Except.ok.inj same
                simp
              · split at same
                · split at same
                  · exact absurd same (by simp)
                  · rename_i part after read
                    have bound := length_of_escape read
                    apply further same
                    simp only [List.length_cons] at bound ⊢
                    omega
                · apply further same
                  simp only [List.length_cons, List.length_nil]
                  omega
            · split at same
              · split at same
                · rename_i after
                  apply further same
                  simp only [List.length_cons, List.length_nil]
                  omega
                · obtain rfl := Except.ok.inj same
                  simp
              · apply further same
                simp only [List.length_cons, List.length_nil]
                omega

theorem length_of_read {double : Bool} {text : List Char} {found : Text × List Char}
    (same : read double text = .ok found) : found.1.letters.length + found.2.length < text.length := by
  obtain ⟨inner, read, rfl⟩ := except_map_eq_ok same
  exact length_of_body double _ text read

end Quoted

namespace Block

theorem length_of_increment? {text rest : List Char} {count : Nat}
    (found : increment? text = some (count, rest)) : rest.length ≤ text.length := by
  unfold increment? at found
  split at found
  · split at found
    · obtain ⟨_, rfl⟩ := Prod.mk.inj (Option.some.inj found)
      simp
    · exact absurd found (by simp)
  · exact absurd found (by simp)

theorem length_of_chompMark? {text rest : List Char} {chomp : Chomp}
    (found : chompMark? text = some (chomp, rest)) : rest.length ≤ text.length := by
  unfold chompMark? at found
  split at found
  · obtain ⟨_, rfl⟩ := Prod.mk.inj (Option.some.inj found)
    simp
  · obtain ⟨_, rfl⟩ := Prod.mk.inj (Option.some.inj found)
    simp
  · exact absurd found (by simp)

theorem length_of_indicators (text : List Char) : (indicators text).rest.length ≤ text.length := by
  rw [indicators]
  split
  · rename_i chomp rest marked
    have first := length_of_chompMark? marked
    split
    · rename_i count after counted
      exact Nat.le_trans (length_of_increment? counted) first
    · exact first
  · split
    · rename_i count rest counted
      have first := length_of_increment? counted
      split
      · rename_i chomp after marked
        exact Nat.le_trans (length_of_chompMark? marked) first
      · exact first
    · exact Nat.le_refl _

theorem length_of_restOfLine {text rest : List Char} (found : restOfLine text = .ok rest) :
    rest.length ≤ text.length := by
  have blanks := length_dropWhile_le (· == ' ') text
  have comment := length_dropComment_le (text.dropWhile (· == ' '))
  unfold restOfLine at found
  simp only at found
  generalize (if (text.dropWhile (· == ' ')).head? == some '#' then
    (text.dropWhile (· == ' ')).dropWhile (!isBreak ·) else text.dropWhile (· == ' ')) = ended
    at found comment
  split at found
  · split at found
    · rename_i broken
      obtain rfl := Except.ok.inj found
      have consumed := length_of_lineBreak? broken
      omega
    · obtain rfl := Except.ok.inj found
      omega
  · exact absurd found (by simp)

theorem length_of_header {text : List Char} {found : Header} (same : header text = .ok found) :
    found.rest.length ≤ text.length := by
  unfold header at same
  simp only at same
  split at same
  · exact absurd same (by simp)
  · obtain ⟨rest, ended, rfl⟩ := except_map_eq_ok same
    exact Nat.le_trans (length_of_restOfLine ended) (length_of_indicators text)

theorem length_of_lead (fuel column : Nat) (text : List Char) :
    (lead fuel column text).breaks.length + (lead fuel column text).rest.length ≤ text.length := by
  induction fuel generalizing column text with
  | zero => simp [lead]
  | succ fuel ih =>
      unfold lead
      split
      · rename_i rest
        have shorter := ih (column + 1) rest
        simp only [List.length_cons]
        omega
      · split
        · simp
        · rename_i c rest broken
          have consumed := length_of_lineBreak? broken
          have shorter := ih 0 rest
          simp only [List.length_cons]
          omega

theorem length_of_dropIndent (indent : Nat) (text : List Char) :
    (dropIndent indent text).1.length ≤ text.length := by
  induction indent generalizing text with
  | zero => simp [dropIndent]
  | succ indent ih =>
      unfold dropIndent
      split
      · rename_i deeper rest same
        obtain rfl := Nat.succ.inj same
        exact Nat.le_succ_of_le (ih rest)
      · exact Nat.le_refl _

theorem length_of_emptyLines (indent fuel : Nat) (text : List Char) :
    (emptyLines indent fuel text).breaks.length + (emptyLines indent fuel text).rest.length ≤
      text.length := by
  induction fuel generalizing text with
  | zero => simp [emptyLines]
  | succ fuel ih =>
      have dropped := length_of_dropIndent indent text
      rw [emptyLines]
      simp only
      split
      · simpa using dropped
      · rename_i c rest broken
        have consumed := length_of_lineBreak? broken
        have shorter := ih rest
        simp only [List.length_cons]
        omega

theorem length_joint_le (folded : Bool) (line lineBreak : List Char) (next : Lead) :
    (joint folded line lineBreak next).length ≤ lineBreak.length := by
  rw [joint]
  split
  · rename_i folds
    simp only [Bool.and_eq_true, beq_iff_eq] at folds
    rw [folds.1.1.2]
    split <;> simp
  · exact Nat.le_refl _

/-- The size of what has been read of a block scalar and of what is left. -/
def Lines.total (found : Lines) : Nat :=
  found.content.length + found.lineBreak.length + found.after.breaks.length + found.after.rest.length

theorem total_of_lines (folded : Bool) (indent fuel : Nat) (before : Lead) :
    (lines folded indent fuel before).total ≤ before.breaks.length + before.rest.length := by
  induction fuel generalizing before with
  | zero => simp [lines, Lines.total]
  | succ fuel ih =>
      have split := congrArg List.length
        (List.takeWhile_append_dropWhile (p := (!isBreak ·)) (l := before.rest))
      rw [List.length_append] at split
      have next (lineBreak rest : List Char)
          (bound : lineBreak.length + rest.length ≤
            (before.rest.dropWhile (!isBreak ·)).length) :
          (if ((emptyLines indent (rest.length + 1) rest).column != indent ||
              (emptyLines indent (rest.length + 1) rest).rest.isEmpty) = true then
            (⟨before.breaks ++ before.rest.takeWhile (!isBreak ·), lineBreak,
              emptyLines indent (rest.length + 1) rest⟩ : Lines)
          else
            ⟨before.breaks ++ before.rest.takeWhile (!isBreak ·) ++
              joint folded before.rest lineBreak (emptyLines indent (rest.length + 1) rest) ++
              (lines folded indent fuel (emptyLines indent (rest.length + 1) rest)).content,
              (lines folded indent fuel (emptyLines indent (rest.length + 1) rest)).lineBreak,
              (lines folded indent fuel (emptyLines indent (rest.length + 1) rest)).after⟩).total ≤
            before.breaks.length + before.rest.length := by
        have empty := length_of_emptyLines indent (rest.length + 1) rest
        have further := ih (emptyLines indent (rest.length + 1) rest)
        have joined := length_joint_le folded before.rest lineBreak
          (emptyLines indent (rest.length + 1) rest)
        simp only [Lines.total] at further
        split <;> simp only [Lines.total, List.length_append] <;> omega
      rw [lines]
      split
      · simp [Lines.total]
      · simp only
        split
        · rename_i c rest broken
          have shorter := length_of_lineBreak? broken
          exact next [c] rest (by simp only [List.length_singleton]; omega)
        · exact next [] _ (by simp)

theorem length_of_read {folded : Bool} {margin : Nat} {text : List Char}
    {found : List Char × List Char} (same : read folded margin text = .ok found) :
    found.1.length + found.2.length ≤ text.length := by
  rw [read] at same
  split at same
  · exact absurd same (by simp)
  · rename_i header known
    have start := length_of_header known
    have opened (indent : Nat) (first : Lead)
        (bound : first.breaks.length + first.rest.length ≤ header.rest.length) :
        (lines folded indent (header.rest.length + 1) first).total ≤ text.length := by
      have whole := total_of_lines folded indent (header.rest.length + 1) first
      omega
    simp only [Lines.total] at opened
    cases counted : header.increment with
    | none =>
        simp only [counted] at same
        obtain rfl := Except.ok.inj same
        have bound := opened
          (max (max margin 1) (lead (header.rest.length + 1) 0 header.rest).widest) _
          (length_of_lead (header.rest.length + 1) 0 header.rest)
        split <;> simp only [List.length_append] <;> omega
    | some count =>
        simp only [counted] at same
        obtain rfl := Except.ok.inj same
        have bound := opened (max margin 1 + count - 1) _
          (length_of_emptyLines (max margin 1 + count - 1) (header.rest.length + 1) header.rest)
        split <;> simp only [List.length_append] <;> omega

end Block

namespace Property

theorem length_of_escapedBytes (fuel : Nat) (text : List Char) {found : List UInt8 × List Char}
    (same : escapedBytes fuel text = .ok found) : found.2.length ≤ text.length := by
  fun_induction escapedBytes fuel text generalizing found with
  | case1 fuel high low after highValue _ lowValue _ ih =>
      obtain ⟨inner, further, rfl⟩ := except_map_eq_ok same
      have shorter := ih further
      simp only [List.length_cons]
      omega
  | case2 => exact absurd same (by simp)
  | case3 => exact absurd same (by simp)
  | case4 =>
      obtain rfl := Except.ok.inj same
      exact Nat.le_refl _

theorem length_of_escapedRun {text : List Char} {found : List Char × List Char}
    (same : escapedRun text = .ok found) : found.2.length ≤ text.length := by
  rw [escapedRun] at same
  split at same
  · exact absurd same (by simp)
  · rename_i bytes rest read
    split at same
    · obtain rfl := Except.ok.inj same
      exact length_of_escapedBytes _ text read
    · exact absurd same (by simp)

theorem length_of_uriChars (fuel : Nat) (text : List Char) {found : List Char × List Char}
    (same : uriChars fuel text = .ok found) : found.2.length ≤ text.length := by
  fun_induction uriChars fuel text generalizing found with
  | case1 =>
      obtain rfl := Except.ok.inj same
      exact Nat.le_refl _
  | case2 =>
      obtain rfl := Except.ok.inj same
      exact Nat.le_refl _
  | case3 => exact absurd same (by simp)
  | case4 fuel rest part after read ih =>
      have first := length_of_escapedRun read
      obtain ⟨inner, further, rfl⟩ := except_map_eq_ok same
      have shorter := ih further
      exact Nat.le_trans shorter first
  | case5 fuel c rest _ _ ih =>
      obtain ⟨inner, further, rfl⟩ := except_map_eq_ok same
      have shorter := ih further
      exact Nat.le_succ_of_le shorter
  | case6 =>
      obtain rfl := Except.ok.inj same
      exact Nat.le_refl _

theorem length_of_uri {text rest : List Char} {address : Text}
    (same : uri text = .ok (address, rest)) : rest.length ≤ text.length := by
  rw [uri] at same
  split at same
  · exact absurd same (by simp)
  · rename_i chars after read
    split at same
    · obtain ⟨_, rfl⟩ := Prod.mk.inj (Except.ok.inj same)
      exact length_of_uriChars _ text read
    · exact absurd same (by simp)

theorem length_of_handle {text rest : List Char} {name : Text}
    (same : handle text = .ok (name, rest)) : rest.length < text.length := by
  unfold handle at same
  split at same
  · rename_i after
    split at same
    · obtain ⟨_, rfl⟩ := Prod.mk.inj (Except.ok.inj same)
      simp
    · have dropped := length_dropWhile_le isNameChar after
      simp only at same
      split at same
      · rename_i last found
        obtain ⟨_, rfl⟩ := Prod.mk.inj (Except.ok.inj same)
        rw [found] at dropped
        simp only [List.length_cons] at dropped ⊢
        omega
      · exact absurd same (by simp)
  · exact absurd same (by simp)

theorem endsWord_eq_ok {found : Except Error (Token × List Char)} {value : Token × List Char}
    (same : endsWord found = .ok value) : found = .ok value := by
  unfold endsWord at same
  split at same
  · split at same
    · exact same
    · exact absurd same (by simp)
  · exact same

theorem length_of_tag {text rest : List Char} {token : Token}
    (same : tag text = .ok (token, rest)) :
    rest.length ≤ text.length ∧ ∃ handle suffix, token = .tag handle suffix := by
  have inner := endsWord_eq_ok same
  split at inner
  · rename_i after
    split at inner
    · rename_i suffix last read
      obtain ⟨rfl, rfl⟩ := Prod.mk.inj (Except.ok.inj inner)
      have bound := length_of_uri read
      simp only [List.length_cons] at bound ⊢
      exact ⟨by omega, none, suffix, rfl⟩
    · exact absurd inner (by simp)
  · split at inner
    · obtain ⟨rfl, rfl⟩ := Prod.mk.inj (Except.ok.inj inner)
      exact ⟨Nat.le_refl _, none, "!", rfl⟩
    · split at inner
      · split at inner
        · exact absurd inner (by simp)
        · rename_i name after read
          have first := length_of_handle read
          obtain ⟨⟨suffix, last⟩, address, pair⟩ := except_map_eq_ok inner
          obtain ⟨rfl, rfl⟩ := Prod.mk.inj pair
          have bound := length_of_uri address
          simp only [List.length_cons] at first
          exact ⟨by omega, some name, suffix, rfl⟩
      · obtain ⟨⟨suffix, last⟩, address, pair⟩ := except_map_eq_ok inner
        obtain ⟨rfl, rfl⟩ := Prod.mk.inj pair
        exact ⟨length_of_uri address, some "!", suffix, rfl⟩

theorem length_of_name {text rest : List Char} {found : Text}
    (same : name text = .ok (found, rest)) : rest.length ≤ text.length := by
  unfold name at same
  simp only at same
  split at same
  · exact absurd same (by simp)
  · obtain ⟨_, rfl⟩ := Prod.mk.inj (Except.ok.inj same)
    exact length_dropWhile_le isNameChar text

theorem length_of_versionNumber {text rest : List Char} {number : Nat}
    (same : versionNumber text = .ok (number, rest)) : rest.length ≤ text.length := by
  unfold versionNumber Numeral.plainDigits at same
  simp only at same
  split at same
  · exact absurd same (by simp)
  · split at same
    · exact absurd same (by simp)
    · obtain ⟨_, rfl⟩ := Prod.mk.inj (Except.ok.inj same)
      exact length_dropWhile_le Char.isDigit text

def IsDirective (token : Token) : Prop := ∀ content plain, token ≠ .scalar content plain

theorem length_of_version {text rest : List Char} {token : Token}
    (same : version text = .ok (token, rest)) : rest.length ≤ text.length ∧ IsDirective token := by
  have inner := endsWord_eq_ok same
  have blanks := length_dropWhile_le (· == ' ') text
  split at inner
  · rename_i major after read
    have first := length_of_versionNumber read
    obtain ⟨⟨minor, last⟩, second, pair⟩ := except_map_eq_ok inner
    obtain ⟨rfl, rfl⟩ := Prod.mk.inj pair
    have bound := length_of_versionNumber second
    simp only [dropBlanks, List.length_cons] at first
    exact ⟨by omega, fun _ _ => Token.noConfusion⟩
  · exact absurd inner (by simp)

theorem length_of_handleDirective {text rest : List Char} {token : Token}
    (same : handleDirective text = .ok (token, rest)) :
    rest.length ≤ text.length ∧ IsDirective token := by
  have inner := endsWord_eq_ok same
  have blanks := length_dropWhile_le (· == ' ') text
  split at inner
  · rename_i name after read
    have first := length_of_handle read
    obtain ⟨⟨expansion, last⟩, address, pair⟩ := except_map_eq_ok inner
    obtain ⟨rfl, rfl⟩ := Prod.mk.inj pair
    have bound := length_of_uri address
    have deeper := length_dropWhile_le (· == ' ') after
    simp only [dropBlanks, List.length_cons] at first bound
    exact ⟨by omega, fun _ _ => Token.noConfusion⟩
  · exact absurd inner (by simp)

theorem length_of_directiveBody {name text rest : List Char} {token : Token}
    (same : directiveBody name text = .ok (token, rest)) :
    rest.length ≤ text.length ∧ IsDirective token := by
  rw [directiveBody] at same
  split at same
  · exact length_of_version same
  · split at same
    · exact length_of_handleDirective same
    · obtain ⟨rfl, rfl⟩ := Prod.mk.inj (Except.ok.inj same)
      exact ⟨length_dropWhile_le _ text, fun _ _ => Token.noConfusion⟩

theorem length_of_directive {text rest : List Char} {token : Token}
    (same : directive text = .ok (token, rest)) :
    rest.length ≤ text.length ∧ IsDirective token := by
  have word := length_dropWhile_le isNameChar text
  rw [directive] at same
  simp only at same
  split at same
  · exact absurd same (by simp)
  · split at same
    · exact absurd same (by simp)
    · rename_i found after read
      obtain ⟨first, kind⟩ := length_of_directiveBody read
      have blanks := length_dropWhile_le (· == ' ') after
      have comment := length_dropComment_le (dropBlanks after)
      generalize (if (dropBlanks after).head? == some '#' then
        (dropBlanks after).dropWhile (!isBreak ·) else dropBlanks after) = ended at same comment
      simp only [dropBlanks] at comment
      split at same
      · split at same
        · rename_i broken
          obtain ⟨rfl, rfl⟩ := Prod.mk.inj (Except.ok.inj same)
          have consumed := length_of_lineBreak? broken
          exact ⟨by omega, kind⟩
        · obtain ⟨rfl, rfl⟩ := Prod.mk.inj (Except.ok.inj same)
          exact ⟨by omega, kind⟩
      · exact absurd same (by simp)

end Property

end Workflow.Yaml
