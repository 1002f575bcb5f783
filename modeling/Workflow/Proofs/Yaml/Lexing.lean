import Workflow.Proofs.Yaml.LineStart
import Workflow.Proofs.Yaml.QuotedScalar

/-! Lexing of blocks, line by line. What a line is lexed to does not depend on the lines behind it,
as long as these are not indented deeper than its block. -/

namespace Workflow.Yaml.Lexer

/-- From a state on, the tokens of the whole text are the given ones. -/
def Yields (s : Lexer) (all : List Token) : Prop :=
  ∀ fuel, s.cursor.rest.length < fuel → run fuel s = ⟨all, none⟩

theorem yields_of_fetch {s ready after : Lexer} {c : Char} {rest : List Char} {all : List Token}
    (clean : s.toToken.dropStale = .ok ready)
    (here : (ready.closeBlocks ready.cursor.column).cursor.rest = c :: rest)
    (fetched : (ready.closeBlocks ready.cursor.column).fetch c rest = .ok after)
    (shorter : after.cursor.rest.length < s.cursor.rest.length) (further : Yields after all) :
    Yields s all := by
  intro fuel enough
  cases fuel with
  | zero => omega
  | succ fuel =>
      simp only [run, clean, here, fetched]
      exact further fuel (by omega)

/-- States with the same next step yield the same. -/
theorem yields_congr {s other ready same : Lexer} {all : List Token}
    (clean : s.toToken.dropStale = .ok ready) (known : other.toToken.dropStale = .ok same)
    (closed : ready.closeBlocks ready.cursor.column = same.closeBlocks same.cursor.column)
    (length : other.cursor.rest.length ≤ s.cursor.rest.length) (yields : Yields other all) :
    Yields s all := by
  intro fuel enough
  cases fuel with
  | zero => omega
  | succ fuel =>
      have found := yields (fuel + 1) (by omega)
      simp only [run, known] at found
      simp only [run, clean, closed]
      split
      · rename_i ended
        simp only [ended] at found
        split
        · rename_i refused
          rw [refused] at found
          exact absurd (congrArg Token.Stream.fault found) (by simp [stop])
        · rename_i finished
          rw [finished] at found
          exact found
      · rename_i c rest here
        simp only [here] at found
        split
        · rename_i refused
          rw [refused] at found
          exact absurd (congrArg Token.Stream.fault found) (by simp [stop])
        · rename_i fetched
          rw [fetched] at found
          exact found

/-- A state between two tokens of a block, no key being possible before it. -/
abbrev block (cursor : Cursor) (tokens : List Token) (columns : List Nat) (keyAllowed : Bool) : Lexer :=
  ⟨cursor, tokens, none, [], columns, keyAllowed⟩

theorem dropStale_block (cursor : Cursor) (tokens : List Token) (columns : List Nat)
    (keyAllowed : Bool) :
    (block cursor tokens columns keyAllowed).dropStale = .ok (block cursor tokens columns keyAllowed) :=
  rfl

theorem forgetCandidate_block (cursor : Cursor) (tokens : List Token) (columns : List Nat)
    (keyAllowed : Bool) :
    (block cursor tokens columns keyAllowed).forgetCandidate =
      .ok (block cursor tokens columns keyAllowed) :=
  rfl

theorem closeBlocks_block {columns : List Nat} {column : Nat}
    (shallow : ∀ top ∈ columns.head?, top ≤ column) (s : Lexer) (same : s.columns = columns) :
    s.closeBlocks column = s := by
  obtain ⟨cursor, tokens, candidate, outer, _, keyAllowed⟩ := s
  obtain rfl := same
  unfold closeBlocks closeWhere
  split
  · rfl
  · rename_i columns _
    cases columns with
    | nil => rfl
    | cons top others =>
        have kept : ¬ column < top := Nat.not_lt.mpr (shallow top rfl)
        simp [kept]

theorem yields_of_block {s after : Lexer} {cursor : Cursor} {tokens all : List Token}
    {columns : List Nat} {keyAllowed : Bool} {c : Char} {rest : List Char}
    (here : s.toToken = block cursor tokens columns keyAllowed)
    (shallow : ∀ top ∈ columns.head?, top ≤ cursor.column) (next : cursor.rest = c :: rest)
    (fetched : (block cursor tokens columns keyAllowed).fetch c rest = .ok after)
    (shorter : after.cursor.rest.length < s.cursor.rest.length) (further : Yields after all) :
    Yields s all := by
  have kept : (block cursor tokens columns keyAllowed).closeBlocks cursor.column =
      block cursor tokens columns keyAllowed := closeBlocks_block shallow _ rfl
  have clean : s.toToken.dropStale = .ok (block cursor tokens columns keyAllowed) := by
    rw [here]
    exact dropStale_block cursor tokens columns keyAllowed
  have begun : ((block cursor tokens columns keyAllowed).closeBlocks cursor.column).cursor.rest =
      c :: rest := by
    rw [kept]
    exact next
  rw [← kept] at fetched
  exact yields_of_fetch clean begun fetched shorter further

def IsOptional (candidate : Option Candidate) : Prop := ∀ place ∈ candidate, place.required = false

theorem isOptional_none : IsOptional none := fun _ member => absurd member (by simp)

theorem dropStale_optional {s : Lexer} (optional : IsOptional s.candidate)
    (surrounding : s.outer.mapM (refresh s.cursor) = .ok s.outer) :
    ∃ fresh, IsOptional fresh ∧ s.dropStale = .ok { s with candidate := fresh } := by
  cases known : s.candidate with
  | none => exact ⟨none, isOptional_none, by simp only [dropStale, surrounding, known, refresh]⟩
  | some place =>
      have free := optional place known
      by_cases stale : isStale s.cursor place = true
      · exact ⟨none, isOptional_none, by simp [dropStale, surrounding, known, refresh, stale, free]⟩
      · exact ⟨some place, known ▸ optional, by simp [dropStale, surrounding, known, refresh, stale]⟩

theorem forgetCandidate_optional {s : Lexer} (optional : IsOptional s.candidate) :
    s.forgetCandidate = .ok { s with candidate := none } := by
  obtain ⟨cursor, tokens, candidate, outer, columns, keyAllowed⟩ := s
  cases candidate with
  | none => rfl
  | some place =>
      have free : place.required = false := optional place rfl
      simp [forgetCandidate, free]

theorem blockEnds_cons (count : Nat) (tokens : List Token) :
    List.replicate (count + 1) Token.blockEnd ++ tokens =
      List.replicate count Token.blockEnd ++ .blockEnd :: tokens := by
  rw [List.replicate_succ', List.append_assoc]
  rfl

/-- The first token of a line, or of what stands behind the mark of an entry. -/
def Reads (columns : List Nat) (column : Nat) (text : List Char) (tokens all : List Token) : Prop :=
  ∀ index line, Yields (block ⟨text, index, line, column⟩ tokens columns true) all

theorem Reads.yields {s : Lexer} {columns : List Nat} {index line column : Nat} {text : List Char}
    {tokens all : List Token} (reads : Reads columns column text tokens all) (solid : Solid text)
    (here : s.toToken = block ⟨text, index, line, column⟩ tokens columns true)
    (shorter : text.length ≤ s.cursor.rest.length) : Yields s all := by
  have there : (block ⟨text, index, line, column⟩ tokens columns true).toToken =
      block ⟨text, index, line, column⟩ tokens columns true := toToken_solid solid
  have known := dropStale_block ⟨text, index, line, column⟩ tokens columns true
  exact yields_congr (by rw [here, known]) (by rw [there, known]) rfl shorter (reads index line)

/-- A block ends before a line that is indented less. -/
theorem reads_close {columns : List Nat} {top column : Nat} {text : List Char}
    {tokens all : List Token} (solid : Solid text) (deep : column < top)
    (reads : Reads columns column text (.blockEnd :: tokens) all) :
    Reads (top :: columns) column text tokens all := by
  intro index line
  have here : (block ⟨text, index, line, column⟩ tokens (top :: columns) true).toToken =
      block ⟨text, index, line, column⟩ tokens (top :: columns) true := toToken_solid solid
  have there : (block ⟨text, index, line, column⟩ (.blockEnd :: tokens) columns true).toToken =
      block ⟨text, index, line, column⟩ (.blockEnd :: tokens) columns true := toToken_solid solid
  apply yields_congr ((congrArg dropStale here).trans (dropStale_block _ _ _ _))
    ((congrArg dropStale there).trans (dropStale_block _ _ _ _)) _ (Nat.le_refl _) (reads index line)
  simp only [closeBlocks, closeWhere, inFlow, List.isEmpty_nil, Bool.not_true, Bool.false_eq_true,
    ↓reduceIte, deep, decide_true, List.takeWhile_cons, List.dropWhile_cons, List.length_cons,
    blockEnds_cons]

/-- The end of the text, or a line that is indented no deeper than the innermost block. -/
inductive Follows (columns : List Nat) (tokens all : List Token) : List Char → Prop where
  | done (whole : all = (List.replicate columns.length Token.blockEnd ++ tokens).reverse) :
      Follows columns tokens all []
  | line {indent : Nat} {c : Char} {rest : List Char} (solid : Solid (c :: rest))
      (noDivider : atDivider (List.replicate indent ' ' ++ c :: rest) = false)
      (shallow : ∀ top ∈ columns.head?, indent ≤ top)
      (reads : Reads columns indent (c :: rest) tokens all) :
      Follows columns tokens all ('\n' :: (List.replicate indent ' ' ++ c :: rest))

theorem yields_done {columns : List Nat} {tokens all : List Token} (index line column : Nat)
    (keyAllowed : Bool) (whole : all = (List.replicate columns.length Token.blockEnd ++ tokens).reverse) :
    Yields (block ⟨[], index, line, column⟩ tokens columns keyAllowed) all := by
  intro fuel enough
  cases fuel with
  | zero => omega
  | succ fuel =>
      have here : (block ⟨[], index, line, column⟩ tokens columns keyAllowed).toToken =
          block ⟨[], index, line, column⟩ tokens columns keyAllowed := toToken_solid solid_nil
      have lengths := congrArg List.length
        (List.takeWhile_append_dropWhile (p := (decide <| column < ·)) (l := columns))
      rw [List.length_append] at lengths
      have every (others : List Nat) : others.takeWhile (fun _ => true) = others := by
        induction others with
        | nil => rfl
        | cons other rest ih => rw [List.takeWhile_cons_of_pos rfl, ih]
      simp only [run, here, dropStale_block, closeBlocks, closeAll, closeWhere, inFlow,
        List.isEmpty_nil, Bool.not_true, Bool.false_eq_true, ↓reduceIte, finish, forgetCandidate,
        Except.map, every]
      rw [whole, ← lengths, Nat.add_comm, ← List.replicate_append_replicate, List.append_assoc]

theorem yields_line {columns : List Nat} {tokens all : List Token} {indent : Nat} {text : List Char}
    (solid : Solid text) (reads : Reads columns indent text tokens all) (index line column : Nat)
    (keyAllowed : Bool) :
    Yields (block ⟨'\n' :: (List.replicate indent ' ' ++ text), index, line, column⟩ tokens columns
      keyAllowed) all := by
  obtain ⟨further, lower, moved⟩ := @toToken_line
    (block ⟨'\n' :: (List.replicate indent ' ' ++ text), index, line, column⟩ tokens columns
      keyAllowed) text indent rfl solid
  have started : (block ⟨'\n' :: (List.replicate indent ' ' ++ text), index, line, column⟩ tokens
      columns keyAllowed).toToken = block ⟨text, further, lower, indent⟩ tokens columns true := by
    rw [moved]
    simp [inFlow]
  apply reads.yields solid started
  simp only [List.length_cons, List.length_append]
  omega

theorem Follows.yields {columns : List Nat} {tokens all : List Token} {tail : List Char}
    (follows : Follows columns tokens all tail) (index line column : Nat) (keyAllowed : Bool) :
    Yields (block ⟨tail, index, line, column⟩ tokens columns keyAllowed) all := by
  cases follows with
  | done whole => exact yields_done index line column keyAllowed whole
  | line solid noDivider shallow reads => exact yields_line solid reads index line column keyAllowed

theorem rest_skipTo {cursor : Cursor} {before tail : List Char} (here : cursor.rest = before ++ tail) :
    (cursor.skipTo tail).rest = tail := by
  rw [Cursor.skipTo, Cursor.rest_skip, here, List.length_append, Nat.add_sub_cancel, List.drop_left]

theorem Follows.yields_gap {columns : List Nat} {tokens all : List Token} {before tail : List Char}
    (follows : Follows columns tokens all tail) {cursor : Cursor}
    (here : cursor.rest = before ++ tail) :
    Yields (block (cursor.skipTo (Plain.gap tail).rest) tokens columns (Plain.gap tail).broken)
      all := by
  cases follows with
  | done whole =>
      have ended : (Plain.gap []).rest = [] := rfl
      have place := rest_skipTo here
      rw [ended]
      generalize cursor.skipTo [] = moved at place
      obtain ⟨rest, index, line, column⟩ := moved
      obtain rfl := place
      exact yields_done index line column _ whole
  | @line indent c rest solid noDivider shallow reads =>
      obtain ⟨blank, _, ordinary, _⟩ := solid c rest rfl
      obtain ⟨index, line, moved⟩ := Cursor.skipTo_line before here
      rw [Plain.gap_of_indent blank ordinary indent noDivider, moved]
      exact reads index line

theorem Follows.stops {columns : List Nat} {tokens all : List Token} {tail : List Char}
    (follows : Follows columns tokens all tail) : Plain.stops false tail = true := by
  cases follows with
  | done whole => rfl
  | line solid noDivider shallow reads => rfl

theorem Follows.closes {top : Nat} {columns : List Nat} {tokens all : List Token} {tail : List Char}
    (follows : Follows (top :: columns) tokens all tail) :
    Plain.closes false (top + 1) tail = true := by
  cases follows with
  | done whole => rfl
  | @line indent c rest solid noDivider shallow reads =>
      obtain ⟨blank, _, ordinary, _⟩ := solid c rest rfl
      have inside := shallow top rfl
      exact Plain.closes_of_indent blank ordinary noDivider (by omega)

theorem Follows.close {top inner : Nat} {columns : List Nat} {tokens all : List Token}
    {tail : List Char} (deep : top < inner)
    (follows : Follows (top :: columns) (.blockEnd :: tokens) all tail) :
    Follows (inner :: top :: columns) tokens all tail := by
  cases follows with
  | done whole =>
      exact .done (whole.trans (congrArg List.reverse (blockEnds_cons _ tokens).symm))
  | @line indent c rest solid noDivider shallow reads =>
      have inside := shallow top rfl
      refine .line solid noDivider ?_ (reads_close solid (by omega) reads)
      intro column same
      obtain rfl := Option.some.inj same
      omega

/-- A text of whole lines is lexed to the given tokens inside of some blocks, whatever follows. -/
def LexesTo (columns : List Nat) (text : List Char) (tokens : List Token) : Prop :=
  ∀ tail before all, Follows columns (tokens.reverse ++ before) all tail →
    Follows columns before all (text ++ tail)

theorem lexesTo_nil (columns : List Nat) : LexesTo columns [] [] :=
  fun _ _ _ follows => follows

theorem LexesTo.append {columns : List Nat} {first second : List Char} {left right : List Token}
    (here : LexesTo columns first left) (there : LexesTo columns second right) :
    LexesTo columns (first ++ second) (left ++ right) := by
  intro tail before all follows
  rw [List.reverse_append, List.append_assoc] at follows
  rw [List.append_assoc]
  exact here _ _ _ (there _ _ _ follows)

theorem LexesTo.flatMap {α : Type} {columns : List Nat} {text : α → List Char}
    {tokens : α → List Token} {items : List α}
    (each : ∀ item ∈ items, LexesTo columns (text item) (tokens item)) :
    LexesTo columns (items.flatMap text) (items.flatMap tokens) := by
  induction items with
  | nil => exact lexesTo_nil columns
  | cons item rest ih =>
      rw [List.flatMap_cons, List.flatMap_cons]
      exact (each item List.mem_cons_self).append
        (ih fun other member => each other (List.mem_cons_of_mem _ member))

end Workflow.Yaml.Lexer
