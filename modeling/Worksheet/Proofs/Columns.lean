import Mathlib.Data.List.DropRight
import Worksheet.Proofs.Prefixes
import Worksheet.Proofs.Spacing

/-! The columns of tokens. A column counts from the last line feed in front of the token, and for the token behind
a formula from the start of the text: in a text without line feeds both are the same place. -/

namespace Worksheet

/-- The column of the character that comes next behind this text. -/
def columnBehind (front : List Char) : Nat := (front.rtakeWhile fun c => c ≠ '\n').length + 1

theorem column_foldl_step (front : List Char) :
    (front.foldl Position.step .start).column = columnBehind front := by
  induction front using List.reverseRecOn with
  | nil => rfl
  | append_singleton front c ih =>
    rw [List.foldl_concat]
    unfold Position.step
    by_cases newline : c = '\n'
    · rw [if_pos newline, columnBehind, List.rtakeWhile_concat_neg _ front c (by simp [newline])]
      rfl
    · rw [if_neg newline, columnBehind, List.rtakeWhile_concat_pos _ front c (by simp [newline]),
        List.length_append, List.length_singleton]
      exact congrArg (· + 1) ih

theorem columnBehind_eq_iff {front : List Char} : columnBehind front = front.length + 1 ↔ '\n' ∉ front := by
  have suffix : front.rtakeWhile (fun c => c ≠ '\n') <:+ front := List.rtakeWhile_suffix _ front
  calc columnBehind front = front.length + 1
      ↔ (front.rtakeWhile fun c => c ≠ '\n').length = front.length := by simp [columnBehind]
    _ ↔ front.rtakeWhile (fun c => c ≠ '\n') = front := ⟨suffix.eq_of_length, congrArg List.length⟩
    _ ↔ ∀ c ∈ front, decide (c ≠ '\n') = true := List.rtakeWhile_eq_self_iff
    _ ↔ '\n' ∉ front := by simp [List.forall_mem_ne']

namespace Token

open Lexeme

/-- Behind `front` the tokens stand one after the other in the text that is left. -/
inductive Placed : List Char → List Char → List Token → Prop
  | nothing {front rest : List Char} : Placed front rest []
  | skip {front gap rest : List Char} {tokens : List Token} (behind : Placed (front ++ gap) rest tokens) :
      Placed front (gap ++ rest) tokens
  | token {front chars rest : List Char} {kind : Kind} {tokens : List Token} (nonempty : chars ≠ [])
      (behind : Placed (front ++ chars) rest tokens) :
      Placed front (chars ++ rest) (⟨kind, String.ofList chars, columnBehind front⟩ :: tokens)

structure StandsAt (text : List Char) (place : Nat) (token : Token) : Prop where
  nonempty : token.text.toList ≠ []
  lexeme : token.text.toList <+: text.drop place
  column : token.column = columnBehind (text.take place)
  counts : token.column = place + 1 ↔ '\n' ∉ text.take place

section

variable {base : Address} {front chars rest text : List Char} {kind : Kind} {token : Token}
  {tokens : List Token} {lexemes : List Lexeme} {places : List Nat}

theorem placed_of_scanFrom (scanned : scanFrom 0 (front.foldl Position.step .start) rest = .ok lexemes)
    (made : ofLexemes base lexemes = .ok tokens) : Placed front rest tokens := by
  -- The text in front is carried along, since a position forgets how far into the text it is.
  refine scanFrom_induction (motive := fun position rest lexemes => ∀ front tokens,
    front.foldl Position.step .start = position → ofLexemes base lexemes = .ok tokens →
      Placed front rest tokens) ?_ ?_ scanned front tokens rfl made
  · intro _ front tokens _ made
    cases made
    exact .nothing
  · intro _ rule chars rest lexemes wins ih front tokens here made
    subst here
    obtain ⟨kind, behind, _, others, rfl⟩ := ofLexemes_cons_eq_ok.1 made
    have placed := ih (front ++ chars) behind List.foldl_append others
    cases kind with
    | none => exact placed.skip
    | some kind =>
      rw [column_foldl_step]
      exact placed.token (ne_nil_of_matches wins.matched)

theorem standsAt_length (nonempty : chars ≠ []) :
    StandsAt (front ++ (chars ++ rest)) front.length ⟨kind, String.ofList chars, columnBehind front⟩ := by
  constructor
  · simpa using nonempty
  · simp
  · rw [List.take_left]
  · rw [List.take_left]
    exact columnBehind_eq_iff

theorem Placed.exists_places (placed : Placed front rest tokens) :
    ∃ places, List.Forall₂ (StandsAt (front ++ rest)) places tokens ∧ places.Pairwise (· < ·) ∧
      ∀ place ∈ places, front.length ≤ place := by
  induction placed with
  | nothing => exact ⟨[], .nil, .nil, List.forall_mem_nil _⟩
  | skip _ ih =>
    obtain ⟨places, stand, increase, behind⟩ := ih
    rw [List.append_assoc] at stand
    refine ⟨places, stand, increase, fun place member => ?_⟩
    have := behind place member
    rw [List.length_append] at this
    omega
  | @token front chars rest kind tokens nonempty _ ih =>
    obtain ⟨places, stand, increase, behind⟩ := ih
    rw [List.append_assoc] at stand
    have later : ∀ place ∈ places, front.length < place := by
      intro place member
      have := behind place member
      have := List.length_pos_of_ne_nil nonempty
      rw [List.length_append] at *
      omega
    refine ⟨front.length :: places, .cons (standsAt_length nonempty) stand,
      List.pairwise_cons.2 ⟨later, increase⟩, List.forall_mem_cons.2 ⟨le_rfl, fun place member => ?_⟩⟩
    exact (later place member).le

theorem exists_places (scanned : scan base text = .ok tokens) :
    ∃ places, List.Forall₂ (StandsAt text) places tokens ∧ places.Pairwise (· < ·) := by
  obtain ⟨lexemes, cut, made⟩ := scan_eq_ok_iff.1 scanned
  have placed : Placed [] text tokens := placed_of_scanFrom cut made
  obtain ⟨places, stand, increase, _⟩ := placed.exists_places
  exact ⟨places, stand, increase⟩

theorem StandsAt.place_lt {place : Nat} (stands : StandsAt text place token) : place < text.length := by
  by_contra outside
  have empty : text.drop place = [] := List.drop_eq_nil_of_le (Nat.le_of_not_lt outside)
  exact stands.nonempty (List.prefix_nil.1 (empty ▸ stands.lexeme))

theorem map_column_of_forall₂ (stand : List.Forall₂ (StandsAt text) places tokens) (line : '\n' ∉ text) :
    tokens.map column = places.map (· + 1) := by
  induction stand with
  | nil => rfl
  | cons stands _ ih =>
    rw [List.map_cons, List.map_cons, ih, stands.counts.2 fun member => line (List.mem_of_mem_take member)]

theorem lexeme_of_forall₂ (stand : List.Forall₂ (StandsAt text) places tokens) (line : '\n' ∉ text) :
    ∀ token ∈ tokens, token.text.toList <+: text.drop (token.column - 1) ∧ token.column ≤ text.length := by
  induction stand with
  | nil => exact List.forall_mem_nil _
  | cons stands _ ih =>
    refine List.forall_mem_cons.2 ⟨?_, ih⟩
    rw [stands.counts.2 fun member => line (List.mem_of_mem_take member)]
    exact ⟨stands.lexeme, stands.place_lt⟩

theorem columns_pairwise_of_forall₂ (stand : List.Forall₂ (StandsAt text) places tokens)
    (increase : places.Pairwise (· < ·)) (line : '\n' ∉ text) :
    (tokens ++ [finish text.length]).Pairwise fun earlier later => earlier.column < later.column := by
  have inner : (tokens.map column).Pairwise (· < ·) := by
    rw [map_column_of_forall₂ stand line, List.pairwise_map]
    exact increase.imp fun less => Nat.succ_lt_succ less
  refine List.pairwise_append.2 ⟨List.pairwise_map.1 inner, List.pairwise_singleton _ _, ?_⟩
  intro token member last only
  rw [List.mem_singleton.1 only]
  exact Nat.lt_succ_of_le (lexeme_of_forall₂ stand line token member).2

end

/-- The tokens of a text stand at increasing places, with the end behind all of it. The column of a token is that of
its place in its line; it is one more than the place, as it is for the end, if and only if no line feed is in front
of the token. In a text without line feeds what is left behind the first `column - 1` characters begins with the
lexeme, and the columns increase. A formula that is refused is refused at one of these tokens, with its column. -/
theorem columns_count_in_line (base : Address) {text : List Char} {tokens : List Token}
    (scanned : scanToEnd base text = .ok tokens) :
    ∃ front places, tokens = front ++ [finish text.length] ∧
      text.drop ((finish text.length).column - 1) = [] ∧
      List.Forall₂ (StandsAt text) places front ∧ places.Pairwise (· < ·) ∧
      ('\n' ∉ text →
        (∀ token ∈ front, token.text.toList <+: text.drop (token.column - 1)) ∧
        tokens.Pairwise fun earlier later => earlier.column < later.column) ∧
      ∀ fault, Formula.read base (String.ofList text) = .error fault →
        ∃ before token behind, tokens = before ++ token :: behind ∧
          Formula.Refusal (before.map Token.kind) token fault := by
  obtain ⟨front, found, rfl⟩ := scanToEnd_eq_ok scanned
  obtain ⟨places, stand, increase⟩ := exists_places found
  refine ⟨front, places, rfl, List.drop_length, stand, increase, fun line => ⟨?_, ?_⟩, fun fault failed => ?_⟩
  · intro token member
    exact (lexeme_of_forall₂ stand line token member).1
  · exact columns_pairwise_of_forall₂ stand increase line
  · rw [read_of_scan found] at failed
    exact Formula.refusal_of_ofTokens (kind_ne_finish found) rfl failed

theorem columns_count_in_line_wide_blanks :
    ∃ front places, scanToEnd .origin "1\u3000+\u2003b2\n*3".toList = .ok (front ++ [finish 9]) ∧
      List.Forall₂ (StandsAt "1\u3000+\u2003b2\n*3".toList) places front ∧ places.Pairwise (· < ·) ∧
      front.map column = [1, 3, 5, 1, 2] := by
  have scanned : scanToEnd .origin "1\u3000+\u2003b2\n*3".toList =
      .ok [⟨.number 1, "1", 1⟩, ⟨.plus, "+", 3⟩, ⟨.reference ⟨.relative 1, .relative 1⟩, "b2", 5⟩,
        ⟨.times, "*", 1⟩, ⟨.number 3, "3", 2⟩, finish 9] := by
    decide +kernel
  obtain ⟨front, places, split, _, stand, increase, _⟩ := columns_count_in_line .origin scanned
  have tokens : [⟨.number 1, "1", 1⟩, ⟨.plus, "+", 3⟩, ⟨.reference ⟨.relative 1, .relative 1⟩, "b2", 5⟩,
      ⟨.times, "*", 1⟩, ⟨.number 3, "3", 2⟩] = front := List.append_inj_left' split rfl
  refine ⟨front, places, split ▸ scanned, stand, increase, ?_⟩
  rw [← tokens]
  rfl

/-- Behind a line feed a column names another place of the text, and the columns do not increase. -/
theorem column_restarts_behind_newline :
    ∃ tokens, scanToEnd .origin "1\n+\n2".toList = .ok tokens ∧
      (∃ token ∈ tokens, token.kind ≠ .finish ∧
        ¬ token.text.toList <+: "1\n+\n2".toList.drop (token.column - 1)) ∧
      ¬ tokens.Pairwise fun earlier later => earlier.column < later.column := by
  have scanned : scanToEnd .origin "1\n+\n2".toList =
      .ok [⟨.number 1, "1", 1⟩, ⟨.plus, "+", 1⟩, ⟨.number 2, "2", 1⟩, finish 5] := by
    decide +kernel
  refine ⟨_, scanned, ⟨⟨.plus, "+", 1⟩, by simp, nofun, by decide⟩, ?_⟩
  intro increase
  have second : 1 < 1 := List.rel_of_pairwise_cons increase List.mem_cons_self
  exact Nat.lt_irrefl 1 second

end Token

end Worksheet
