import Worksheet.Proofs.LongestMatch
import Worksheet.Proofs.Sentences
import Worksheet.Proofs.Spelling

/-! Tokens and the blanks around them. A text is scanned if and only if it is laid out as lexemes that win where
they stand, with nothing but blanks around them; more blanks there leave every lexeme as it is. -/

namespace Worksheet.Token

open Lexeme

def piece (token : Token) : Kind × List Char := (token.kind, token.text.toList)

def IsGap (cs : List Char) : Prop := ∀ c ∈ cs, isBlank c = true

theorem isGap_nil : IsGap [] := List.forall_mem_nil _

/-- A text with these lexemes, each of which wins against the other rules where it stands and makes its token
in the cell `base`. There are blanks in front of the lexemes, between them and behind them, and nothing else. -/
inductive Layout (base : Address) : List (Kind × List Char) → List Char → Prop
  | finish {gap : List Char} (blanks : IsGap gap) : Layout base [] gap
  | token {gap chars rest : List Char} {rule : Lexeme.Kind} {kind : Kind}
      {pieces : List (Kind × List Char)} (blanks : IsGap gap) (nonempty : chars ≠ [])
      (wins : Wins rule chars rest) (named : kind.rule? = some rule)
      (made : ∀ position, kindOfLexeme base ⟨rule, chars, position⟩ = .ok (some kind))
      (behind : Layout base pieces rest) :
      Layout base ((kind, chars) :: pieces) (gap ++ (chars ++ rest))

/-- The second text is the first one with more blanks in front of its lexemes, between them or behind them. -/
inductive Widens : List (Kind × List Char) → List Char → List Char → Prop
  | finish {gap wide : List Char} (more : gap.Sublist wide) (blanks : IsGap wide) : Widens [] gap wide
  | token {gap wide chars rest spaced : List Char} {kind : Kind} {pieces : List (Kind × List Char)}
      (more : gap.Sublist wide) (blanks : IsGap wide) (behind : Widens pieces rest spaced) :
      Widens ((kind, chars) :: pieces) (gap ++ (chars ++ rest)) (wide ++ (chars ++ spaced))

section

variable {base : Address} {rule : Lexeme.Kind} {kind : Kind} {position : Position}
  {gap chars rest cs spaced : List Char} {pieces : List (Kind × List Char)}

def Yields (base : Address) (position : Position) (cs : List Char) (pieces : List (Kind × List Char)) : Prop :=
  ∃ lexemes tokens, scanFrom 0 position cs = .ok lexemes ∧ ofLexemes base lexemes = .ok tokens ∧
    tokens.map piece = pieces

theorem yields_start :
    Yields base .start cs pieces ↔ ∃ tokens, scan base cs = .ok tokens ∧ tokens.map piece = pieces := by
  simp only [scan_eq_ok_iff]
  constructor
  · rintro ⟨lexemes, tokens, scanned, made, pieces⟩
    exact ⟨tokens, ⟨lexemes, scanned, made⟩, pieces⟩
  · rintro ⟨tokens, ⟨lexemes, scanned, made⟩, pieces⟩
    exact ⟨lexemes, tokens, scanned, made, pieces⟩

theorem yields_nil : Yields base position [] pieces ↔ pieces = [] := by
  constructor
  · rintro ⟨lexemes, tokens, scanned, made, rfl⟩
    cases scanned
    cases made
    rfl
  · rintro rfl
    exact ⟨[], [], rfl, rfl, rfl⟩

theorem yields_append (wins : Wins rule chars rest) :
    Yields base position (chars ++ rest) pieces ↔
      ∃ made behind, kindOfLexeme base ⟨rule, chars, position⟩ = .ok made ∧
        Yields base (chars.foldl Position.step position) rest behind ∧
        pieces = (made.map fun kind => (kind, chars)).toList ++ behind := by
  have front : ∀ made : Option Kind, ∀ tokens : List Token,
      ((made.map fun kind => Token.mk kind (String.ofList chars) position.column).toList ++ tokens).map piece =
        (made.map fun kind => (kind, chars)).toList ++ tokens.map piece := by
    intro made tokens
    cases made with
    | none => rfl
    | some kind =>
      change (kind, (String.ofList chars).toList) :: tokens.map piece = (kind, chars) :: tokens.map piece
      rw [String.toList_ofList]
  unfold Yields
  rw [scanFrom_append (ne_nil_of_matches wins.matched) (wins_iff.1 wins)]
  constructor
  · rintro ⟨lexemes, tokens, scanned, found, rfl⟩
    cases others : scanFrom 0 (chars.foldl Position.step position) rest with
    | error place =>
      rw [others] at scanned
      cases scanned
    | ok later =>
      rw [others] at scanned
      cases scanned
      obtain ⟨made, behind, first, rest, rfl⟩ := ofLexemes_cons_eq_ok.1 found
      exact ⟨made, _, first, ⟨later, behind, rfl, rest, rfl⟩, front made behind⟩
  · rintro ⟨made, _, first, ⟨later, behind, others, found, rfl⟩, rfl⟩
    rw [others]
    exact ⟨_, _, rfl, ofLexemes_cons_eq_ok.2 ⟨made, behind, first, found, rfl⟩, front made behind⟩

theorem yields_blanks (blanks : IsGap gap) :
    Yields base position (gap ++ rest) pieces ↔ Yields base (gap.foldl Position.step position) rest pieces := by
  induction gap generalizing position with
  | nil => exact Iff.rfl
  | cons c gap ih =>
    obtain ⟨blank, later⟩ := List.forall_mem_cons.1 blanks
    have wins := wins_blank blank (gap ++ rest)
    rw [List.foldl_cons, ← ih later, List.cons_append, ← List.singleton_append, yields_append wins,
      List.foldl_cons, List.foldl_nil]
    constructor
    · rintro ⟨made, behind, first, others, rfl⟩
      cases first
      exact others
    · intro others
      exact ⟨none, pieces, rfl, others, rfl⟩

theorem Layout.yields (layout : Layout base pieces cs) (position : Position) :
    Yields base position cs pieces := by
  induction layout generalizing position with
  | @finish gap blanks =>
    rw [← List.append_nil gap, yields_blanks blanks, yields_nil]
  | token blanks _ wins _ made _ ih =>
    rw [yields_blanks blanks, yields_append wins]
    exact ⟨_, _, made _, ih _, rfl⟩

theorem Layout.blank {c : Char} (blank : isBlank c = true) (layout : Layout base pieces cs) :
    Layout base pieces (c :: cs) := by
  cases layout with
  | finish blanks => exact .finish (List.forall_mem_cons.2 ⟨blank, blanks⟩)
  | token blanks nonempty wins named made behind =>
    exact .token (List.forall_mem_cons.2 ⟨blank, blanks⟩) nonempty wins named made behind

theorem layout_of_yields (yields : Yields base position cs pieces) : Layout base pieces cs := by
  obtain ⟨lexemes, tokens, scanned, made, rfl⟩ := yields
  refine scanFrom_induction (motive := fun _ cs lexemes => ∀ tokens, ofLexemes base lexemes = .ok tokens →
    Layout base (tokens.map piece) cs) ?_ ?_ scanned tokens made
  · intro _ tokens made
    cases made
    exact .finish isGap_nil
  · intro _ rule chars rest lexemes wins ih tokens made
    obtain ⟨kind, behind, first, others, rfl⟩ := ofLexemes_cons_eq_ok.1 made
    have layout := ih behind others
    obtain ⟨anywhere, becomes⟩ := kindOfLexeme_eq_ok first
    cases kind with
    | none =>
      subst becomes
      obtain ⟨d, rfl, blank⟩ := matches_blank.1 wins.matched
      exact layout.blank blank
    | some kind =>
      change Layout base ((kind, (String.ofList chars).toList) :: behind.map piece) (chars ++ rest)
      rw [String.toList_ofList]
      exact .token isGap_nil (ne_nil_of_matches wins.matched) wins becomes anywhere layout

theorem scan_eq_ok_iff_layout :
    (∃ tokens, scan base cs = .ok tokens ∧ tokens.map piece = pieces) ↔ Layout base pieces cs := by
  rw [← yields_start]
  exact ⟨layout_of_yields, fun layout => layout.yields .start⟩

theorem gap_unique {gap' rest' : List Char} (blanks : IsGap gap) (blanks' : IsGap gap') (nonempty : chars ≠ [])
    (begins : ∀ c ∈ chars, isBlank c = false) (same : gap ++ (chars ++ rest) = gap' ++ (chars ++ rest')) :
    gap = gap' ∧ rest = rest' := by
  obtain ⟨c, tail, rfl⟩ := List.exists_cons_of_ne_nil nonempty
  have stop : ¬ isBlank c = true := by
    rw [begins c List.mem_cons_self]
    exact Bool.false_ne_true
  have taken : ∀ {gap rest : List Char}, IsGap gap →
      (gap ++ (c :: tail ++ rest)).takeWhile isBlank = gap := by
    intro gap rest blanks
    rw [List.takeWhile_append_of_pos blanks, List.cons_append, List.takeWhile_cons_of_neg stop, List.append_nil]
  have gaps := congrArg (List.takeWhile isBlank) same
  rw [taken blanks, taken blanks'] at gaps
  subst gaps
  exact ⟨rfl, List.append_cancel_left (List.append_cancel_left same)⟩

/-- Up to the first blank that was put in, the texts agree. -/
theorem Widens.exists_shared (wider : Widens pieces cs spaced) :
    ∃ shared more, spaced = shared ++ more ∧ shared <+: cs ∧ ∀ c ∈ more.head?, isBlank c = true := by
  induction wider with
  | @finish gap wide _ blanks =>
    exact ⟨[], wide, rfl, List.nil_prefix, fun c head => blanks c (List.mem_of_mem_head? head)⟩
  | @token gap wide chars rest spaced _ _ more blanks _ ih =>
    -- Nothing was put in front of this lexeme, or the first new blank stands here.
    cases wide with
    | nil =>
      obtain ⟨shared, added, rfl, front, stop⟩ := ih
      obtain rfl := List.sublist_nil.1 more
      exact ⟨chars ++ shared, added, (List.append_assoc chars shared added).symm,
        (List.prefix_append_right_inj chars).2 front, stop⟩
    | cons c wide =>
      refine ⟨[], _, rfl, List.nil_prefix, fun d head => ?_⟩
      cases head
      exact blanks c List.mem_cons_self

theorem not_isBlank_of_rule? (wins : Wins rule chars rest) (named : kind.rule? = some rule) :
    ∀ c ∈ chars, isBlank c = false := by
  refine not_isBlank_of_matches ?_ wins.matched
  rintro rfl
  cases kind with
  | number | reference | name | plus | minus | times | divide | opening | closing | comma | finish => cases named

theorem Layout.of_widens (layout : Layout base pieces cs) (wider : Widens pieces cs spaced) :
    Layout base pieces spaced := by
  induction layout generalizing spaced with
  | finish =>
    cases wider with
    | finish _ blanks => exact .finish blanks
  | @token gap chars rest rule kind pieces blanks nonempty wins named made _ ih =>
    generalize text : gap ++ (chars ++ rest) = cs at wider
    cases wider with
    | @token gap' wide _ rest' spaced _ _ more blanks' behind =>
      have begins := not_isBlank_of_rule? wins named
      obtain ⟨rfl, rfl⟩ := gap_unique blanks (fun c member => blanks' c (more.subset member)) nonempty begins text
      -- The rule sees the same text up to the first new blank, and no match but that of a blank goes further.
      obtain ⟨shared, added, split, front, stop⟩ := behind.exists_shared
      exact .token blanks' nonempty (split ▸ wins.cut_short front stop) named made (ih behind)

theorem scanToEnd_eq_ok {tokens : List Token} (ended : scanToEnd base cs = .ok tokens) :
    ∃ front, scan base cs = .ok front ∧ tokens = front ++ [finish cs.length] := by
  unfold scanToEnd at ended
  cases scanned : scan base cs with
  | error fault =>
    rw [scanned] at ended
    cases ended
  | ok front =>
    rw [scanned] at ended
    exact ⟨front, rfl, (Except.ok.inj ended).symm⟩

theorem read_of_scan {tokens : List Token} (scanned : scan base cs = .ok tokens) :
    Formula.read base (String.ofList cs) = Formula.ofTokens tokens (finish cs.length) := by
  change (scan base (String.ofList cs).toList).bind
    (fun tokens => Formula.ofTokens tokens (finish (String.ofList cs).toList.length)) = _
  rw [String.toList_ofList, scanned]
  rfl

theorem read_eq_ok_iff_of_scan {cs' : List Char} {tokens tokens' : List Token} (scanned : scan base cs = .ok tokens)
    (scanned' : scan base cs' = .ok tokens') (same : tokens'.map piece = tokens.map piece) (x : Formula) :
    Formula.read base (String.ofList cs') = .ok x ↔ Formula.read base (String.ofList cs) = .ok x := by
  have kinds : tokens'.map Token.kind = tokens.map Token.kind := by
    have firsts := congrArg (List.map Prod.fst) same
    rw [List.map_map, List.map_map] at firsts
    exact firsts
  rw [read_of_scan scanned, read_of_scan scanned', Formula.ofTokens_eq_ok_iff, Formula.ofTokens_eq_ok_iff, kinds]

theorem scan_of_ofChars? (base : Address) {a : Address} (named : Address.ofChars? cs = some a) :
    ∃ r, scan base cs = .ok [⟨.reference r, String.ofList cs, 1⟩] ∧ r.resolve? base = some a := by
  obtain ⟨first, ls, second, ds, parts, rfl⟩ := Address.exists_nameParts named
  have read : Reference.ofChars? base _ = some _ := Reference.ofChars?_parts parts.first parts.letters.1
    parts.letters.2 parts.second parts.digits.2 named
  have longest : longest? (_ ++ []) = some _ := longest?_reference parts fun c head => nomatch head
  generalize first ++ (ls ++ (second ++ ds)) = cs at named read longest
  have nonempty : cs ≠ [] := ne_nil_of_matches (wins_iff.2 longest).matched
  have scanned := scanFrom_append nonempty longest .start
  rw [List.append_nil] at scanned
  refine ⟨⟨.of (first = ['$']) a.col base.col, .of (second = ['$']) a.row base.row⟩, ?_,
    Reference.resolve?_eq_some_iff.2 ⟨Coord.resolve?_of _ _ _, Coord.resolve?_of _ _ _⟩⟩
  refine scan_eq_ok_iff.2 ⟨_, scanned, ofLexemes_cons_eq_ok.2 ⟨some _, [], ?_, rfl, rfl⟩⟩
  unfold kindOfLexeme
  simp only [read]

end

/-- A text that is scanned is laid out as its tokens without the last one, which is the only end. More blanks
around the lexemes change no token but for its column, and so they change nothing in what the text is read as.
The name of a cell is scanned as one reference, which leads to that cell. -/
theorem tokens_by_longest_match (base : Address) :
    (∀ text tokens, scanToEnd base text = .ok tokens →
      ∃ front, tokens = front ++ [finish text.length] ∧ (∀ token ∈ front, token.kind ≠ .finish) ∧
        Layout base (front.map piece) text ∧
        ∀ spaced, Widens (front.map piece) text spaced →
          (∃ again, scanToEnd base spaced = .ok (again ++ [finish spaced.length]) ∧
            again.map piece = front.map piece) ∧
          ∀ x, Formula.read base (String.ofList spaced) = .ok x ↔
            Formula.read base (String.ofList text) = .ok x) ∧
    ∀ text a, Address.ofChars? text = some a →
      ∃ r, scanToEnd base text = .ok [⟨.reference r, String.ofList text, 1⟩, finish text.length] ∧
        r.resolve? base = some a := by
  refine ⟨fun text tokens ended => ?_, fun text a named => ?_⟩
  · obtain ⟨front, scanned, rfl⟩ := scanToEnd_eq_ok ended
    have layout := scan_eq_ok_iff_layout.1 ⟨front, scanned, rfl⟩
    refine ⟨front, rfl, kind_ne_finish scanned, layout, fun spaced wider => ?_⟩
    obtain ⟨again, rescanned, same⟩ := scan_eq_ok_iff_layout.2 (layout.of_widens wider)
    exact ⟨⟨again, Formula.scanToEnd_eq_ok_iff.2 rescanned, same⟩,
      read_eq_ok_iff_of_scan scanned rescanned same⟩
  · obtain ⟨r, scanned, leads⟩ := scan_of_ofChars? base named
    exact ⟨r, Formula.scanToEnd_eq_ok_iff.2 scanned, leads⟩

theorem tokens_by_longest_match_two_points :
    ∃ again, scanToEnd .origin "1. .2".toList = .ok (again ++ [finish 5]) ∧
      again.map piece = [(.number 1, "1.".toList), (.number 0.2, ".2".toList)] := by
  have scanned : scanToEnd .origin "1..2".toList =
      .ok [⟨.number 1, "1.", 1⟩, ⟨.number 0.2, ".2", 3⟩, finish 4] := by
    decide +kernel
  obtain ⟨front, split, _, _, wide⟩ := (tokens_by_longest_match .origin).1 _ _ scanned
  have pieces : front.map piece = [(.number 1, "1.".toList), (.number 0.2, ".2".toList)] := by
    have last : [⟨.number 1, "1.", 1⟩, ⟨.number 0.2, ".2", 3⟩] = front := List.append_inj_left' split rfl
    rw [← last]
    rfl
  have blank : IsGap [' '] := List.forall_mem_singleton.2 (by decide)
  have wider : Widens (front.map piece) "1..2".toList "1. .2".toList := by
    rw [pieces]
    have second : Widens [(.number 0.2, ['.', '2'])] ['.', '2'] [' ', '.', '2'] :=
      .token (.cons ' ' (.refl [])) blank (.finish (.refl []) isGap_nil)
    exact .token (.refl []) isGap_nil second
  obtain ⟨⟨again, rescanned, same⟩, _⟩ := wide _ wider
  exact ⟨again, rescanned, same.trans pieces⟩

end Worksheet.Token
