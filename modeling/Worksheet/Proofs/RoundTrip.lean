import Worksheet.Proofs.Grammar
import Worksheet.Proofs.Lexing
import Worksheet.Proofs.Reading

/-! Formulas are read back from their texts. The text of a well-formed formula is cut into the lexemes
that it was put together from, and their tokens spell the formula at the level of its strength. -/

namespace Worksheet

open Lexeme

namespace Token

def Become (base : Address) (pieces : List (Lexeme.Kind × List Char)) (kinds : List Kind) : Prop :=
  List.Forall₂ (fun piece kind => ∀ position,
    kindOfLexeme base ⟨piece.1, piece.2, position⟩ = .ok (some kind)) pieces kinds

theorem ofLexemes_of_become {base : Address} {lexemes : List Lexeme} {kinds : List Kind}
    (become : Become base (lexemes.map fun lexeme => (lexeme.kind, lexeme.chars)) kinds) :
    ∃ tokens, ofLexemes base lexemes = .ok tokens ∧ tokens.map Token.kind = kinds := by
  induction lexemes generalizing kinds with
  | nil =>
    cases become
    exact ⟨[], rfl, rfl⟩
  | cons lexeme rest ih =>
    cases become with
    | @cons _ kind _ kinds first others =>
      obtain ⟨tokens, made, same⟩ := ih others
      exact ⟨_, ofLexemes_cons_eq_ok.2 ⟨some kind, tokens, first lexeme.position, made, rfl⟩,
        congrArg (kind :: ·) same⟩

end Token

/-- A text in `base` is scanned as tokens of these kinds, before anything that does not go on with a
word. -/
def Scans (base : Address) (cs : List Char) (kinds : List Token.Kind) : Prop :=
  ∃ pieces, Token.Become base pieces kinds ∧
    ∀ rest more, Stops rest → Cut rest more → Cut (cs ++ rest) (pieces ++ more)

section

variable {base : Address} {xs ys : List Char} {ks ls : List Token.Kind}

theorem scans_nil (base : Address) : Scans base [] [] :=
  ⟨[], .nil, fun _ _ _ cut => cut⟩

theorem scans_single {kind : Lexeme.Kind} {made : Token.Kind} (nonempty : xs ≠ [])
    (longest : ∀ rest, Stops rest → longest? (xs ++ rest) = some (kind, xs.length))
    (becomes : ∀ position, Token.kindOfLexeme base ⟨kind, xs, position⟩ = .ok (some made)) :
    Scans base xs [made] :=
  ⟨[(kind, xs)], .cons becomes .nil, cuts_single nonempty longest⟩

def IsSymbol (c : Char) (made : Token.Kind) : Prop :=
  ∃ kind : Lexeme.Kind, kind.symbol? = some c ∧
    ∀ base position, Token.kindOfLexeme base ⟨kind, [c], position⟩ = .ok (some made)

theorem isSymbol_plus : IsSymbol '+' .plus := ⟨.plus, rfl, fun _ _ => rfl⟩

theorem isSymbol_minus : IsSymbol '-' .minus := ⟨.minus, rfl, fun _ _ => rfl⟩

theorem isSymbol_times : IsSymbol '*' .times := ⟨.times, rfl, fun _ _ => rfl⟩

theorem isSymbol_divide : IsSymbol '/' .divide := ⟨.divide, rfl, fun _ _ => rfl⟩

theorem isSymbol_opening : IsSymbol '(' .opening := ⟨.opening, rfl, fun _ _ => rfl⟩

theorem isSymbol_closing : IsSymbol ')' .closing := ⟨.closing, rfl, fun _ _ => rfl⟩

theorem isSymbol_comma : IsSymbol ',' .comma := ⟨.comma, rfl, fun _ _ => rfl⟩

theorem scans_cons {c : Char} {made : Token.Kind} (symbol : IsSymbol c made)
    (later : Scans base ys ls) : Scans base (c :: ys) (made :: ls) := by
  obtain ⟨kind, same, becomes⟩ := symbol
  obtain ⟨pieces, become, cuts⟩ := later
  exact ⟨(kind, [c]) :: pieces, .cons (becomes base) become, cuts_cons same cuts⟩

theorem scans_append {c : Char} {made : Token.Kind} (first : Scans base xs ks)
    (symbol : IsSymbol c made) (later : Scans base ys ls) :
    Scans base (xs ++ c :: ys) (ks ++ made :: ls) := by
  obtain ⟨kind, same, becomes⟩ := symbol
  obtain ⟨pieces, become, cuts⟩ := first
  obtain ⟨pieces', become', cuts'⟩ := later
  exact ⟨_, List.rel_append become (.cons (becomes base) become'), cuts_append cuts same cuts'⟩

end

section

variable {base : Address}

theorem scans_number {bits : Nat} (finite : bits < Decimal.Binary64.infinity) :
    Scans base (Decimal.formulaChars (Decimal.Binary64.toFloat bits))
      [.number (Decimal.Binary64.toFloat bits)] := by
  have plain : Decimal.IsPlain (Decimal.formulaChars (Decimal.Binary64.toFloat bits)) := by
    rw [Decimal.formulaChars_toFloat finite]
    exact Decimal.isPlain_plain _
  have nonempty : Decimal.formulaChars (Decimal.Binary64.toFloat bits) ≠ [] := by
    obtain ⟨c, rest, same, _⟩ := plain.exists_cons
    rw [same]
    exact List.cons_ne_nil c rest
  refine scans_single nonempty (fun rest stops => longest?_number plain stops) fun position => ?_
  unfold Token.kindOfLexeme
  simp only [Token.numberOfChars?_formulaChars finite]

theorem nameParts_marked (r : Reference) (target : Address) :
    NameParts r.col.marker (Address.letters target.col.ordinal) r.row.marker
      (Nat.toDigits 10 target.row.ordinal) :=
  ⟨r.col.marker_isMarker,
    ⟨Address.letters_ne_nil _ (Nat.succ_pos _), Address.isAlpha_of_mem_letters _⟩,
    r.row.marker_isMarker,
    ⟨Nat.toDigits_ne_nil, fun _ member => Address.isDigit_of_mem_toDigits member⟩⟩

theorem scans_reference {r : Reference} {target : Address}
    (denotes : r.resolve? base = some target) (nameable : target.Nameable) :
    Scans base (r.marked target) [.reference r] := by
  have parts := nameParts_marked r target
  refine scans_single ?_ (fun rest stops => longest?_reference parts stops) fun position => ?_
  · refine List.append_ne_nil_of_right_ne_nil _ (List.append_ne_nil_of_left_ne_nil ?_ _)
    exact Address.letters_ne_nil _ (Nat.succ_pos _)
  · unfold Token.kindOfLexeme
    simp only [Reference.ofChars?_marked denotes nameable]

theorem isAlpha_symbol {operator : Operator} (call : Formula.isCall operator = true) :
    operator.symbol.toList ≠ [] ∧ ∀ c ∈ operator.symbol.toList, c.isAlpha = true := by
  cases operator with
  | add | sub | mul | div => cases call
  | min | max => exact ⟨List.cons_ne_nil _ _, List.all_eq_true.1 rfl⟩

theorem scans_function {operator : Operator} (call : Formula.isCall operator = true) :
    Scans base operator.symbol.toList [.name operator.symbol] := by
  obtain ⟨nonempty, alpha⟩ := isAlpha_symbol call
  refine scans_single nonempty (fun rest stops => longest?_name nonempty alpha stops) ?_
  cases operator with
  | add | sub | mul | div => cases call
  | min | max => exact fun position => rfl

theorem ofName?_symbol {operator : Operator} (call : Formula.isCall operator = true) :
    Operator.ofName? operator.symbol = some operator := by
  cases operator with
  | add | sub | mul | div => cases call
  | min | max => rfl

end

namespace Formula

variable {base : Address} {x y : Formula} {cs : List Char}

def Spelled (base : Address) (phrase : Phrase) (cs : List Char) : Prop :=
  ∃ kinds, Scans base cs kinds ∧ Spells phrase kinds

/-- The phrase that the text of a formula is when it stands by itself. -/
def phrase (x : Formula) : Phrase :=
  match x.strength with
  | .additive => .sum x
  | .multiplicative => .product x
  | .unary => .factor x
  | .atom => .factor x

theorem Spelled.single (spelled : Spelled base (.factor x) cs) : Spelled base (.product x) cs :=
  ⟨spelled.choose, spelled.choose_spec.1, .single spelled.choose_spec.2⟩

theorem Spelled.term (spelled : Spelled base (.product x) cs) : Spelled base (.sum x) cs :=
  ⟨spelled.choose, spelled.choose_spec.1, .term spelled.choose_spec.2⟩

theorem Spelled.group (spelled : Spelled base (.sum x) cs) :
    Spelled base (.factor x) ('(' :: cs ++ [')']) := by
  obtain ⟨kinds, scans, spells⟩ := spelled
  have closed := scans_append scans isSymbol_closing (scans_nil base)
  exact ⟨_, scans_cons isSymbol_opening closed, .group spells⟩

theorem Spelled.factor_of_phrase (spelled : Spelled base x.phrase cs) (strong : 3 ≤ x.strength.rank) :
    Spelled base (.factor x) cs := by
  unfold phrase at spelled
  cases same : x.strength with
  | additive =>
    rw [same] at strong
    exact absurd strong (by decide)
  | multiplicative =>
    rw [same] at strong
    exact absurd strong (by decide)
  | unary | atom =>
    rw [same] at spelled
    exact spelled

theorem Spelled.product_of_phrase (spelled : Spelled base x.phrase cs)
    (strong : 2 ≤ x.strength.rank) : Spelled base (.product x) cs := by
  cases same : x.strength with
  | additive =>
    rw [same] at strong
    exact absurd strong (by decide)
  | multiplicative =>
    unfold phrase at spelled
    rw [same] at spelled
    exact spelled
  | unary | atom => exact (spelled.factor_of_phrase (by rw [same]; decide)).single

theorem Spelled.sum_of_phrase (spelled : Spelled base x.phrase cs) : Spelled base (.sum x) cs := by
  cases same : x.strength with
  | additive =>
    unfold phrase at spelled
    rw [same] at spelled
    exact spelled
  | multiplicative | unary | atom =>
    exact (spelled.product_of_phrase (by rw [same]; decide)).term

theorem Spelled.factor_parenthesize (spelled : Spelled base x.phrase cs) (needed : Bool)
    (strong : needed = false → 3 ≤ x.strength.rank) :
    Spelled base (.factor x) (parenthesize needed cs) := by
  cases needed with
  | true => exact spelled.sum_of_phrase.group
  | false => exact spelled.factor_of_phrase (strong rfl)

theorem Spelled.product_parenthesize (spelled : Spelled base x.phrase cs) (needed : Bool)
    (strong : needed = false → 2 ≤ x.strength.rank) :
    Spelled base (.product x) (parenthesize needed cs) := by
  cases needed with
  | true => exact spelled.sum_of_phrase.group.single
  | false => exact spelled.product_of_phrase (strong rfl)

theorem Spelled.sum_parenthesize (spelled : Spelled base x.phrase cs) (needed : Bool) :
    Spelled base (.sum x) (parenthesize needed cs) := by
  cases needed with
  | true => exact spelled.sum_of_phrase.group.single.term
  | false => exact spelled.sum_of_phrase

theorem negation_spelled (spelled : Spelled base x.phrase cs) :
    Spelled base (phrase (.apply .sub [x]))
      ('-' :: parenthesize (decide (x.strength.rank < Strength.atom.rank)) cs) := by
  have atom : Strength.atom.rank = 4 := rfl
  obtain ⟨kinds, scans, spells⟩ := spelled.factor_parenthesize
    (decide (x.strength.rank < Strength.atom.rank)) fun strong => by
      have enough := of_decide_eq_false strong
      omega
  exact ⟨_, scans_cons isSymbol_minus scans, .negation spells⟩

theorem between_spelled {operator : Operator} {left right : List Char}
    (between : isCall operator = false) (first : Spelled base x.phrase left)
    (second : Spelled base y.phrase right) :
    Spelled base (phrase (.apply operator [x, y]))
      (parenthesize (decide (x.strength.rank < (strength (.apply operator [x, y])).rank)) left ++
        operator.symbol.toList ++
        parenthesize (decide (y.strength.rank ≤ (strength (.apply operator [x, y])).rank)) right) := by
  -- Equal strengths fold to the left, so the right operand has to be stronger than its sign to stand alone.
  have weakLeft := first.sum_parenthesize (decide (x.strength.rank < Strength.additive.rank))
  have weakRight : Spelled base (.product y)
      (parenthesize (decide (y.strength.rank ≤ Strength.additive.rank)) right) :=
    second.product_parenthesize _ fun strong => Nat.lt_of_not_le (of_decide_eq_false strong)
  have strongLeft : Spelled base (.product x)
      (parenthesize (decide (x.strength.rank < Strength.multiplicative.rank)) left) :=
    first.product_parenthesize _ fun strong => Nat.le_of_not_lt (of_decide_eq_false strong)
  have strongRight : Spelled base (.factor y)
      (parenthesize (decide (y.strength.rank ≤ Strength.multiplicative.rank)) right) :=
    second.factor_parenthesize _ fun strong => Nat.lt_of_not_le (of_decide_eq_false strong)
  rw [List.append_assoc]
  cases operator with
  | min | max => cases between
  | add =>
    obtain ⟨_, scans, spells⟩ := weakLeft
    obtain ⟨_, scans', spells'⟩ := weakRight
    exact ⟨_, scans_append scans isSymbol_plus scans', .plus spells spells'⟩
  | sub =>
    obtain ⟨_, scans, spells⟩ := weakLeft
    obtain ⟨_, scans', spells'⟩ := weakRight
    exact ⟨_, scans_append scans isSymbol_minus scans', .minus spells spells'⟩
  | mul =>
    obtain ⟨_, scans, spells⟩ := strongLeft
    obtain ⟨_, scans', spells'⟩ := strongRight
    exact ⟨_, scans_append scans isSymbol_times scans', .times spells spells'⟩
  | div =>
    obtain ⟨_, scans, spells⟩ := strongLeft
    obtain ⟨_, scans', spells'⟩ := strongRight
    exact ⟨_, scans_append scans isSymbol_divide scans', .divide spells spells'⟩

theorem separate_spelled {front rest : List Formula} {texts : List (List Char)}
    (spelled : Spelled base (.operands front) cs)
    (each : List.Forall₂ (fun x text => Spelled base (phrase x) text) rest texts) :
    Spelled base (.operands (front ++ rest)) (separate (cs :: texts)) := by
  induction each generalizing front cs with
  | nil =>
    rw [List.append_nil]
    exact spelled
  | @cons x text rest texts first others ih =>
    obtain ⟨ks, scans, spells⟩ := spelled
    obtain ⟨ls, scans', spells'⟩ := first.sum_of_phrase
    have next : Spelled base (.operands (front ++ [x])) (cs ++ ',' :: text) :=
      ⟨_, scans_append scans isSymbol_comma scans', .more spells spells'⟩
    have whole := ih next
    rw [List.append_assoc, List.singleton_append] at whole
    have same : separate ((cs ++ ',' :: text) :: texts) = separate (cs :: text :: texts) := by
      cases texts with
      | nil => rfl
      | cons other texts => exact List.append_assoc cs (',' :: text) (',' :: separate (other :: texts))
    exact same ▸ whole

theorem call_spelled {operator : Operator} {rest : List Formula} {texts : List (List Char)}
    (call : isCall operator = true) (first : Spelled base x.phrase cs)
    (each : List.Forall₂ (fun x text => Spelled base (phrase x) text) rest texts) :
    Spelled base (phrase (.apply operator (x :: rest)))
      (operator.symbol.toList ++ '(' :: separate (cs :: texts) ++ [')']) := by
  obtain ⟨ks, scans, spells⟩ := first.sum_of_phrase
  have operands := separate_spelled ⟨ks, scans, .operand spells⟩ each
  obtain ⟨ls, inner, spells'⟩ := operands
  have closed := scans_append inner isSymbol_closing (scans_nil base)
  have whole := scans_append (scans_function call) isSymbol_opening closed
  have atom : phrase (.apply operator (x :: rest)) = .factor (.apply operator (x :: rest)) := by
    cases operator with
    | add | sub | mul | div => cases call
    | min | max => rfl
  rw [atom, List.append_assoc]
  exact ⟨_, whole, .call (ofName?_symbol call) spells'⟩

theorem writeAll_spelled {operands : List Formula}
    (each : ∀ x ∈ operands, ∃ cs, x.write base = .ok cs ∧ Spelled base (phrase x) cs) :
    ∃ texts, writeAll base operands = .ok texts ∧
      List.Forall₂ (fun x text => Spelled base (phrase x) text) operands texts := by
  induction operands with
  | nil => exact ⟨[], by rw [writeAll], .nil⟩
  | cons x xs ih =>
    obtain ⟨cs, written, spelled⟩ := each x List.mem_cons_self
    obtain ⟨texts, rest, others⟩ := ih fun y member => each y (List.mem_cons_of_mem x member)
    refine ⟨cs :: texts, ?_, .cons spelled others⟩
    rw [writeAll, written, rest]
    rfl

/-- The text of a well-formed formula spells it. -/
theorem WellFormed.write_spelled (fine : x.WellFormed base) :
    ∃ cs, x.write base = .ok cs ∧ Spelled base x.phrase cs := by
  induction fine with
  | number bits finite => exact ⟨_, by rw [write], _, scans_number finite, .number _⟩
  | reference r target denotes nameable =>
    refine ⟨r.marked target, ?_, _, scans_reference denotes nameable, .reference r⟩
    rw [write, Reference.write?_of_resolves denotes]
  | apply operator operands takes each ih =>
    obtain ⟨texts, written, spelled⟩ := writeAll_spelled ih
    obtain ⟨rfl, x, rfl⟩ | ⟨between, x, y, rfl⟩ | ⟨call, x, rest, rfl⟩ := Operator.takes_shapes takes
    · obtain ⟨cs, first, inner⟩ := ih x List.mem_cons_self
      refine ⟨_, ?_, negation_spelled inner⟩
      rw [write_negation, first]
      rfl
    · obtain ⟨left, first, inner⟩ := ih x List.mem_cons_self
      obtain ⟨right, second, inner'⟩ := ih y (List.mem_cons_of_mem x List.mem_cons_self)
      refine ⟨_, ?_, between_spelled between inner inner'⟩
      rw [write_between between, first, second]
      rfl
    · cases spelled with
      | @cons _ cs _ texts first others =>
        refine ⟨_, ?_, call_spelled call first others⟩
        rw [write_call call, written]
        rfl

theorem WellFormed.read_render (fine : x.WellFormed base) :
    ∃ text, x.render base = .ok text ∧ read base text = .ok x := by
  obtain ⟨cs, written, spelled⟩ := fine.write_spelled
  obtain ⟨kinds, scans, spells⟩ := spelled.sum_of_phrase
  obtain ⟨pieces, become, cuts⟩ := scans
  obtain ⟨lexemes, scanned, same⟩ := (Cuts.cut cuts).scanFrom .start
  obtain ⟨tokens, made, kindsOf⟩ := Token.ofLexemes_of_become (same.symm ▸ become)
  refine ⟨String.ofList cs, by rw [render, written]; rfl, ?_⟩
  have tokenized : Token.scan base cs = .ok tokens := by
    unfold Token.scan Lexeme.scan
    rw [scanned]
    exact made
  have final := ofTokens_of_spells (kindsOf.symm ▸ spells) (Token.finish cs.length)
  unfold read
  simp only [String.toList_ofList]
  rw [tokenized]
  exact final

end Formula

end Worksheet
