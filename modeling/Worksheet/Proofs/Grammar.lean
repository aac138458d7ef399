import Mathlib.Tactic
import Worksheet.Formula.Read

/-! The grammar of formulas. A phrase that the grammar spells with some tokens is what the reader makes
of them: it takes the state before the phrase to the one that the whole phrase stands in. -/

namespace Worksheet.Formula

/-- What a run of tokens can spell: a formula at one of three levels, or the operands of a call. -/
inductive Phrase where
  | factor (x : Formula)
  | product (x : Formula)
  | sum (x : Formula)
  | operands (xs : List Formula)

open Token in
/-- The grammar of formulas, with the tree that each derivation makes. -/
inductive Spells : Phrase → List Kind → Prop
  | number (value : Float) : Spells (.factor (.number value)) [.number value]
  | reference (r : Reference) : Spells (.factor (.reference r)) [.reference r]
  | negation {x : Formula} {kinds : List Kind} (inner : Spells (.factor x) kinds) :
      Spells (.factor (.apply .sub [x])) (.minus :: kinds)
  | group {x : Formula} {kinds : List Kind} (inner : Spells (.sum x) kinds) :
      Spells (.factor x) (.opening :: (kinds ++ [.closing]))
  | call {name : String} {operator : Operator} {xs : List Formula} {kinds : List Kind}
      (known : Operator.ofName? name = some operator) (inner : Spells (.operands xs) kinds) :
      Spells (.factor (.apply operator xs)) (.name name :: .opening :: (kinds ++ [.closing]))
  | single {x : Formula} {kinds : List Kind} (inner : Spells (.factor x) kinds) :
      Spells (.product x) kinds
  | times {x y : Formula} {front back : List Kind} (left : Spells (.product x) front)
      (right : Spells (.factor y) back) :
      Spells (.product (.apply .mul [x, y])) (front ++ .times :: back)
  | divide {x y : Formula} {front back : List Kind} (left : Spells (.product x) front)
      (right : Spells (.factor y) back) :
      Spells (.product (.apply .div [x, y])) (front ++ .divide :: back)
  | term {x : Formula} {kinds : List Kind} (inner : Spells (.product x) kinds) :
      Spells (.sum x) kinds
  | plus {x y : Formula} {front back : List Kind} (left : Spells (.sum x) front)
      (right : Spells (.product y) back) :
      Spells (.sum (.apply .add [x, y])) (front ++ .plus :: back)
  | minus {x y : Formula} {front back : List Kind} (left : Spells (.sum x) front)
      (right : Spells (.product y) back) :
      Spells (.sum (.apply .sub [x, y])) (front ++ .minus :: back)
  | operand {x : Formula} {kinds : List Kind} (inner : Spells (.sum x) kinds) :
      Spells (.operands [x]) kinds
  | more {xs : List Formula} {x : Formula} {front back : List Kind}
      (left : Spells (.operands xs) front) (right : Spells (.sum x) back) :
      Spells (.operands (xs ++ [x])) (front ++ .comma :: back)

def Bracket.whole : Bracket → Formula → Formula
  | .group, x => x
  | .call operator operands, x => .apply operator (operands ++ [x])

theorem Pending.negateTimes_negation (n : Nat) (x : Formula) :
    negateTimes n (.apply .sub [x]) = negateTimes (n + 1) x := by
  induction n with
  | zero => rfl
  | succ n ih =>
    rw [negateTimes, ih]
    rfl

namespace Reading

def outcome (state : Reading) (tokens : List Token) (finish : Token) :
    Except FormulaFault Formula :=
  (state.run tokens).bind fun next => next.close finish

variable {pending other : Pending} {outer : List (Bracket × Pending)} {x y : Formula}
  {token finish : Token} {rest : List Token}

theorem outcome_cons {state next : Reading} (taken : state.step token = .ok next) :
    state.outcome (token :: rest) finish = next.outcome rest finish := by
  unfold outcome
  rw [run, taken]
  rfl

/-- Behind a factor nothing counts but the sum and the product that it completes. -/
theorem outcome_congr (sum : pending.sum = other.sum)
    (product : pending.finishProduct x = other.finishProduct y) :
    outcome ⟨pending, outer, .continuation x⟩ rest finish =
      outcome ⟨other, outer, .continuation y⟩ rest finish := by
  have whole : pending.finishSum x = other.finishSum y := by
    unfold Pending.finishSum
    rw [sum, product]
  cases rest with
  | nil =>
    cases outer with
    | nil => exact congrArg Except.ok whole
    | cons level outer => rfl
  | cons token rest =>
    have step : step ⟨pending, outer, .continuation x⟩ token =
        step ⟨other, outer, .continuation y⟩ token := by
      unfold step takeContinuation Pending.accumulate Pending.multiply
      simp only [whole, product, sum]
    unfold outcome
    rw [run, run, step]

theorem outcome_negation :
    outcome ⟨pending.negate, outer, .continuation x⟩ rest finish =
      outcome ⟨pending, outer, .continuation (.apply .sub [x])⟩ rest finish := by
  refine outcome_congr rfl ?_
  unfold Pending.finishProduct Pending.factor Pending.negate
  rw [Pending.negateTimes_negation]

/-- What the reader makes of tokens that are a phrase, whatever stands around them. -/
def Makes : Phrase → List Token → Prop
  | .factor x, tokens => ∀ pending outer rest finish,
      outcome ⟨pending, outer, .factor⟩ (tokens ++ rest) finish =
        outcome ⟨pending, outer, .continuation x⟩ rest finish
  | .product x, tokens => ∀ sum outer rest finish,
      outcome ⟨⟨sum, none, 0⟩, outer, .factor⟩ (tokens ++ rest) finish =
        outcome ⟨⟨sum, none, 0⟩, outer, .continuation x⟩ rest finish
  | .sum x, tokens => ∀ outer, ∃ pending y, pending.finishSum y = x ∧ ∀ rest finish,
      outcome ⟨.empty, outer, .factor⟩ (tokens ++ rest) finish =
        outcome ⟨pending, outer, .continuation y⟩ rest finish
  | .operands xs, tokens => ∀ operator around outer, ∃ front pending y,
      xs = front ++ [pending.finishSum y] ∧ ∀ rest finish,
        outcome ⟨.empty, (.call operator [], around) :: outer, .factor⟩ (tokens ++ rest) finish =
          outcome ⟨pending, (.call operator front, around) :: outer, .continuation y⟩ rest finish

theorem takes_negation (minus : token.kind = .minus) :
    step ⟨pending, outer, .factor⟩ token = .ok ⟨pending.negate, outer, .factor⟩ := by
  unfold step takeFactor
  simp only [minus]

theorem takes_opening (opening : token.kind = .opening) :
    step ⟨pending, outer, .factor⟩ token = .ok ⟨.empty, (.group, pending) :: outer, .factor⟩ := by
  unfold step takeFactor
  simp only [opening]

theorem takes_name {name : String} {operator : Operator} (named : token.kind = .name name)
    (known : Operator.ofName? name = some operator) :
    step ⟨pending, outer, .factor⟩ token = .ok ⟨pending, outer, .bracket operator⟩ := by
  unfold step takeFactor
  simp only [named, known]

theorem takes_bracket {operator : Operator} (opening : token.kind = .opening) :
    step ⟨pending, outer, .bracket operator⟩ token =
      .ok ⟨.empty, (.call operator [], pending) :: outer, .factor⟩ := by
  unfold step takeBracket
  simp only [opening]

theorem takes_comma {operator : Operator} {front : List Formula} {around : Pending}
    (comma : token.kind = .comma) :
    step ⟨pending, (.call operator front, around) :: outer, .continuation x⟩ token =
      .ok ⟨.empty, (.call operator (front ++ [pending.finishSum x]), around) :: outer, .factor⟩ := by
  unfold step takeContinuation
  simp only [comma]

theorem takes_closing {bracket : Bracket} {around : Pending} (closing : token.kind = .closing) :
    step ⟨pending, (bracket, around) :: outer, .continuation x⟩ token =
      .ok ⟨around, outer, .continuation (bracket.whole (pending.finishSum x))⟩ := by
  unfold step takeContinuation
  simp only [closing]
  cases bracket with
  | group => rfl
  | call operator operands => rfl

section

variable {tokens back : List Token}

theorem makes_times {operator : Operator} {sign : Token}
    (step : ∀ pending outer x, Reading.step ⟨pending, outer, .continuation x⟩ sign =
      .ok ⟨pending.multiply x operator, outer, .factor⟩)
    (left : Makes (.product x) tokens) (right : Makes (.factor y) back) :
    Makes (.product (.apply operator [x, y])) (tokens ++ sign :: back) := by
  intro sum outer rest finish
  rw [List.append_assoc, left, List.cons_append, outcome_cons (step _ _ _), right]
  exact outcome_congr rfl rfl

theorem makes_plus {operator : Operator} {sign : Token}
    (step : ∀ pending outer x, Reading.step ⟨pending, outer, .continuation x⟩ sign =
      .ok ⟨pending.accumulate x operator, outer, .factor⟩)
    (left : Makes (.sum x) tokens) (right : Makes (.product y) back) :
    Makes (.sum (.apply operator [x, y])) (tokens ++ sign :: back) := by
  intro outer
  obtain ⟨pending, z, same, reads⟩ := left outer
  refine ⟨⟨some (x, operator), none, 0⟩, y, rfl, fun rest finish => ?_⟩
  rw [List.append_assoc, reads, List.cons_append, outcome_cons (step _ _ _)]
  unfold Pending.accumulate
  rw [same]
  exact right _ outer rest finish

theorem makes_negation {sign : Token} (minus : sign.kind = .minus)
    (inner : Makes (.factor x) tokens) : Makes (.factor (.apply .sub [x])) (sign :: tokens) := by
  intro pending outer rest finish
  rw [List.cons_append, outcome_cons (takes_negation minus), inner, outcome_negation]

theorem makes_group {before behind : Token} (opening : before.kind = .opening)
    (closing : behind.kind = .closing) (inner : Makes (.sum x) tokens) :
    Makes (.factor x) (before :: (tokens ++ [behind])) := by
  intro pending outer rest finish
  obtain ⟨within, y, rfl, reads⟩ := inner ((.group, pending) :: outer)
  rw [List.cons_append, outcome_cons (takes_opening opening), List.append_assoc, reads,
    List.singleton_append, outcome_cons (takes_closing closing)]
  rfl

theorem makes_call {name : String} {operator : Operator} {xs : List Formula}
    {called before behind : Token} (known : Operator.ofName? name = some operator)
    (named : called.kind = .name name) (opening : before.kind = .opening)
    (closing : behind.kind = .closing) (inner : Makes (.operands xs) tokens) :
    Makes (.factor (.apply operator xs)) (called :: before :: (tokens ++ [behind])) := by
  intro pending outer rest finish
  obtain ⟨front, within, y, rfl, reads⟩ := inner operator pending outer
  rw [List.cons_append, outcome_cons (takes_name named known), List.cons_append,
    outcome_cons (takes_bracket opening), List.append_assoc, reads, List.singleton_append,
    outcome_cons (takes_closing closing)]
  rfl

theorem makes_operand (inner : Makes (.sum x) tokens) : Makes (.operands [x]) tokens := by
  intro operator around outer
  obtain ⟨pending, y, same, reads⟩ := inner ((.call operator [], around) :: outer)
  exact ⟨[], pending, y, by rw [same, List.nil_append], reads⟩

theorem makes_more {xs : List Formula} {sign : Token} (comma : sign.kind = .comma)
    (left : Makes (.operands xs) tokens) (right : Makes (.sum x) back) :
    Makes (.operands (xs ++ [x])) (tokens ++ sign :: back) := by
  intro operator around outer
  obtain ⟨front, within, y, rfl, reads⟩ := left operator around outer
  obtain ⟨pending, z, last, onward⟩ := right ((.call operator (front ++ [within.finishSum y]), around) :: outer)
  refine ⟨_, pending, z, by rw [last], fun rest finish => ?_⟩
  rw [List.append_assoc, reads, List.cons_append, outcome_cons (takes_comma comma), onward]

end

theorem takes_plus {sign : Token} (plus : sign.kind = .plus) (pending : Pending)
    (outer : List (Bracket × Pending)) (x : Formula) :
    Reading.step ⟨pending, outer, .continuation x⟩ sign =
      .ok ⟨pending.accumulate x .add, outer, .factor⟩ := by
  unfold Reading.step takeContinuation
  simp only [plus]

theorem takes_minus {sign : Token} (minus : sign.kind = .minus) (pending : Pending)
    (outer : List (Bracket × Pending)) (x : Formula) :
    Reading.step ⟨pending, outer, .continuation x⟩ sign =
      .ok ⟨pending.accumulate x .sub, outer, .factor⟩ := by
  unfold Reading.step takeContinuation
  simp only [minus]

theorem takes_times {sign : Token} (times : sign.kind = .times) (pending : Pending)
    (outer : List (Bracket × Pending)) (x : Formula) :
    Reading.step ⟨pending, outer, .continuation x⟩ sign =
      .ok ⟨pending.multiply x .mul, outer, .factor⟩ := by
  unfold Reading.step takeContinuation
  simp only [times]

theorem takes_divide {sign : Token} (divide : sign.kind = .divide) (pending : Pending)
    (outer : List (Bracket × Pending)) (x : Formula) :
    Reading.step ⟨pending, outer, .continuation x⟩ sign =
      .ok ⟨pending.multiply x .div, outer, .factor⟩ := by
  unfold Reading.step takeContinuation
  simp only [divide]

theorem makes_number {value : Float} {token : Token} (number : token.kind = .number value) :
    Makes (.factor (.number value)) [token] := by
  intro pending outer rest finish
  refine outcome_cons ?_
  unfold Reading.step takeFactor
  simp only [number]

theorem makes_reference {r : Reference} {token : Token} (reference : token.kind = .reference r) :
    Makes (.factor (.reference r)) [token] := by
  intro pending outer rest finish
  refine outcome_cons ?_
  unfold Reading.step takeFactor
  simp only [reference]

theorem makes_single {tokens : List Token} (inner : Makes (.factor x) tokens) :
    Makes (.product x) tokens :=
  fun sum outer rest finish => inner ⟨sum, none, 0⟩ outer rest finish

theorem makes_term {tokens : List Token} (inner : Makes (.product x) tokens) :
    Makes (.sum x) tokens :=
  fun outer => ⟨.empty, x, rfl, fun rest finish => inner none outer rest finish⟩

theorem makes_of_spells {phrase : Phrase} {kinds : List Token.Kind} (spells : Spells phrase kinds) :
    ∀ tokens : List Token, tokens.map Token.kind = kinds → Makes phrase tokens := by
  -- Along the derivation: the tokens fall apart as the phrase does.
  induction spells with
  | number value =>
    intro tokens same
    obtain ⟨token, rfl, number⟩ := List.map_eq_singleton_iff.1 same
    exact makes_number number
  | reference r =>
    intro tokens same
    obtain ⟨token, rfl, reference⟩ := List.map_eq_singleton_iff.1 same
    exact makes_reference reference
  | negation inner ih =>
    intro tokens same
    obtain ⟨sign, rest, rfl, minus, same⟩ := List.map_eq_cons_iff.1 same
    exact makes_negation minus (ih rest same)
  | group inner ih =>
    intro tokens same
    obtain ⟨before, rest, rfl, opening, tail⟩ := List.map_eq_cons_iff.1 same
    obtain ⟨within, last, rfl, inside, ends⟩ := List.map_eq_append_iff.1 tail
    obtain ⟨behind, rfl, closing⟩ := List.map_eq_singleton_iff.1 ends
    exact makes_group opening closing (ih within inside)
  | call known inner ih =>
    intro tokens same
    obtain ⟨called, rest, rfl, named, argument⟩ := List.map_eq_cons_iff.1 same
    obtain ⟨before, rest, rfl, opening, tail⟩ := List.map_eq_cons_iff.1 argument
    obtain ⟨within, last, rfl, inside, ends⟩ := List.map_eq_append_iff.1 tail
    obtain ⟨behind, rfl, closing⟩ := List.map_eq_singleton_iff.1 ends
    exact makes_call known named opening closing (ih within inside)
  | single inner ih => exact fun tokens same => makes_single (ih tokens same)
  | term inner ih => exact fun tokens same => makes_term (ih tokens same)
  | operand inner ih => exact fun tokens same => makes_operand (ih tokens same)
  | times left right leftMakes rightMakes =>
    intro tokens same
    obtain ⟨front, last, rfl, first, same⟩ := List.map_eq_append_iff.1 same
    obtain ⟨sign, back, rfl, times, second⟩ := List.map_eq_cons_iff.1 same
    exact makes_times (takes_times times) (leftMakes front first) (rightMakes back second)
  | divide left right leftMakes rightMakes =>
    intro tokens same
    obtain ⟨front, last, rfl, first, same⟩ := List.map_eq_append_iff.1 same
    obtain ⟨sign, back, rfl, divide, second⟩ := List.map_eq_cons_iff.1 same
    exact makes_times (takes_divide divide) (leftMakes front first) (rightMakes back second)
  | plus left right leftMakes rightMakes =>
    intro tokens same
    obtain ⟨front, last, rfl, first, same⟩ := List.map_eq_append_iff.1 same
    obtain ⟨sign, back, rfl, plus, second⟩ := List.map_eq_cons_iff.1 same
    exact makes_plus (takes_plus plus) (leftMakes front first) (rightMakes back second)
  | minus left right leftMakes rightMakes =>
    intro tokens same
    obtain ⟨front, last, rfl, first, same⟩ := List.map_eq_append_iff.1 same
    obtain ⟨sign, back, rfl, minus, second⟩ := List.map_eq_cons_iff.1 same
    exact makes_plus (takes_minus minus) (leftMakes front first) (rightMakes back second)
  | more left right leftMakes rightMakes =>
    intro tokens same
    obtain ⟨front, last, rfl, first, same⟩ := List.map_eq_append_iff.1 same
    obtain ⟨sign, back, rfl, comma, second⟩ := List.map_eq_cons_iff.1 same
    exact makes_more comma (leftMakes front first) (rightMakes back second)

end Reading

theorem ofTokens_of_spells {x : Formula} {tokens : List Token}
    (spells : Spells (.sum x) (tokens.map Token.kind)) (finish : Token) :
    ofTokens tokens finish = .ok x := by
  obtain ⟨pending, y, same, reads⟩ := Reading.makes_of_spells spells tokens rfl []
  have whole := reads [] finish
  rw [List.append_nil] at whole
  change Reading.outcome .start tokens finish = .ok x
  exact whole.trans (congrArg Except.ok same)

end Worksheet.Formula
