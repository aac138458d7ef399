import Worksheet.Proofs.Grammar
import Worksheet.Proofs.Reading

/-! The sentences of the grammar. A state of the reader covers the tokens that led to it: its stack,
what waits and what was read last spell them in this order. So whatever the reader accepts is a
sentence, with its tree, and as the reader accepts every sentence each has one tree only. -/

namespace Worksheet.Formula

inductive SumLeft : Option (Formula × Operator) → List Token.Kind → Prop
  | none : SumLeft none []
  | plus {x : Formula} {kinds : List Token.Kind} (left : Spells (.sum x) kinds) :
      SumLeft (some (x, .add)) (kinds ++ [.plus])
  | minus {x : Formula} {kinds : List Token.Kind} (left : Spells (.sum x) kinds) :
      SumLeft (some (x, .sub)) (kinds ++ [.minus])

inductive ProductLeft : Option (Formula × Operator) → List Token.Kind → Prop
  | none : ProductLeft none []
  | times {x : Formula} {kinds : List Token.Kind} (left : Spells (.product x) kinds) :
      ProductLeft (some (x, .mul)) (kinds ++ [.times])
  | divide {x : Formula} {kinds : List Token.Kind} (left : Spells (.product x) kinds) :
      ProductLeft (some (x, .div)) (kinds ++ [.divide])

/-- The tokens of an open bracket and of the operands in front of the current one. -/
inductive Bracket.Opens : Bracket → List Token.Kind → Prop
  | group : Opens .group [.opening]
  | first {name : String} {operator : Operator} (known : Operator.ofName? name = some operator) :
      Opens (.call operator []) [.name name, .opening]
  | next {name : String} {operator : Operator} {xs : List Formula} {kinds : List Token.Kind}
      (known : Operator.ofName? name = some operator) (inner : Spells (.operands xs) kinds) :
      Opens (.call operator xs) (.name name :: .opening :: (kinds ++ [.comma]))

inductive Expecting.Covers : Expecting → List Token.Kind → Prop
  | factor : Covers .factor []
  | bracket {name : String} {operator : Operator} (known : Operator.ofName? name = some operator) :
      Covers (.bracket operator) [.name name]
  | continuation {x : Formula} {kinds : List Token.Kind} (inner : Spells (.factor x) kinds) :
      Covers (.continuation x) kinds

section

variable {left : Option (Formula × Operator)} {y : Formula} {front back : List Token.Kind}

theorem SumLeft.complete (before : SumLeft left front) (right : Spells (.product y) back) :
    Spells (.sum (Pending.complete left y)) (front ++ back) := by
  cases before with
  | none => exact .term right
  | plus left => exact List.append_cons _ _ back ▸ .plus left right
  | minus left => exact List.append_cons _ _ back ▸ .minus left right

theorem ProductLeft.complete (before : ProductLeft left front) (right : Spells (.factor y) back) :
    Spells (.product (Pending.complete left y)) (front ++ back) := by
  cases before with
  | none => exact .single right
  | times left => exact List.append_cons _ _ back ▸ .times left right
  | divide left => exact List.append_cons _ _ back ▸ .divide left right

theorem spells_negateTimes (n : Nat) (inner : Spells (.factor y) back) :
    Spells (.factor (Pending.negateTimes n y)) (List.replicate n .minus ++ back) := by
  induction n with
  | zero => exact inner
  | succ n ih => exact .negation ih

theorem Bracket.Opens.operand {operator : Operator} {xs : List Formula} {x : Formula}
    (opens : Bracket.Opens (.call operator xs) front) (inner : Spells (.sum x) back) :
    ∃ name kinds, Operator.ofName? name = some operator ∧ Spells (.operands (xs ++ [x])) kinds ∧
      front ++ back = .name name :: .opening :: kinds := by
  cases opens with
  | first known => exact ⟨_, back, known, .operand inner, rfl⟩
  | next known others => exact ⟨_, _, known, .more others inner, by simp⟩

end

def Pending.Covers (pending : Pending) (kinds : List Token.Kind) : Prop :=
  ∃ front back, SumLeft pending.sum front ∧ ProductLeft pending.product back ∧
    kinds = front ++ (back ++ List.replicate pending.negations .minus)

namespace Pending

variable {pending : Pending} {x : Formula} {kinds inside : List Token.Kind}

theorem empty_covers : empty.Covers [] := ⟨[], [], .none, .none, rfl⟩

theorem Covers.negate (covers : pending.Covers kinds) : pending.negate.Covers (kinds ++ [.minus]) := by
  obtain ⟨front, back, sum, product, rfl⟩ := covers
  refine ⟨front, back, sum, product, ?_⟩
  unfold Pending.negate
  rw [List.replicate_succ']
  simp

theorem Covers.finishProduct (covers : pending.Covers kinds) (inner : Spells (.factor x) inside) :
    ∃ front back, SumLeft pending.sum front ∧ Spells (.product (pending.finishProduct x)) back ∧
      kinds ++ inside = front ++ back := by
  obtain ⟨front, back, sum, product, rfl⟩ := covers
  have whole := product.complete (spells_negateTimes pending.negations inner)
  exact ⟨front, _, sum, whole, by simp⟩

theorem Covers.finishSum (covers : pending.Covers kinds) (inner : Spells (.factor x) inside) :
    Spells (.sum (pending.finishSum x)) (kinds ++ inside) := by
  obtain ⟨front, back, sum, product, same⟩ := covers.finishProduct inner
  rw [same]
  exact sum.complete product

theorem Covers.multiply {operator : Operator} {sign : Token.Kind} (covers : pending.Covers kinds)
    (inner : Spells (.factor x) inside)
    (joins : ∀ y front, Spells (.product y) front →
      ProductLeft (some (y, operator)) (front ++ [sign])) :
    (pending.multiply x operator).Covers (kinds ++ (inside ++ [sign])) := by
  obtain ⟨front, back, sum, product, same⟩ := covers.finishProduct inner
  refine ⟨front, back ++ [sign], sum, joins _ back product, ?_⟩
  rw [← List.append_assoc, same]
  unfold Pending.multiply
  simp

theorem Covers.accumulate {operator : Operator} {sign : Token.Kind} (covers : pending.Covers kinds)
    (inner : Spells (.factor x) inside)
    (joins : ∀ y front, Spells (.sum y) front → SumLeft (some (y, operator)) (front ++ [sign])) :
    (pending.accumulate x operator).Covers (kinds ++ (inside ++ [sign])) := by
  refine ⟨kinds ++ inside ++ [sign], [], joins _ _ (covers.finishSum inner), .none, ?_⟩
  unfold Pending.accumulate
  simp

end Pending

/-- The tokens of the open brackets, each with what waits in front of it. -/
inductive Encloses : List (Bracket × Pending) → List Token.Kind → Prop
  | nothing : Encloses [] []
  | bracket {bracket : Bracket} {around : Pending} {outer : List (Bracket × Pending)}
      {front middle back : List Token.Kind} (outside : Encloses outer front)
      (covers : around.Covers middle) (opens : bracket.Opens back) :
      Encloses ((bracket, around) :: outer) (front ++ (middle ++ back))

namespace Reading

/-- The tokens that lead to a state. -/
def Covers (state : Reading) (kinds : List Token.Kind) : Prop :=
  ∃ front middle back, Encloses state.outer front ∧ state.pending.Covers middle ∧
    state.expecting.Covers back ∧ kinds = front ++ (middle ++ back)

variable {state next : Reading} {token : Token} {front middle back : List Token.Kind}

theorem start_covers : Reading.start.Covers [] :=
  ⟨[], [], [], .nothing, Pending.empty_covers, .factor, rfl⟩

theorem covers_bracket {bracket : Bracket} {around : Pending} {outer : List (Bracket × Pending)}
    (outside : Encloses outer front) (covers : around.Covers middle) (opens : bracket.Opens back) :
    Covers ⟨.empty, (bracket, around) :: outer, .factor⟩ (front ++ (middle ++ back)) :=
  ⟨_, [], [], .bracket outside covers opens, Pending.empty_covers, .factor, by simp⟩

theorem takeFactor_covers (outside : Encloses state.outer front)
    (covers : state.pending.Covers middle) (factor : state.expecting = .factor)
    (taken : state.takeFactor token = .ok next) : next.Covers (front ++ (middle ++ [token.kind])) := by
  unfold takeFactor at taken
  split at taken
  next minus =>
    cases taken
    rw [minus]
    exact ⟨front, _, [], outside, covers.negate, factor ▸ .factor, by simp⟩
  next x number =>
    cases taken
    rw [number]
    exact ⟨front, middle, _, outside, covers, .continuation (.number x), rfl⟩
  next r reference =>
    cases taken
    rw [reference]
    exact ⟨front, middle, _, outside, covers, .continuation (.reference r), rfl⟩
  next text name =>
    split at taken
    next operator known =>
      cases taken
      rw [name]
      exact ⟨front, middle, _, outside, covers, .bracket known, rfl⟩
    next => cases taken
  next opening =>
    cases taken
    rw [opening]
    exact covers_bracket outside covers .group
  next => cases taken

theorem takeBracket_covers {operator : Operator} {name : String} (outside : Encloses state.outer front)
    (covers : state.pending.Covers middle) (known : Operator.ofName? name = some operator)
    (taken : state.takeBracket operator token = .ok next) :
    next.Covers (front ++ (middle ++ [.name name, token.kind])) := by
  unfold takeBracket at taken
  split at taken
  next opening =>
    cases taken
    rw [opening]
    exact covers_bracket outside covers (.first known)
  next => cases taken

theorem takeContinuation_covers {x : Formula} (outside : Encloses state.outer front)
    (covers : state.pending.Covers middle) (inner : Spells (.factor x) back)
    (taken : state.takeContinuation x token = .ok next) :
    next.Covers (front ++ (middle ++ (back ++ [token.kind]))) := by
  have sum := covers.finishSum inner
  unfold takeContinuation at taken
  split at taken
  next plus =>
    cases taken
    rw [plus]
    exact ⟨front, _, [], outside, covers.accumulate inner fun _ _ => .plus, .factor, by simp⟩
  next minus =>
    cases taken
    rw [minus]
    exact ⟨front, _, [], outside, covers.accumulate inner fun _ _ => .minus, .factor, by simp⟩
  next times =>
    cases taken
    rw [times]
    exact ⟨front, _, [], outside, covers.multiply inner fun _ _ => .times, .factor, by simp⟩
  next divide =>
    cases taken
    rw [divide]
    exact ⟨front, _, [], outside, covers.multiply inner fun _ _ => .divide, .factor, by simp⟩
  next operator xs around outer comma nested =>
    cases taken
    rw [nested] at outside
    cases outside with
    | bracket outside waiting opens =>
      obtain ⟨name, kinds, known, operands, same⟩ := opens.operand sum
      have further := covers_bracket outside waiting (.next known operands)
      rw [comma]
      simpa only [← List.cons_append, ← same, List.append_assoc] using further
  next operator xs around outer closing nested =>
    cases taken
    rw [nested] at outside
    cases outside with
    | bracket outside waiting opens =>
      obtain ⟨name, kinds, known, operands, same⟩ := opens.operand sum
      -- The whole call is a factor now, of what waited in front of its name.
      refine ⟨_, _, _, outside, waiting, .continuation (.call known operands), ?_⟩
      rw [closing]
      simp only [← List.cons_append, ← same, List.append_assoc]
  next around outer closing nested =>
    cases taken
    rw [nested] at outside
    cases outside with
    | bracket outside waiting opens =>
      cases opens with
      | group =>
        refine ⟨_, _, _, outside, waiting, .continuation (.group sum), ?_⟩
        rw [closing]
        simp
  next => cases taken

theorem Covers.step {kinds : List Token.Kind} (covers : state.Covers kinds)
    (taken : state.step token = .ok next) : next.Covers (kinds ++ [token.kind]) := by
  obtain ⟨front, middle, back, outside, waiting, last, rfl⟩ := covers
  unfold Reading.step at taken
  rw [List.append_assoc, List.append_assoc]
  split at taken
  next factor =>
    rw [factor] at last
    cases last with
    | factor => exact takeFactor_covers outside waiting factor taken
  next operator bracket =>
    rw [bracket] at last
    cases last with
    | bracket known => exact takeBracket_covers outside waiting known taken
  next x continuation =>
    rw [continuation] at last
    cases last with
    | continuation inner => exact takeContinuation_covers outside waiting inner taken

theorem Covers.run {final : Reading} {kinds : List Token.Kind} {tokens : List Token}
    (covers : state.Covers kinds) (ran : state.run tokens = .ok final) :
    final.Covers (kinds ++ tokens.map Token.kind) := by
  induction tokens generalizing state kinds with
  | nil =>
    cases ran
    simpa using covers
  | cons token rest ih =>
    rw [Reading.run] at ran
    cases taken : state.step token with
    | error fault =>
      rw [taken] at ran
      cases ran
    | ok next =>
      rw [taken] at ran
      simpa using ih (covers.step taken) ran

theorem Covers.close {finish : Token} {x : Formula} {kinds : List Token.Kind}
    (covers : state.Covers kinds) (closed : state.close finish = .ok x) : Spells (.sum x) kinds := by
  obtain ⟨front, middle, back, outside, waiting, last, rfl⟩ := covers
  unfold Reading.close at closed
  split at closed
  next y continuation nothing =>
    cases closed
    rw [continuation] at last
    rw [nothing] at outside
    cases outside
    cases last with
    | continuation inner => exact waiting.finishSum inner
  next => cases closed

end Reading

variable {x y : Formula}

theorem ofTokens_eq_ok_iff {tokens : List Token} {finish : Token} :
    ofTokens tokens finish = .ok x ↔ Spells (.sum x) (tokens.map Token.kind) := by
  refine ⟨fun found => ?_, fun spells => ofTokens_of_spells spells finish⟩
  change (Reading.start.run tokens).bind (fun state => state.close finish) = .ok x at found
  cases ran : Reading.start.run tokens with
  | error fault =>
    rw [ran] at found
    cases found
  | ok state =>
    rw [ran] at found
    exact (Reading.start_covers.run ran).close found

theorem spells_unique {kinds : List Token.Kind} (one : Spells (.sum x) kinds)
    (two : Spells (.sum y) kinds) : x = y := by
  have kindsOf : (kinds.map fun kind => Token.mk kind "" 0).map Token.kind = kinds := by
    rw [List.map_map]
    exact List.map_id kinds
  -- The reader is a function, and it reads both trees from tokens of these kinds.
  have first := ofTokens_of_spells (kindsOf.symm ▸ one) (Token.finish 0)
  have second := ofTokens_of_spells (kindsOf.symm ▸ two) (Token.finish 0)
  exact Except.ok.inj (first.symm.trans second)

theorem scanToEnd_eq_ok_iff {base : Address} {cs : List Char} {tokens : List Token} :
    Token.scanToEnd base cs = .ok (tokens ++ [Token.finish cs.length]) ↔
      Token.scan base cs = .ok tokens := by
  unfold Token.scanToEnd
  cases Token.scan base cs with
  | error fault => exact ⟨nofun, nofun⟩
  | ok found => simp [Except.map]

/-- A text is read as a formula if and only if the tokens in front of its end are a sentence of the
grammar with this tree, and no sentence has two trees. -/
theorem read_eq_ok_iff_spells (base : Address) :
    (∀ text x, read base text = .ok x ↔ ∃ tokens,
      Token.scanToEnd base text.toList = .ok (tokens ++ [Token.finish text.toList.length]) ∧
      Spells (.sum x) (tokens.map Token.kind)) ∧
    ∀ kinds x y, Spells (.sum x) kinds → Spells (.sum y) kinds → x = y := by
  refine ⟨fun text x => ?_, fun kinds x y => spells_unique⟩
  change (Token.scan base text.toList).bind
    (fun tokens => ofTokens tokens (Token.finish text.toList.length)) = .ok x ↔ _
  simp only [scanToEnd_eq_ok_iff]
  cases Token.scan base text.toList with
  | error fault => exact ⟨nofun, nofun⟩
  | ok tokens => simpa [Except.bind] using ofTokens_eq_ok_iff

theorem read_difference_in_call :
    read .origin "Max(2-3-4)" =
      .ok (.apply .max [.apply .sub [.apply .sub [.number 2, .number 3], .number 4]]) := by
  refine ((read_eq_ok_iff_spells _).1 _ _).2
    ⟨[⟨.name "max", "Max", 1⟩, ⟨.opening, "(", 4⟩, ⟨.number 2, "2", 5⟩, ⟨.minus, "-", 6⟩,
      ⟨.number 3, "3", 7⟩, ⟨.minus, "-", 8⟩, ⟨.number 4, "4", 9⟩, ⟨.closing, ")", 10⟩],
      by decide +kernel, ?_⟩
  have first : Spells (.sum (.apply .sub [.number 2, .number 3])) [.number 2, .minus, .number 3] :=
    .minus (.term (.single (.number 2))) (.single (.number 3))
  have operand := Spells.operand (.minus first (.single (.number 4)))
  exact .term (.single (.call rfl operand))

end Worksheet.Formula
