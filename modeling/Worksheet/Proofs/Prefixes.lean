import Worksheet.Proofs.Sentences

/-! The beginnings of sentences. Whatever the reader has taken can be completed to a sentence: by a factor
where it awaits one, and then by a closing bracket for each that is open. And it reads every sentence, so
where it stops no sentence goes on. The token that a refusal names is therefore the first one that stands
in no sentence behind the tokens in front of it. -/

namespace Worksheet

theorem Operator.ofName?_eq_none_iff {name : String} :
    ofName? name = none ↔ name ≠ "min" ∧ name ≠ "max" := by
  unfold ofName?
  split
  next => exact iff_of_false nofun fun both => both.1 rfl
  next => exact iff_of_false nofun fun both => both.2 rfl
  next notMin notMax => exact iff_of_true rfl ⟨notMin, notMax⟩

namespace Formula

def Begins (front : List Token.Kind) : Prop := ∃ x kinds, Spells (.sum x) kinds ∧ front <+: kinds

/-- A factor may begin behind these tokens: any factor can stand there in some sentence. -/
def AwaitsFactor (front : List Token.Kind) : Prop :=
  ∀ y kinds, Spells (.factor y) kinds → Begins (front ++ kinds)

/-- Behind the tokens of `front`, with which some sentence begins, no sentence has a token of this kind;
at the end of a sentence stands the token that finishes it. -/
structure FirstImpossible (front : List Token.Kind) (kind : Token.Kind) : Prop where
  possible : Begins front
  impossible : ∀ x kinds, Spells (.sum x) kinds → ¬ front ++ [kind] <+: kinds ++ [.finish]

section

variable {front back : List Token.Kind}

theorem Begins.of_append (begins : Begins (front ++ back)) : Begins front := by
  obtain ⟨x, kinds, spells, within⟩ := begins
  exact ⟨x, kinds, spells, (List.prefix_append front back).trans within⟩

theorem finish_not_mem {phrase : Phrase} {kinds : List Token.Kind} (spells : Spells phrase kinds) :
    .finish ∉ kinds := by
  induction spells with
  | number | reference => simp
  | negation _ ih | group _ ih | call _ _ ih => simp [ih]
  | single _ ih | term _ ih | operand _ ih => exact ih
  | times _ _ left right | divide _ _ left right | plus _ _ left right | minus _ _ left right
  | more _ _ left right => simp [left, right]

theorem firstImpossible_of_not_begins {kind : Token.Kind} (possible : Begins front)
    (inside : kind ≠ .finish) (impossible : ¬ Begins (front ++ [kind])) :
    FirstImpossible front kind := by
  refine ⟨possible, fun x kinds spells within => ?_⟩
  rcases List.prefix_concat_iff.1 within with whole | part
  · exact inside (List.singleton_inj.1 (List.append_inj' whole rfl).2)
  · exact impossible ⟨x, kinds, spells, part⟩

theorem firstImpossible_finish (possible : Begins front)
    (unfinished : ∀ x, ¬ Spells (.sum x) front) : FirstImpossible front .finish := by
  refine ⟨possible, fun x kinds spells within => ?_⟩
  rcases List.prefix_concat_iff.1 within with whole | part
  · exact unfinished x ((List.append_inj' whole rfl).1 ▸ spells)
  · exact finish_not_mem spells (part.subset (by simp))

end

/-! What has been taken can be completed. -/

section

variable {pending : Pending} {outer : List (Bracket × Pending)} {bracket : Bracket} {x : Formula}
  {front middle back : List Token.Kind}

theorem Bracket.Opens.close (opens : bracket.Opens front) (inner : Spells (.sum x) back) :
    ∃ y, Spells (.factor y) (front ++ back ++ [.closing]) := by
  cases bracket with
  | group =>
    cases opens with
    | group => exact ⟨x, .group inner⟩
  | call operator xs =>
    obtain ⟨name, kinds, known, operands, same⟩ := opens.operand inner
    rw [same]
    exact ⟨_, .call known operands⟩

theorem Encloses.begins (outside : Encloses outer front) (covers : pending.Covers middle)
    (inner : Spells (.factor x) back) : Begins (front ++ (middle ++ back)) := by
  induction outside generalizing pending middle x back with
  | nothing =>
    have sum := covers.finishSum inner
    exact ⟨_, _, sum, List.prefix_rfl⟩
  | bracket outside around opens ih =>
    obtain ⟨y, whole⟩ := opens.close (covers.finishSum inner)
    have further := ih around whole
    rw [← List.append_assoc, ← List.append_assoc] at further
    have begun := further.of_append
    simpa only [List.append_assoc] using begun

end

namespace Reading

variable {state next : Reading} {kinds : List Token.Kind} {token finish : Token}
  {front back tokens : List Token} {fault : FormulaFault}

theorem Covers.awaitsFactor (covers : state.Covers kinds) (factor : state.expecting = .factor) :
    AwaitsFactor kinds := by
  intro y inside spells
  obtain ⟨front, middle, back, outside, waiting, last, rfl⟩ := covers
  rw [factor] at last
  cases last with
  | factor =>
    have begun := outside.begins waiting spells
    simpa only [List.append_nil, List.append_assoc] using begun

/-- Every state of the reader is on the way to a sentence. -/
theorem Covers.begins (covers : state.Covers kinds) : Begins kinds := by
  cases expecting : state.expecting with
  | factor => exact (covers.awaitsFactor expecting _ _ (.number 0)).of_append
  | bracket operator =>
    obtain ⟨front, middle, back, outside, waiting, last, rfl⟩ := covers
    rw [expecting] at last
    cases last with
    | bracket known =>
      have call := Spells.call known (.operand (.term (.single (.number 0))))
      have begun := outside.begins waiting call
      rw [← List.singleton_append, ← List.append_assoc, ← List.append_assoc] at begun
      simpa only [List.append_assoc] using begun.of_append
  | continuation x =>
    obtain ⟨front, middle, back, outside, waiting, last, rfl⟩ := covers
    rw [expecting] at last
    cases last with
    | continuation inner => exact outside.begins waiting inner

/-! And it is taken wherever a sentence begins with it. -/

theorem run_append (state : Reading) (front back : List Token) :
    state.run (front ++ back) = (state.run front).bind fun next => next.run back := by
  induction front generalizing state with
  | nil => rfl
  | cons token rest ih =>
    rw [List.cons_append, run, run]
    cases state.step token with
    | error fault => rfl
    | ok next => exact ih next

theorem run_eq_ok_iff_begins :
    (∃ state, Reading.start.run tokens = .ok state) ↔ Begins (tokens.map Token.kind) := by
  constructor
  · rintro ⟨state, ran⟩
    exact (Reading.start_covers.run ran).begins
  · rintro ⟨x, _, spells, behind, rfl⟩
    -- Tokens of the kinds that are missing complete a sentence, which the reader takes to its end.
    have kinds : (tokens ++ behind.map fun kind => Token.mk kind "" 0).map Token.kind =
        tokens.map Token.kind ++ behind := by
      rw [List.map_append, List.map_map]
      exact congrArg _ (List.map_id behind)
    have found := ofTokens_of_spells (kinds.symm ▸ spells) (Token.finish 0)
    change (Reading.start.run _).bind _ = .ok x at found
    rw [run_append] at found
    cases ran : Reading.start.run tokens with
    | error fault =>
      rw [ran] at found
      cases found
    | ok state => exact ⟨state, rfl⟩

theorem run_snoc (ran : Reading.start.run front = .ok state) :
    Reading.start.run (front ++ [token]) = state.step token := by
  rw [run_append, ran]
  change state.run [token] = _
  rw [run]
  cases state.step token with
  | error fault => rfl
  | ok next => rfl

theorem run_error (failed : state.run tokens = .error fault) :
    ∃ front token back last, tokens = front ++ token :: back ∧ state.run front = .ok last ∧
      last.step token = .error fault := by
  induction tokens generalizing state with
  | nil => cases failed
  | cons token rest ih =>
    rw [run] at failed
    cases taken : state.step token with
    | error other =>
      rw [taken] at failed
      cases failed
      exact ⟨[], token, rest, state, rfl, rfl, taken⟩
    | ok next =>
      rw [taken] at failed
      obtain ⟨front, stop, back, last, rfl, ran, failed⟩ := ih failed
      refine ⟨token :: front, stop, back, last, rfl, ?_, failed⟩
      rw [run, taken]
      exact ran

/-- The token is the name of no function, where a factor is awaited. -/
def MeetsUnknown (state : Reading) (token : Token) : Prop :=
  state.expecting = .factor ∧ ∃ name, token.kind = .name name ∧ Operator.ofName? name = none

theorem step_error (failed : state.step token = .error fault) :
    fault = .unknownFunction token ∧ state.MeetsUnknown token ∨
      fault = .unexpected token ∧ ¬ state.MeetsUnknown token := by
  unfold step at failed
  split at failed
  next factor =>
    unfold takeFactor at failed
    split at failed
    · cases failed
    · cases failed
    · cases failed
    next name kind =>
      split at failed
      · cases failed
      next unknown =>
        cases failed
        exact .inl ⟨rfl, factor, name, kind, unknown⟩
    · cases failed
    next nameless _ =>
      cases failed
      refine .inr ⟨rfl, ?_⟩
      rintro ⟨_, name, kind, _⟩
      exact nameless name kind
  next operator bracket =>
    unfold takeBracket at failed
    split at failed
    · cases failed
    · cases failed
      refine .inr ⟨rfl, ?_⟩
      rintro ⟨factor, _⟩
      cases bracket.symm.trans factor
  next x continuation =>
    unfold takeContinuation at failed
    split at failed
    · cases failed
    · cases failed
    · cases failed
    · cases failed
    · cases failed
    · cases failed
    · cases failed
    · cases failed
      refine .inr ⟨rfl, ?_⟩
      rintro ⟨factor, _⟩
      cases continuation.symm.trans factor

theorem expecting_of_awaitsFactor (ran : Reading.start.run front = .ok state)
    (awaits : AwaitsFactor (front.map Token.kind)) : state.expecting = .factor := by
  -- A number is taken as a factor and as nothing else.
  have begins : Begins ((front ++ [Token.mk (.number 0) "0" 1]).map Token.kind) := by
    rw [List.map_append]
    exact awaits _ _ (.number 0)
  obtain ⟨next, taken⟩ := run_eq_ok_iff_begins.2 begins
  rw [run_snoc ran] at taken
  cases expecting : state.expecting with
  | factor => rfl
  | bracket operator =>
    unfold step at taken
    rw [expecting] at taken
    cases taken
  | continuation x =>
    unfold step at taken
    rw [expecting] at taken
    cases taken

end Reading

/-- What a refusal at `token`, behind the tokens of `front`, tells. -/
structure Refusal (front : List Token.Kind) (token : Token) (fault : FormulaFault) : Prop where
  first : FirstImpossible front token.kind
  reason : fault = .unexpected token ∧ fault.message = "unexpected " ++ token.describe ∨
    fault = .unknownFunction token ∧ fault.message = "unknown function " ++ token.describe
  unknown : fault = .unknownFunction token ↔
    AwaitsFactor front ∧ ∃ name, token.kind = .name name ∧ name ≠ "min" ∧ name ≠ "max"

section

variable {state : Reading} {token finish : Token} {front tokens : List Token} {fault : FormulaFault}

theorem refusal_of_step (ran : Reading.start.run front = .ok state) (inside : token.kind ≠ .finish)
    (failed : state.step token = .error fault) : Refusal (front.map Token.kind) token fault := by
  have covers := Reading.start_covers.run ran
  rw [List.nil_append] at covers
  have reason := Reading.step_error failed
  refine ⟨firstImpossible_of_not_begins covers.begins inside fun begins => ?_, ?_, ?_⟩
  · have onward : Begins ((front ++ [token]).map Token.kind) := by
      rw [List.map_append]
      exact begins
    obtain ⟨next, taken⟩ := Reading.run_eq_ok_iff_begins.2 onward
    rw [Reading.run_snoc ran, failed] at taken
    cases taken
  · rcases reason with ⟨rfl, _⟩ | ⟨rfl, _⟩
    · exact .inr ⟨rfl, rfl⟩
    · exact .inl ⟨rfl, rfl⟩
  · have meets : state.MeetsUnknown token ↔ AwaitsFactor (front.map Token.kind) ∧
        ∃ name, token.kind = .name name ∧ name ≠ "min" ∧ name ≠ "max" := by
      unfold Reading.MeetsUnknown
      simp only [Operator.ofName?_eq_none_iff]
      refine and_congr_left fun _ => ⟨covers.awaitsFactor, Reading.expecting_of_awaitsFactor ran⟩
    rw [← meets]
    rcases reason with ⟨rfl, unknown⟩ | ⟨rfl, known⟩
    · exact iff_of_true rfl unknown
    · exact iff_of_false nofun known

theorem refusal_of_close (ran : Reading.start.run front = .ok state) (ends : finish.kind = .finish)
    (failed : state.close finish = .error fault) : Refusal (front.map Token.kind) finish fault := by
  have covers := Reading.start_covers.run ran
  rw [List.nil_append] at covers
  have reason : fault = .unexpected finish := by
    unfold Reading.close at failed
    split at failed
    · cases failed
    · cases failed
      rfl
  subst reason
  refine ⟨?_, .inl ⟨rfl, rfl⟩, iff_of_false nofun ?_⟩
  · rw [ends]
    refine firstImpossible_finish covers.begins fun x spells => ?_
    have found := ofTokens_of_spells spells finish
    change (Reading.start.run front).bind _ = .ok x at found
    rw [ran] at found
    cases found.symm.trans failed
  · rintro ⟨_, name, kind, _⟩
    cases ends.symm.trans kind

theorem refusal_of_ofTokens (inside : ∀ token ∈ tokens, token.kind ≠ .finish)
    (ends : finish.kind = .finish) (failed : ofTokens tokens finish = .error fault) :
    ∃ front token rest, tokens ++ [finish] = front ++ token :: rest ∧
      Refusal (front.map Token.kind) token fault := by
  change (Reading.start.run tokens).bind (fun state => state.close finish) = .error fault at failed
  cases ran : Reading.start.run tokens with
  | ok state =>
    rw [ran] at failed
    exact ⟨tokens, finish, [], rfl, refusal_of_close ran ends failed⟩
  | error other =>
    rw [ran] at failed
    cases failed
    obtain ⟨front, token, rest, last, rfl, taken, stopped⟩ := Reading.run_error ran
    refine ⟨front, token, rest ++ [finish], by simp, refusal_of_step taken ?_ stopped⟩
    exact inside token (by simp)

end

/-- Where a text has tokens and is no formula, the fault names the first impossible one among them and the
one behind them; it tells of an unknown function when this is the name of none and stands where a factor
may begin. -/
theorem read_fault_at_first_impossible {base : Address} {text : String} {tokens : List Token}
    {fault : FormulaFault} (scanned : Token.scanToEnd base text.toList = .ok tokens)
    (failed : read base text = .error fault) :
    ∃ front token rest, tokens = front ++ token :: rest ∧
      Refusal (front.map Token.kind) token fault := by
  change (Token.scan base text.toList).bind
    (fun tokens => ofTokens tokens (Token.finish text.toList.length)) = .error fault at failed
  unfold Token.scanToEnd at scanned
  cases made : Token.scan base text.toList with
  | error other =>
    rw [made] at scanned
    cases scanned
  | ok inner =>
    rw [made] at scanned failed
    cases scanned
    exact refusal_of_ofTokens (Token.kind_ne_finish made) rfl failed

theorem read_fault_at_unknown_function :
    ∃ tokens fault, Token.scanToEnd .origin "2*max(1,-foo(3".toList = .ok tokens ∧
      read .origin "2*max(1,-foo(3" = .error fault ∧
      fault.message = "unknown function 'foo' at column 10" ∧
      ∃ front token rest, tokens = front ++ token :: rest ∧
        token = ⟨.name "foo", "foo", 10⟩ ∧ Refusal (front.map Token.kind) token fault := by
  have scanned : Token.scanToEnd .origin "2*max(1,-foo(3".toList =
      .ok [⟨.number 2, "2", 1⟩, ⟨.times, "*", 2⟩, ⟨.name "max", "max", 3⟩, ⟨.opening, "(", 6⟩,
        ⟨.number 1, "1", 7⟩, ⟨.comma, ",", 8⟩, ⟨.minus, "-", 9⟩, ⟨.name "foo", "foo", 10⟩,
        ⟨.opening, "(", 13⟩, ⟨.number 3, "3", 14⟩, ⟨.finish, "<EOF>", 15⟩] := by
    decide +kernel
  have outcome : (read .origin "2*max(1,-foo(3").map (fun _ => ()) =
      .error (.unknownFunction ⟨.name "foo", "foo", 10⟩) := by
    decide +kernel
  cases failed : read .origin "2*max(1,-foo(3" with
  | ok x =>
    rw [failed] at outcome
    cases outcome
  | error fault =>
    rw [failed] at outcome
    cases outcome
    obtain ⟨front, token, rest, same, refusal⟩ := read_fault_at_first_impossible scanned failed
    refine ⟨_, _, scanned, rfl, by decide +kernel, front, token, rest, same, ?_, refusal⟩
    rcases refusal.reason with ⟨other, _⟩ | ⟨named, _⟩
    · cases other
    · cases named
      rfl

end Formula

end Worksheet
