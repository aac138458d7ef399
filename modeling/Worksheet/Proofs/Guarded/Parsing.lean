import Worksheet.Proofs.Grammar
import Worksheet.Proofs.Guarded.Cursors

/-! Guarded parsing. The reader of formulas keeps in its states what the calls at a cursor leave waiting.
What is read at a cursor takes the reader from the state before it to the state behind it, so both come to
the same formula or to the same fault. -/

namespace Worksheet

namespace Formula.Reading

variable {pending : Pending} {outer : List (Bracket × Pending)} {x : Formula} {operator : Operator}
  {token finish : Token} {rest : List Token}

theorem outcome_additive (sign : token.kind.additive? = some operator) :
    outcome ⟨pending, outer, .continuation x⟩ (token :: rest) finish =
      outcome ⟨⟨some (pending.finishSum x, operator), none, 0⟩, outer, .factor⟩ rest finish := by
  refine outcome_cons ?_
  unfold Token.Kind.additive? at sign
  split at sign
  next plus =>
    cases sign
    exact takes_plus plus pending outer x
  next minus =>
    cases sign
    exact takes_minus minus pending outer x
  next => cases sign

theorem outcome_multiplicative (sign : token.kind.multiplicative? = some operator) :
    outcome ⟨pending, outer, .continuation x⟩ (token :: rest) finish =
      outcome ⟨⟨pending.sum, some (pending.finishProduct x, operator), 0⟩, outer, .factor⟩ rest
        finish := by
  refine outcome_cons ?_
  unfold Token.Kind.multiplicative? at sign
  split at sign
  next times =>
    cases sign
    exact takes_times times pending outer x
  next divide =>
    cases sign
    exact takes_divide divide pending outer x
  next => cases sign

theorem outcome_finishSum (ends : (rest.headD finish).kind.multiplicative? = none) :
    outcome ⟨pending, outer, .continuation x⟩ rest finish =
      outcome ⟨.empty, outer, .continuation (pending.finishSum x)⟩ rest finish := by
  cases rest with
  | nil =>
    cases outer with
    | nil => rfl
    | cons level outer => rfl
  | cons token back =>
    rw [List.headD_cons] at ends
    have same : step ⟨pending, outer, .continuation x⟩ token =
        step ⟨.empty, outer, .continuation (pending.finishSum x)⟩ token := by
      unfold step takeContinuation
      cases kind : token.kind with
      | times | divide =>
        rw [kind] at ends
        cases ends
      | comma | closing =>
        rcases outer with _ | ⟨⟨bracket, around⟩, outer⟩
        · rfl
        · cases bracket with
          | group | call operator operands => rfl
      | _ => rfl
    unfold outcome
    rw [run, run, same]

theorem outcome_of_refused {state : Reading} {cause : FormulaFault}
    (closes : rest = [] → state.close finish = .error cause)
    (steps : ∀ token back, rest = token :: back → state.step token = .error cause) :
    outcome state rest finish = .error cause := by
  unfold outcome
  cases rest with
  | nil => exact closes rfl
  | cons token back =>
    rw [run, steps token back rfl]
    rfl

theorem outcome_unknown {text : String} (name : token.kind = .name text)
    (unknown : Operator.ofName? text = none) :
    outcome ⟨pending, outer, .factor⟩ (token :: rest) finish = .error (.unknownFunction token) := by
  refine outcome_of_refused nofun fun other back same => ?_
  cases same
  unfold step takeFactor
  simp only [name, unknown]

theorem outcome_factor_refused
    (other : takeFactor ⟨pending, outer, .factor⟩ (rest.headD finish) =
      .error (.unexpected (rest.headD finish))) :
    outcome ⟨pending, outer, .factor⟩ rest finish = .error (.unexpected (rest.headD finish)) := by
  refine outcome_of_refused (fun same => ?_) fun token back same => ?_
  · rw [same]
    rfl
  · rw [same] at other ⊢
    exact other

theorem outcome_bracket_refused (other : (rest.headD finish).kind ≠ .opening) :
    outcome ⟨pending, outer, .bracket operator⟩ rest finish =
      .error (.unexpected (rest.headD finish)) := by
  refine outcome_of_refused (fun same => ?_) fun token back same => ?_
  · rw [same]
    rfl
  · rw [same, List.headD_cons] at other ⊢
    unfold step takeBracket
    cases kind : token.kind with
    | opening => exact absurd kind other
    | _ => rfl

theorem outcome_continuation_refused (factor : (rest.headD finish).kind.multiplicative? = none)
    (term : (rest.headD finish).kind.additive? = none)
    (closing : (rest.headD finish).kind = .closing → outer = [])
    (comma : (rest.headD finish).kind = .comma → ∀ level ∈ outer.head?, level.1 = .group)
    (ends : rest = [] → outer ≠ []) :
    outcome ⟨pending, outer, .continuation x⟩ rest finish =
      .error (.unexpected (rest.headD finish)) := by
  refine outcome_of_refused (fun same => ?_) fun token back same => ?_
  · obtain ⟨level, outer, rfl⟩ := List.exists_cons_of_ne_nil (ends same)
    rw [same]
    rfl
  · rw [same, List.headD_cons] at factor term closing comma ⊢
    unfold step takeContinuation
    cases kind : token.kind with
    | times | divide =>
      rw [kind] at factor
      cases factor
    | plus | minus =>
      rw [kind] at term
      cases term
    | closing =>
      rw [closing kind]
    | comma =>
      rcases outer with _ | ⟨⟨bracket, around⟩, outer⟩
      · rfl
      · cases comma kind _ rfl
        rfl
    | _ => rfl

end Formula.Reading

namespace Guarded.Cursor

open Formula (Bracket Pending Expecting Reading)
open Formula.Reading

/-- What reading at a cursor comes to. What is read satisfies `reads` beside the tokens that the next cursor
faces, and a fault satisfies `fails`. -/
inductive Comes (finish : Token) {cursor : Cursor} {α : Type} (reads : α → List Token → Prop)
    (fails : FormulaFault → Prop) : Except Stop (cursor.Parsed α) → Prop
  | read {x : α} {next : Cursor} {le : next.left ≤ cursor.left} {rest : List Token}
      (faces : next.Faces rest finish) (holds : reads x rest) :
      Comes finish reads fails (.ok ⟨x, next, le⟩)
  | fault {cause : FormulaFault} (holds : fails cause) :
      Comes finish reads fails (.error (.fault (.formula cause)))

theorem Comes.bind {finish : Token} {cursor other : Cursor} {α β : Type}
    {reads : α → List Token → Prop} {reads' : β → List Token → Prop} {fails fails' : FormulaFault → Prop}
    {result : Except Stop (cursor.Parsed α)}
    {onward : cursor.Parsed α → Except Stop (other.Parsed β)} (first : Comes finish reads fails result)
    (failed : ∀ cause, fails cause → fails' cause)
    (further : ∀ x next le rest, next.Faces rest finish → reads x rest →
      Comes finish reads' fails' (onward ⟨x, next, le⟩)) :
    Comes finish reads' fails' (result >>= onward) := by
  cases first with
  | read faces holds => exact further _ _ _ _ faces holds
  | fault holds => exact .fault (failed _ holds)

/-- A level of the grammar: the states of the reader around a phrase of it, and the kinds of token that
do not carry such a phrase on. -/
structure Level where
  Context : Type
  state : Context → Expecting → Reading
  Ends : Token.Kind → Prop

namespace Level

def factor : Level where
  Context := Pending × List (Bracket × Pending)
  state context expecting := ⟨context.1, context.2, expecting⟩
  Ends _ := True

def product : Level where
  Context := Option (Formula × Operator) × List (Bracket × Pending)
  state context expecting := ⟨⟨context.1, none, 0⟩, context.2, expecting⟩
  Ends kind := kind.multiplicative? = none

def sum : Level where
  Context := List (Bracket × Pending)
  state outer expecting := ⟨.empty, outer, expecting⟩
  Ends kind := kind.multiplicative? = none ∧ kind.additive? = none

def operand (front : List Formula) : Level where
  Context := Operator × Pending × List (Bracket × Pending)
  state context expecting :=
    ⟨.empty, (.call context.1 front, context.2.1) :: context.2.2, expecting⟩
  Ends kind := sum.Ends kind ∧ kind ≠ .comma

end Level

/-- The reader goes on behind what is read as it does before it, whatever stands around. -/
def Follows (level : Level) (expecting : Expecting) (rest : List Token) (finish : Token) {cursor : Cursor} :
    Except Stop (cursor.Parsed Formula) → Prop :=
  Comes finish
    (fun x back => level.Ends (back.headD finish).kind ∧ ∀ context,
      outcome (level.state context expecting) rest finish =
        outcome (level.state context (.continuation x)) back finish)
    (fun cause => ∀ context, outcome (level.state context expecting) rest finish = .error cause)

theorem Follows.bind {level level' : Level} {expecting expecting' : Expecting} {tokens rest : List Token}
    {finish : Token} {cursor other : Cursor} {β : Type} {reads : β → List Token → Prop}
    {result : Except Stop (cursor.Parsed Formula)} {onward : cursor.Parsed Formula → Except Stop (other.Parsed β)}
    (first : Follows level expecting rest finish result) (inner : level'.Context → level.Context)
    (enters : ∀ context, outcome (level'.state context expecting') tokens finish =
      outcome (level.state (inner context) expecting) rest finish)
    (further : ∀ x next le back, next.Faces back finish → level.Ends (back.headD finish).kind →
      (∀ context, outcome (level'.state context expecting') tokens finish =
        outcome (level.state (inner context) (.continuation x)) back finish) →
      Comes finish reads
        (fun cause => ∀ context, outcome (level'.state context expecting') tokens finish = .error cause)
        (onward ⟨x, next, le⟩)) :
    Comes finish reads
      (fun cause => ∀ context, outcome (level'.state context expecting') tokens finish = .error cause)
      (result >>= onward) :=
  Comes.bind first (fun _ fails context => (enters context).trans (fails (inner context)))
    fun x next le back faces read =>
      further x next le back faces read.1 fun context => (enters context).trans (read.2 (inner context))

-- Along the calls of the cursor, with their measure: a call goes down a level or takes a token first.
mutual

theorem sum_follows {cursor : Cursor} {rest : List Token} {finish : Token}
    (faces : cursor.Faces rest finish) : Follows .sum .factor rest finish cursor.sum := by
  rw [Cursor.sum]
  refine (product_follows faces).bind (fun outer => (none, outer)) (fun _ => rfl)
    fun x behind le back faces' ends same => ?_
  refine (terms_follows x faces' ends).bind id same fun y next le' final faces'' ends' same' => ?_
  exact .read faces'' ⟨ends', same'⟩
termination_by 3 * cursor.left + 2

theorem terms_follows {cursor : Cursor} {rest : List Token} {finish : Token} (x : Formula)
    (faces : cursor.Faces rest finish) (ends : Level.product.Ends (rest.headD finish).kind) :
    Follows .sum (.continuation x) rest finish (cursor.terms x) := by
  rw [Cursor.terms, faces.peek, pure_bind]
  cases sign : (rest.headD finish).kind.additive? with
  | none => exact .read faces ⟨⟨ends, sign⟩, fun _ => rfl⟩
  | some operator =>
    obtain ⟨token, back, right, less, rfl, taken, faces'⟩ := faces.take_head fun same => by
      rw [same] at sign
      cases sign
    dsimp only
    rw [taken]
    refine (product_follows faces').bind (fun outer => (some (x, operator), outer))
      (fun _ => outcome_additive sign) fun y behind le rest' faces'' ends' same => ?_
    have whole : ∀ outer, outcome (Level.sum.state outer (.continuation x)) (token :: back) finish =
        outcome (Level.sum.state outer (.continuation (.apply operator [x, y]))) rest' finish :=
      fun outer => (same outer).trans (outcome_finishSum ends')
    refine (terms_follows (.apply operator [x, y]) faces'' ends').bind id whole
      fun z next le' final faces''' ends'' same' => ?_
    exact .read faces''' ⟨ends'', same'⟩
termination_by 3 * cursor.left

theorem product_follows {cursor : Cursor} {rest : List Token} {finish : Token}
    (faces : cursor.Faces rest finish) : Follows .product .factor rest finish cursor.product := by
  rw [Cursor.product]
  refine (factor_follows faces).bind (fun context => (⟨context.1, none, 0⟩, context.2)) (fun _ => rfl)
    fun x behind le back faces' _ same => ?_
  refine (factors_follows x faces').bind id same fun y next le' final faces'' ends same' => ?_
  exact .read faces'' ⟨ends, same'⟩
termination_by 3 * cursor.left + 1

theorem factors_follows {cursor : Cursor} {rest : List Token} {finish : Token} (x : Formula)
    (faces : cursor.Faces rest finish) :
    Follows .product (.continuation x) rest finish (cursor.factors x) := by
  rw [Cursor.factors, faces.peek, pure_bind]
  cases sign : (rest.headD finish).kind.multiplicative? with
  | none => exact .read faces ⟨sign, fun _ => rfl⟩
  | some operator =>
    obtain ⟨token, back, right, less, rfl, taken, faces'⟩ := faces.take_head fun same => by
      rw [same] at sign
      cases sign
    dsimp only
    rw [taken]
    refine (factor_follows faces').bind (fun context => (⟨context.1, some (x, operator), 0⟩, context.2))
      (fun _ => outcome_multiplicative sign) fun y behind le rest' faces'' _ same => ?_
    have whole : ∀ context,
        outcome (Level.product.state context (.continuation x)) (token :: back) finish =
          outcome (Level.product.state context (.continuation (.apply operator [x, y]))) rest' finish :=
      fun context => (same context).trans (outcome_congr rfl rfl)
    refine (factors_follows (.apply operator [x, y]) faces'').bind id whole
      fun z next le' final faces''' ends same' => ?_
    exact .read faces''' ⟨ends, same'⟩
termination_by 3 * cursor.left

theorem factor_follows {cursor : Cursor} {rest : List Token} {finish : Token}
    (faces : cursor.Faces rest finish) : Follows .factor .factor rest finish cursor.factor := by
  rw [Cursor.factor, faces.peek, pure_bind]
  cases kind : (rest.headD finish).kind with
  | minus =>
    obtain ⟨token, back, inner, less, rfl, taken, faces'⟩ := faces.take_head (by rw [kind]; nofun)
    dsimp only
    rw [taken]
    refine (factor_follows faces').bind (fun context => (context.1.negate, context.2))
      (fun _ => outcome_cons (takes_negation kind)) fun x next le final faces'' _ same => ?_
    exact .read faces'' ⟨trivial, fun context => (same context).trans outcome_negation⟩
  | number value =>
    obtain ⟨token, back, next, less, rfl, taken, faces'⟩ := faces.take_head (by rw [kind]; nofun)
    dsimp only
    rw [taken]
    exact .read faces' ⟨trivial, fun context => makes_number kind context.1 context.2 back finish⟩
  | reference r =>
    obtain ⟨token, back, next, less, rfl, taken, faces'⟩ := faces.take_head (by rw [kind]; nofun)
    dsimp only
    rw [taken]
    exact .read faces' ⟨trivial, fun context => makes_reference kind context.1 context.2 back finish⟩
  | name text =>
    obtain ⟨token, back, bracket, less, rfl, taken, faces'⟩ := faces.take_head (by rw [kind]; nofun)
    dsimp only
    rw [taken]
    cases known : Operator.ofName? text with
    | none => exact .fault fun _ => outcome_unknown kind known
    | some operator =>
      refine (call_follows operator faces').bind id (fun _ => outcome_cons (takes_name kind known))
        fun x next le final faces'' _ same => ?_
      exact .read faces'' ⟨trivial, same⟩
  | opening =>
    obtain ⟨token, back, inner, less, rfl, taken, faces'⟩ := faces.take_head (by rw [kind]; nofun)
    dsimp only
    rw [taken]
    refine (sum_follows faces').bind (fun context => (.group, context.1) :: context.2)
      (fun _ => outcome_cons (takes_opening kind)) fun x final le rest' faces'' ends same => ?_
    obtain ⟨last, others, next, less', rfl, closing, expected, faces'''⟩ | ⟨other, expected⟩ :=
      faces''.expect .closing nofun
    · dsimp only
      rw [expected]
      exact .read faces''' ⟨trivial, fun context =>
        (same context).trans (outcome_cons (takes_closing closing))⟩
    · dsimp only
      rw [expected]
      exact .fault fun context => (same context).trans
        (outcome_continuation_refused ends.1 ends.2 (absurd · other)
          (fun _ level held => by cases held; rfl) fun _ => List.cons_ne_nil _ _)
  | plus | times | divide | closing | comma | finish =>
    rw [faces.unexpected]
    refine .fault fun context => outcome_factor_refused ?_
    unfold takeFactor
    rw [kind]
termination_by 3 * cursor.left

theorem call_follows {cursor : Cursor} {rest : List Token} {finish : Token} (operator : Operator)
    (faces : cursor.Faces rest finish) :
    Follows .factor (.bracket operator) rest finish (cursor.call operator) := by
  rw [Cursor.call]
  obtain ⟨token, back, inner, less, rfl, opening, expected, faces'⟩ | ⟨other, expected⟩ :=
    faces.expect .opening nofun
  · rw [expected]
    refine (sum_follows faces').bind (fun context => (.call operator [], context.1) :: context.2)
      (fun _ => outcome_cons (takes_bracket opening)) fun x behind le rest' faces'' ends same => ?_
    refine (operands_follow [] x faces'' ends).bind
      (fun cause fails context => (same context).trans (fails (operator, context)))
      fun xs final le' rest'' faces''' read => ?_
    obtain ⟨front, y, rfl, ends', same'⟩ := read
    obtain ⟨last, others, next, less', rfl, closing, expected, behind⟩ | ⟨other, expected⟩ :=
      faces'''.expect .closing nofun
    · dsimp only
      rw [expected]
      exact .read behind ⟨trivial, fun context => (same context).trans
        ((same' (operator, context)).trans (outcome_cons (takes_closing closing)))⟩
    · dsimp only
      rw [expected]
      exact .fault fun context => (same context).trans ((same' (operator, context)).trans
        (outcome_continuation_refused ends'.1.1 ends'.1.2 (absurd · other) (absurd · ends'.2)
          fun _ => List.cons_ne_nil _ _))
  · rw [expected]
    exact .fault fun _ => outcome_bracket_refused other
termination_by 3 * cursor.left

theorem operands_follow {cursor : Cursor} {rest : List Token} {finish : Token} (front : List Formula)
    (x : Formula) (faces : cursor.Faces rest finish) (ends : Level.sum.Ends (rest.headD finish).kind) :
    Comes finish
      (fun ys back => ∃ front' y, ys = front' ++ [y] ∧ (Level.operand front').Ends (back.headD finish).kind ∧
        ∀ context, outcome ((Level.operand front).state context (.continuation x)) rest finish =
          outcome ((Level.operand front').state context (.continuation y)) back finish)
      (fun cause => ∀ context,
        outcome ((Level.operand front).state context (.continuation x)) rest finish = .error cause)
      (cursor.operands (front ++ [x])) := by
  rw [Cursor.operands, faces.peek, pure_bind]
  by_cases comma : (rest.headD finish).kind = .comma
  · obtain ⟨token, back, right, less, rfl, taken, faces'⟩ := faces.take_head (by rw [comma]; nofun)
    rw [if_pos comma, taken]
    refine (sum_follows faces').bind
      (fun context => (.call context.1 (front ++ [x]), context.2.1) :: context.2.2)
      (fun _ => outcome_cons (takes_comma comma)) fun y behind le rest' faces'' ends' same => ?_
    refine (operands_follow (front ++ [x]) y faces'' ends').bind
      (fun cause fails context => (same context).trans (fails context))
      fun ys next le' final faces''' read => ?_
    obtain ⟨front', z, last, ends'', same'⟩ := read
    exact .read faces''' ⟨front', z, last, ends'', fun context => (same context).trans (same' context)⟩
  · rw [if_neg comma]
    exact .read faces ⟨front, x, rfl, ⟨ends, comma⟩, fun _ => rfl⟩
termination_by 3 * cursor.left

end

/-- Reading level by level comes to what the states of the reader come to. -/
theorem parse_eq {cursor : Cursor} {tokens : List Token} {finish : Token}
    (faces : cursor.Faces tokens finish) :
    cursor.parse = ofText (Formula.ofTokens tokens finish) := by
  change cursor.parse = ofText (outcome .start tokens finish)
  have follows := sum_follows faces
  unfold Cursor.parse
  generalize cursor.sum = result at follows ⊢
  cases follows with
  | fault same =>
    rw [show outcome .start tokens finish = _ from same []]
    rfl
  | @read x next le rest faces' read =>
    obtain ⟨ends, same⟩ := read
    rw [show outcome .start tokens finish = _ from same []]
    change (next.peek >>= fun token => _) = _
    rw [faces'.peek, pure_bind]
    -- Only the token behind a formula ends one, and a sum that stops elsewhere is refused by both.
    by_cases met : (rest.headD finish).kind = .finish
    · have none : rest = [] := by
        cases rest with
        | nil => rfl
        | cons token back => exact absurd met (faces'.inner token List.mem_cons_self)
      rw [if_pos met, none]
      rfl
    · have inside : rest ≠ [] := fun none => met (by rw [none]; exact faces'.ends)
      have refused : outcome (Level.sum.state [] (.continuation x)) rest finish =
          .error (.unexpected (rest.headD finish)) :=
        outcome_continuation_refused ends.1 ends.2 (fun _ => rfl) nofun fun none => absurd none inside
      rw [if_neg met, faces'.unexpected, refused]
      rfl

end Guarded.Cursor

end Worksheet
