import Worksheet.Proofs.References
import Worksheet.Proofs.WellFormed

/-! Whatever is read as a formula is well-formed in the cell it was read for. The reader keeps this of
every part that stands unfinished. -/

namespace Worksheet

theorem Index.lt_of_ofOrdinal? {ordinal : Nat} {index : Index}
    (found : Index.ofOrdinal? ordinal = some index) :
    index.val < 4294967295 ∧ index.ordinal = ordinal := by
  unfold Index.ofOrdinal? at found
  split at found
  next bound =>
    cases found
    unfold Index.ordinal
    constructor
    · change ordinal - 1 < 4294967295
      omega
    · change ordinal - 1 + 1 = ordinal
      omega
  next => cases found

theorem Address.nameable_of_ofChars? {cs : List Char} {a : Address}
    (found : Address.ofChars? cs = some a) : a.Nameable := by
  unfold Address.ofChars? at found
  obtain ⟨col, colFound, found⟩ := Option.bind_eq_some_iff.1 found
  obtain ⟨row, rowFound, found⟩ := Option.bind_eq_some_iff.1 found
  cases found
  unfold Address.ofLetters? at colFound
  unfold Address.ofDigits? at rowFound
  split at rowFound
  · exact ⟨(Index.lt_of_ofOrdinal? colFound).1, (Index.lt_of_ofOrdinal? rowFound).1⟩
  · cases rowFound

theorem Address.nameable_of_ofName? {text : String} {a : Address}
    (found : Address.ofName? text = some a) : a.Nameable :=
  Address.nameable_of_ofChars? found

theorem Reference.resolve?_of_ofChars? {base : Address} {cs : List Char} {r : Reference}
    (found : Reference.ofChars? base cs = some r) :
    ∃ target, r.resolve? base = some target ∧ target.Nameable := by
  unfold Reference.ofChars? at found
  obtain ⟨target, named, found⟩ := Option.bind_eq_some_iff.1 found
  cases found
  refine ⟨target, ?_, Address.nameable_of_ofChars? named⟩
  unfold Reference.resolve?
  rw [Coord.resolve?_of, Coord.resolve?_of]
  rfl

namespace Token

def Fits (base : Address) (token : Token) : Prop :=
  match token.kind with
  | .number x => ∃ bits, bits < Decimal.Binary64.infinity ∧ x = Decimal.Binary64.toFloat bits
  | .reference r => ∃ target, r.resolve? base = some target ∧ target.Nameable
  | _ => True

theorem numberOfChars?_finite {cs : List Char} {x : Float} (found : numberOfChars? cs = some x) :
    ∃ bits, bits < Decimal.Binary64.infinity ∧ x = Decimal.Binary64.toFloat bits := by
  unfold numberOfChars? at found
  split at found
  next d _ =>
    split at found
    next finite =>
      cases found
      exact ⟨d.toBits, finite, rfl⟩
    next => cases found
  next => cases found

theorem fits_of_kindOfLexeme {base : Address} {lexeme : Lexeme} {kind : Kind}
    (made : kindOfLexeme base lexeme = .ok (some kind)) (text : String) (column : Nat) :
    Fits base ⟨kind, text, column⟩ := by
  unfold kindOfLexeme at made
  cases same : lexeme.kind with
  | number =>
    simp only [same] at made
    split at made
    next x found =>
      cases made
      exact numberOfChars?_finite found
    next => cases made
  | reference =>
    simp only [same] at made
    split at made
    next r found =>
      cases made
      exact Reference.resolve?_of_ofChars? found
    next => cases made
  | blank =>
    simp only [same] at made
    cases made
  | name | plus | minus | times | divide | opening | closing | comma =>
    simp only [same] at made
    cases made
    exact trivial

/-- The rule whose lexemes become tokens of this kind. No lexeme becomes the end. -/
def Kind.rule? : Kind → Option Lexeme.Kind
  | .number _ => some .number
  | .reference _ => some .reference
  | .name _ => some .name
  | .plus => some .plus
  | .minus => some .minus
  | .times => some .times
  | .divide => some .divide
  | .opening => some .opening
  | .closing => some .closing
  | .comma => some .comma
  | .finish => none

/-- What becomes of a lexeme, wherever it stands: a blank makes no token, and any other lexeme one of the kind
of its rule. -/
theorem kindOfLexeme_eq_ok {base : Address} {rule : Lexeme.Kind} {chars : List Char}
    {position : Position} {made : Option Kind}
    (found : kindOfLexeme base ⟨rule, chars, position⟩ = .ok made) :
    (∀ place, kindOfLexeme base ⟨rule, chars, place⟩ = .ok made) ∧
      made.elim (rule = .blank) fun kind => kind.rule? = some rule := by
  unfold kindOfLexeme at found ⊢
  cases rule with
  | number =>
    cases number : numberOfChars? chars with
    | none =>
      simp only [number] at found
      cases found
    | some x =>
      simp only [number] at found ⊢
      cases found
      exact ⟨fun _ => rfl, rfl⟩
  | reference =>
    cases reference : Reference.ofChars? base chars with
    | none =>
      simp only [reference] at found
      cases found
    | some r =>
      simp only [reference] at found ⊢
      cases found
      exact ⟨fun _ => rfl, rfl⟩
  | name | plus | minus | times | divide | opening | closing | comma | blank =>
    cases found
    exact ⟨fun _ => rfl, rfl⟩

theorem ofLexemes_cons_eq_ok {base : Address} {lexeme : Lexeme} {rest : List Lexeme} {tokens : List Token} :
    ofLexemes base (lexeme :: rest) = .ok tokens ↔
      ∃ made behind, kindOfLexeme base lexeme = .ok made ∧ ofLexemes base rest = .ok behind ∧
        tokens = (made.map fun kind =>
          ⟨kind, String.ofList lexeme.chars, lexeme.position.column⟩).toList ++ behind := by
  rw [ofLexemes]
  constructor
  · intro found
    cases first : kindOfLexeme base lexeme with
    | error fault =>
      rw [first] at found
      cases found
    | ok made =>
      cases others : ofLexemes base rest with
      | error fault =>
        rw [first, others] at found
        cases found
      | ok behind =>
        rw [first, others] at found
        refine ⟨made, behind, rfl, rfl, ?_⟩
        cases made with
        | none => exact (Except.ok.inj found).symm
        | some kind => exact (Except.ok.inj found).symm
  · rintro ⟨made, behind, first, others, rfl⟩
    rw [first, others]
    cases made with
    | none => rfl
    | some kind => rfl

theorem exists_lexeme_of_mem {base : Address} {lexemes : List Lexeme} {tokens : List Token}
    (made : ofLexemes base lexemes = .ok tokens) {token : Token} (member : token ∈ tokens) :
    ∃ lexeme ∈ lexemes, kindOfLexeme base lexeme = .ok (some token.kind) := by
  induction lexemes generalizing tokens with
  | nil =>
    cases made
    exact absurd member List.not_mem_nil
  | cons lexeme rest ih =>
    obtain ⟨kind, behind, first, others, rfl⟩ := ofLexemes_cons_eq_ok.1 made
    rcases List.mem_append.1 member with own | later
    · obtain ⟨kind, rfl, rfl⟩ := Option.map_eq_some_iff.1 (Option.mem_toList.1 own)
      exact ⟨lexeme, List.mem_cons_self, first⟩
    · obtain ⟨source, listed, made⟩ := ih others later
      exact ⟨source, List.mem_cons_of_mem lexeme listed, made⟩

theorem fits_of_ofLexemes {base : Address} {lexemes : List Lexeme} {tokens : List Token}
    (made : ofLexemes base lexemes = .ok tokens) : ∀ token ∈ tokens, Fits base token := by
  intro token member
  obtain ⟨lexeme, _, kind⟩ := exists_lexeme_of_mem made member
  exact fits_of_kindOfLexeme kind token.text token.column

theorem scan_eq_ok_iff {base : Address} {cs : List Char} {tokens : List Token} :
    scan base cs = .ok tokens ↔
      ∃ lexemes, Lexeme.scan cs = .ok lexemes ∧ ofLexemes base lexemes = .ok tokens := by
  unfold scan
  cases Lexeme.scan cs with
  | error place => exact ⟨nofun, nofun⟩
  | ok lexemes =>
    constructor
    · intro made
      exact ⟨lexemes, rfl, made⟩
    · rintro ⟨_, same, made⟩
      cases same
      exact made

theorem kind_ne_finish {base : Address} {cs : List Char} {tokens : List Token}
    (scanned : scan base cs = .ok tokens) :
    ∀ token ∈ tokens, token.kind ≠ .finish := by
  intro token member finish
  obtain ⟨lexemes, _, made⟩ := scan_eq_ok_iff.1 scanned
  obtain ⟨lexeme, _, becomes⟩ := exists_lexeme_of_mem made member
  have named := (kindOfLexeme_eq_ok becomes).2
  rw [finish] at named
  cases named

theorem fits_of_scan {base : Address} {cs : List Char} {tokens : List Token}
    (scanned : scan base cs = .ok tokens) : ∀ token ∈ tokens, Fits base token := by
  obtain ⟨lexemes, _, made⟩ := scan_eq_ok_iff.1 scanned
  exact fits_of_ofLexemes made

end Token

namespace Formula

variable {base : Address}

def FineLeft (base : Address) (left : Option (Formula × Operator)) : Prop :=
  ∀ x operator, left = some (x, operator) → x.WellFormed base ∧ operator.Takes 2

theorem fineLeft_none : FineLeft base none := by
  intro x operator same
  cases same

theorem fineLeft_some {x : Formula} {operator : Operator} (fine : x.WellFormed base)
    (takes : operator.Takes 2) : FineLeft base (some (x, operator)) := by
  intro y other same
  cases same
  exact ⟨fine, takes⟩

namespace Pending

structure Fine (base : Address) (pending : Pending) : Prop where
  sum : FineLeft base pending.sum
  product : FineLeft base pending.product

theorem empty_fine : Fine base .empty := ⟨fineLeft_none, fineLeft_none⟩

theorem complete_wellFormed {left : Option (Formula × Operator)} {right : Formula}
    (fine : FineLeft base left) (next : right.WellFormed base) :
    (complete left right).WellFormed base := by
  cases left with
  | none => exact next
  | some part =>
    obtain ⟨x, operator⟩ := part
    obtain ⟨first, takes⟩ := fine x operator rfl
    refine .apply operator [x, right] takes ?_
    intro y member
    rcases List.mem_cons.1 member with same | member
    · exact same ▸ first
    · exact List.mem_singleton.1 member ▸ next

theorem negateTimes_wellFormed {x : Formula} (n : Nat) (fine : x.WellFormed base) :
    (negateTimes n x).WellFormed base := by
  induction n with
  | zero => exact fine
  | succ n ih =>
    refine .apply .sub [negateTimes n x] (.inl rfl) ?_
    intro y member
    exact List.mem_singleton.1 member ▸ ih

theorem Fine.finishProduct {pending : Pending} {x : Formula} (fine : Fine base pending)
    (next : x.WellFormed base) : (pending.finishProduct x).WellFormed base :=
  complete_wellFormed fine.product (negateTimes_wellFormed pending.negations next)

theorem Fine.finishSum {pending : Pending} {x : Formula} (fine : Fine base pending)
    (next : x.WellFormed base) : (pending.finishSum x).WellFormed base :=
  complete_wellFormed fine.sum (fine.finishProduct next)

end Pending

def Bracket.Fine (base : Address) : Bracket → Prop
  | .group => True
  | .call operator operands =>
      isCall operator = true ∧ ∀ x ∈ operands, x.WellFormed base

def Expecting.Fine (base : Address) : Expecting → Prop
  | .factor => True
  | .bracket operator => isCall operator = true
  | .continuation x => x.WellFormed base

namespace Reading

structure Fine (base : Address) (state : Reading) : Prop where
  pending : state.pending.Fine base
  outer : ∀ level ∈ state.outer, level.1.Fine base ∧ level.2.Fine base
  expecting : state.expecting.Fine base

theorem start_fine : Fine base .start := by
  refine ⟨Pending.empty_fine, ?_, trivial⟩
  intro level member
  exact absurd member List.not_mem_nil

theorem isCall_of_ofName? {text : String} {operator : Operator}
    (found : Operator.ofName? text = some operator) : isCall operator = true := by
  unfold Operator.ofName? at found
  split at found
  · cases found
    rfl
  · cases found
    rfl
  · cases found

theorem call_wellFormed {operator : Operator} {operands : List Formula} {x : Formula}
    (call : isCall operator = true) (each : ∀ y ∈ operands, y.WellFormed base)
    (last : x.WellFormed base) : (apply operator (operands ++ [x])).WellFormed base := by
  refine .apply operator (operands ++ [x]) ?_ ?_
  · rw [List.length_append, List.length_singleton]
    cases operator with
    | add | sub | mul | div => cases call
    | min | max => exact Nat.succ_pos _
  · intro y member
    rcases List.mem_append.1 member with front | back
    · exact each y front
    · exact List.mem_singleton.1 back ▸ last

theorem takeFactor_fine {state next : Reading} {token : Token} (fine : Fine base state)
    (fits : token.Fits base) (taken : state.takeFactor token = .ok next) : Fine base next := by
  unfold takeFactor at taken
  unfold Token.Fits at fits
  split at taken
  · cases taken
    exact ⟨⟨fine.pending.sum, fine.pending.product⟩, fine.outer, fine.expecting⟩
  next x same =>
    cases taken
    rw [same] at fits
    obtain ⟨bits, finite, rfl⟩ := fits
    exact ⟨fine.pending, fine.outer, .number bits finite⟩
  next r same =>
    cases taken
    rw [same] at fits
    obtain ⟨target, denotes, nameable⟩ := fits
    exact ⟨fine.pending, fine.outer, .reference r target denotes nameable⟩
  · split at taken
    next operator found =>
      cases taken
      exact ⟨fine.pending, fine.outer, isCall_of_ofName? found⟩
    next => cases taken
  · cases taken
    refine ⟨Pending.empty_fine, ?_, trivial⟩
    intro level member
    rcases List.mem_cons.1 member with same | inner
    · exact same ▸ ⟨trivial, fine.pending⟩
    · exact fine.outer level inner
  · cases taken

theorem takeBracket_fine {state next : Reading} {operator : Operator} {token : Token}
    (fine : Fine base state) (call : isCall operator = true)
    (taken : state.takeBracket operator token = .ok next) : Fine base next := by
  unfold takeBracket at taken
  split at taken
  · cases taken
    refine ⟨Pending.empty_fine, ?_, trivial⟩
    intro level member
    rcases List.mem_cons.1 member with same | inner
    · refine same ▸ ⟨⟨call, ?_⟩, fine.pending⟩
      intro y held
      exact absurd held List.not_mem_nil
    · exact fine.outer level inner
  · cases taken

theorem takeContinuation_fine {state next : Reading} {x : Formula} {token : Token}
    (fine : Fine base state) (last : x.WellFormed base)
    (taken : state.takeContinuation x token = .ok next) : Fine base next := by
  have product := fine.pending.finishProduct last
  have sum := fine.pending.finishSum last
  unfold takeContinuation at taken
  split at taken
  · cases taken
    exact ⟨⟨fineLeft_some sum rfl, fineLeft_none⟩, fine.outer, trivial⟩
  · cases taken
    exact ⟨⟨fineLeft_some sum (.inr rfl), fineLeft_none⟩, fine.outer, trivial⟩
  · cases taken
    exact ⟨⟨fine.pending.sum, fineLeft_some product rfl⟩, fine.outer, trivial⟩
  · cases taken
    exact ⟨⟨fine.pending.sum, fineLeft_some product rfl⟩, fine.outer, trivial⟩
  next operator operands around outer comma nested =>
    cases taken
    have inside := fine.outer
    rw [nested] at inside
    obtain ⟨⟨call, each⟩, surrounding⟩ := inside _ List.mem_cons_self
    refine ⟨Pending.empty_fine, ?_, trivial⟩
    intro level member
    rcases List.mem_cons.1 member with same | inner
    · refine same ▸ ⟨⟨call, ?_⟩, surrounding⟩
      intro y held
      rcases List.mem_append.1 held with front | back
      · exact each y front
      · exact List.mem_singleton.1 back ▸ sum
    · exact inside level (List.mem_cons_of_mem _ inner)
  next operator operands around outer closing nested =>
    cases taken
    have inside := fine.outer
    rw [nested] at inside
    obtain ⟨⟨call, each⟩, surrounding⟩ := inside _ List.mem_cons_self
    exact ⟨surrounding, fun level member => inside level (List.mem_cons_of_mem _ member),
      call_wellFormed call each sum⟩
  next around outer closing nested =>
    cases taken
    have inside := fine.outer
    rw [nested] at inside
    exact ⟨(inside _ List.mem_cons_self).2,
      fun level member => inside level (List.mem_cons_of_mem _ member), sum⟩
  · cases taken

theorem step_fine {state next : Reading} {token : Token} (fine : Fine base state)
    (fits : token.Fits base) (taken : state.step token = .ok next) : Fine base next := by
  have expected := fine.expecting
  unfold step at taken
  split at taken
  next => exact takeFactor_fine fine fits taken
  next operator same =>
    rw [same] at expected
    exact takeBracket_fine fine expected taken
  next x same =>
    rw [same] at expected
    exact takeContinuation_fine fine expected taken

theorem run_fine {state final : Reading} {tokens : List Token} (fine : Fine base state)
    (fit : ∀ token ∈ tokens, token.Fits base) (ran : state.run tokens = .ok final) :
    Fine base final := by
  induction tokens generalizing state with
  | nil =>
    cases ran
    exact fine
  | cons token rest ih =>
    rw [run] at ran
    cases taken : state.step token with
    | error fault =>
      rw [taken] at ran
      cases ran
    | ok next =>
      rw [taken] at ran
      exact ih (step_fine fine (fit token List.mem_cons_self) taken)
        (fun other member => fit other (List.mem_cons_of_mem _ member)) ran

end Reading

theorem read_eq_ok {text : String} {formula : Formula} :
    read base text = .ok formula ↔ ∃ tokens state,
      Token.scan base text.toList = .ok tokens ∧ Reading.start.run tokens = .ok state ∧
        state.close (Token.finish text.toList.length) = .ok formula := by
  change (Token.scan base text.toList).bind (fun tokens => (Reading.start.run tokens).bind
    fun state => state.close (Token.finish text.toList.length)) = .ok formula ↔ _
  constructor
  · intro found
    cases scanned : Token.scan base text.toList with
    | error fault =>
      rw [scanned] at found
      cases found
    | ok tokens =>
      rw [scanned] at found
      cases ran : Reading.start.run tokens with
      | error fault =>
        simp only [Except.bind, ran] at found
        cases found
      | ok state =>
        simp only [Except.bind, ran] at found
        exact ⟨tokens, state, rfl, ran, found⟩
  · intro found
    obtain ⟨tokens, state, scanned, ran, closed⟩ := found
    rw [scanned]
    simp only [Except.bind, ran, closed]

/-- Whatever is read in a cell is well-formed there. -/
theorem wellFormed_of_read {text : String} {formula : Formula}
    (found : read base text = .ok formula) : formula.WellFormed base := by
  obtain ⟨tokens, final, scanned, ran, closed⟩ := read_eq_ok.1 found
  have fine := Reading.run_fine Reading.start_fine (Token.fits_of_scan scanned) ran
  have expected := fine.expecting
  unfold Reading.close at closed
  split at closed
  next x same outer =>
    cases closed
    rw [same] at expected
    exact fine.pending.finishSum expected
  next => cases closed

end Formula

end Worksheet
