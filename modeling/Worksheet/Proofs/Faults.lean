import Worksheet.Formula.Read

/-! What can go wrong with the text of a formula. To scan and to read it fails only for what is written:
where the formula stands is a matter of writing and of evaluating it. -/

namespace Worksheet

/-- A fault that lies in the text of a formula, and not in where the formula stands. -/
def FormulaFault.OfText : FormulaFault → Prop
  | .placedOutside _ => False
  | .readOutside _ => False
  | _ => True

namespace Token

theorem ofText_of_kindOfLexeme {base : Address} {lexeme : Lexeme} {cause : FormulaFault}
    (failed : kindOfLexeme base lexeme = .error cause) : cause.OfText := by
  unfold kindOfLexeme at failed
  cases same : lexeme.kind with
  | number | reference =>
    simp only [same] at failed
    split at failed
    · cases failed
    · cases failed
      exact trivial
  | name | plus | minus | times | divide | opening | closing | comma | blank =>
    simp only [same] at failed
    cases failed

theorem ofText_of_ofLexemes {base : Address} {lexemes : List Lexeme} {cause : FormulaFault}
    (failed : ofLexemes base lexemes = .error cause) : cause.OfText := by
  induction lexemes with
  | nil => cases failed
  | cons lexeme rest ih =>
    rw [ofLexemes] at failed
    cases first : kindOfLexeme base lexeme with
    | error fault =>
      rw [first] at failed
      cases failed
      exact ofText_of_kindOfLexeme first
    | ok kind =>
      cases others : ofLexemes base rest with
      | error fault =>
        rw [first, others] at failed
        cases failed
        exact ih others
      | ok tail =>
        rw [first, others] at failed
        cases kind with
        | none => cases failed
        | some kind => cases failed

theorem ofText_of_scan {base : Address} {cs : List Char} {cause : FormulaFault}
    (failed : scan base cs = .error cause) : cause.OfText := by
  unfold scan at failed
  split at failed
  · exact ofText_of_ofLexemes failed
  · cases failed
    exact trivial

end Token

namespace Formula

namespace Reading

theorem ofText_of_step {state : Reading} {token : Token} {cause : FormulaFault}
    (failed : state.step token = .error cause) : cause.OfText := by
  unfold step at failed
  split at failed
  · unfold takeFactor at failed
    split at failed
    · cases failed
    · cases failed
    · cases failed
    · split at failed
      · cases failed
      · cases failed
        exact trivial
    · cases failed
    · cases failed
      exact trivial
  · unfold takeBracket at failed
    split at failed
    · cases failed
    · cases failed
      exact trivial
  · unfold takeContinuation at failed
    split at failed
    · cases failed
    · cases failed
    · cases failed
    · cases failed
    · cases failed
    · cases failed
    · cases failed
    · cases failed
      exact trivial

theorem ofText_of_run {state : Reading} {tokens : List Token} {cause : FormulaFault}
    (failed : state.run tokens = .error cause) : cause.OfText := by
  induction tokens generalizing state with
  | nil => cases failed
  | cons token rest ih =>
    rw [run] at failed
    cases taken : state.step token with
    | error fault =>
      rw [taken] at failed
      cases failed
      exact ofText_of_step taken
    | ok next =>
      rw [taken] at failed
      exact ih failed

end Reading

theorem ofText_of_read {base : Address} {text : String} {cause : FormulaFault}
    (failed : read base text = .error cause) : cause.OfText := by
  change (Token.scan base text.toList).bind (fun tokens => (Reading.start.run tokens).bind
    fun state => state.close (Token.finish text.toList.length)) = .error cause at failed
  cases scanned : Token.scan base text.toList with
  | error fault =>
    rw [scanned] at failed
    cases failed
    exact Token.ofText_of_scan scanned
  | ok tokens =>
    rw [scanned] at failed
    cases ran : Reading.start.run tokens with
    | error fault =>
      simp only [Except.bind, ran] at failed
      cases failed
      exact Reading.ofText_of_run ran
    | ok state =>
      simp only [Except.bind, ran, Reading.close] at failed
      split at failed
      · cases failed
      · cases failed
        exact trivial

end Formula

end Worksheet
