import Worksheet.Formula.Read
import Worksheet.Proofs.Naming

/-! Well-formed formulas: the numbers are finite and not negative, every operator has as many operands
as it takes, and every reference leads to a cell that has a name. Such a formula has a text in its
cell, and a value whenever the cells that it reads have values. -/

namespace Worksheet

def Operator.Takes : Operator → Nat → Prop
  | .add, n => n = 2
  | .sub, n => n = 1 ∨ n = 2
  | .mul, n => n = 2
  | .div, n => n = 2
  | .min, n => 0 < n
  | .max, n => 0 < n

theorem Operator.takes_shapes {α : Type} {operator : Operator} {operands : List α}
    (takes : operator.Takes operands.length) :
    (operator = .sub ∧ ∃ x, operands = [x]) ∨
      (Formula.isCall operator = false ∧ ∃ x y, operands = [x, y]) ∨
      (Formula.isCall operator = true ∧ ∃ x rest, operands = x :: rest) := by
  cases operator with
  | add | mul | div => exact .inr (.inl ⟨rfl, List.length_eq_two.1 takes⟩)
  | sub =>
    rcases takes with one | two
    · exact .inl ⟨rfl, List.length_eq_one_iff.1 one⟩
    · exact .inr (.inl ⟨rfl, List.length_eq_two.1 two⟩)
  | min | max =>
    obtain ⟨x, rest, same⟩ := List.exists_cons_of_length_pos takes
    exact .inr (.inr ⟨rfl, x, rest, same⟩)

theorem Operator.value?_of_takes {operator : Operator} {values : List Float}
    (takes : operator.Takes values.length) : ∃ x, operator.value? values = some x := by
  obtain ⟨rfl, x, rfl⟩ | ⟨between, x, y, rfl⟩ | ⟨call, x, rest, rfl⟩ := takes_shapes takes
  · exact ⟨-x, rfl⟩
  · cases operator with
    | add | sub | mul | div => exact ⟨_, rfl⟩
    | min | max => cases between
  · cases operator with
    | add | sub | mul | div => cases call
    | min | max => exact ⟨_, rfl⟩

namespace Formula

inductive WellFormed (base : Address) : Formula → Prop
  | number (bits : Nat) (finite : bits < Decimal.Binary64.infinity) :
      WellFormed base (.number (Decimal.Binary64.toFloat bits))
  | reference (r : Reference) (target : Address) (denotes : r.resolve? base = some target)
      (nameable : target.Nameable) : WellFormed base (.reference r)
  | apply (operator : Operator) (operands : List Formula)
      (takes : operator.Takes operands.length) (each : ∀ x ∈ operands, WellFormed base x) :
      WellFormed base (.apply operator operands)

/-- Every operator in the formula has as many operands as it takes; nothing is said of numbers and references. -/
inductive Applied : Formula → Prop
  | number (x : Float) : Applied (.number x)
  | reference (r : Reference) : Applied (.reference r)
  | apply (operator : Operator) (operands : List Formula)
      (takes : operator.Takes operands.length) (each : ∀ x ∈ operands, Applied x) :
      Applied (.apply operator operands)

theorem WellFormed.applied {base : Address} {formula : Formula} (fine : formula.WellFormed base) :
    formula.Applied := by
  induction fine with
  | number bits finite => exact .number (Decimal.Binary64.toFloat bits)
  | reference r target denotes nameable => exact .reference r
  | apply operator operands takes each ih => exact .apply operator operands takes ih

mutual

/-- The value of a formula under given values of its references. Operands are taken from left to
right, and the first one that has no value decides. -/
def value (read : Reference → Except Fault Float) : Formula → Except Fault Float
  | .number x => .ok x
  | .reference r => read r
  | .apply operator operands => do
      let values ← values read operands
      match operator.value? values with
      | some x => return x
      | none => throw (.operands operator values.length)

def values (read : Reference → Except Fault Float) : List Formula → Except Fault (List Float)
  | [] => .ok []
  | x :: xs => do
      let first ← value read x
      let rest ← values read xs
      return first :: rest

end

def lookup (base : Address) (env : Address → Float) (r : Reference) : Except Fault Float :=
  match r.resolve? base with
  | some target => .ok (env target)
  | none => .error (.formula (.readOutside base))

theorem lookup_of_resolves {base target : Address} {r : Reference}
    (denotes : r.resolve? base = some target) (env : Address → Float) :
    lookup base env r = .ok (env target) := by
  unfold lookup
  rw [denotes]

def valueIn (base : Address) (env : Address → Float) (formula : Formula) : Except Fault Float :=
  formula.value (lookup base env)

theorem targets_number (base : Address) (x : Float) : targets base (.number x) = [] := by
  unfold targets references
  rfl

theorem targets_reference {base target : Address} {r : Reference}
    (denotes : r.resolve? base = some target) : targets base (.reference r) = [target] := by
  unfold targets references
  rw [List.filterMap_cons_some denotes, List.filterMap_nil]

theorem referencesAll_eq_flatMap (operands : List Formula) :
    referencesAll operands = operands.flatMap references := by
  induction operands with
  | nil => rfl
  | cons x xs ih => rw [referencesAll, ih, List.flatMap_cons]

theorem targets_apply (base : Address) (operator : Operator) (operands : List Formula) :
    targets base (.apply operator operands) = operands.flatMap (targets base) := by
  unfold targets
  rw [references, referencesAll_eq_flatMap, List.filterMap_flatMap]

theorem mem_targets_apply {base p : Address} {operator : Operator} {operands : List Formula} :
    p ∈ targets base (.apply operator operands) ↔ ∃ x ∈ operands, p ∈ targets base x := by
  rw [targets_apply, List.mem_flatMap]

theorem WellFormed.resolves {base : Address} {formula : Formula}
    (fine : formula.WellFormed base) :
    ∀ r ∈ formula.references, ∃ target, r.resolve? base = some target ∧ target.Nameable := by
  induction fine with
  | number bits finite =>
    intro r member
    rw [references] at member
    exact absurd member List.not_mem_nil
  | reference r target denotes nameable =>
    intro s member
    rw [references, List.mem_singleton] at member
    exact ⟨target, member ▸ denotes, nameable⟩
  | apply operator operands takes each ih =>
    intro r member
    rw [references, referencesAll_eq_flatMap, List.mem_flatMap] at member
    obtain ⟨x, held, inner⟩ := member
    exact ih x held r inner

theorem values_exist {read : Reference → Except Fault Float} {operands : List Formula}
    (each : ∀ x ∈ operands, ∃ v, x.value read = .ok v) :
    ∃ vs, values read operands = .ok vs ∧ vs.length = operands.length := by
  induction operands with
  | nil => exact ⟨[], by rw [values], rfl⟩
  | cons x xs ih =>
    obtain ⟨v, first⟩ := each x List.mem_cons_self
    obtain ⟨vs, rest, same⟩ := ih fun y member => each y (List.mem_cons_of_mem x member)
    refine ⟨v :: vs, ?_, by rw [List.length_cons, List.length_cons, same]⟩
    rw [values, first, rest]
    rfl

theorem value_apply {read : Reference → Except Fault Float} {operator : Operator}
    {operands : List Formula} {vs : List Float} {x : Float} (all : values read operands = .ok vs)
    (result : operator.value? vs = some x) : value read (.apply operator operands) = .ok x := by
  simp only [value, all, result, bind, Except.bind, pure, Except.pure]

theorem WellFormed.valueIn_exists {base : Address} {formula : Formula}
    (fine : formula.WellFormed base) (env : Address → Float) :
    ∃ x, formula.valueIn base env = .ok x := by
  unfold valueIn
  induction fine with
  | number bits finite => exact ⟨Decimal.Binary64.toFloat bits, by rw [value]⟩
  | reference r target denotes nameable => exact ⟨env target, by rw [value, lookup_of_resolves denotes]⟩
  | apply operator operands takes each ih =>
    obtain ⟨vs, all, same⟩ := values_exist ih
    rw [← same] at takes
    obtain ⟨x, result⟩ := Operator.value?_of_takes takes
    exact ⟨x, value_apply all result⟩

theorem values_length {read : Reference → Except Fault Float} {operands : List Formula} {vs : List Float}
    (all : values read operands = .ok vs) : vs.length = operands.length := by
  induction operands generalizing vs with
  | nil =>
    rw [values] at all
    cases all
    rfl
  | cons x xs ih =>
    rw [values] at all
    cases first : x.value read with
    | error fault =>
      rw [first] at all
      cases all
    | ok v =>
      cases rest : values read xs with
      | error fault =>
        rw [first, rest] at all
        cases all
      | ok ws =>
        rw [first, rest] at all
        cases all
        exact congrArg (· + 1) (ih rest)

theorem exists_value_error {read : Reference → Except Fault Float} {operands : List Formula} {fault : Fault}
    (failed : values read operands = .error fault) : ∃ x ∈ operands, x.value read = .error fault := by
  induction operands with
  | nil =>
    rw [values] at failed
    cases failed
  | cons x xs ih =>
    rw [values] at failed
    cases first : x.value read with
    | error other =>
      rw [first] at failed
      cases failed
      exact ⟨x, List.mem_cons_self, first⟩
    | ok v =>
      cases rest : values read xs with
      | error other =>
        rw [first, rest] at failed
        cases failed
        obtain ⟨y, member, failed⟩ := ih rest
        exact ⟨y, List.mem_cons_of_mem x member, failed⟩
      | ok vs =>
        rw [first, rest] at failed
        cases failed

/-- Where every operator has its operands, only a reference that leads nowhere leaves no value. -/
theorem Applied.valueIn_error {base : Address} {formula : Formula} {env : Address → Float} {fault : Fault}
    (applied : formula.Applied) (failed : formula.valueIn base env = .error fault) :
    fault = .formula (.readOutside base) ∧ ∃ r ∈ formula.references, r.resolve? base = none := by
  unfold valueIn at failed
  induction applied with
  | number x =>
    rw [value] at failed
    cases failed
  | reference r =>
    rw [value, lookup] at failed
    cases leads : r.resolve? base with
    | some target =>
      rw [leads] at failed
      cases failed
    | none =>
      rw [leads] at failed
      cases failed
      exact ⟨rfl, r, by rw [references, List.mem_singleton], leads⟩
  | apply operator operands takes each ih =>
    rw [value] at failed
    cases all : values (lookup base env) operands with
    | error other =>
      rw [all] at failed
      cases failed
      obtain ⟨x, member, stopped⟩ := exists_value_error all
      obtain ⟨same, r, inner, leads⟩ := ih x member stopped
      refine ⟨same, r, ?_, leads⟩
      rw [references, referencesAll_eq_flatMap, List.mem_flatMap]
      exact ⟨x, member, inner⟩
    | ok vs =>
      rw [← values_length all] at takes
      obtain ⟨x, result⟩ := Operator.value?_of_takes takes
      simp only [all, bind, Except.bind, result] at failed
      cases failed

theorem values_congr {first second : Reference → Except Fault Float} {operands : List Formula}
    (each : ∀ x ∈ operands, x.value first = x.value second) :
    values first operands = values second operands := by
  induction operands with
  | nil => rw [values, values]
  | cons x xs ih =>
    rw [values, values, each x List.mem_cons_self,
      ih fun y member => each y (List.mem_cons_of_mem x member)]

theorem WellFormed.valueIn_congr {base : Address} {formula : Formula} {env other : Address → Float}
    (fine : formula.WellFormed base) (agree : ∀ p ∈ formula.targets base, env p = other p) :
    formula.valueIn base env = formula.valueIn base other := by
  unfold valueIn
  induction fine with
  | number bits finite => rw [value, value]
  | reference r target denotes nameable =>
    rw [value, value, lookup_of_resolves denotes, lookup_of_resolves denotes]
    exact congrArg Except.ok (agree target (targets_reference denotes ▸ List.mem_cons_self))
  | apply operator operands takes each ih =>
    rw [value, value, values_congr fun x member =>
      ih x member fun p read => agree p (mem_targets_apply.2 ⟨x, member, read⟩)]

theorem write_negation (base : Address) (x : Formula) :
    write base (.apply .sub [x]) = (write base x).map fun text =>
      '-' :: parenthesize (decide (x.strength.rank < Strength.atom.rank)) text := by
  rw [write, if_neg (by decide)]
  rfl

theorem write_between {operator : Operator} (between : isCall operator = false) (base : Address)
    (x y : Formula) :
    write base (.apply operator [x, y]) = (write base x).bind fun left =>
      (write base y).map fun right =>
        parenthesize
            (decide (x.strength.rank < (strength (.apply operator [x, y])).rank)) left ++
          operator.symbol.toList ++
          parenthesize
            (decide (y.strength.rank ≤ (strength (.apply operator [x, y])).rank)) right := by
  cases operator with
  | min | max => cases between
  | add | sub | mul | div =>
    rw [write, if_neg (by decide)]
    rfl

theorem write_call {operator : Operator} (call : isCall operator = true) (base : Address)
    (operands : List Formula) :
    write base (.apply operator operands) = (writeAll base operands).map fun texts =>
      operator.symbol.toList ++ '(' :: separate texts ++ [')'] := by
  cases operator with
  | add | sub | mul | div => cases call
  | min | max =>
    unfold write
    rw [if_pos call]
    rfl

theorem writeAll_exist {base : Address} {operands : List Formula}
    (each : ∀ x ∈ operands, ∃ cs, x.write base = .ok cs) :
    ∃ texts, writeAll base operands = .ok texts := by
  induction operands with
  | nil => exact ⟨[], by rw [writeAll]⟩
  | cons x xs ih =>
    obtain ⟨cs, first⟩ := each x List.mem_cons_self
    obtain ⟨texts, rest⟩ := ih fun y member => each y (List.mem_cons_of_mem x member)
    refine ⟨cs :: texts, ?_⟩
    rw [writeAll, first, rest]
    rfl

theorem WellFormed.write_exists {base : Address} {formula : Formula}
    (fine : formula.WellFormed base) : ∃ cs, formula.write base = .ok cs := by
  induction fine with
  | number bits finite => exact ⟨_, by rw [write]⟩
  | reference r target denotes nameable =>
    simp only [write, Reference.write?, denotes, Option.map_some]
    exact ⟨_, rfl⟩
  | apply operator operands takes each ih =>
    obtain ⟨texts, all⟩ := writeAll_exist ih
    obtain ⟨rfl, x, rfl⟩ | ⟨between, x, y, rfl⟩ | ⟨call, x, rest, rfl⟩ := Operator.takes_shapes takes
    · obtain ⟨cs, first⟩ := ih x List.mem_cons_self
      rw [write_negation, first]
      exact ⟨_, rfl⟩
    · obtain ⟨left, first⟩ := ih x List.mem_cons_self
      obtain ⟨right, second⟩ := ih y (List.mem_cons_of_mem x List.mem_cons_self)
      rw [write_between between, first, second]
      exact ⟨_, rfl⟩
    · rw [write_call call, all]
      exact ⟨_, rfl⟩

theorem WellFormed.render_exists {base : Address} {formula : Formula}
    (fine : formula.WellFormed base) : ∃ text, formula.render base = .ok text := by
  obtain ⟨cs, written⟩ := fine.write_exists
  exact ⟨String.ofList cs, by rw [render, written]; rfl⟩

end Formula

end Worksheet
