import Worksheet.Proofs.RoundTrip

/-! Placing a formula in another cell. Its text there is read back as the same formula when every
reference leads to a cell with a name. Otherwise it has no text there, or one that cannot be read,
because a name is asked for that no cell has. -/

namespace Worksheet

open Lexeme

def Coord.place (base : Index) : Coord → Int
  | .absolute index => index
  | .relative offset => base.val + offset

def Coord.Lands (base : Index) (c : Coord) : Prop := 0 ≤ c.place base ∧ c.place base ≤ 4294967294

/-- On both axes the reference points to where a name can lead. -/
def Reference.Lands (base : Address) (r : Reference) : Prop :=
  r.col.Lands base.col ∧ r.row.Lands base.row

theorem Coord.resolve?_eq_ofInt? (base : Index) (c : Coord) :
    c.resolve? base = Index.ofInt? (c.place base) := by
  cases c with
  | absolute index => rfl
  | relative offset => rfl

theorem Coord.lands_iff {base : Index} {c : Coord} :
    c.Lands base ↔ ∃ index : Index, c.resolve? base = some index ∧ index.val < 4294967295 := by
  unfold Lands
  simp only [resolve?_eq_ofInt?, Index.ofInt?_eq_some_iff]
  constructor
  · intro inside
    refine ⟨⟨(c.place base).toNat, by omega⟩, ?_, ?_⟩
    · exact (Int.toNat_of_nonneg inside.1).symm
    · change (c.place base).toNat < 4294967295
      omega
  · rintro ⟨index, same, small⟩
    omega

theorem Reference.lands_iff {base : Address} {r : Reference} :
    r.Lands base ↔ ∃ target, r.resolve? base = some target ∧ target.Nameable := by
  unfold Lands
  rw [Coord.lands_iff, Coord.lands_iff]
  constructor
  · rintro ⟨⟨col, colFound, colSmall⟩, row, rowFound, rowSmall⟩
    exact ⟨⟨col, row⟩, resolve?_eq_some_iff.2 ⟨colFound, rowFound⟩, colSmall, rowSmall⟩
  · rintro ⟨target, denotes, nameable⟩
    obtain ⟨col, row⟩ := resolve?_eq_some_iff.1 denotes
    exact ⟨⟨target.col, col, nameable.1⟩, target.row, row, nameable.2⟩

theorem Address.nameable_of_ofChars?_numerals {first second : List Char} {a p : Address}
    (firstFine : IsMarker first) (secondFine : IsMarker second)
    (found : ofChars? (first ++ (letters a.col.ordinal ++ (second ++ Nat.toDigits 10 a.row.ordinal))) =
      some p) : a.Nameable := by
  have read := (ofChars?_numerals firstFine secondFine a.col.val a.row.ordinal).symm.trans found
  obtain ⟨col, colFound, read⟩ := Option.bind_eq_some_iff.1 read
  obtain ⟨row, rowFound, _⟩ := Option.map_eq_some_iff.1 read
  obtain ⟨colSmall, colSame⟩ := Index.lt_of_ofOrdinal? colFound
  obtain ⟨rowSmall, rowSame⟩ := Index.lt_of_ofOrdinal? rowFound
  exact ⟨ordinal_injective colSame ▸ colSmall, ordinal_injective rowSame ▸ rowSmall⟩

theorem Reference.nameable_of_ofChars?_marked {base target : Address} {r s : Reference}
    (found : ofChars? base (r.marked target) = some s) : target.Nameable := by
  obtain ⟨p, named, _⟩ := Option.bind_eq_some_iff.1 found
  exact Address.nameable_of_ofChars?_numerals r.col.marker_isMarker r.row.marker_isMarker named

theorem Reference.lands_of_ofChars?_marked {base target : Address} {r s : Reference}
    (denotes : r.resolve? base = some target) (found : ofChars? base (r.marked target) = some s) :
    r.Lands base :=
  lands_iff.2 ⟨target, denotes, nameable_of_ofChars?_marked found⟩

theorem Token.readable_of_ofLexemes {base : Address} {lexemes : List Lexeme} {tokens : List Token}
    (made : ofLexemes base lexemes = .ok tokens) :
    ∀ lexeme ∈ lexemes, lexeme.kind = .reference →
      ∃ r, Reference.ofChars? base lexeme.chars = some r := by
  induction lexemes generalizing tokens with
  | nil => exact fun lexeme member => absurd member List.not_mem_nil
  | cons head rest ih =>
    rw [ofLexemes] at made
    cases first : kindOfLexeme base head with
    | error fault =>
      rw [first] at made
      cases made
    | ok kind =>
      cases others : ofLexemes base rest with
      | error fault =>
        rw [first, others] at made
        cases made
      | ok tail =>
        intro lexeme member reference
        rcases List.mem_cons.1 member with rfl | later
        · unfold kindOfLexeme at first
          simp only [reference] at first
          split at first
          next r found => exact ⟨r, found⟩
          next => cases first
        · exact ih others lexeme later reference

namespace Formula

/-- A text in `base` is cut into lexemes, and each of the references is one of them. -/
def Shows (base : Address) (references : List Reference) (cs : List Char) : Prop :=
  ∃ pieces, Cuts cs pieces ∧ ∀ r ∈ references, ∃ target, r.resolve? base = some target ∧
    (Kind.reference, r.marked target) ∈ pieces

section

variable {base : Address} {rs ss : List Reference} {xs ys : List Char} {c : Char}

theorem shows_of_cuts {pieces : List (Kind × List Char)} (cuts : Cuts xs pieces) :
    Shows base [] xs :=
  ⟨pieces, cuts, fun _ member => absurd member List.not_mem_nil⟩

theorem shows_append (first : Shows base rs xs) (kind : Kind) (same : kind.symbol? = some c)
    (later : Shows base ss ys) : Shows base (rs ++ ss) (xs ++ c :: ys) := by
  obtain ⟨pieces, cuts, front⟩ := first
  obtain ⟨pieces', cuts', behind⟩ := later
  refine ⟨_, cuts_append cuts same cuts', fun r member => ?_⟩
  rcases List.mem_append.1 member with left | right
  · obtain ⟨target, denotes, piece⟩ := front r left
    exact ⟨target, denotes, List.mem_append_left _ piece⟩
  · obtain ⟨target, denotes, piece⟩ := behind r right
    exact ⟨target, denotes, List.mem_append_right _ (List.mem_cons_of_mem _ piece)⟩

theorem shows_cons (kind : Kind) (same : kind.symbol? = some c) (later : Shows base ss ys) :
    Shows base ss (c :: ys) :=
  shows_append (shows_of_cuts cuts_nil) kind same later

theorem shows_snoc (first : Shows base rs xs) (kind : Kind) (same : kind.symbol? = some c) :
    Shows base rs (xs ++ [c]) := by
  have whole := shows_append first kind same (shows_of_cuts cuts_nil)
  rw [List.append_nil] at whole
  exact whole

theorem shows_parenthesize (needed : Bool) (inner : Shows base rs xs) :
    Shows base rs (parenthesize needed xs) := by
  cases needed with
  | true => exact shows_cons .opening rfl (shows_snoc inner .closing rfl)
  | false => exact inner

theorem shows_separate {x : Formula} {operands : List Formula} {texts : List (List Char)}
    (first : Shows base x.references xs)
    (each : List.Forall₂ (fun x text => Shows base (references x) text) operands texts) :
    Shows base (referencesAll (x :: operands)) (separate (xs :: texts)) := by
  induction each generalizing x xs with
  | nil =>
    rw [referencesAll, referencesAll, List.append_nil]
    exact first
  | cons next others ih =>
    rw [referencesAll]
    exact shows_append first .comma rfl (ih next)

theorem shows_marked {r : Reference} {target : Address} (denotes : r.resolve? base = some target) :
    Shows base [r] (r.marked target) := by
  have parts := nameParts_marked r target
  have nonempty : r.marked target ≠ [] := List.append_ne_nil_of_right_ne_nil _
    (List.append_ne_nil_of_left_ne_nil parts.letters.1 _)
  refine ⟨_, cuts_single nonempty fun rest stops => longest?_reference parts stops, fun s member => ?_⟩
  rw [List.mem_singleton.1 member]
  exact ⟨target, denotes, List.mem_singleton_self _⟩

theorem shows_between {operator : Operator} (between : isCall operator = false)
    (first : Shows base rs xs) (second : Shows base ss ys) :
    Shows base (rs ++ ss) (xs ++ operator.symbol.toList ++ ys) := by
  rw [List.append_assoc]
  cases operator with
  | min | max => cases between
  | add => exact shows_append first .plus rfl second
  | sub => exact shows_append first .minus rfl second
  | mul => exact shows_append first .times rfl second
  | div => exact shows_append first .divide rfl second

theorem shows_call {operator : Operator} (call : isCall operator = true) (inner : Shows base rs xs) :
    Shows base rs (operator.symbol.toList ++ '(' :: xs ++ [')']) := by
  obtain ⟨nonempty, alpha⟩ := isAlpha_symbol call
  have name := cuts_single nonempty fun rest stops => longest?_name nonempty alpha stops
  rw [List.append_assoc]
  exact shows_append (shows_of_cuts name) .opening rfl (shows_snoc inner .closing rfl)

end

variable {x y : Formula} {home base : Address} {fault : Fault}

theorem writeAll_cases {operands : List Formula}
    (each : ∀ x ∈ operands, x.write base = .error fault ∨
      ∃ cs, x.write base = .ok cs ∧ Shows base x.references cs) :
    writeAll base operands = .error fault ∨ ∃ texts, writeAll base operands = .ok texts ∧
      List.Forall₂ (fun x text => Shows base (references x) text) operands texts := by
  induction operands with
  | nil => exact .inr ⟨[], by rw [writeAll], .nil⟩
  | cons x xs ih =>
    rw [writeAll]
    rcases each x List.mem_cons_self with failed | ⟨cs, written, shown⟩
    · rw [failed]
      exact .inl rfl
    · rcases ih fun y member => each y (List.mem_cons_of_mem x member) with failed | ⟨texts, all, others⟩
      · rw [written, failed]
        exact .inl rfl
      · rw [written, all]
        exact .inr ⟨cs :: texts, rfl, .cons shown others⟩

theorem WellFormed.write_cases (fine : x.WellFormed home) (base : Address) :
    x.write base = .error (.formula (.placedOutside base)) ∨
      ∃ cs, x.write base = .ok cs ∧ Shows base x.references cs := by
  induction fine with
  | number bits finite =>
    obtain ⟨_, _, cuts⟩ : Scans base _ _ := scans_number finite
    refine .inr ⟨_, by rw [write], ?_⟩
    rw [references]
    exact shows_of_cuts cuts
  | reference r _ _ _ =>
    rw [write, references]
    cases denotes : r.resolve? base with
    | none =>
      unfold Reference.write?
      rw [denotes]
      exact .inl rfl
    | some target =>
      rw [Reference.write?_of_resolves denotes]
      exact .inr ⟨_, rfl, shows_marked denotes⟩
  | apply operator operands takes each ih =>
    rw [references]
    -- The first operand without a text decides, as it does for the whole formula.
    obtain ⟨rfl, x, rfl⟩ | ⟨between, x, y, rfl⟩ | ⟨call, x, rest, rfl⟩ := Operator.takes_shapes takes
    · rw [write_negation, referencesAll, referencesAll, List.append_nil]
      rcases ih x List.mem_cons_self with failed | ⟨cs, written, shown⟩
      · rw [failed]
        exact .inl rfl
      · rw [written]
        exact .inr ⟨_, rfl, shows_cons .minus rfl (shows_parenthesize _ shown)⟩
    · rw [write_between between, referencesAll, referencesAll, referencesAll, List.append_nil]
      rcases ih x List.mem_cons_self with failed | ⟨left, written, shown⟩
      · rw [failed]
        exact .inl rfl
      · rcases ih y (List.mem_cons_of_mem x List.mem_cons_self) with failed | ⟨right, written', shown'⟩
        · rw [written, failed]
          exact .inl rfl
        · rw [written, written']
          exact .inr ⟨_, rfl,
            shows_between between (shows_parenthesize _ shown) (shows_parenthesize _ shown')⟩
    · rw [write_call call]
      rcases writeAll_cases ih with failed | ⟨texts, written, shown⟩
      · rw [failed]
        exact .inl rfl
      · rw [written]
        cases shown with
        | cons first others => exact .inr ⟨_, rfl, shows_call call (shows_separate first others)⟩

theorem Shows.lands {rs : List Reference} {cs : List Char} (shown : Shows base rs cs)
    (found : read base (String.ofList cs) = .ok y) : ∀ r ∈ rs, r.Lands base := by
  obtain ⟨pieces, cuts, inside⟩ := shown
  obtain ⟨tokens, _, scanned, _⟩ := read_eq_ok.1 found
  obtain ⟨lexemes, cut, same⟩ := (Cuts.cut cuts).scanFrom .start
  rw [String.toList_ofList] at scanned
  unfold Token.scan Lexeme.scan at scanned
  rw [cut] at scanned
  intro r member
  obtain ⟨target, denotes, piece⟩ := inside r member
  rw [← same] at piece
  obtain ⟨lexeme, listed, equal⟩ := List.mem_map.1 piece
  obtain ⟨kind, chars⟩ := Prod.mk.inj equal
  obtain ⟨s, readable⟩ := Token.readable_of_ofLexemes scanned lexeme listed kind
  rw [chars] at readable
  exact Reference.lands_of_ofChars?_marked denotes readable

theorem WellFormed.lands (fine : x.WellFormed base) : ∀ r ∈ x.references, r.Lands base :=
  fun r member => Reference.lands_iff.2 (fine.resolves r member)

theorem WellFormed.place (fine : x.WellFormed home) (lands : ∀ r ∈ x.references, r.Lands base) :
    x.WellFormed base := by
  induction fine with
  | number bits finite => exact .number bits finite
  | reference r _ _ _ =>
    rw [references] at lands
    obtain ⟨target, denotes, nameable⟩ := Reference.lands_iff.1 (lands r (List.mem_singleton_self r))
    exact .reference r target denotes nameable
  | apply operator operands takes each ih =>
    rw [references, referencesAll_eq_flatMap] at lands
    refine .apply operator operands takes fun x member => ih x member fun r held => ?_
    exact lands r (List.mem_flatMap.2 ⟨x, member, held⟩)

/-- A well-formed formula in another cell: it is well-formed there too, or its text there is missing or
no formula. -/
theorem WellFormed.place_cases (fine : x.WellFormed home) (base : Address) :
    ((∀ r ∈ x.references, r.Lands base) ∧ x.WellFormed base) ∨
    ((∃ r ∈ x.references, ¬ r.Lands base) ∧
      (x.render base = .error (.formula (.placedOutside base)) ∨
        ∃ text cause, x.render base = .ok text ∧ read base text = .error cause)) := by
  by_cases lands : ∀ r ∈ x.references, r.Lands base
  · exact .inl ⟨lands, fine.place lands⟩
  · refine .inr ⟨by simpa using lands, ?_⟩
    unfold render
    rcases fine.write_cases base with failed | ⟨cs, written, shown⟩
    · rw [failed]
      exact .inl rfl
    · rw [written]
      cases found : read base (String.ofList cs) with
      | ok y => exact absurd (shown.lands found) lands
      | error cause => exact .inr ⟨_, cause, rfl, found⟩

end Formula

end Worksheet
