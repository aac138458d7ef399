import Worksheet.Lexeme
import Worksheet.Proofs.Decimal.Numerals
import Worksheet.Proofs.References

/-! Cutting lexemes. Where no longer prefix of what is left is matched by any rule, a lexeme is cut off;
numbers, references and names are cut off whole when no character behind them could belong to a word. -/

namespace Worksheet

namespace Pattern

variable {p : Pattern} {cs rest : List Char}

theorem longestPrefix?_never (cs : List Char) : never.longestPrefix? cs = none := by
  cases cs with
  | nil => rfl
  | cons c cs => rfl

theorem longestPrefix?_stop (accepts : p.acceptsEmpty = true)
    (stop : ∀ c ∈ rest.head?, p.derive c = .never) : p.longestPrefix? rest = some 0 := by
  cases rest with
  | nil => rw [longestPrefix?_nil, if_pos accepts]
  | cons c rest =>
    rw [longestPrefix?_cons, stop c rfl, longestPrefix?_never]
    exact if_pos accepts

theorem longestPrefix?_stuck (refuses : p.acceptsEmpty = false)
    (stop : ∀ c ∈ rest.head?, p.derive c = .never) : p.longestPrefix? rest = none := by
  have empty : ¬ p.acceptsEmpty = true := by
    rw [refuses]
    exact Bool.false_ne_true
  cases rest with
  | nil => rw [longestPrefix?_nil, if_neg empty]
  | cons c rest =>
    rw [longestPrefix?_cons, stop c rfl, longestPrefix?_never]
    exact if_neg empty

theorem longestPrefix?_append {n : Nat}
    (found : (cs.foldl (fun p c => p.derive c) p).longestPrefix? rest = some n) :
    p.longestPrefix? (cs ++ rest) = some (n + cs.length) := by
  induction cs generalizing p with
  | nil => exact found
  | cons c cs ih =>
    rw [List.cons_append, longestPrefix?_cons, ih found]
    rfl

theorem foldl_derive_loop (loop : ∀ c ∈ cs, p.derive c = p) :
    cs.foldl (fun p c => p.derive c) p = p := by
  induction cs with
  | nil => rfl
  | cons c cs ih =>
    rw [List.foldl_cons, loop c List.mem_cons_self]
    exact ih fun d member => loop d (List.mem_cons_of_mem c member)

/-- Characters that change nothing lead nowhere when the pattern is stuck behind them. -/
theorem longestPrefix?_loop_stuck (refuses : p.acceptsEmpty = false)
    (loop : ∀ c ∈ cs, p.derive c = p) (stop : ∀ c ∈ rest.head?, p.derive c = .never) :
    p.longestPrefix? (cs ++ rest) = none := by
  induction cs with
  | nil => exact longestPrefix?_stuck refuses stop
  | cons c cs ih =>
    rw [List.cons_append, longestPrefix?_cons, loop c List.mem_cons_self,
      ih fun d member => loop d (List.mem_cons_of_mem c member), refuses]
    rfl

end Pattern

namespace Lexeme

open Pattern

def isWord (c : Char) : Bool :=
  c.isDigit || c.isAlpha || decide (c = '.') || decide (c = '$') || decide (c = '_')

/-- A text that does not go on with a word. -/
def Stops (rest : List Char) : Prop := ∀ c ∈ rest.head?, isWord c = false

theorem isWord_of_isDigit {c : Char} (digit : c.isDigit = true) : isWord c = true := by
  unfold isWord
  rw [digit]
  rfl

theorem isWord_of_isAlpha {c : Char} (alpha : c.isAlpha = true) : isWord c = true := by
  unfold isWord
  rw [alpha, Bool.or_true]
  rfl

theorem not_isDigit_of_isAlpha {c : Char} (alpha : c.isAlpha = true) : c.isDigit = false := by
  rw [Bool.eq_false_iff]
  intro digit
  rw [Address.not_isAlpha_of_isDigit digit] at alpha
  cases alpha

theorem ne_of_isDigit {c d : Char} (digit : c.isDigit = true) (other : d.isDigit = false) : c ≠ d := by
  intro same
  rw [same, other] at digit
  cases digit

theorem ne_of_isAlpha {c d : Char} (alpha : c.isAlpha = true) (other : d.isAlpha = false) : c ≠ d := by
  intro same
  rw [same, other] at alpha
  cases alpha

theorem ne_of_not_isWord {c d : Char} (stop : isWord c = false) (word : isWord d = true) : c ≠ d := by
  intro same
  rw [same, word] at stop
  cases stop

theorem not_isDigit_of_not_isWord {c : Char} (stop : isWord c = false) : c.isDigit = false := by
  rw [Bool.eq_false_iff]
  intro digit
  rw [isWord_of_isDigit digit] at stop
  cases stop

theorem not_isAlpha_of_not_isWord {c : Char} (stop : isWord c = false) : c.isAlpha = false := by
  rw [Bool.eq_false_iff]
  intro alpha
  rw [isWord_of_isAlpha alpha] at stop
  cases stop

theorem not_isBlank_of_isWord {c : Char} (word : isWord c = true) : isBlank c = false := by
  have range : (48 ≤ c.toNat ∧ c.toNat ≤ 57) ∨ (65 ≤ c.toNat ∧ c.toNat ≤ 90) ∨
      (97 ≤ c.toNat ∧ c.toNat ≤ 122) ∨ c.toNat = 46 ∨ c.toNat = 36 ∨ c.toNat = 95 := by
    unfold isWord at word
    simp only [Bool.or_eq_true, decide_eq_true_eq, Address.isDigit_iff, Address.isAlpha_iff] at word
    rcases word with (((digit | alpha) | rfl) | rfl) | rfl
    · exact .inl digit
    · rcases alpha with upper | lower
      · exact .inr (.inl upper)
      · exact .inr (.inr (.inl lower))
    · exact .inr (.inr (.inr (.inl rfl)))
    · exact .inr (.inr (.inr (.inr (.inl rfl))))
    · exact .inr (.inr (.inr (.inr (.inr rfl))))
  unfold isBlank blankRanges
  simp only [List.any_cons, List.any_nil, Bool.or_false, Bool.or_eq_false_iff, decide_eq_false_iff_not]
  omega

namespace Kind

def exponent : Pattern :=
  .optional (.seq (.char fun c => c = 'e' ∨ c = 'E')
    (.seq (.optional (.char fun c => c = '-' ∨ c = '+')) digit.plus))

def afterDigit : Pattern :=
  .seq (.seq (.star digit) (.optional (.seq (.literal '.') (.star digit)))) exponent

def afterPoint : Pattern := .seq (.star digit) exponent

def afterDollar : Pattern :=
  .seq letter.plus (.seq (.optional (.literal '$')) digit.plus)

def afterLetter : Pattern :=
  .seq (.star letter) (.seq (.optional (.literal '$')) digit.plus)

def nameTail : Pattern := .star (.char fun c => c.isAlpha ∨ c = '_')

section

variable {c : Char}

theorem derive_number_digit (isDigit : c.isDigit = true) :
    numberPattern.derive c = afterDigit := by
  have point : c ≠ '.' := ne_of_isDigit isDigit (by decide)
  unfold numberPattern digit literal
  simp only [derive, Pattern.plus, isDigit, point, decide_false, if_true, Bool.false_eq_true,
    if_false, acceptsEmpty, Bool.false_and, Bool.or_self]
  rfl

theorem derive_afterDigit_digit (isDigit : c.isDigit = true) : afterDigit.derive c = afterDigit := by
  have point : c ≠ '.' := ne_of_isDigit isDigit (by decide)
  have small : c ≠ 'e' := ne_of_isDigit isDigit (by decide)
  have capital : c ≠ 'E' := ne_of_isDigit isDigit (by decide)
  unfold afterDigit exponent digit literal
  simp [derive, Pattern.plus, Pattern.optional, isDigit, point, small, capital, acceptsEmpty]
  rfl

theorem derive_afterDigit_point : afterDigit.derive '.' = afterPoint := rfl

theorem derive_afterPoint_digit (isDigit : c.isDigit = true) : afterPoint.derive c = afterPoint := by
  have small : c ≠ 'e' := ne_of_isDigit isDigit (by decide)
  have capital : c ≠ 'E' := ne_of_isDigit isDigit (by decide)
  unfold afterPoint exponent digit
  simp [derive, Pattern.plus, Pattern.optional, isDigit, small, capital, acceptsEmpty]
  rfl

theorem derive_afterDigit_stop (stop : isWord c = false) : afterDigit.derive c = .never := by
  have isDigit := not_isDigit_of_not_isWord stop
  have point : c ≠ '.' := ne_of_not_isWord stop (by decide)
  have small : c ≠ 'e' := ne_of_not_isWord stop (by decide)
  have capital : c ≠ 'E' := ne_of_not_isWord stop (by decide)
  unfold afterDigit exponent digit literal
  simp [derive, Pattern.plus, Pattern.optional, isDigit, point, small, capital, acceptsEmpty]
  rfl

theorem derive_afterPoint_stop (stop : isWord c = false) : afterPoint.derive c = .never := by
  have isDigit := not_isDigit_of_not_isWord stop
  have small : c ≠ 'e' := ne_of_not_isWord stop (by decide)
  have capital : c ≠ 'E' := ne_of_not_isWord stop (by decide)
  unfold afterPoint exponent digit
  simp [derive, Pattern.plus, Pattern.optional, isDigit, small, capital, acceptsEmpty]
  rfl

theorem derive_number_never (isDigit : c.isDigit = false) (point : c ≠ '.') :
    numberPattern.derive c = .never := by
  unfold numberPattern digit literal
  simp [derive, Pattern.plus, isDigit, point, acceptsEmpty]
  rfl

theorem derive_reference_alpha (alpha : c.isAlpha = true) :
    referencePattern.derive c = afterLetter := by
  have dollar : c ≠ '$' := ne_of_isAlpha alpha (by decide)
  unfold referencePattern letter digit literal
  simp [derive, Pattern.plus, Pattern.optional, alpha, dollar, acceptsEmpty]
  rfl

theorem derive_reference_digit (isDigit : c.isDigit = true) :
    referencePattern.derive c = .never := by
  have dollar : c ≠ '$' := ne_of_isDigit isDigit (by decide)
  have alpha := Address.not_isAlpha_of_isDigit isDigit
  unfold referencePattern letter digit literal
  simp [derive, Pattern.plus, Pattern.optional, alpha, dollar, acceptsEmpty]
  rfl

theorem derive_afterDollar_alpha (alpha : c.isAlpha = true) : afterDollar.derive c = afterLetter := by
  unfold afterDollar letter
  simp [derive, Pattern.plus, alpha, acceptsEmpty]
  rfl

theorem derive_afterLetter_alpha (alpha : c.isAlpha = true) : afterLetter.derive c = afterLetter := by
  have dollar : c ≠ '$' := ne_of_isAlpha alpha (by decide)
  have isDigit := not_isDigit_of_isAlpha alpha
  unfold afterLetter letter digit literal
  simp [derive, Pattern.plus, Pattern.optional, alpha, dollar, isDigit, acceptsEmpty]
  rfl

theorem derive_afterLetter_digit (isDigit : c.isDigit = true) :
    afterLetter.derive c = .star digit := by
  have dollar : c ≠ '$' := ne_of_isDigit isDigit (by decide)
  have alpha := Address.not_isAlpha_of_isDigit isDigit
  unfold afterLetter letter digit literal
  simp [derive, Pattern.plus, Pattern.optional, alpha, dollar, isDigit, acceptsEmpty]
  rfl

theorem derive_afterLetter_stop (stop : isWord c = false) : afterLetter.derive c = .never := by
  have dollar : c ≠ '$' := ne_of_not_isWord stop (by decide)
  have alpha := not_isAlpha_of_not_isWord stop
  have isDigit := not_isDigit_of_not_isWord stop
  unfold afterLetter letter digit literal
  simp [derive, Pattern.plus, Pattern.optional, alpha, dollar, isDigit, acceptsEmpty]
  rfl

theorem derive_digits (isDigit : c.isDigit = true) : digit.plus.derive c = .star digit := by
  unfold digit
  simp [derive, Pattern.plus, isDigit, acceptsEmpty]
  rfl

theorem derive_star_digit (isDigit : c.isDigit = true) : (Pattern.star digit).derive c = .star digit := by
  unfold digit
  simp [derive, isDigit]
  rfl

theorem derive_star_digit_never (isDigit : c.isDigit = false) :
    (Pattern.star digit).derive c = .never := by
  unfold digit
  simp [derive, isDigit]
  rfl

theorem derive_name_alpha (alpha : c.isAlpha = true) : namePattern.derive c = nameTail := by
  unfold namePattern nameTail
  simp [derive, Pattern.plus, alpha, acceptsEmpty]
  rfl

theorem derive_nameTail_alpha (alpha : c.isAlpha = true) : nameTail.derive c = nameTail := by
  unfold nameTail
  simp [derive, alpha]
  rfl

theorem derive_nameTail_never (alpha : c.isAlpha = false) (underscore : c ≠ '_') :
    nameTail.derive c = .never := by
  unfold nameTail
  simp [derive, alpha, underscore]
  rfl

theorem derive_name_never (alpha : c.isAlpha = false) (underscore : c ≠ '_') :
    namePattern.derive c = .never := by
  unfold namePattern
  simp [derive, Pattern.plus, alpha, underscore, acceptsEmpty]
  rfl

end

def symbol? : Kind → Option Char
  | .plus => some '+'
  | .minus => some '-'
  | .times => some '*'
  | .divide => some '/'
  | .opening => some '('
  | .closing => some ')'
  | .comma => some ','
  | _ => none

theorem acceptsEmpty_pattern (kind : Kind) : kind.pattern.acceptsEmpty = false := by
  cases kind with
  | number | reference | name | plus | minus | times | divide | opening | closing | comma | blank => rfl

theorem derive_symbol {kind : Kind} {c : Char} (same : kind.symbol? = some c) :
    kind.pattern.derive c = .empty := by
  cases kind with
  | plus | minus | times | divide | opening | closing | comma =>
    cases same
    rfl
  | number | reference | name | blank => cases same

theorem derive_symbol_other {kind other : Kind} {c : Char} (same : kind.symbol? = some c)
    (different : other ≠ kind) : other.pattern.derive c = .never := by
  cases kind with
  | plus | minus | times | divide | opening | closing | comma =>
    cases same
    cases other with
    | number | reference | name | blank => rfl
    | plus | minus | times | divide | opening | closing | comma =>
      first
      | exact absurd rfl different
      | rfl
  | number | reference | name | blank => cases same

theorem derive_word {kind : Kind} {c : Char} (word : isWord c = true) (number : kind ≠ .number)
    (reference : kind ≠ .reference) (name : kind ≠ .name) : kind.pattern.derive c = .never := by
  have apart : ∀ d, isWord d = false → c ≠ d := fun d stop => (ne_of_not_isWord stop word).symm
  cases kind with
  | number => exact absurd rfl number
  | reference => exact absurd rfl reference
  | name => exact absurd rfl name
  | plus | minus | times | divide | opening | closing | comma =>
    exact if_neg (by simpa only [decide_eq_true_eq] using apart _ (by decide))
  | blank =>
    refine if_neg ?_
    rw [not_isBlank_of_isWord word]
    exact Bool.false_ne_true

end Kind

section

variable {kind : Kind} {n : Nat} {offer : Kind → Option Nat} {tried : List Kind}

/-- The best match of the rules tried so far: the rules in front of it offer shorter ones, and those behind
it no longer ones. -/
def IsBest (offer : Kind → Option Nat) (tried : List Kind) : Option (Kind × Nat) → Prop
  | none => ∀ kind ∈ tried, offer kind = none
  | some (kind, n) => offer kind = some n ∧ ∃ front back, tried = front ++ kind :: back ∧
      (∀ other ∈ front, ∀ m, offer other = some m → m < n) ∧
      ∀ other ∈ back, ∀ m, offer other = some m → m ≤ n

theorem IsBest.le (best : IsBest offer tried (some (kind, n))) {other : Kind} (member : other ∈ tried)
    {m : Nat} (offered : offer other = some m) : m ≤ n := by
  obtain ⟨own, front, back, rfl, shorter, no_longer⟩ := best
  rcases List.mem_append.1 member with before | own_or_behind
  · exact (shorter other before m offered).le
  · rcases List.mem_cons.1 own_or_behind with rfl | behind
    · exact (Option.some.inj (offered.symm.trans own)).le
    · exact no_longer other behind m offered

theorem IsBest.better {best : Option (Kind × Nat)} (isBest : IsBest offer tried best) (next : Kind) :
    IsBest offer (tried ++ [next]) (better best next (offer next)) := by
  cases offered : offer next with
  | none =>
    cases best with
    | none =>
      intro kind member
      rcases List.mem_append.1 member with earlier | last
      · exact isBest kind earlier
      · rw [List.mem_singleton.1 last]
        exact offered
    | some entry =>
      obtain ⟨own, front, back, rfl, shorter, no_longer⟩ := isBest
      refine ⟨own, front, back ++ [next], by simp, shorter, fun other member m found => ?_⟩
      rcases List.mem_append.1 member with earlier | last
      · exact no_longer other earlier m found
      · rw [List.mem_singleton.1 last, offered] at found
        cases found
  | some n =>
    cases best with
    | none =>
      refine ⟨offered, tried, [], rfl, fun other member m found => ?_, nofun⟩
      rw [isBest other member] at found
      cases found
    | some entry =>
      obtain ⟨kind, m⟩ := entry
      change IsBest offer (tried ++ [next]) (if m < n then some (next, n) else some (kind, m))
      -- A match as long as the best one does not take its place, so the earlier rule stays.
      by_cases longer : m < n
      · rw [if_pos longer]
        exact ⟨offered, tried, [], rfl, fun other member k found => (isBest.le member found).trans_lt longer,
          nofun⟩
      · rw [if_neg longer]
        obtain ⟨own, front, back, rfl, shorter, no_longer⟩ := isBest
        refine ⟨own, front, back ++ [next], by simp, shorter, fun other member k found => ?_⟩
        rcases List.mem_append.1 member with earlier | last
        · exact no_longer other earlier k found
        · rw [List.mem_singleton.1 last, offered] at found
          cases found
          exact Nat.not_lt.1 longer

theorem IsBest.foldl {best : Option (Kind × Nat)} (isBest : IsBest offer tried best) (kinds : List Kind) :
    IsBest offer (tried ++ kinds)
      (kinds.foldl (fun best kind => Lexeme.better best kind (offer kind)) best) := by
  induction kinds generalizing tried best with
  | nil =>
    rw [List.append_nil]
    exact isBest
  | cons next kinds ih =>
    have further := ih (isBest.better next)
    rw [List.append_assoc, List.singleton_append] at further
    exact further

theorem longest?_isBest (cs : List Char) :
    IsBest (fun kind => kind.pattern.longestPrefix? cs) Kind.all (longest? cs) := by
  have start : IsBest (fun kind => kind.pattern.longestPrefix? cs) [] none := nofun
  exact start.foldl Kind.all

theorem Kind.mem_all (kind : Kind) : kind ∈ Kind.all := by
  cases kind with
  | number | reference | name | plus | minus | times | divide | opening | closing | comma | blank =>
    decide

theorem exists_longest? {cs : List Char} (own : kind.pattern.longestPrefix? cs = some n) :
    ∃ winner m, longest? cs = some (winner, m) ∧
      IsBest (fun kind => kind.pattern.longestPrefix? cs) Kind.all (some (winner, m)) := by
  have best := longest?_isBest cs
  cases found : longest? cs with
  | none =>
    rw [found] at best
    have refused : kind.pattern.longestPrefix? cs = none := best kind (Kind.mem_all kind)
    rw [own] at refused
    cases refused
  | some entry =>
    rw [found] at best
    exact ⟨entry.1, entry.2, rfl, best⟩

theorem longest?_of_longer {cs : List Char} (own : kind.pattern.longestPrefix? cs = some n)
    (others : ∀ other, other ≠ kind → ∀ m, other.pattern.longestPrefix? cs = some m → m < n) :
    longest? cs = some (kind, n) := by
  obtain ⟨winner, m, found, best⟩ := exists_longest? own
  by_cases same : winner = kind
  · subst same
    rw [found, Option.some.inj (own.symm.trans best.1)]
  · have less := others winner same m best.1
    exact absurd (best.le (Kind.mem_all kind) own) (Nat.not_le.2 less)

end

variable {rest : List Char}

theorem longest?_symbol {kind : Kind} {c : Char} (same : kind.symbol? = some c) (rest : List Char) :
    longest? (c :: rest) = some (kind, 1) := by
  refine longest?_of_longer ?_ fun other different m found => ?_
  · rw [longestPrefix?_cons, Kind.derive_symbol same,
      longestPrefix?_stop rfl fun _ _ => rfl]
  · rw [longestPrefix?_stuck other.acceptsEmpty_pattern] at found
    · cases found
    · intro d head
      cases head
      exact Kind.derive_symbol_other same different

theorem longestPrefix?_word {kind : Kind} {c : Char} (word : isWord c = true)
    (number : kind ≠ .number) (reference : kind ≠ .reference) (name : kind ≠ .name)
    (rest : List Char) : kind.pattern.longestPrefix? (c :: rest) = none := by
  refine longestPrefix?_stuck kind.acceptsEmpty_pattern fun d head => ?_
  cases head
  exact Kind.derive_word word number reference name

theorem longestPrefix?_refused {kind : Kind} {c : Char} (refused : kind.pattern.derive c = .never)
    (rest : List Char) : kind.pattern.longestPrefix? (c :: rest) = none := by
  refine longestPrefix?_stuck kind.acceptsEmpty_pattern fun d head => ?_
  cases head
  exact refused

theorem foldl_derive_number {whole : List Char} (nonempty : whole ≠ [])
    (digits : ∀ c ∈ whole, c.isDigit = true) :
    whole.foldl (fun p c => p.derive c) Kind.numberPattern = Kind.afterDigit := by
  obtain ⟨c, tail, same⟩ := List.exists_cons_of_ne_nil nonempty
  subst same
  rw [List.foldl_cons, Kind.derive_number_digit (digits c List.mem_cons_self)]
  exact foldl_derive_loop fun d member =>
    Kind.derive_afterDigit_digit (digits d (List.mem_cons_of_mem c member))

theorem longestPrefix?_number {cs : List Char} (plain : Decimal.IsPlain cs) (stops : Stops rest) :
    Kind.numberPattern.longestPrefix? (cs ++ rest) = some cs.length := by
  rw [longestPrefix?_append (n := 0), Nat.zero_add]
  cases plain with
  | whole nonempty digits =>
    rw [foldl_derive_number nonempty digits]
    exact longestPrefix?_stop rfl fun d head => Kind.derive_afterDigit_stop (stops d head)
  | pointed nonempty digits more =>
    rw [List.foldl_append, foldl_derive_number nonempty digits, List.foldl_cons,
      Kind.derive_afterDigit_point,
      foldl_derive_loop fun d member => Kind.derive_afterPoint_digit (more d member)]
    exact longestPrefix?_stop rfl fun d head => Kind.derive_afterPoint_stop (stops d head)

theorem longest?_number {cs : List Char} (plain : Decimal.IsPlain cs) (stops : Stops rest) :
    longest? (cs ++ rest) = some (.number, cs.length) := by
  refine longest?_of_longer (longestPrefix?_number plain stops) fun other different m found => ?_
  obtain ⟨c, tail, same, digit⟩ := plain.exists_cons
  have none : other.pattern.longestPrefix? (cs ++ rest) = none := by
    rw [same, List.cons_append]
    by_cases reference : other = .reference
    · subst reference
      exact longestPrefix?_refused (Kind.derive_reference_digit digit) _
    by_cases name : other = .name
    · subst name
      exact longestPrefix?_refused (Kind.derive_name_never (Address.not_isAlpha_of_isDigit digit)
        (ne_of_isDigit digit (by decide))) _
    exact longestPrefix?_word (isWord_of_isDigit digit) different reference name _
  rw [none] at found
  cases found

theorem longest?_name {cs : List Char} (nonempty : cs ≠ []) (alpha : ∀ c ∈ cs, c.isAlpha = true)
    (stops : Stops rest) : longest? (cs ++ rest) = some (.name, cs.length) := by
  obtain ⟨c, tail, same⟩ := List.exists_cons_of_ne_nil nonempty
  subst same
  have first := alpha c List.mem_cons_self
  have later : ∀ d ∈ tail, d.isAlpha = true := fun d member => alpha d (List.mem_cons_of_mem c member)
  have own : Kind.namePattern.longestPrefix? (c :: tail ++ rest) = some (c :: tail).length := by
    rw [longestPrefix?_append (n := 0), Nat.zero_add]
    rw [List.foldl_cons, Kind.derive_name_alpha first,
      foldl_derive_loop fun d member => Kind.derive_nameTail_alpha (later d member)]
    exact longestPrefix?_stop rfl fun d head => Kind.derive_nameTail_never
      (not_isAlpha_of_not_isWord (stops d head)) (ne_of_not_isWord (stops d head) (by decide))
  refine longest?_of_longer own fun other different m found => ?_
  have none : other.pattern.longestPrefix? (c :: tail ++ rest) = none := by
    rw [List.cons_append]
    by_cases number : other = .number
    · subst number
      exact longestPrefix?_refused (Kind.derive_number_never (not_isDigit_of_isAlpha first)
        (ne_of_isAlpha first (by decide))) _
    by_cases reference : other = .reference
    · subst reference
      change Kind.referencePattern.longestPrefix? (c :: (tail ++ rest)) = none
      rw [longestPrefix?_cons, Kind.derive_reference_alpha first, longestPrefix?_loop_stuck rfl
        (fun d member => Kind.derive_afterLetter_alpha (later d member))
        (fun d head => Kind.derive_afterLetter_stop (stops d head))]
      rfl
    exact longestPrefix?_word (isWord_of_isAlpha first) number reference different _
  rw [none] at found
  cases found

section

variable {first ls second ds : List Char}

/-- The parts of a name, with or without dollar signs. -/
structure NameParts (first ls second ds : List Char) : Prop where
  first : Address.IsMarker first
  letters : ls ≠ [] ∧ ∀ c ∈ ls, c.isAlpha = true
  second : Address.IsMarker second
  digits : ds ≠ [] ∧ ∀ c ∈ ds, c.isDigit = true

theorem foldl_derive_reference (parts : NameParts first ls second ds) :
    (first ++ (ls ++ (second ++ ds))).foldl (fun p c => p.derive c) Kind.referencePattern =
      .star Kind.digit := by
  obtain ⟨⟨l, ls, rfl⟩, alpha⟩ := parts.letters.imp_left List.exists_cons_of_ne_nil
  obtain ⟨⟨d, ds, rfl⟩, digits⟩ := parts.digits.imp_left List.exists_cons_of_ne_nil
  have letters : ∀ p : Pattern, p.derive l = Kind.afterLetter →
      (l :: ls).foldl (fun p c => p.derive c) p = Kind.afterLetter := by
    intro p next
    rw [List.foldl_cons, next]
    exact foldl_derive_loop fun c member =>
      Kind.derive_afterLetter_alpha (alpha c (List.mem_cons_of_mem l member))
  have tail : ∀ p : Pattern, p.derive d = .star Kind.digit →
      (d :: ds).foldl (fun p c => p.derive c) p = .star Kind.digit := by
    intro p next
    rw [List.foldl_cons, next]
    exact foldl_derive_loop fun c member =>
      Kind.derive_star_digit (digits c (List.mem_cons_of_mem d member))
  rw [List.foldl_append, List.foldl_append, List.foldl_append, letters, tail]
  · rcases parts.second with rfl | rfl
    · exact Kind.derive_afterLetter_digit (digits d List.mem_cons_self)
    · exact Kind.derive_digits (digits d List.mem_cons_self)
  · rcases parts.first with rfl | rfl
    · exact Kind.derive_reference_alpha (alpha l List.mem_cons_self)
    · exact Kind.derive_afterDollar_alpha (alpha l List.mem_cons_self)

theorem longestPrefix?_reference (parts : NameParts first ls second ds) (stops : Stops rest) :
    Kind.referencePattern.longestPrefix? (first ++ (ls ++ (second ++ ds)) ++ rest) =
      some (first ++ (ls ++ (second ++ ds))).length := by
  rw [longestPrefix?_append (n := 0), Nat.zero_add]
  rw [foldl_derive_reference parts]
  exact longestPrefix?_stop rfl fun d head =>
    Kind.derive_star_digit_never (not_isDigit_of_not_isWord (stops d head))

/-- The letters of a name are a name of their own, but a shorter one. -/
theorem longestPrefix?_name_of_parts (parts : NameParts first ls second ds) {m : Nat}
    (found : Kind.namePattern.longestPrefix? (first ++ (ls ++ (second ++ ds)) ++ rest) = some m) :
    m < (first ++ (ls ++ (second ++ ds))).length := by
  obtain ⟨⟨l, ls, rfl⟩, alpha⟩ := parts.letters.imp_left List.exists_cons_of_ne_nil
  obtain ⟨⟨d, ds, rfl⟩, digits⟩ := parts.digits.imp_left List.exists_cons_of_ne_nil
  -- Letters alone stop before the digits or before a second dollar sign; a first one begins no name at all.
  rcases parts.first with rfl | rfl
  · have stop : ∀ c ∈ (second ++ d :: ds ++ rest).head?, Kind.nameTail.derive c = .never := by
      intro c head
      rcases parts.second with rfl | rfl
      · cases head
        have digit := digits d List.mem_cons_self
        exact Kind.derive_nameTail_never (Address.not_isAlpha_of_isDigit digit)
          (ne_of_isDigit digit (by decide))
      · cases head
        rfl
    have whole : Kind.namePattern.longestPrefix? (l :: ls ++ (second ++ d :: ds ++ rest)) =
        some (l :: ls).length := by
      rw [longestPrefix?_append (n := 0), Nat.zero_add]
      rw [List.foldl_cons, Kind.derive_name_alpha (alpha l List.mem_cons_self),
        foldl_derive_loop fun c member =>
          Kind.derive_nameTail_alpha (alpha c (List.mem_cons_of_mem l member))]
      exact longestPrefix?_stop rfl stop
    rw [List.nil_append, List.append_assoc, whole] at found
    cases found
    rw [List.nil_append, List.length_append, List.length_append, List.length_cons, List.length_cons]
    omega
  · have none : Kind.name.pattern.longestPrefix? ('$' :: (l :: ls ++ (second ++ d :: ds) ++ rest)) =
        none := longestPrefix?_refused rfl _
    change Kind.namePattern.longestPrefix? ('$' :: (l :: ls ++ (second ++ d :: ds) ++ rest)) = _ at found
    rw [show Kind.namePattern = Kind.name.pattern from rfl, none] at found
    cases found

theorem longest?_reference (parts : NameParts first ls second ds) (stops : Stops rest) :
    longest? (first ++ (ls ++ (second ++ ds)) ++ rest) =
      some (.reference, (first ++ (ls ++ (second ++ ds))).length) := by
  refine longest?_of_longer (longestPrefix?_reference parts stops) fun other different m found => ?_
  by_cases name : other = .name
  · subst name
    exact longestPrefix?_name_of_parts parts found
  have begins : ∃ c tail, first ++ (ls ++ (second ++ ds)) ++ rest = c :: tail ∧
      isWord c = true ∧ c.isDigit = false ∧ c ≠ '.' := by
    obtain ⟨⟨l, ls, rfl⟩, alpha⟩ := parts.letters.imp_left List.exists_cons_of_ne_nil
    rcases parts.first with rfl | rfl
    · have first := alpha l List.mem_cons_self
      exact ⟨l, _, rfl, isWord_of_isAlpha first, not_isDigit_of_isAlpha first,
        ne_of_isAlpha first (by decide)⟩
    · exact ⟨'$', _, rfl, rfl, rfl, by decide⟩
  obtain ⟨c, tail, same, word, digit, point⟩ := begins
  have none : other.pattern.longestPrefix? (c :: tail) = none := by
    by_cases number : other = .number
    · subst number
      exact longestPrefix?_refused (Kind.derive_number_never digit point) _
    exact longestPrefix?_word word number different name _
  rw [same, none] at found
  cases found

end

inductive Cut : List Char → List (Kind × List Char) → Prop
  | nil : Cut [] []
  | cons {kind : Kind} {chars rest : List Char} {pieces : List (Kind × List Char)}
      (nonempty : chars ≠ []) (longest : longest? (chars ++ rest) = some (kind, chars.length))
      (tail : Cut rest pieces) : Cut (chars ++ rest) ((kind, chars) :: pieces)

theorem scanFrom_skip (chars rest : List Char) (position : Position) :
    scanFrom chars.length position (chars ++ rest) =
      scanFrom 0 (chars.foldl Position.step position) rest := by
  induction chars generalizing position with
  | nil => rfl
  | cons c chars ih =>
    rw [List.cons_append, List.length_cons, scanFrom, ih]
    rfl

theorem scanFrom_append {kind : Kind} {chars rest : List Char} (nonempty : chars ≠ [])
    (longest : longest? (chars ++ rest) = some (kind, chars.length)) (position : Position) :
    scanFrom 0 position (chars ++ rest) =
      (scanFrom 0 (chars.foldl Position.step position) rest).map
        fun lexemes => ⟨kind, chars, position⟩ :: lexemes := by
  obtain ⟨c, chars, rfl⟩ := List.exists_cons_of_ne_nil nonempty
  rw [List.cons_append] at longest
  rw [List.cons_append, Lexeme.scanFrom, longest]
  simp only [List.length_cons]
  rw [scanFrom_skip, List.take_left, List.foldl_cons]
  cases scanFrom 0 (chars.foldl Position.step (position.step c)) rest with
  | ok lexemes => rfl
  | error place => rfl

theorem Cut.scanFrom {cs : List Char} {pieces : List (Kind × List Char)} (cut : Cut cs pieces)
    (position : Position) : ∃ lexemes, scanFrom 0 position cs = .ok lexemes ∧
      lexemes.map (fun lexeme => (lexeme.kind, lexeme.chars)) = pieces := by
  induction cut generalizing position with
  | nil => exact ⟨[], rfl, rfl⟩
  | @cons kind chars rest pieces nonempty longest tail ih =>
    obtain ⟨lexemes, scanned, same⟩ := ih (chars.foldl Position.step position)
    refine ⟨⟨kind, chars, position⟩ :: lexemes, ?_, ?_⟩
    · rw [scanFrom_append nonempty longest, scanned]
      rfl
    · rw [List.map_cons, same]

/-- A text is cut into these pieces before anything that does not go on with a word. -/
def Cuts (cs : List Char) (pieces : List (Kind × List Char)) : Prop :=
  ∀ rest more, Stops rest → Cut rest more → Cut (cs ++ rest) (pieces ++ more)

section

variable {kind : Kind} {c : Char} {xs ys : List Char} {ps qs : List (Kind × List Char)}

theorem stops_symbol (same : kind.symbol? = some c) (rest : List Char) : Stops (c :: rest) := by
  intro d head
  cases head
  cases kind with
  | plus | minus | times | divide | opening | closing | comma =>
    cases same
    rfl
  | number | reference | name | blank => cases same

theorem cuts_nil : Cuts [] [] := fun _ _ _ cut => cut

theorem cuts_single (nonempty : xs ≠ [])
    (longest : ∀ rest, Stops rest → longest? (xs ++ rest) = some (kind, xs.length)) :
    Cuts xs [(kind, xs)] :=
  fun rest _ stops cut => .cons nonempty (longest rest stops) cut

theorem cuts_cons (same : kind.symbol? = some c) (later : Cuts ys qs) :
    Cuts (c :: ys) ((kind, [c]) :: qs) :=
  fun rest more stops cut =>
    .cons (List.cons_ne_nil c []) (longest?_symbol same _) (later rest more stops cut)

theorem cuts_append (first : Cuts xs ps) (same : kind.symbol? = some c) (later : Cuts ys qs) :
    Cuts (xs ++ c :: ys) (ps ++ (kind, [c]) :: qs) := by
  intro rest more stops cut
  rw [List.append_assoc, List.append_assoc]
  exact first _ _ (stops_symbol same _) (cuts_cons same later rest more stops cut)

theorem Cuts.cut (cuts : Cuts xs ps) : Cut xs ps := by
  have whole := cuts [] [] (fun c head => by cases head) .nil
  rw [List.append_nil, List.append_nil] at whole
  exact whole

end

end Lexeme

end Worksheet
