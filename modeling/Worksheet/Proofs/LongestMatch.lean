import Worksheet.Proofs.Lexing

/-! Longest matches. The rule of a lexeme matches it, no rule matches a longer prefix of what is left of the
text, and no rule in front of it matches the same one. What the other rules match has no blanks, so the rule
of blanks competes with none of them. -/

namespace Worksheet

namespace Pattern

variable {p : Pattern} {allowed : Char → Prop} {xs cs : List Char} {n : Nat}

def Only (allowed : Char → Prop) : Pattern → Prop
  | .never => True
  | .empty => True
  | .char accepts => ∀ c, accepts c = true → allowed c
  | .seq p q => p.Only allowed ∧ q.Only allowed
  | .alt p q => p.Only allowed ∧ q.Only allowed
  | .star p => p.Only allowed

theorem Only.of_matches (only : p.Only allowed) (whole : Matches p cs) : ∀ c ∈ cs, allowed c := by
  induction whole with
  | empty => exact List.forall_mem_nil _
  | char accepted => exact List.forall_mem_singleton.2 (only _ accepted)
  | seq _ _ front back => exact List.forall_mem_append.2 ⟨front only.1, back only.2⟩
  | left _ inner => exact inner only.1
  | right _ inner => exact inner only.2
  | none => exact List.forall_mem_nil _
  | more _ _ front back => exact List.forall_mem_append.2 ⟨front only, back only⟩

theorem matches_of_longestPrefix? (found : p.longestPrefix? cs = some n) :
    n ≤ cs.length ∧ Matches p (cs.take n) := by
  have longest := longestPrefix?_isLongest p cs
  rw [found] at longest
  exact ⟨longest.1, longest.2.1⟩

theorem exists_longestPrefix? (whole : Matches p xs) (front : xs <+: cs) :
    ∃ n, p.longestPrefix? cs = some n ∧ xs.length ≤ n := by
  obtain ⟨rest, rfl⟩ := front
  have short : xs.length ≤ (xs ++ rest).length := by
    rw [List.length_append]
    exact Nat.le_add_right _ _
  have matched : Matches p ((xs ++ rest).take xs.length) := by
    rw [List.take_left]
    exact whole
  have longest := longestPrefix?_isLongest p (xs ++ rest)
  cases found : p.longestPrefix? (xs ++ rest) with
  | none =>
    rw [found] at longest
    exact absurd matched (longest _ short)
  | some n =>
    rw [found] at longest
    exact ⟨n, rfl, longest.2.2 _ short matched⟩

end Pattern

namespace Lexeme

open Pattern

/-- The rule matches the characters at the front of a text. No rule matches a longer prefix of the text, and
no rule in front of this one matches the same. -/
structure Wins (kind : Kind) (chars rest : List Char) : Prop where
  matched : Matches kind.pattern chars
  longest : ∀ (other : Kind) xs, Matches other.pattern xs → xs <+: chars ++ rest → xs.length ≤ chars.length
  first : ∀ other : Kind, Matches other.pattern chars → Kind.all.idxOf kind ≤ Kind.all.idxOf other

section

variable {kind other : Kind} {n : Nat} {offer : Kind → Option Nat} {tried : List Kind}
  {c : Char} {cs chars rest shared more : List Char}

theorem IsBest.idxOf_le (best : IsBest offer tried (some (kind, n))) (offered : offer other = some n) :
    tried.idxOf kind ≤ tried.idxOf other := by
  obtain ⟨own, front, back, rfl, shorter, _⟩ := best
  have behind : ∀ kind, offer kind = some n → kind ∉ front :=
    fun kind offered member => lt_irrefl n (shorter kind member n offered)
  rw [List.idxOf_append_of_notMem (behind kind own), List.idxOf_append_of_notMem (behind other offered),
    List.idxOf_cons_self]
  exact Nat.add_le_add_left (Nat.zero_le _) _

theorem Kind.eq_of_idxOf_eq (same : Kind.all.idxOf kind = Kind.all.idxOf other) : kind = other :=
  (List.idxOf_inj (Kind.mem_all kind)).1 same

theorem wins_of_longest? (found : longest? (chars ++ rest) = some (kind, chars.length)) :
    Wins kind chars rest := by
  have best := longest?_isBest (chars ++ rest)
  rw [found] at best
  have matched := (matches_of_longestPrefix? best.1).2
  rw [List.take_left] at matched
  refine ⟨matched, fun other xs whole front => ?_, fun other whole => ?_⟩
  · obtain ⟨m, offered, short⟩ := exists_longestPrefix? whole front
    exact short.trans (best.le (Kind.mem_all other) offered)
  · obtain ⟨m, offered, short⟩ := exists_longestPrefix? whole (List.prefix_append chars rest)
    rw [Nat.le_antisymm (best.le (Kind.mem_all other) offered) short] at offered
    exact best.idxOf_le offered

theorem Wins.longest?_eq (wins : Wins kind chars rest) :
    longest? (chars ++ rest) = some (kind, chars.length) := by
  obtain ⟨m, offered, short⟩ := exists_longestPrefix? wins.matched (List.prefix_append chars rest)
  obtain ⟨winner, n, found, best⟩ := exists_longest? offered
  obtain ⟨bound, whole⟩ := matches_of_longestPrefix? best.1
  have long : m ≤ n := best.le (Kind.mem_all kind) offered
  have no_longer := wins.longest winner _ whole (List.take_prefix n _)
  rw [List.length_take_of_le bound] at no_longer
  -- The best match is as long as the lexeme, so both rules match the same text and the first one counts.
  obtain rfl : n = chars.length := by omega
  obtain rfl : m = chars.length := by omega
  rw [List.take_left] at whole
  rw [found, Kind.eq_of_idxOf_eq (Nat.le_antisymm (best.idxOf_le offered) (wins.first winner whole))]

theorem wins_iff : Wins kind chars rest ↔ longest? (chars ++ rest) = some (kind, chars.length) :=
  ⟨Wins.longest?_eq, wins_of_longest?⟩

theorem ne_nil_of_matches (whole : Matches kind.pattern chars) : chars ≠ [] := by
  rintro rfl
  rw [← acceptsEmpty_iff, kind.acceptsEmpty_pattern] at whole
  cases whole

theorem exists_wins (found : longest? cs = some (kind, n)) :
    ∃ chars rest, cs = chars ++ rest ∧ Wins kind chars rest := by
  have best := longest?_isBest cs
  rw [found] at best
  have whole : cs.take n ++ cs.drop n = cs := List.take_append_drop n cs
  have length : (cs.take n).length = n := List.length_take_of_le (matches_of_longestPrefix? best.1).1
  refine ⟨cs.take n, cs.drop n, whole.symm, wins_iff.2 ?_⟩
  rw [whole, length, found]

theorem exists_wins_of_scanFrom {position : Position} {lexemes : List Lexeme} (nonempty : cs ≠ [])
    (scanned : scanFrom 0 position cs = .ok lexemes) :
    ∃ kind chars rest, cs = chars ++ rest ∧ Wins kind chars rest := by
  obtain ⟨c, tail, rfl⟩ := List.exists_cons_of_ne_nil nonempty
  rw [scanFrom] at scanned
  split at scanned
  next kind n found => exact ⟨kind, exists_wins found⟩
  next => cases scanned

/-- To prove something of every scanned text, prove it of the empty one, and of a text with a winning lexeme at its
front when it holds of what is left. -/
theorem scanFrom_induction {motive : Position → List Char → List Lexeme → Prop}
    (nothing : ∀ position, motive position [] [])
    (lexeme : ∀ position rule chars rest lexemes, Wins rule chars rest →
      motive (chars.foldl Position.step position) rest lexemes →
      motive position (chars ++ rest) (⟨rule, chars, position⟩ :: lexemes))
    {position : Position} {lexemes : List Lexeme} (scanned : scanFrom 0 position cs = .ok lexemes) :
    motive position cs lexemes := by
  induction length : cs.length using Nat.strong_induction_on generalizing cs position lexemes with
  | h n ih =>
    rcases eq_or_ne cs [] with rfl | some
    · cases scanned
      exact nothing position
    · obtain ⟨rule, chars, rest, rfl, wins⟩ := exists_wins_of_scanFrom some scanned
      have nonempty := ne_nil_of_matches wins.matched
      -- A lexeme takes a character at least, a blank as well, so what is left is shorter.
      have shorter : rest.length < n := by
        have := List.length_pos_of_ne_nil nonempty
        rw [List.length_append] at length
        omega
      rw [scanFrom_append nonempty (wins_iff.1 wins)] at scanned
      cases others : scanFrom 0 (chars.foldl Position.step position) rest with
      | error place =>
        rw [others] at scanned
        cases scanned
      | ok later =>
        rw [others] at scanned
        cases scanned
        exact lexeme position rule chars rest later wins (ih _ shorter others rfl)

theorem only_pattern (different : kind ≠ .blank) : kind.pattern.Only fun c => isBlank c = false := by
  have digit : Kind.digit.Only fun c => isBlank c = false :=
    fun c digit => not_isBlank_of_isWord (isWord_of_isDigit digit)
  have letter : Kind.letter.Only fun c => isBlank c = false :=
    fun c alpha => not_isBlank_of_isWord (isWord_of_isAlpha alpha)
  have literal : ∀ d, isBlank d = false → (Pattern.literal d).Only fun c => isBlank c = false := by
    intro d fine c same
    rw [of_decide_eq_true same]
    exact fine
  have either : ∀ d e, isBlank d = false → isBlank e = false →
      (Pattern.char fun c => c = d ∨ c = e).Only fun c => isBlank c = false := by
    intro d e first second c same
    rcases of_decide_eq_true same with rfl | rfl
    · exact first
    · exact second
  cases kind with
  | number =>
    exact ⟨⟨⟨⟨digit, digit⟩, ⟨literal _ (by decide), digit⟩, trivial⟩, literal _ (by decide), digit, digit⟩,
      ⟨either _ _ (by decide) (by decide), ⟨either _ _ (by decide) (by decide), trivial⟩, digit, digit⟩,
      trivial⟩
  | reference =>
    exact ⟨⟨literal _ (by decide), trivial⟩, ⟨letter, letter⟩, ⟨literal _ (by decide), trivial⟩, digit, digit⟩
  | name =>
    have inner : (Pattern.char fun c => c.isAlpha ∨ c = '_').Only fun c => isBlank c = false := by
      intro c accepted
      rcases of_decide_eq_true accepted with alpha | rfl
      · exact letter c alpha
      · decide
    exact ⟨inner, inner⟩
  | plus | minus | times | divide | opening | closing | comma => exact literal _ (by decide)
  | blank => exact absurd rfl different

theorem not_isBlank_of_matches (different : kind ≠ .blank) (whole : Matches kind.pattern chars) :
    ∀ c ∈ chars, isBlank c = false :=
  (only_pattern different).of_matches whole

theorem matches_blank : Matches Kind.blank.pattern chars ↔ ∃ c, chars = [c] ∧ isBlank c = true := matches_char

theorem wins_blank (blank : isBlank c = true) (rest : List Char) : Wins .blank [c] rest := by
  have only : ∀ (other : Kind) xs, Matches other.pattern xs → c ∈ xs → other = .blank := by
    intro other xs whole member
    by_contra different
    rw [not_isBlank_of_matches different whole c member] at blank
    cases blank
  refine ⟨matches_blank.2 ⟨c, rfl, blank⟩, fun other xs whole front => ?_, fun other whole => ?_⟩
  · cases xs with
    | nil => exact Nat.zero_le _
    | cons d tail =>
      have same : d = c := (List.cons_prefix_cons.1 front).1
      obtain rfl := only other _ whole (same ▸ List.mem_cons_self)
      obtain ⟨_, single, _⟩ := matches_blank.1 whole
      rw [single]
      exact le_rfl
  · rw [only other _ whole List.mem_cons_self]

/-- Blanks cut a match short: without them in it, it does not reach behind the first one. -/
theorem prefix_of_not_mem {xs ys : List Char} (front : xs <+: ys ++ more)
    (stop : ∀ c ∈ more.head?, c ∉ xs) : xs <+: ys := by
  rcases List.prefix_or_prefix_of_prefix front (List.prefix_append ys more) with shorter | longer
  · exact shorter
  · obtain ⟨tail, rfl⟩ := longer
    rw [List.prefix_append_right_inj] at front
    cases tail with
    | nil =>
      rw [List.append_nil]
    | cons d tail =>
      obtain ⟨rest, rfl⟩ := front
      exact absurd (List.mem_append_right ys List.mem_cons_self) (stop d rfl)

/-- A rule goes on winning when a blank is put somewhere behind its lexeme, whatever comes after the blank. -/
theorem Wins.cut_short (wins : Wins kind chars rest) (kept : shared <+: rest)
    (stop : ∀ c ∈ more.head?, isBlank c = true) : Wins kind chars (shared ++ more) := by
  refine ⟨wins.matched, fun other xs whole front => ?_, wins.first⟩
  by_cases blank : other = .blank
  · subst blank
    obtain ⟨c, rfl, _⟩ := matches_blank.1 whole
    exact List.length_pos_of_ne_nil (ne_nil_of_matches wins.matched)
  · rw [← List.append_assoc] at front
    have inside : xs <+: chars ++ shared := by
      refine prefix_of_not_mem front fun c head member => ?_
      have fine := not_isBlank_of_matches blank whole c member
      rw [stop c head] at fine
      cases fine
    exact wins.longest other xs whole (inside.trans ((List.prefix_append_right_inj chars).2 kept))

end

end Lexeme

end Worksheet
