/-! Regular expressions over characters. The longest prefix of a text that matches is found by
taking derivatives: the derivative by a character matches what may follow that character. -/

namespace Worksheet

inductive Pattern where
  | never
  | empty
  | char (accepts : Char → Bool)
  | seq (first second : Pattern)
  | alt (left right : Pattern)
  | star (body : Pattern)

namespace Pattern

inductive Matches : Pattern → List Char → Prop where
  | empty : Matches .empty []
  | char {accepts : Char → Bool} {c : Char} (accepted : accepts c = true) :
      Matches (.char accepts) [c]
  | seq {p q : Pattern} {xs ys : List Char} (first : Matches p xs) (second : Matches q ys) :
      Matches (.seq p q) (xs ++ ys)
  | left {p q : Pattern} {xs : List Char} (inner : Matches p xs) : Matches (.alt p q) xs
  | right {p q : Pattern} {xs : List Char} (inner : Matches q xs) : Matches (.alt p q) xs
  | none {p : Pattern} : Matches (.star p) []
  | more {p : Pattern} {xs ys : List Char} (first : Matches p xs) (rest : Matches (.star p) ys) :
      Matches (.star p) (xs ++ ys)

def plus (p : Pattern) : Pattern := .seq p (.star p)

def optional (p : Pattern) : Pattern := .alt p .empty

def literal (c : Char) : Pattern := .char fun d => d = c

def acceptsEmpty : Pattern → Bool
  | .never => false
  | .empty => true
  | .char _ => false
  | .seq p q => p.acceptsEmpty && q.acceptsEmpty
  | .alt p q => p.acceptsEmpty || q.acceptsEmpty
  | .star _ => true

def join : Pattern → Pattern → Pattern
  | .never, _ => .never
  | .empty, q => q
  | p, q => .seq p q

def either : Pattern → Pattern → Pattern
  | .never, q => q
  | p, .never => p
  | p, q => .alt p q

def derive (c : Char) : Pattern → Pattern
  | .never => .never
  | .empty => .never
  | .char accepts => if accepts c then .empty else .never
  | .seq p q =>
      if p.acceptsEmpty then either (join (p.derive c) q) (q.derive c) else join (p.derive c) q
  | .alt p q => either (p.derive c) (q.derive c)
  | .star p => join (p.derive c) (.star p)

def longestPrefix? : Pattern → List Char → Option Nat
  | .never, _ => none
  | p, [] => if p.acceptsEmpty then some 0 else none
  | p, c :: rest =>
      match (p.derive c).longestPrefix? rest with
      | some n => some (n + 1)
      | none => if p.acceptsEmpty then some 0 else none

theorem matches_seq {p q : Pattern} {cs : List Char} :
    Matches (.seq p q) cs ↔ ∃ xs ys, cs = xs ++ ys ∧ Matches p xs ∧ Matches q ys := by
  constructor
  · intro whole
    cases whole with
    | seq first second => exact ⟨_, _, rfl, first, second⟩
  · rintro ⟨xs, ys, rfl, first, second⟩
    exact .seq first second

theorem matches_alt {p q : Pattern} {cs : List Char} :
    Matches (.alt p q) cs ↔ Matches p cs ∨ Matches q cs := by
  constructor
  · intro whole
    cases whole with
    | left inner => exact .inl inner
    | right inner => exact .inr inner
  · rintro (inner | inner)
    · exact .left inner
    · exact .right inner

theorem not_matches_never {cs : List Char} : ¬ Matches .never cs := by
  intro whole
  cases whole

theorem matches_empty {cs : List Char} : Matches .empty cs ↔ cs = [] := by
  constructor
  · intro whole
    cases whole
    rfl
  · rintro rfl
    exact .empty

theorem matches_char {accepts : Char → Bool} {cs : List Char} :
    Matches (.char accepts) cs ↔ ∃ c, cs = [c] ∧ accepts c = true := by
  constructor
  · intro whole
    cases whole with
    | char accepted => exact ⟨_, rfl, accepted⟩
  · rintro ⟨c, rfl, accepted⟩
    exact .char accepted

theorem matches_star_cons {p : Pattern} {c : Char} {cs : List Char} :
    Matches (.star p) (c :: cs) ↔
      ∃ xs ys, cs = xs ++ ys ∧ Matches p (c :: xs) ∧ Matches (.star p) ys := by
  constructor
  · intro whole
    generalize starred : Pattern.star p = r at whole
    generalize text : c :: cs = t at whole
    induction whole with
    | empty => cases starred
    | char _ => cases starred
    | seq _ _ => cases starred
    | left _ => cases starred
    | right _ => cases starred
    | none => cases text
    | @more q xs ys first rest _ ih =>
        cases starred
        cases xs with
        | nil => exact ih rfl text
        | cons d xs =>
            rw [List.cons_append] at text
            injection text with same tail
            subst same
            exact ⟨xs, ys, tail, first, rest⟩
  · rintro ⟨xs, ys, rfl, first, rest⟩
    exact .more first rest

theorem acceptsEmpty_iff (p : Pattern) : p.acceptsEmpty = true ↔ Matches p [] := by
  induction p with
  | never => simp [acceptsEmpty, not_matches_never]
  | empty => simp [acceptsEmpty, matches_empty]
  | char accepts => simp [acceptsEmpty, matches_char]
  | seq p q first second =>
      simp only [acceptsEmpty, Bool.and_eq_true, first, second, matches_seq]
      constructor
      · rintro ⟨left, right⟩
        exact ⟨[], [], rfl, left, right⟩
      · rintro ⟨xs, ys, parts, left, right⟩
        obtain ⟨rfl, rfl⟩ := List.append_eq_nil_iff.1 parts.symm
        exact ⟨left, right⟩
  | alt p q first second => simp [acceptsEmpty, first, second, matches_alt]
  | star p _ => simp [acceptsEmpty, Matches.none]

theorem matches_join {p q : Pattern} {cs : List Char} :
    Matches (join p q) cs ↔ Matches (.seq p q) cs := by
  unfold join
  split
  · simp [matches_seq, not_matches_never]
  · simp only [matches_seq, matches_empty]
    constructor
    · intro whole
      exact ⟨[], cs, rfl, rfl, whole⟩
    · rintro ⟨xs, ys, rfl, rfl, whole⟩
      exact whole
  · rfl

theorem matches_either {p q : Pattern} {cs : List Char} :
    Matches (either p q) cs ↔ Matches (.alt p q) cs := by
  unfold either
  split
  · simp [matches_alt, not_matches_never]
  · simp [matches_alt, not_matches_never]
  · rfl

/-- What follows a character in a match is what the derivative by it matches. -/
theorem matches_derive (c : Char) (p : Pattern) (cs : List Char) :
    Matches (p.derive c) cs ↔ Matches p (c :: cs) := by
  induction p generalizing cs with
  | never => simp [derive, not_matches_never]
  | empty => simp [derive, not_matches_never, matches_empty]
  | char accepts =>
      by_cases accepted : accepts c = true
      · simp only [derive, if_pos accepted, matches_empty, matches_char]
        constructor
        · rintro rfl
          exact ⟨c, rfl, accepted⟩
        · rintro ⟨d, text, _⟩
          exact (List.cons.inj text).2
      · simp only [derive, if_neg accepted, matches_char]
        constructor
        · intro whole
          exact absurd whole not_matches_never
        · rintro ⟨d, text, other⟩
          exact absurd ((List.cons.inj text).1 ▸ other) accepted
  | seq p q first second =>
      have inner : Matches (join (p.derive c) q) cs ↔
          ∃ xs ys, cs = xs ++ ys ∧ Matches p (c :: xs) ∧ Matches q ys := by
        simp only [matches_join, matches_seq, first]
      have cut : Matches (.seq p q) (c :: cs) ↔
          (∃ xs ys, cs = xs ++ ys ∧ Matches p (c :: xs) ∧ Matches q ys) ∨
            (Matches p [] ∧ Matches q (c :: cs)) := by
        rw [matches_seq]
        constructor
        · rintro ⟨xs, ys, parts, left, right⟩
          cases xs with
          | nil => exact .inr ⟨left, by rw [parts]; exact right⟩
          | cons d xs =>
              rw [List.cons_append] at parts
              injection parts with same tail
              subst same
              exact .inl ⟨xs, ys, tail, left, right⟩
        · rintro (⟨xs, ys, parts, left, right⟩ | ⟨left, right⟩)
          · exact ⟨c :: xs, ys, by rw [parts, List.cons_append], left, right⟩
          · exact ⟨[], c :: cs, rfl, left, right⟩
      -- The character is taken by `p`, or by `q` if `p` has matched nothing.
      by_cases nullable : p.acceptsEmpty = true
      · simp only [derive, if_pos nullable, matches_either, matches_alt, inner, second, cut]
        simp only [(acceptsEmpty_iff p).1 nullable, true_and]
      · have left : ¬ Matches p [] := fun whole => nullable ((acceptsEmpty_iff p).2 whole)
        simp only [derive, if_neg nullable, inner, cut, left, false_and, or_false]
  | alt p q first second => simp [derive, matches_either, matches_alt, first, second]
  | star p first => simp only [derive, matches_join, matches_seq, first, matches_star_cons]

theorem longestPrefix?_nil (p : Pattern) :
    p.longestPrefix? [] = if p.acceptsEmpty then some 0 else none := by
  cases p <;> rfl

theorem longestPrefix?_cons (p : Pattern) (c : Char) (rest : List Char) :
    p.longestPrefix? (c :: rest) =
      match (p.derive c).longestPrefix? rest with
      | some n => some (n + 1)
      | none => if p.acceptsEmpty then some 0 else none := by
  cases p with
  | never => cases rest <;> rfl
  | _ => rfl

def IsLongest (p : Pattern) (cs : List Char) : Option Nat → Prop
  | some n => n ≤ cs.length ∧ Matches p (cs.take n) ∧
      ∀ m, m ≤ cs.length → Matches p (cs.take m) → m ≤ n
  | none => ∀ m, m ≤ cs.length → ¬ Matches p (cs.take m)

/-- No prefix that matches is longer than the result, and without a result none matches. -/
theorem longestPrefix?_isLongest (p : Pattern) (cs : List Char) :
    IsLongest p cs (p.longestPrefix? cs) := by
  induction cs generalizing p with
  | nil =>
      rw [longestPrefix?_nil]
      by_cases nullable : p.acceptsEmpty = true
      · simp [nullable, IsLongest, (acceptsEmpty_iff p).1 nullable]
      · have refused : ¬ Matches p [] := fun whole => nullable ((acceptsEmpty_iff p).2 whole)
        simp [nullable, IsLongest, refused]
  | cons c rest ih =>
      rw [longestPrefix?_cons]
      have tail := ih (p.derive c)
      -- What matches more than nothing goes on with the derivative; without it only nothing can match.
      cases found : (p.derive c).longestPrefix? rest with
      | some n =>
          rw [found] at tail
          obtain ⟨bound, whole, longest⟩ := tail
          refine ⟨by simpa using bound, ?_, ?_⟩
          · rw [List.take_succ_cons]
            exact (matches_derive c p _).1 whole
          · intro m short shorter
            cases m with
            | zero => omega
            | succ m =>
                rw [List.take_succ_cons] at shorter
                have := longest m (by simpa using short) ((matches_derive c p _).2 shorter)
                omega
      | none =>
          rw [found] at tail
          have refused : ∀ m, m ≤ rest.length → ¬ Matches p (c :: rest.take m) :=
            fun m short whole => tail m short ((matches_derive c p _).2 whole)
          by_cases nullable : p.acceptsEmpty = true
          · simp only [if_pos nullable]
            refine ⟨by omega, by simpa using (acceptsEmpty_iff p).1 nullable, ?_⟩
            intro m short whole
            cases m with
            | zero => omega
            | succ m =>
                rw [List.take_succ_cons] at whole
                exact absurd whole (refused m (by simpa using short))
          · simp only [if_neg nullable]
            intro m short whole
            cases m with
            | zero => exact nullable ((acceptsEmpty_iff p).2 (by simpa using whole))
            | succ m =>
                rw [List.take_succ_cons] at whole
                exact refused m (by simpa using short) whole

end Pattern

end Worksheet
