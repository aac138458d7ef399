import Worksheet.Command
import Worksheet.Proofs.Json.RoundTrip
import Worksheet.Proofs.LongestMatch
import Worksheet.Proofs.Spelling

/-! What is taken for granted. A sheet is built on a lexer for given rules, on a format for lists of pairs,
and on a reader of command lines. What each of them has to be is stated here on its own, and the ones that
the program runs with are shown to be so. -/

namespace Worksheet

/-- A lexer for the rules. It cuts off the longest match, and of several longest ones that of the first
rule; its places count characters, and lines by line feeds. -/
structure Lexeme.IsLexer (lex : Position → List Char → Except Position (List Lexeme)) : Prop where
  nothing : ∀ place, lex place [] = .ok []
  winner : ∀ place kind chars rest, Wins kind chars rest → lex place (chars ++ rest) =
    (lex (chars.foldl Position.step place) rest).map fun lexemes => ⟨kind, chars, place⟩ :: lexemes
  stuck : ∀ place cs, cs ≠ [] → (∀ (kind : Kind) chars, chars <+: cs → ¬ Pattern.Matches kind.pattern chars) →
    lex place cs = .error place

structure Json.IsFormat (write : List (String × String) → String)
    (read : String → Option (List (String × String))) : Prop where
  reads_back : ∀ pairs, read (write pairs) = some pairs

def Command.Proper : Command → Prop
  | .copy dest source => Address.canonicalName? dest = some dest ∧ Address.canonicalName? source = some source
  | .delete cell | .query cell | .eval cell _ => Address.canonicalName? cell = some cell
  | .load path => path ≠ ""
  | .clear | .list => True

/-- A command line in which nothing behind the command can be an option. -/
def Command.arguments : Command → List String
  | .clear => ["clear"]
  | .copy dest source => ["copy", "--", dest, source]
  | .delete cell => ["delete", "--", cell]
  | .list => ["dump"]
  | .eval cell text => ["eval", "--", cell, text]
  | .load path => ["load", "--", path]
  | .query cell => ["query", "--", cell]

/-- A reader of command lines. The file has four ways to be given, and what is accepted is proper. -/
structure Invocation.IsReader (read : List String → Option Invocation) : Prop where
  default : ∀ command : Command, command.Proper →
    read command.arguments = some ⟨Invocation.defaultPath, command⟩
  attached : ∀ (path : String) (command : Command), path ≠ "" → command.Proper →
    read (("--store=" ++ path) :: command.arguments) = some ⟨path, command⟩ ∧
    read (("-s=" ++ path) :: command.arguments) = some ⟨path, command⟩
  separate : ∀ (path : String) (command : Command), path ≠ "" → Command.looksLikeOption path = false →
    command.Proper → read ("--store" :: path :: command.arguments) = some ⟨path, command⟩ ∧
      read ("-s" :: path :: command.arguments) = some ⟨path, command⟩
  proper : ∀ arguments invocation, read arguments = some invocation →
    invocation.path ≠ "" ∧ invocation.command.Proper

theorem Lexeme.scanFrom_isLexer : IsLexer (scanFrom 0) := by
  refine ⟨fun _ => rfl, fun place kind chars rest wins => ?_, fun place cs nonempty none => ?_⟩
  · exact scanFrom_append (ne_nil_of_matches wins.matched) (wins_iff.1 wins) place
  · obtain ⟨c, rest, rfl⟩ := List.exists_cons_of_ne_nil nonempty
    rw [scanFrom]
    split
    next kind n found =>
      obtain ⟨chars, back, same, wins⟩ := exists_wins found
      exact absurd wins.matched (none kind chars (same ▸ List.prefix_append chars back))
    next => rfl

/-- The rules leave a lexer no choice. -/
theorem Lexeme.IsLexer.eq {lex other : Position → List Char → Except Position (List Lexeme)}
    (isLexer : IsLexer lex) (isLexer' : IsLexer other) : lex = other := by
  funext place cs
  induction length : cs.length using Nat.strong_induction_on generalizing place cs with
  | h n ih =>
    rcases eq_or_ne cs [] with rfl | nonempty
    · rw [isLexer.nothing, isLexer'.nothing]
    -- One lexeme at a time: a rule wins and both go on behind its lexeme, or none does and both stop.
    by_cases some : ∃ kind chars rest, cs = chars ++ rest ∧ Wins kind chars rest
    · obtain ⟨kind, chars, rest, rfl, wins⟩ := some
      have shorter : rest.length < n := by
        have := List.length_pos_of_ne_nil (ne_nil_of_matches wins.matched)
        rw [List.length_append] at length
        omega
      rw [isLexer.winner place kind chars rest wins, isLexer'.winner place kind chars rest wins,
        ih _ shorter _ rest rfl]
    · have none : ∀ (kind : Kind) chars, chars <+: cs → ¬ Pattern.Matches kind.pattern chars := by
        intro kind chars front whole
        obtain ⟨m, offered, _⟩ := Pattern.exists_longestPrefix? whole front
        obtain ⟨winner, n, found, _⟩ := exists_longest? offered
        exact some ⟨winner, exists_wins found⟩
      rw [isLexer.stuck place cs nonempty none, isLexer'.stuck place cs nonempty none]

theorem Json.listing_isFormat : IsFormat listingText readListing? := ⟨readListing?_listingText⟩

namespace Invocation

variable {command : Command} {path : Option String}

theorem ofArguments?_name {name : String} {rest : List String} (long : name ≠ "--store") (short : name ≠ "-s")
    (plain : attachedPath? name = none) : ofArguments? path (name :: rest) =
      (Command.ofArguments? name rest).map fun command => ⟨path.getD defaultPath, command⟩ := by
  unfold ofArguments?
  rw [if_neg (not_or.2 ⟨long, short⟩), plain]

theorem ofArguments?_arguments (proper : command.Proper) :
    ofArguments? path command.arguments = some ⟨path.getD defaultPath, command⟩ := by
  cases command with
  | clear | list =>
    rw [Command.arguments, ofArguments?_name (by decide) (by decide) (by decide +kernel)]
    rfl
  | delete cell | query cell | eval cell text =>
    rw [Command.arguments, ofArguments?_name (by decide) (by decide) (by decide +kernel)]
    change Address.canonicalName? cell = some cell at proper
    simp only [Command.ofArguments?, Command.positionals?, if_true, proper]
    rfl
  | copy dest source =>
    rw [Command.arguments, ofArguments?_name (by decide) (by decide) (by decide +kernel)]
    simp only [Command.ofArguments?, Command.positionals?, if_true, proper.1, proper.2]
    rfl
  | load file =>
    rw [Command.arguments, ofArguments?_name (by decide) (by decide) (by decide +kernel)]
    simp only [Command.ofArguments?, Command.positionals?, if_true, if_neg (show ¬ file = "" from proper)]
    rfl

theorem attachedPath?_long (file : String) : attachedPath? ("--store=" ++ file) = some file := by
  have chars : ("--store=" ++ file).toList = "--store=".toList ++ file.toList := String.toList_append
  unfold attachedPath?
  simp only [chars]
  rw [if_pos (List.isPrefixOf_iff_prefix.2 (List.prefix_append _ _))]
  change some (String.ofList file.toList) = some file
  rw [String.ofList_toList]

theorem attachedPath?_short (file : String) : attachedPath? ("-s=" ++ file) = some file := by
  have chars : ("-s=" ++ file).toList = "-s=".toList ++ file.toList := String.toList_append
  have other : "--store=".toList.isPrefixOf ("-s=".toList ++ file.toList) = false := rfl
  have starts : ("-s=" ++ file).startsWith "-s" = true := by
    simp [String.startsWith_string_iff, chars]
  unfold attachedPath?
  simp only [chars]
  rw [if_neg (by rw [other]; exact Bool.false_ne_true), if_pos starts]
  change some (String.ofList file.toList) = some file
  rw [String.ofList_toList]

theorem ofArguments?_attached {argument file : String} (rest : List String) (nonempty : file ≠ "")
    (attached : attachedPath? argument = some file) :
    ofArguments? none (argument :: rest) = ofArguments? (some file) rest := by
  have other : ¬ (argument = "--store" ∨ argument = "-s") := by
    rintro (rfl | rfl)
    · have none : attachedPath? "--store" = none := by decide +kernel
      rw [none] at attached
      cases attached
    · have empty : attachedPath? "-s" = some "" := by decide +kernel
      rw [empty] at attached
      exact nonempty (Option.some.inj attached).symm
  rw [ofArguments?.eq_def]
  simp only [if_neg other, attached]
  exact if_neg (not_or.2 ⟨Bool.false_ne_true, nonempty⟩)

theorem ofArguments?_separate {file : String} (nonempty : file ≠ "")
    (value : Command.looksLikeOption file = false) (rest : List String) {option : String}
    (named : option = "--store" ∨ option = "-s") :
    ofArguments? none (option :: file :: rest) = ofArguments? (some file) rest := by
  rw [ofArguments?.eq_def]
  simp only [if_pos named]
  exact if_neg (by simp [nonempty, value])

theorem proper_of_command {name : String} {arguments : List String}
    (found : Command.ofArguments? name arguments = some command) : command.Proper := by
  unfold Command.ofArguments? at found
  split at found
  case h_2 =>
    split at found
    · obtain ⟨dest, first, rest⟩ := Option.bind_eq_some_iff.1 found
      obtain ⟨source, second, same⟩ := Option.bind_eq_some_iff.1 rest
      cases same
      exact ⟨Address.canonicalName?_of_canonical first, Address.canonicalName?_of_canonical second⟩
    · cases found
  case h_6 =>
    split at found
    · split at found
      · cases found
      · cases found
        assumption
    · cases found
  case h_1 | h_4 =>
    split at found
    · cases found
      trivial
    · cases found
  case h_3 | h_5 | h_7 =>
    split at found
    · obtain ⟨cell, canonical, rfl⟩ := Option.map_eq_some_iff.1 found
      exact Address.canonicalName?_of_canonical canonical
    · cases found
  case h_8 => cases found

theorem proper_of_ofArguments? {arguments : List String} {invocation : Invocation}
    (named : ∀ file ∈ path, file ≠ "") (found : ofArguments? path arguments = some invocation) :
    invocation.path ≠ "" ∧ invocation.command.Proper := by
  fun_induction ofArguments? path arguments with
  | case1 | case2 | case3 | case5 => cases found
  | case4 _ _ _ file _ refused ih =>
    have nonempty : file ≠ "" := (not_or.1 (not_or.1 refused).2).1
    exact ih (fun _ held => Option.mem_some.1 held ▸ nonempty) found
  | case6 _ _ _ _ file _ refused ih =>
    have nonempty : file ≠ "" := (not_or.1 refused).2
    exact ih (fun _ held => Option.mem_some.1 held ▸ nonempty) found
  | case7 path =>
    obtain ⟨command, accepted, rfl⟩ := Option.map_eq_some_iff.1 found
    refine ⟨?_, proper_of_command accepted⟩
    cases path with
    | none => exact (by decide : defaultPath ≠ "")
    | some file => exact named file rfl

theorem ofArguments?_isReader : IsReader (ofArguments? none) where
  default command proper := ofArguments?_arguments proper
  attached file command nonempty proper := by
    rw [ofArguments?_attached _ nonempty (attachedPath?_long file),
      ofArguments?_attached _ nonempty (attachedPath?_short file)]
    exact ⟨ofArguments?_arguments proper, ofArguments?_arguments proper⟩
  separate file command nonempty value proper := by
    rw [ofArguments?_separate nonempty value _ (.inl rfl), ofArguments?_separate nonempty value _ (.inr rfl)]
    exact ⟨ofArguments?_arguments proper, ofArguments?_arguments proper⟩
  proper arguments invocation found :=
    proper_of_ofArguments? (fun _ held => absurd held (Option.not_mem_none _)) found

end Invocation

end Worksheet
