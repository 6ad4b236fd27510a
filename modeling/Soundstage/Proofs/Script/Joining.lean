import Mathlib
import Soundstage.Proofs.Script.RoundTrip
import Soundstage.Proofs.Timeline.Structure
import Soundstage.Proofs.Text.Padding

/-!
# Scripts line by line

A script is read one line after the other, and a line is read alike wherever it stands, except that
what is read bears its number. So scripts may be put one behind the other: the lines of the second
one stand further down, `ScriptLine.moveDown`, and so do its failures, `Failure.moveDown`. The
blanks at the ends of lines do not matter, and carriage returns in front of line feeds are such
blanks.
-/

namespace Soundstage

open Text

section Moving

variable {R : Type}

/-- The failure of a line that stands further down. -/
def Failure.moveDown (k : ℕ) : Failure R → Failure R
  | malformedLine line reason text => malformedLine (line + k) reason text
  | invalidDuration line value => invalidDuration (line + k) value
  | invalidPan line value => invalidPan (line + k) value
  | duplicateTrack line description => duplicateTrack (line + k) description
  | unknownTrack line description => unknownTrack (line + k) description
  | generationFailed line key cause => generationFailed (line + k) key cause
  | atLine line cause => atLine (line + k) cause
  | failure => failure

@[simp] theorem Failure.line?_moveDown (k : ℕ) (failure : Failure R) :
    (failure.moveDown k).line? = failure.line?.map (· + k) := by
  cases failure <;> rfl

/-- The same command on a line further down. -/
def ScriptLine.moveDown (k : ℕ) (line : ScriptLine R) : ScriptLine R :=
  { line with line := line.line + k }

end Moving

namespace Script

/-- What comes of reading lines that stand further down. -/
def below {α : Type} (k : ℕ) (move : α → α) :
    Except (Failure Float) α → Except (Failure Float) α
  | .ok found => .ok (move found)
  | .error failure => .error (failure.moveDown k)

/-- Moving down goes through one step after the other. -/
theorem below_bind {α β : Type} {k : ℕ} {move : α → α} {move' : β → β}
    {work : Except (Failure Float) α} {next next' : α → Except (Failure Float) β}
    (h : ∀ a, next' (move a) = below k move' (next a)) :
    below k move work >>= next' = below k move' (work >>= next) := by
  cases work with
  | error failure => rfl
  | ok a => exact h a

/-- The numbers of a command are checked alike on all lines. -/
theorem check_add (c : Command Float) (number k : ℕ) :
    c.check (number + k) = below k id (c.check number) := by
  have hpan (pan : Float) : Command.checkPan (number + k) pan
      = below k id (Command.checkPan number pan) := by
    unfold Command.checkPan
    split <;> rfl
  cases c with
  | voice pan phrase => exact hpan pan
  | backgroundStart pan description => exact hpan pan
  | backgroundStop description => rfl
  | sound pan duration description =>
      unfold Command.check
      dsimp only
      rw [hpan]
      refine below_bind fun _ => ?_
      split <;> rfl
  | wait duration =>
      unfold Command.check
      dsimp only
      split <;> rfl

theorem parseCommand_add (line : List Char) (number k : ℕ) :
    Command.parse line (number + k) = below k id (Command.parse line number) := by
  unfold Command.parse
  cases Command.read line <;> rfl

/-- A line is read alike wherever it stands. -/
theorem parseLine_add (line : List Char) (number k : ℕ) :
    parseLine line (number + k)
      = below k (Option.map (ScriptLine.moveDown k)) (parseLine line number) := by
  unfold parseLine
  dsimp only
  split
  · rfl
  · rw [parseCommand_add]
    refine below_bind fun c => ?_
    rw [id, check_add]
    exact below_bind fun _ => rfl

/-- Lines are read alike wherever the first one stands, by induction on them. -/
theorem parseLines_add (number k : ℕ) (lines : List (List Char)) :
    parseLines (number + k) lines
      = below k (List.map (ScriptLine.moveDown k)) (parseLines number lines) := by
  induction lines generalizing number with
  | nil => rfl
  | cons line rest ih =>
      rw [parseLines, parseLines, parseLine_add]
      refine below_bind fun found => ?_
      rw [Nat.add_right_comm, ih]
      refine below_bind fun others => ?_
      cases found <;> rfl

/-- Lines behind lines, by induction on the first ones. -/
theorem parseLines_append (number : ℕ) (first second : List (List Char)) :
    parseLines number (first ++ second) = do
      let found ← parseLines number first
      let others ← parseLines (number + first.length) second
      return found ++ others := by
  induction first generalizing number with
  | nil =>
      rw [List.nil_append, List.length_nil, Nat.add_zero]
      cases parseLines number second <;> rfl
  | cons line rest ih =>
      have hlength : number + 1 + rest.length = number + (line :: rest).length := by
        rw [List.length_cons]
        omega
      rw [List.cons_append, parseLines, parseLines, ih, hlength]
      cases parseLine line number with
      | error failure => rfl
      | ok found =>
          cases parseLines (number + 1) rest with
          | error failure => rfl
          | ok others =>
              cases parseLines (number + (line :: rest).length) second with
              | error failure => rfl
              | ok later => exact congrArg Except.ok (List.append_assoc _ _ _).symm

/-- Scripts one behind the other, with a line feed between them. -/
theorem parse_append (first second : String) :
    parse (first ++ "\n" ++ second) = do
      let found ← parse first
      let others ← below (1 + first.toList.count '\n')
        (List.map (ScriptLine.moveDown (1 + first.toList.count '\n'))) (parse second)
      return found ++ others := by
  have hpieces : pieces '\n' (first ++ "\n" ++ second).toList
      = pieces '\n' first.toList ++ pieces '\n' second.toList := by
    rw [String.toList_append, String.toList_append, List.append_assoc]
    exact pieces_append first.toList second.toList
  rw [parse, hpieces, parseLines_append, length_pieces, parseLines_add, Nat.add_comm 1]
  rfl

/-- A line that a script may have: a blank one, or one that writes a valid command. -/
def IsReadable (line : List Char) : Prop :=
  trim line = [] ∨ ∃ c : Command Float, c.Writes (trim line) ∧ c.IsValid

/-- What is read from a numbered line that is not blank. -/
def Yields (numbered : List Char × ℕ) (found : ScriptLine Float) : Prop :=
  found.line = numbered.2 ∧ found.command.Writes (trim numbered.1) ∧ found.command.IsValid

/-- The lines of a list that are not blank, each with its number. -/
def nonBlank (number : ℕ) (lines : List (List Char)) : List (List Char × ℕ) :=
  (lines.zipIdx number).filter fun numbered => !(trim numbered.1).isEmpty

section Lines

variable {line : List Char} {lines : List (List Char)} {number : ℕ}
  {found : List (ScriptLine Float)} {failure : Failure Float}

theorem parseLine_eq_some_iff {l : ScriptLine Float} :
    parseLine line number = .ok (some l) ↔ trim line ≠ [] ∧ Yields (line, number) l := by
  rw [parseLine_eq_ok_iff]
  obtain ⟨found, command⟩ := l
  constructor
  · rintro (⟨-, hnone⟩ | ⟨hne, c, hparse, hcheck, hsome⟩)
    · cases hnone
    · cases hsome
      exact ⟨hne, rfl, Command.parse_eq_ok_iff.mp hparse,
        (Command.check_eq_ok_iff _ _).mp hcheck⟩
  · rintro ⟨hne, rfl, hwrites, hvalid⟩
    exact .inr ⟨hne, command, Command.parse_eq_ok_iff.mpr hwrites,
      (command.check_eq_ok_iff _).mpr hvalid, rfl⟩

theorem parseLine_eq_none_iff : parseLine line number = .ok none ↔ trim line = [] := by
  rw [parseLine_eq_ok_iff]
  constructor
  · rintro (⟨hnil, -⟩ | ⟨-, c, -, -, hsome⟩)
    · exact hnil
    · cases hsome
  · exact fun hnil => .inl ⟨hnil, rfl⟩

theorem exists_parseLine_iff : (∃ found, parseLine line number = .ok found) ↔ IsReadable line := by
  constructor
  · rintro ⟨_ | l, h⟩
    · exact .inl (parseLine_eq_none_iff.mp h)
    · obtain ⟨-, -, hwrites, hvalid⟩ := parseLine_eq_some_iff.mp h
      exact .inr ⟨l.command, hwrites, hvalid⟩
  · rintro (hnil | ⟨c, hwrites, hvalid⟩)
    · exact ⟨none, parseLine_eq_none_iff.mpr hnil⟩
    · by_cases hnil : trim line = []
      · exact ⟨none, parseLine_eq_none_iff.mpr hnil⟩
      · exact ⟨some ⟨number, c⟩, parseLine_eq_some_iff.mpr ⟨hnil, rfl, hwrites, hvalid⟩⟩

theorem parseLine_eq_error_iff : parseLine line number = .error failure ↔
    trim line ≠ [] ∧ (Command.parse (trim line) number = .error failure ∨
      ∃ c, Command.parse (trim line) number = .ok c ∧ c.check number = .error failure) := by
  unfold parseLine
  dsimp only
  by_cases hnil : trim line = []
  · simp [hnil, pure, Except.pure]
  · rw [if_neg (by simpa using hnil), and_iff_right hnil]
    cases hparse : Command.parse (trim line) number with
    | error cause => simp [bind, Except.bind]
    | ok c =>
        cases hcheck : c.check number with
        | error cause => simp [bind, Except.bind, hcheck]
        | ok _ => simp [bind, Except.bind, hcheck, pure, Except.pure]

/-- The failure of a line bears the number of the line. -/
theorem line?_of_parseLine (h : parseLine line number = .error failure) :
    failure.line? = some number := by
  obtain ⟨-, hparse | ⟨c, -, hcheck⟩⟩ := parseLine_eq_error_iff.mp h
  · unfold Command.parse at hparse
    cases hread : Command.read (trim line) with
    | ok c =>
        rw [hread] at hparse
        cases hparse
    | error mismatch =>
        rw [hread] at hparse
        cases hparse
        rfl
  · exact Command.line_of_check hcheck

theorem nonBlank_cons_of_blank (h : trim line = []) (number : ℕ) (rest : List (List Char)) :
    nonBlank number (line :: rest) = nonBlank (number + 1) rest := by
  rw [nonBlank, List.zipIdx_cons, List.filter_cons_of_neg (by simp [h])]
  rfl

theorem nonBlank_cons (h : trim line ≠ []) (number : ℕ) (rest : List (List Char)) :
    nonBlank number (line :: rest) = (line, number) :: nonBlank (number + 1) rest := by
  rw [nonBlank, List.zipIdx_cons, List.filter_cons_of_pos (by simpa using h)]
  rfl

theorem length_nonBlank (number : ℕ) (lines : List (List Char)) :
    (nonBlank number lines).length = lines.countP fun line => !(trim line).isEmpty := by
  induction lines generalizing number with
  | nil => rfl
  | cons line rest ih =>
      by_cases hnil : trim line = []
      · rw [nonBlank_cons_of_blank hnil, ih, List.countP_cons_of_neg (by simp [hnil])]
      · rw [nonBlank_cons hnil, List.length_cons, ih, List.countP_cons_of_pos (by simpa using hnil)]

/-- Lines are accepted with one command for each line that is not blank, by induction on them. -/
theorem parseLines_eq_ok_iff : parseLines number lines = .ok found ↔
    List.Forall₂ Yields (nonBlank number lines) found := by
  induction lines generalizing number found with
  | nil =>
      rw [show nonBlank number [] = [] from rfl, List.forall₂_nil_left_iff]
      exact ⟨fun h => (Except.ok.inj h).symm, fun h => h ▸ rfl⟩
  | cons line rest ih =>
      rw [parseLines_cons_eq_ok_iff]
      by_cases hnil : trim line = []
      · rw [nonBlank_cons_of_blank hnil, ← ih]
        constructor
        · rintro ⟨first, others, hfirst, hothers, rfl⟩
          rw [parseLine_eq_none_iff.mpr hnil] at hfirst
          cases hfirst
          exact hothers
        · exact fun h => ⟨none, found, parseLine_eq_none_iff.mpr hnil, h, rfl⟩
      · rw [nonBlank_cons hnil, List.forall₂_cons_left_iff]
        constructor
        · rintro ⟨_ | l, others, hfirst, hothers, rfl⟩
          · exact absurd (parseLine_eq_none_iff.mp hfirst) hnil
          · exact ⟨l, others, (parseLine_eq_some_iff.mp hfirst).2, ih.mp hothers, rfl⟩
        · rintro ⟨l, others, hyields, hothers, rfl⟩
          exact ⟨some l, others, parseLine_eq_some_iff.mpr ⟨hnil, hyields⟩, ih.mpr hothers, rfl⟩

theorem parseLines_cons_of_error {rest : List (List Char)}
    (h : parseLine line number = .error failure) :
    parseLines number (line :: rest) = .error failure := by
  rw [parseLines, h]
  rfl

theorem parseLines_cons_eq_error_iff {first : Option (ScriptLine Float)}
    {rest : List (List Char)} (h : parseLine line number = .ok first) :
    parseLines number (line :: rest) = .error failure ↔
      parseLines (number + 1) rest = .error failure := by
  rw [parseLines, h]
  cases parseLines (number + 1) rest <;> simp [bind, Except.bind, pure, Except.pure]

/-- Lines are refused with the failure of the first one that cannot be read, by induction on
them. -/
theorem parseLines_eq_error_iff : parseLines number lines = .error failure ↔
    ∃ before line after, lines = before ++ line :: after ∧
      (∀ earlier ∈ before, IsReadable earlier) ∧
      parseLine line (number + before.length) = .error failure := by
  induction lines generalizing number with
  | nil =>
      constructor
      · intro h
        cases h
      · rintro ⟨before, line, after, hsplit, -⟩
        simp at hsplit
  | cons first rest ih =>
      cases hfirst : parseLine first number with
      | error cause =>
          rw [parseLines_cons_of_error hfirst]
          constructor
          · intro h
            cases h
            exact ⟨[], first, rest, rfl, by simp, hfirst⟩
          · rintro ⟨before, line, after, hsplit, hbefore, hline⟩
            cases before with
            | nil =>
                cases hsplit
                rw [List.length_nil, Nat.add_zero, hfirst] at hline
                rw [Except.error.inj hline]
            | cons head before =>
                cases hsplit
                have hreads : ∃ found, parseLine first number = .ok found :=
                  exists_parseLine_iff.mpr (hbefore first List.mem_cons_self)
                obtain ⟨found, hfound⟩ := hreads
                rw [hfirst] at hfound
                cases hfound
      | ok found =>
          rw [parseLines_cons_eq_error_iff hfirst, ih]
          constructor
          · rintro ⟨before, line, after, rfl, hbefore, hline⟩
            refine ⟨first :: before, line, after, rfl, List.forall_mem_cons.mpr
              ⟨exists_parseLine_iff.mp ⟨found, hfirst⟩, hbefore⟩, ?_⟩
            rwa [List.length_cons, Nat.add_comm before.length, ← Nat.add_assoc]
          · rintro ⟨before, line, after, hsplit, hbefore, hline⟩
            cases before with
            | nil =>
                cases hsplit
                rw [List.length_nil, Nat.add_zero, hfirst] at hline
                cases hline
            | cons head before =>
                cases hsplit
                refine ⟨before, line, after, rfl, (List.forall_mem_cons.mp hbefore).2, ?_⟩
                rwa [List.length_cons, Nat.add_comm before.length, ← Nat.add_assoc] at hline

/-- Lines that are equal once they are trimmed are read alike. -/
theorem parseLine_congr {line' : List Char} (h : trim line' = trim line) (number : ℕ) :
    parseLine line' number = parseLine line number := by
  unfold parseLine
  rw [h]

theorem parseLines_congr {lines' : List (List Char)} (h : List.Forall₂ IsPadded lines lines')
    (number : ℕ) : parseLines number lines' = parseLines number lines := by
  induction h generalizing number with
  | nil => rfl
  | cons hline _ ih => rw [parseLines, parseLines, parseLine_congr hline.trim_eq, ih]

end Lines

/-- Blanks at the ends of the lines do not matter. -/
theorem parse_padded {text : String} {lines : List (List Char)}
    (h : List.Forall₂ IsPadded (pieces '\n' text.toList) lines) :
    parse (String.ofList (['\n'].intercalate lines)) = parse text := by
  rw [parse, String.toList_ofList, pieces_intercalate_of_forall₂ h, parseLines_congr h]
  rfl

/-- Nor do carriage returns in front of line feeds. -/
theorem parse_withReturns (text : String) :
    parse (String.ofList (withReturns text.toList)) = parse text := by
  obtain ⟨lines, hpadded, hjoined⟩ := exists_padded_withReturns (pieces_ne_nil text.toList)
    fun line hline => not_mem_of_mem_pieces hline
  rw [intercalate_pieces] at hjoined
  rw [hjoined, parse_padded hpadded]

/-- **Scripts are read line by line.** A script behind another one is read as it is read by itself,
with its lines further down. What is accepted has one command for each line that is not blank; what
is refused is refused for the first line that is neither blank nor a valid command. Blanks at the
ends of lines, and so carriage returns in front of line feeds, change nothing. -/
theorem scripts_compose :
    (∀ first second : String, parse (first ++ "\n" ++ second)
      = match parse first, parse second with
        | .error failure, _ => .error failure
        | .ok found, .ok others =>
          .ok (found ++ others.map (ScriptLine.moveDown (1 + first.toList.count '\n')))
        | .ok _, .error failure => .error (failure.moveDown (1 + first.toList.count '\n'))) ∧
    (∀ (text : String) (found : List (ScriptLine Float)), parse text = .ok found ↔
      List.Forall₂ Yields (nonBlank 1 (pieces '\n' text.toList)) found) ∧
    (∀ (text : String) (found : List (ScriptLine Float)), parse text = .ok found →
      found.length = (pieces '\n' text.toList).countP fun line => !(trim line).isEmpty) ∧
    (∀ (text : String) (failure : Failure Float), parse text = .error failure ↔
      ∃ before line after, pieces '\n' text.toList = before ++ line :: after ∧
        (∀ earlier ∈ before, IsReadable earlier) ∧ ¬ IsReadable line ∧
        parseLine line (before.length + 1) = .error failure ∧
        failure.line? = some (before.length + 1)) ∧
    (∀ text : String, parse (String.ofList (withReturns text.toList)) = parse text) ∧
    ∀ (text : String) (lines : List (List Char)),
      List.Forall₂ IsPadded (pieces '\n' text.toList) lines →
        parse (String.ofList (['\n'].intercalate lines)) = parse text := by
  refine ⟨fun first second => ?_, fun text found => parseLines_eq_ok_iff,
    fun text found h => ?_, fun text failure => ?_, parse_withReturns,
    fun text lines => parse_padded⟩
  · rw [parse_append]
    cases parse first with
    | error failure => rfl
    | ok found => cases parse second <;> rfl
  · rw [← (parseLines_eq_ok_iff.mp h).length_eq, length_nonBlank]
  · rw [parse, parseLines_eq_error_iff]
    constructor
    · rintro ⟨before, line, after, hsplit, hbefore, hline⟩
      rw [Nat.add_comm] at hline
      refine ⟨before, line, after, hsplit, hbefore, fun hreadable => ?_, hline,
        line?_of_parseLine hline⟩
      obtain ⟨found, hfound⟩ := exists_parseLine_iff.mpr hreadable
      rw [hline] at hfound
      cases hfound
    · rintro ⟨before, line, after, hsplit, hbefore, -, hline, -⟩
      rw [Nat.add_comm] at hline
      exact ⟨before, line, after, hsplit, hbefore, hline⟩

/-- Two pauses with a blank line between them, and the first one with blanks around it. -/
theorem scripts_compose_two_pauses :
    parse "wait 1\n" = .ok [⟨1, .wait 1⟩] ∧
      parse ("wait 1\n" ++ "\n" ++ "wait 2") = .ok [⟨1, .wait 1⟩, ⟨3, .wait 2⟩] ∧
      parse (String.ofList "\twait 1 \r\n".toList) = .ok [⟨1, .wait 1⟩] := by
  have hfirst : parse "wait 1\n" = .ok [⟨1, .wait 1⟩] := rfl
  have hsecond : parse "wait 2" = .ok [⟨1, .wait 2⟩] := rfl
  obtain ⟨hjoin, -, -, -, -, hpad⟩ := scripts_compose
  refine ⟨hfirst, ?_, ?_⟩
  · rw [hjoin, hfirst, hsecond]
    rfl
  · have hpadded : List.Forall₂ IsPadded (pieces '\n' "wait 1\n".toList)
        ["\twait 1 \r".toList, []] := by
      refine .cons ⟨['\t'], [' ', '\r'], rfl, by simp [AreBlanks, isBlank],
        by simp [AreBlanks, isBlank], by decide, by decide⟩
        (.cons (.refl []) .nil)
    rw [← hfirst]
    exact hpad "wait 1\n" _ hpadded

end Script

end Soundstage
