import Mathlib
import Soundstage.Proofs.Number.Written
import Soundstage.Proofs.Script.Acceptance
import Soundstage.Proofs.Text.LineEnd

/-!
# Scripts read back

A printable command is written as a line that the grammar gives back to it, and that line has no
blanks to trim and no line feed, so a script is read as the commands that were written. What a
script is read as is printable in turn: `parse_text_and_isPrintable` says both.
-/

namespace Soundstage

open Text

namespace Command

variable {c : Command Float}

/-- All numbers of a valid command are finite. -/
theorem IsValid.isFinite (h : c.IsValid) : ∀ x ∈ c.numbers, x.isFinite = true := by
  cases c with
  | voice pan | backgroundStart pan => exact List.forall_mem_singleton.mpr h.1
  | sound => exact List.forall_mem_cons.mpr ⟨h.1.1, List.forall_mem_singleton.mpr h.2.1⟩
  | backgroundStop => exact fun x hx => absurd hx List.not_mem_nil
  | wait => exact List.forall_mem_singleton.mpr h.1

theorem writesFloat_text {x : Float} (h : x.isFinite = true) :
    WritesFloat (Style.plain.text x).toList x := Style.exists_writes_text h

theorem isGap_space : IsGap [' '] :=
  ⟨List.cons_ne_nil _ _, fun c hc => by rw [List.mem_singleton.mp hc]; rfl⟩

theorem writesNumber_space {x : Float} (h : x.isFinite = true) (rest : List Char) :
    WritesNumber (' ' :: ((Style.plain.text x).toList ++ rest)) x rest :=
  ⟨[' '], _, rfl, isGap_space, writesFloat_text h⟩

theorem writesText_space {s : String} (h : IsLineEnd s.toList) : WritesText (' ' :: s.toList) s :=
  ⟨[' '], rfl, isGap_space, h.isRest⟩

theorem toList_line (c : Command Float) :
    c.line.toList = c.keyword.text.toList ++ c.fields.flatMap (' ' :: ·.toList) := by
  have hjoin (first : String) (fields : List String) :
      (" ".intercalate (first :: fields)).toList
        = first.toList ++ fields.flatMap (' ' :: ·.toList) := by
    induction fields generalizing first with
    | nil => simp
    | cons field fields ih =>
      rw [String.intercalate_cons_cons, String.toList_append, String.toList_append, ih,
        List.append_assoc]
      rfl
  exact hjoin c.keyword.text c.fields

/-- What is written behind the keyword of a printable command writes the fields of that command. -/
theorem writesFields_fields (h : c.IsPrintable) :
    c.WritesFields (c.fields.flatMap (' ' :: ·.toList)) := by
  have hfinite := h.1.isFinite
  have htext := h.2
  cases c with
  | voice pan text | backgroundStart pan text =>
    simp only [fields, List.flatMap_cons, List.flatMap_nil, List.append_nil, List.cons_append]
    exact ⟨_, writesNumber_space (hfinite pan List.mem_cons_self) _,
      writesText_space (htext text rfl)⟩
  | sound pan duration text =>
    simp only [fields, List.flatMap_cons, List.flatMap_nil, List.append_nil, List.cons_append]
    exact ⟨_, _, writesNumber_space (hfinite pan List.mem_cons_self) _,
      writesNumber_space (hfinite duration (List.mem_cons_of_mem _ List.mem_cons_self)) _,
      writesText_space (htext text rfl)⟩
  | backgroundStop text =>
    simp only [fields, List.flatMap_cons, List.flatMap_nil, List.append_nil]
    exact writesText_space (htext text rfl)
  | wait duration =>
    simp only [fields, List.flatMap_cons, List.flatMap_nil, List.cons_append]
    exact ⟨_, writesNumber_space (hfinite duration List.mem_cons_self) _, areBlanks_nil⟩

theorem writes_line (h : c.IsPrintable) : c.Writes c.line.toList :=
  ⟨[], _, toList_line c, areBlanks_nil, writesFields_fields h⟩

theorem fields_eq (c : Command Float) :
    c.fields = c.numbers.map Style.plain.text ++ c.text?.toList := by
  cases c <;> rfl

/-- The line of a printable command is not changed by trimming and is one line. -/
theorem isLineEnd_line (h : c.IsPrintable) : IsLineEnd c.line.toList := by
  refine isLineEnd_intercalate (List.cons_ne_nil _ _) fun field hfield => ?_
  rcases List.mem_cons.mp hfield with rfl | hfield
  · exact isLineEnd_of_isSolid c.keyword.isSolid_text c.keyword.text_ne_nil
  · rw [fields_eq, List.mem_append] at hfield
    rcases hfield with hnumber | htext
    · obtain ⟨x, hx, rfl⟩ := List.mem_map.mp hnumber
      obtain ⟨hsolid, hne⟩ := (writesFloat_text (h.1.isFinite x hx)).isSolid
      exact isLineEnd_of_isSolid hsolid hne
    · exact h.2 field (Option.mem_toList.mp htext)

end Command

theorem WritesNumber.suffix {fields rest : List Char} {x : Float} (h : WritesNumber fields x rest) :
    rest <:+ fields := by
  obtain ⟨gap, number, rfl, -⟩ := h
  exact (List.suffix_append number rest).trans (List.suffix_append gap _)

theorem WritesText.suffix {fields : List Char} {text : String} (h : WritesText fields text) :
    IsRest text.toList ∧ text.toList <:+ fields := by
  obtain ⟨gap, rfl, -, hrest⟩ := h
  exact ⟨hrest, List.suffix_append gap _⟩

namespace Command

variable {c : Command Float}

theorem WritesFields.suffix {fields : List Char} (h : c.WritesFields fields) :
    ∀ text ∈ c.text?, IsRest text.toList ∧ text.toList <:+ fields := by
  intro text htext
  cases c with
  | voice | backgroundStart =>
    obtain rfl := Option.some.inj htext
    obtain ⟨rest, hnumber, h⟩ := h
    exact ⟨h.suffix.1, h.suffix.2.trans hnumber.suffix⟩
  | sound =>
    obtain rfl := Option.some.inj htext
    obtain ⟨rest, rest', hnumber, hnumber', h⟩ := h
    exact ⟨h.suffix.1, h.suffix.2.trans (hnumber'.suffix.trans hnumber.suffix)⟩
  | backgroundStop =>
    obtain rfl := Option.some.inj htext
    exact WritesText.suffix h
  | wait => exact nomatch htext

/-- A valid command that a trimmed line writes is printable. -/
theorem Writes.isPrintable {line : List Char} (h : c.Writes line) (hline : IsLineEnd line)
    (hvalid : c.IsValid) : c.IsPrintable := by
  obtain ⟨lead, fields, rfl, -, hfields⟩ := h
  refine ⟨hvalid, fun text htext => ?_⟩
  obtain ⟨⟨first, rest, hcons, hfirst⟩, hsuffix⟩ := hfields.suffix text htext
  have hend : text.toList <:+ lead ++ (c.keyword.text.toList ++ fields) :=
    (hsuffix.trans (List.suffix_append _ _)).trans (List.suffix_append _ _)
  have hne : text.toList ≠ [] := by
    rw [hcons]
    exact List.cons_ne_nil _ _
  refine ⟨hne, fun d hd => ?_, fun d hd => hline.2.2.1 d ?_, fun hmem => hline.2.2.2 ?_⟩
  · rw [hcons] at hd
    rwa [← Option.some.inj hd]
  · obtain ⟨front, hfront⟩ := hend
    rw [← hfront, List.getLast?_append_of_ne_nil _ hne]
    exact hd
  · exact hend.subset hmem

end Command

namespace Script

variable {line : List Char} {number : ℕ}

theorem parseLine_eq_ok_iff {found : Option (ScriptLine Float)} :
    parseLine line number = .ok found ↔ (trim line = [] ∧ found = none) ∨
      (trim line ≠ [] ∧ ∃ c, Command.parse (trim line) number = .ok c ∧ c.check number = .ok () ∧
        found = some ⟨number, c⟩) := by
  unfold parseLine
  dsimp only
  by_cases hnil : trim line = []
  · rw [if_pos (by simpa using hnil), return_eq_ok, or_iff_left (fun h => h.1 hnil), eq_comm]
    exact (and_iff_right hnil).symm
  · rw [if_neg (by simpa using hnil), or_iff_right (fun h => hnil h.1), and_iff_right hnil]
    constructor
    · intro h
      obtain ⟨c, hparse, h⟩ := bind_eq_ok.mp h
      obtain ⟨⟨⟩, hcheck, h⟩ := bind_eq_ok.mp h
      exact ⟨c, hparse, hcheck, (return_eq_ok.mp h).symm⟩
    · rintro ⟨c, hparse, hcheck, rfl⟩
      exact bind_eq_ok.mpr ⟨c, hparse, bind_eq_ok.mpr ⟨(), hcheck, rfl⟩⟩

theorem parseLines_cons_eq_ok_iff {rest : List (List Char)} {found : List (ScriptLine Float)} :
    parseLines number (line :: rest) = .ok found ↔ ∃ first others,
      parseLine line number = .ok first ∧ parseLines (number + 1) rest = .ok others ∧
        first.toList ++ others = found := by
  rw [parseLines, bind_eq_ok]
  simp only [bind_eq_ok, return_eq_ok, exists_and_left]

/-- The lines of printable commands are read one by one. -/
theorem parseLines_line {commands : List (Command Float)} (h : ∀ c ∈ commands, c.IsPrintable)
    (number : ℕ) : parseLines number (commands.map (·.line.toList))
      = .ok ((commands.zipIdx number).map fun (c, line) => ⟨line, c⟩) := by
  induction commands generalizing number with
  | nil => rfl
  | cons c rest ih =>
    have hc := h c List.mem_cons_self
    have hline := c.isLineEnd_line hc
    have hrest := ih (fun c hc => h c (List.mem_cons_of_mem _ hc)) (number + 1)
    have hfirst : parseLine c.line.toList number = .ok (some ⟨number, c⟩) := by
      rw [parseLine_eq_ok_iff, hline.trim_eq]
      exact .inr ⟨hline.1, c, Command.parse_eq_ok_iff.mpr (c.writes_line hc),
        (c.check_eq_ok_iff number).mpr hc.1, rfl⟩
    exact parseLines_cons_eq_ok_iff.mpr ⟨_, _, hfirst, hrest, rfl⟩

theorem parse_text {commands : List (Command Float)} (h : ∀ c ∈ commands, c.IsPrintable) :
    parse (text commands) = .ok ((commands.zipIdx 1).map fun (c, line) => ⟨line, c⟩) := by
  rcases eq_or_ne commands [] with rfl | hne
  · rfl
  · have hpieces : pieces '\n' (text commands).toList = commands.map (·.line.toList) := by
      rw [text, String.toList_intercalate, List.map_map]
      refine pieces_intercalate (by simpa using hne) fun line hline => ?_
      obtain ⟨c, hc, rfl⟩ := List.mem_map.mp hline
      exact (c.isLineEnd_line (h c hc)).2.2.2
    rw [parse, hpieces, parseLines_line h]

/-- What lines are read as is printable, and stands on later and later lines. -/
theorem isPrintable_of_parseLines {lines : List (List Char)} {found : List (ScriptLine Float)}
    (hlines : ∀ line ∈ lines, '\n' ∉ line) (h : parseLines number lines = .ok found) :
    (∀ l ∈ found, l.command.IsPrintable ∧ number ≤ l.line) ∧
      found.Pairwise (·.line < ·.line) := by
  induction lines generalizing number found with
  | nil =>
    obtain rfl := Except.ok.inj h
    simp
  | cons line rest ih =>
    obtain ⟨first, others, hfirst, hothers, rfl⟩ := parseLines_cons_eq_ok_iff.mp h
    obtain ⟨hprintable, hpairwise⟩ :=
      ih (fun line hline => hlines line (List.mem_cons_of_mem _ hline)) hothers
    rcases parseLine_eq_ok_iff.mp hfirst with ⟨-, rfl⟩ | ⟨hne, c, hparse, hcheck, rfl⟩
    · exact ⟨fun l hl => ⟨(hprintable l hl).1, Nat.le_of_succ_le (hprintable l hl).2⟩, hpairwise⟩
    · have hline := isLineEnd_trim (hlines line List.mem_cons_self) hne
      have hc := (Command.parse_eq_ok_iff.mp hparse).isPrintable hline
        ((c.check_eq_ok_iff number).mp hcheck)
      refine ⟨fun l hl => ?_, List.pairwise_cons.mpr ⟨fun l hl => (hprintable l hl).2, hpairwise⟩⟩
      rcases List.mem_cons.mp hl with rfl | hl
      · exact ⟨hc, le_rfl⟩
      · exact ⟨(hprintable l hl).1, Nat.le_of_succ_le (hprintable l hl).2⟩

/-- Printable commands are read back from the script that they are written as, each with its line,
and every script that is accepted is read as printable commands on later and later lines. -/
theorem parse_text_and_isPrintable :
    (∀ commands : List (Command Float), (∀ c ∈ commands, c.IsPrintable) →
      parse (text commands) = .ok ((commands.zipIdx 1).map fun (c, line) => ⟨line, c⟩)) ∧
    ∀ (script : String) (found : List (ScriptLine Float)), parse script = .ok found →
      (∀ l ∈ found, l.command.IsPrintable) ∧ found.Pairwise (·.line < ·.line) := by
  refine ⟨fun commands => parse_text, fun script found h => ?_⟩
  obtain ⟨hprintable, hpairwise⟩ :=
    isPrintable_of_parseLines (fun line hline => not_mem_of_mem_pieces hline) h
  exact ⟨fun l hl => (hprintable l hl).1, hpairwise⟩

end Script

end Soundstage
