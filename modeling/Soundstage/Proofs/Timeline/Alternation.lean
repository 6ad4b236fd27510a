import Soundstage.Proofs.Timeline.Stages
import Soundstage.Proofs.Timeline.Structure

/-!
# What the structure check decides

The check keeps account of all tracks at once, while `IsWellStructured` looks at the starts and
stops of each track by itself. The two go together line by line: the descriptions in the account are
those of the open tracks, whose last mark is a start, so that a line is accepted behind a
well-structured script exactly if the script with this line is well structured too. A script that is
refused is refused with its first line that breaks its structure, before anything has been done.
-/

namespace Soundstage

variable {R σ : Type}

section Marks

variable {marks : List Bool} {start : Bool}

theorem alternate_nil : Alternate [] := by
  intro i start h
  cases h

/-- Alternating marks can only go on with a start behind an even number of them, and with a stop
behind an odd one. -/
theorem alternate_concat :
    Alternate (marks ++ [start]) ↔ Alternate marks ∧ (start = true ↔ marks.length % 2 = 0) := by
  constructor
  · intro h
    constructor
    · intro i mark hmark
      have hlt := (List.getElem?_eq_some_iff.mp hmark).1
      apply h i mark
      rw [List.getElem?_append_left hlt]
      exact hmark
    · apply h marks.length start
      exact List.getElem?_concat_length
  · rintro ⟨hmarks, hstart⟩ i mark hmark
    rcases Nat.lt_trichotomy i marks.length with hlt | rfl | hgt
    · rw [List.getElem?_append_left hlt] at hmark
      exact hmarks i mark hmark
    · rw [List.getElem?_concat_length] at hmark
      cases hmark
      exact hstart
    · have hlt := (List.getElem?_eq_some_iff.mp hmark).1
      rw [List.length_append, List.length_singleton] at hlt
      omega

/-- The last one of alternating marks is a start if there is an odd number of them. -/
theorem Alternate.getLast?_eq_some_true_iff (h : Alternate marks) :
    marks.getLast? = some true ↔ marks.length % 2 = 1 := by
  induction marks using List.reverseRecOn with
  | nil => simp
  | append_singleton marks last ih =>
      obtain ⟨-, hlast⟩ := alternate_concat.mp h
      rw [List.getLast?_concat, Option.some_inj, hlast, List.length_append, List.length_singleton]
      omega

end Marks

/-- A track is open behind some lines if the last one that names it is a start. -/
def IsOpen (description : String) (lines : List (ScriptLine R)) : Prop :=
  (trackMarks description lines).getLast? = some true

instance (description : String) (lines : List (ScriptLine R)) :
    Decidable (IsOpen description lines) :=
  inferInstanceAs (Decidable (_ = _))

/-- A command goes on with what is open behind some lines: it starts a track that is not, or stops
one that is, or it does neither. -/
def Command.GoesOn (lines : List (ScriptLine R)) : Command R → Prop
  | .backgroundStart _ description => ¬ IsOpen description lines
  | .backgroundStop description => IsOpen description lines
  | _ => True

theorem trackMarks_concat (description : String) (lines : List (ScriptLine R))
    (line : ScriptLine R) : trackMarks description (lines ++ [line])
      = trackMarks description lines ++ (line.mark? description).toList := by
  unfold trackMarks
  rw [List.filterMap_append]
  cases h : line.mark? description <;> simp [h]

section Lines

@[simp] theorem ScriptLine.mark?_start (number : Nat) (pan : R) (description : String) :
    (⟨number, .backgroundStart pan description⟩ : ScriptLine R).mark? description = some true :=
  if_pos rfl

@[simp] theorem ScriptLine.mark?_stop (number : Nat) (description : String) :
    (⟨number, .backgroundStop description⟩ : ScriptLine R).mark? description = some false :=
  if_pos rfl

variable {lines before : List (ScriptLine R)} {line : ScriptLine R} {description : String}

theorem isOpen_nil : ¬ IsOpen description ([] : List (ScriptLine R)) := by
  intro h
  cases h

/-- A line without a mark leaves a track as it is. -/
theorem isOpen_concat_of_none (h : line.mark? description = none) :
    IsOpen description (lines ++ [line]) ↔ IsOpen description lines := by
  unfold IsOpen
  rw [trackMarks_concat, h, Option.toList_none, List.append_nil]

theorem isOpen_concat_of_some {start : Bool} (h : line.mark? description = some start) :
    IsOpen description (lines ++ [line]) ↔ start = true := by
  unfold IsOpen
  rw [trackMarks_concat, h, Option.toList_some, List.getLast?_concat, Option.some_inj]

/-- A start belongs to a track that is not open, and a stop to one that is. -/
theorem alternate_concat_of_some {start : Bool} (h : line.mark? description = some start)
    (halternate : Alternate (trackMarks description lines)) :
    Alternate (trackMarks description (lines ++ [line])) ↔
      (start = true ↔ ¬ IsOpen description lines) := by
  rw [trackMarks_concat, h, Option.toList_some, alternate_concat]
  have hopen : ¬ IsOpen description lines ↔ (trackMarks description lines).length % 2 = 0 := by
    unfold IsOpen
    rw [halternate.getLast?_eq_some_true_iff, Nat.mod_two_not_eq_one]
  rw [hopen]
  exact and_iff_right halternate

theorem alternate_concat_of_none (h : line.mark? description = none) :
    Alternate (trackMarks description (lines ++ [line])) ↔
      Alternate (trackMarks description lines) := by
  rw [trackMarks_concat, h, Option.toList_none, List.append_nil]

/-- All tracks go on to alternate with a line if its command goes on with what is open. -/
theorem alternate_concat_iff_goesOn (h : ∀ d, Alternate (trackMarks d lines)) :
    (∀ d, Alternate (trackMarks d (lines ++ [line]))) ↔ line.command.GoesOn lines := by
  obtain ⟨number, command⟩ := line
  have hother : ∀ {d}, (⟨number, command⟩ : ScriptLine R).mark? d = none →
      Alternate (trackMarks d (lines ++ [⟨number, command⟩])) :=
    fun hnone => (alternate_concat_of_none hnone).mpr (h _)
  cases command with
  | backgroundStart pan description =>
      have hmark := ScriptLine.mark?_start number pan description
      constructor
      · intro hall
        exact ((alternate_concat_of_some hmark (h description)).mp (hall description)).mp rfl
      · intro hclosed d
        by_cases hd : description = d
        · subst hd
          exact (alternate_concat_of_some hmark (h description)).mpr
            (iff_of_true rfl hclosed)
        · exact hother (if_neg hd)
  | backgroundStop description =>
      have hmark := ScriptLine.mark?_stop (R := R) number description
      constructor
      · intro hall
        have hiff := (alternate_concat_of_some hmark (h description)).mp (hall description)
        exact not_not.mp fun hclosed => Bool.false_ne_true (hiff.mpr hclosed)
      · intro hopen d
        by_cases hd : description = d
        · subst hd
          exact (alternate_concat_of_some hmark (h description)).mpr
            (iff_of_false Bool.false_ne_true (not_not.mpr hopen))
        · exact hother (if_neg hd)
  | voice pan phrase => exact iff_of_true (fun d => hother rfl) trivial
  | sound pan duration phrase => exact iff_of_true (fun d => hother rfl) trivial
  | wait duration => exact iff_of_true (fun d => hother rfl) trivial

end Lines

variable [Scalar R] {lines before : List (ScriptLine R)} {line : ScriptLine R}
  {failure : Failure R} {playing playing' : List String}

theorem isWellStructured_nil : IsWellStructured ([] : List (ScriptLine R)) :=
  ⟨fun _ hline => (List.not_mem_nil hline).elim, fun _ => alternate_nil⟩

/-- A script is well structured up to and with a line if it is so before, and the line has valid
numbers and goes on with what is open. -/
theorem isWellStructured_concat : IsWellStructured (lines ++ [line]) ↔
    IsWellStructured lines ∧ line.command.IsValid ∧ line.command.GoesOn lines := by
  have hbefore : (∀ d, Alternate (trackMarks d (lines ++ [line]))) →
      ∀ d, Alternate (trackMarks d lines) := by
    intro h d
    have hd := h d
    rw [trackMarks_concat] at hd
    cases hmark : line.mark? d with
    | none => simpa [hmark] using hd
    | some start =>
        rw [hmark] at hd
        exact (alternate_concat.mp hd).1
  constructor
  · rintro ⟨hvalid, halternate⟩
    have hlines := hbefore halternate
    refine ⟨⟨fun other hother => hvalid other (List.mem_append_left _ hother), hlines⟩, ?_, ?_⟩
    · exact hvalid line (List.mem_append_right _ List.mem_cons_self)
    · exact (alternate_concat_iff_goesOn hlines).mp halternate
  · rintro ⟨⟨hvalid, hlines⟩, hline, hgoes⟩
    refine ⟨fun other hother => ?_, (alternate_concat_iff_goesOn hlines).mpr hgoes⟩
    rcases List.mem_append.mp hother with hold | hnew
    · exact hvalid other hold
    · rw [List.mem_singleton.mp hnew]
      exact hline

/-- What begins a well-structured script is well structured. -/
theorem IsWellStructured.of_append {more : List (ScriptLine R)}
    (h : IsWellStructured (lines ++ more)) : IsWellStructured lines := by
  induction more using List.reverseRecOn with
  | nil => simpa using h
  | append_singleton more last ih =>
      rw [← List.append_assoc] at h
      exact ih (isWellStructured_concat.mp h).1

/-- The account of the check is the one of the open tracks: each of them is in it, once, and nothing
else is. -/
structure Accounts (playing : List String) (lines : List (ScriptLine R)) : Prop where
  nodup : playing.Nodup
  mem_iff : ∀ description, description ∈ playing ↔ IsOpen description lines

namespace ScriptLine

omit [Scalar R] in
/-- A command changes the account of the check if it goes on with what is open. -/
theorem exists_changes_iff (h : Accounts playing lines) (command : Command R) :
    (∃ playing', Changes playing playing' command) ↔ command.GoesOn lines := by
  cases command with
  | backgroundStart pan description =>
      have hmem := not_congr (h.mem_iff description)
      exact ⟨fun ⟨_, hnew, _⟩ => hmem.mp hnew, fun hclosed => ⟨_, hmem.mpr hclosed, rfl⟩⟩
  | backgroundStop description =>
      have hmem := h.mem_iff description
      exact ⟨fun ⟨_, hold, _⟩ => hmem.mp hold, fun hopen => ⟨_, hmem.mpr hopen, rfl⟩⟩
  | voice pan phrase => exact iff_of_true ⟨playing, rfl⟩ trivial
  | sound pan duration description => exact iff_of_true ⟨playing, rfl⟩ trivial
  | wait duration => exact iff_of_true ⟨playing, rfl⟩ trivial

omit [Scalar R] in
/-- Behind a command the account is again the one of the open tracks. -/
theorem Changes.accounts (hchanges : Changes playing playing' line.command)
    (h : Accounts playing lines) : Accounts playing' (lines ++ [line]) := by
  refine ⟨hchanges.nodup h.nodup, fun d => ?_⟩
  obtain ⟨number, command⟩ := line
  have hsame : (⟨number, command⟩ : ScriptLine R).mark? d = none →
      (d ∈ playing ↔ IsOpen d (lines ++ [⟨number, command⟩])) := by
    intro hnone
    rw [isOpen_concat_of_none hnone]
    exact h.mem_iff d
  cases command with
  | backgroundStart pan description =>
      obtain ⟨-, rfl⟩ := hchanges
      by_cases hd : description = d
      · subst hd
        have hmark := mark?_start number pan description
        exact iff_of_true List.mem_cons_self ((isOpen_concat_of_some hmark).mpr rfl)
      · rw [List.mem_cons, or_iff_right (Ne.symm hd)]
        exact hsame (if_neg hd)
  | backgroundStop description =>
      obtain ⟨-, rfl⟩ := hchanges
      by_cases hd : description = d
      · subst hd
        have hmark := mark?_stop (R := R) number description
        refine iff_of_false h.nodup.not_mem_erase fun hopen => ?_
        exact Bool.false_ne_true ((isOpen_concat_of_some hmark).mp hopen)
      · rw [List.mem_erase_of_ne (Ne.symm hd)]
        exact hsame (if_neg hd)
  | voice pan phrase =>
      obtain rfl := hchanges
      exact hsame rfl
  | sound pan duration description =>
      obtain rfl := hchanges
      exact hsame rfl
  | wait duration =>
      obtain rfl := hchanges
      exact hsame rfl

/-- How a line breaks the structure of a script behind the lines before it: its numbers are refused,
or they are valid and it starts a track that is open, or it stops one that is not. -/
inductive Breaks (before : List (ScriptLine R)) (line : ScriptLine R) : Failure R → Prop
  | invalid {failure : Failure R} (h : line.command.check line.line = .error failure) :
      Breaks before line failure
  | duplicate {pan : R} {description : String} (hvalid : line.command.IsValid)
      (hcommand : line.command = .backgroundStart pan description)
      (hopen : IsOpen description before) :
      Breaks before line (.duplicateTrack line.line description)
  | unknown {description : String} (hcommand : line.command = .backgroundStop description)
      (hclosed : ¬ IsOpen description before) :
      Breaks before line (.unknownTrack line.line description)

/-- A line is refused if it breaks the structure, and with the failure that belongs to it. -/
theorem breaks_of_playingAfter (haccounts : Accounts playing before)
    (h : line.playingAfter playing = .error failure) : line.Breaks before failure := by
  unfold playingAfter at h
  cases hcheck : line.command.check line.line with
  | error cause =>
      rw [hcheck] at h
      cases h
      exact .invalid hcheck
  | ok _ =>
      simp only [hcheck, bind, Except.bind] at h
      cases hcommand : line.command with
      | backgroundStart pan description =>
          simp only [hcommand] at h
          split at h
          · next hmem =>
              cases h
              exact .duplicate ((Command.check_eq_ok_iff line.line line.command).mp hcheck)
                hcommand ((haccounts.mem_iff description).mp hmem)
          · cases h
      | backgroundStop description =>
          simp only [hcommand] at h
          split at h
          · cases h
          · next hnotmem =>
              cases h
              exact .unknown hcommand (mt (haccounts.mem_iff description).mpr hnotmem)
      | voice pan phrase => simp [hcommand] at h
      | sound pan duration description => simp [hcommand] at h
      | wait duration => simp [hcommand] at h

end ScriptLine

/-- The check comes to the end of well-structured lines with an account of what is open, by
induction on the lines from their end. -/
theorem IsWellStructured.exists_accounts (h : IsWellStructured lines) :
    ∃ playing, lines.foldlM ScriptLine.playingAfter [] = .ok playing ∧ Accounts playing lines := by
  induction lines using List.reverseRecOn with
  | nil =>
      have hnone : ∀ description,
          description ∈ [] ↔ IsOpen description ([] : List (ScriptLine R)) :=
        fun _ => iff_of_false List.not_mem_nil isOpen_nil
      exact ⟨[], rfl, List.nodup_nil, hnone⟩
  | append_singleton lines line ih =>
      obtain ⟨hlines, hvalid, hgoes⟩ := isWellStructured_concat.mp h
      obtain ⟨playing, hfold, haccounts⟩ := ih hlines
      obtain ⟨playing', hchanges⟩ := (ScriptLine.exists_changes_iff haccounts _).mpr hgoes
      have hline := ScriptLine.playingAfter_eq_ok_iff.mpr ⟨hvalid, hchanges⟩
      exact ⟨playing', playing_concat_eq_ok.mpr ⟨playing, hfold, hline⟩,
        hchanges.accounts haccounts⟩

/-- Lines that the check comes to the end of are well structured, and its account is the one of what
is open, by induction on the lines from their end. -/
theorem isWellStructured_of_playing (h : lines.foldlM ScriptLine.playingAfter [] = .ok playing) :
    IsWellStructured lines ∧ Accounts playing lines := by
  induction lines using List.reverseRecOn generalizing playing with
  | nil =>
      obtain ⟨empty, hempty, haccounts⟩ := isWellStructured_nil (R := R).exists_accounts
      rw [h] at hempty
      cases hempty
      exact ⟨isWellStructured_nil, haccounts⟩
  | append_singleton lines line ih =>
      obtain ⟨before, hbefore, hline⟩ := playing_concat_eq_ok.mp h
      obtain ⟨hlines, haccounts⟩ := ih hbefore
      obtain ⟨hvalid, hchanges⟩ := ScriptLine.playingAfter_eq_ok_iff.mp hline
      have hgoes := (ScriptLine.exists_changes_iff haccounts _).mp ⟨_, hchanges⟩
      exact ⟨isWellStructured_concat.mpr ⟨hlines, hvalid, hgoes⟩, hchanges.accounts haccounts⟩

/-- The check accepts the well-structured scripts and no others. -/
theorem checkStructure_eq_ok_iff_isWellStructured :
    checkStructure lines = .ok () ↔ IsWellStructured lines := by
  rw [checkStructure_eq_ok_iff]
  constructor
  · rintro ⟨playing, hplaying⟩
    exact (isWellStructured_of_playing hplaying).1
  · intro h
    obtain ⟨playing, hplaying, -⟩ := h.exists_accounts
    exact ⟨playing, hplaying⟩

/-- A script that is not well structured has a first line that breaks its structure. The check names
this line, and a build does nothing else. -/
theorem exists_breaks (setup : Setup R σ) (s : Session R σ) (h : ¬ IsWellStructured lines) :
    ∃ before line after failure, lines = before ++ line :: after ∧ IsWellStructured before ∧
      ¬ IsWellStructured (before ++ [line]) ∧ line.Breaks before failure ∧
      checkStructure lines = .error failure ∧ build setup lines s = .error failure s := by
  cases hc : checkStructure lines with
  | ok _ => exact absurd (checkStructure_eq_ok_iff_isWellStructured.mp hc) h
  | error failure =>
      obtain ⟨before, line, after, playing, hlines, hbefore, hline⟩ :=
        exists_refused_line (checkStructure_eq_error_iff.mp hc)
      obtain ⟨hwell, haccounts⟩ := isWellStructured_of_playing hbefore
      refine ⟨before, line, after, failure, hlines, hwell, ?_,
        ScriptLine.breaks_of_playingAfter haccounts hline, rfl, build_of_refused hc⟩
      intro hboth
      obtain ⟨playing', hfold', -⟩ := hboth.exists_accounts
      obtain ⟨playing'', hbefore', hline'⟩ := playing_concat_eq_ok.mp hfold'
      rw [hbefore] at hbefore'
      cases hbefore'
      rw [hline] at hline'
      cases hline'

end Soundstage
