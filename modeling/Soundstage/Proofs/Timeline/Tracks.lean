import Mathlib.Data.List.Basic
import Mathlib.Data.List.Nodup
import Soundstage.Timeline.Build
import Soundstage.Timeline.Placement

/-!
# The tracks that a script leaves playing

A build keeps a list of tracks. `Clips.tracksAfter` says which list that is without running the
script: the starts that no later line stops, in the order of the script. The lemmas here add a line
at the end of a script and say how the clock, the latest starts and the tracks change, which is all
that a proof about the commands of a build has to know of positions.
-/

namespace Soundstage

variable {R : Type} [Scalar R]

namespace Clips

variable (clips : Clips R)

/-- The track that a position starts, if no later line stops it. -/
def trackAt? (lines : List (ScriptLine R)) (position : Nat) (line : ScriptLine R) :
    Option (Build.Track R) :=
  match line.command with
  | .backgroundStart pan description =>
    if (lines.drop position).any (isStop description) then none
    else some ⟨description, pan, clips.path ⟨.sound, description⟩, clips.clockAt lines position,
      line.line⟩
  | _ => none

/-- The tracks that a script leaves playing, in the order of their starts. -/
def tracksAfter (lines : List (ScriptLine R)) : List (Build.Track R) :=
  lines.zipIdx.filterMap fun (line, i) => clips.trackAt? lines i line

/-- Where a position lies in a script, lines behind the script do not move it. -/
theorem clockAt_append {lines : List (ScriptLine R)} (more : List (ScriptLine R)) {position : Nat}
    (h : position ≤ lines.length) :
    clips.clockAt (lines ++ more) position = clips.clockAt lines position := by
  rw [clockAt, clockAt, List.take_append_of_le_length h]

theorem clockAt_concat (lines : List (ScriptLine R)) (line : ScriptLine R) :
    clips.clockAt (lines ++ [line]) (lines ++ [line]).length
      = clips.clockAfter (clips.clockAt lines lines.length) line := by
  simp only [clockAt, List.take_length, List.foldl_append, List.foldl_cons, List.foldl_nil]

omit [Scalar R] in
theorem latestStart?_append {lines : List (ScriptLine R)} (more : List (ScriptLine R))
    (description : String) {position : Nat} (h : position ≤ lines.length) :
    latestStart? (lines ++ more) description position
      = latestStart? lines description position := by
  rw [latestStart?, latestStart?, List.take_append_of_le_length h]

omit [Scalar R] in
/-- A line that starts the track is the latest start behind it; any other line changes nothing. -/
theorem latestStart?_concat (lines : List (ScriptLine R)) (line : ScriptLine R)
    (description : String) :
    latestStart? (lines ++ [line]) description (lines ++ [line]).length
      = match startPan? description line with
        | some pan => some (lines.length, pan)
        | none => latestStart? lines description lines.length := by
  rw [latestStart?, latestStart?, List.take_length, List.take_length, List.zipIdx_append]
  cases h : startPan? description line <;> simp [h]

theorem placedAt_append {lines : List (ScriptLine R)} (more : List (ScriptLine R)) {position : Nat}
    (h : position ≤ lines.length) (line : ScriptLine R) :
    clips.placedAt (lines ++ more) position line = clips.placedAt lines position line := by
  unfold placedAt
  rw [clips.clockAt_append more h]
  cases line.command with
  | backgroundStop description =>
      simp only [latestStart?_append more description h]
      cases hs : latestStart? lines description position with
      | none => rfl
      | some start =>
          obtain ⟨i, pan⟩ := start
          have hi : i ≤ lines.length := by
            rw [latestStart?] at hs
            obtain ⟨⟨found, j⟩, hmem, hpan⟩ := List.exists_of_findSome?_eq_some hs
            have hj := List.snd_lt_of_mem_zipIdx (List.mem_reverse.mp hmem)
            rw [List.length_take] at hj
            cases hp : startPan? description found <;> simp [hp] at hpan
            omega
          simp only [clips.clockAt_append more hi]
  | _ => rfl

theorem flatMap_placedAt_concat (lines : List (ScriptLine R)) (last : ScriptLine R) :
    ((lines ++ [last]).zipIdx.flatMap fun (line, i) => clips.placedAt (lines ++ [last]) i line)
      = (lines.zipIdx.flatMap fun (line, i) => clips.placedAt lines i line)
        ++ clips.placedAt lines lines.length last := by
  rw [List.zipIdx_append, List.flatMap_append]
  congr 1
  · apply List.flatMap_congr
    rintro ⟨line, i⟩ hmem
    exact clips.placedAt_append [last] (Nat.le_of_lt (List.snd_lt_of_mem_zipIdx hmem)) line
  · simp [clips.placedAt_append [last] (Nat.le_refl lines.length)]

/-- A track goes on to play behind a line that does not stop it. -/
theorem trackAt?_concat (lines : List (ScriptLine R)) (last : ScriptLine R) {position : Nat}
    (h : position ≤ lines.length) (line : ScriptLine R) :
    clips.trackAt? (lines ++ [last]) position line
      = (clips.trackAt? lines position line).filter fun t => !isStop t.description last := by
  unfold trackAt?
  cases line.command with
  | backgroundStart pan description =>
      simp only [List.drop_append_of_le_length h, List.any_append, List.any_cons, List.any_nil,
        Bool.or_false, clips.clockAt_append [last] h]
      cases (lines.drop position).any (isStop description) <;>
        cases hs : isStop description last <;> simp [Option.filter, hs]
  | _ => rfl

/-- A line ends the tracks that it stops, and may start one. -/
theorem tracksAfter_concat (lines : List (ScriptLine R)) (last : ScriptLine R) :
    clips.tracksAfter (lines ++ [last])
      = (clips.tracksAfter lines).filter (fun t => !isStop t.description last)
        ++ (clips.trackAt? (lines ++ [last]) lines.length last).toList := by
  rw [tracksAfter, tracksAfter, List.zipIdx_append, List.filterMap_append, List.filter_filterMap]
  congr 1
  · apply List.filterMap_congr
    rintro ⟨line, i⟩ hmem
    exact clips.trackAt?_concat lines last (Nat.le_of_lt (List.snd_lt_of_mem_zipIdx hmem)) line
  · cases h : clips.trackAt? (lines ++ [last]) lines.length last <;> simp [h]

theorem path_of_mem_tracksAfter {lines : List (ScriptLine R)} {t : Build.Track R}
    (h : t ∈ clips.tracksAfter lines) : t.path = clips.path ⟨.sound, t.description⟩ := by
  obtain ⟨⟨line, i⟩, -, ht⟩ := List.mem_filterMap.mp h
  unfold trackAt? at ht
  cases hc : line.command with
  | backgroundStart pan description =>
      simp only [hc] at ht
      split at ht
      · cases ht
      · cases ht
        rfl
  | _ => simp [hc] at ht

theorem placedAtEnd_eq_cover (lines : List (ScriptLine R)) (position : Nat) (line : ScriptLine R) :
    clips.placedAtEnd lines position line
      = (clips.trackAt? lines position line).toList.flatMap fun t =>
          clips.cover t.description t.pan t.start (clips.clockAt lines lines.length) := by
  unfold placedAtEnd trackAt?
  cases line.command with
  | backgroundStart pan description =>
      by_cases h : (lines.drop position).any (isStop description) = true
      · simp only [if_pos h]
        rfl
      · simp only [if_neg h, Option.toList_some, List.flatMap_singleton]
  | _ => rfl

/-- What the end of a script places is what covers the tracks that are left. -/
theorem flatMap_placedAtEnd (lines : List (ScriptLine R)) :
    (lines.zipIdx.flatMap fun (line, i) => clips.placedAtEnd lines i line)
      = (clips.tracksAfter lines).flatMap fun t =>
          clips.cover t.description t.pan t.start (clips.clockAt lines lines.length) := by
  simp only [placedAtEnd_eq_cover, tracksAfter, List.filterMap_eq_flatMap_toList,
    List.flatMap_assoc]

end Clips

end Soundstage
