import Mathlib.Data.List.Nodup
import Soundstage.Timeline.Build

/-!
# The assets that a script asks for

A script mentions an asset in as many lines as it likes; `requests` keeps the first mention of each.
The lemmas here say which mention that is, that the lines of a script give their numbers to its
requests, and how the requests for absent assets, `missing`, get fewer from one mention to the next.
-/

namespace Soundstage

variable {R : Type}

/-- All mentions of assets in a script, in its order. -/
def mentions (lines : List (ScriptLine R)) : List (Request R) :=
  lines.filterMap ScriptLine.request?

theorem requests_eq (lines : List (ScriptLine R)) :
    requests lines = firstRequests [] (mentions lines) := rfl

theorem mentions_cons (line : ScriptLine R) (rest : List (ScriptLine R)) :
    mentions (line :: rest) = line.request?.toList ++ mentions rest := by
  unfold mentions
  rw [List.filterMap_cons]
  cases line.request? <;> rfl

theorem ScriptLine.line_of_request? {line : ScriptLine R} {r : Request R}
    (h : line.request? = some r) : r.line = line.line := by
  unfold ScriptLine.request? at h
  cases hc : line.command <;> rw [hc] at h <;> cases h <;> rfl

section First

variable {seen seen' : List AssetKey} {rs : List (Request R)} {r : Request R}

theorem firstRequests_sublist (seen : List AssetKey) (rs : List (Request R)) :
    (firstRequests seen rs).Sublist rs := by
  induction rs generalizing seen with
  | nil => exact List.Sublist.refl []
  | cons first rest ih =>
      unfold firstRequests
      split
      · exact (ih seen).cons first
      · exact (ih _).cons_cons first

theorem key_not_mem_seen (h : r ∈ firstRequests seen rs) : r.key ∉ seen := by
  induction rs generalizing seen with
  | nil => cases h
  | cons first rest ih =>
      unfold firstRequests at h
      split at h
      · exact ih h
      · next hnew =>
          rcases List.mem_cons.mp h with rfl | h
          · exact hnew
          · intro hseen
            exact ih h (List.mem_cons_of_mem _ hseen)

/-- No asset is requested twice. -/
theorem nodup_firstRequests (seen : List AssetKey) (rs : List (Request R)) :
    ((firstRequests seen rs).map (·.key)).Nodup := by
  induction rs generalizing seen with
  | nil => exact List.nodup_nil
  | cons first rest ih =>
      unfold firstRequests
      split
      · exact ih seen
      · rw [List.map_cons, List.nodup_cons]
        constructor
        · intro hmem
          obtain ⟨r, hr, hkey⟩ := List.mem_map.mp hmem
          exact key_not_mem_seen hr (by simp [hkey])
        · exact ih _

/-- Where more has been requested before, the requests are those for other keys. -/
theorem firstRequests_eq_filter (h : seen ⊆ seen') (rs : List (Request R)) :
    firstRequests seen' rs = (firstRequests seen rs).filter fun r => decide (r.key ∉ seen') := by
  induction rs generalizing seen seen' with
  | nil => rfl
  | cons first rest ih =>
      unfold firstRequests
      by_cases hseen : first.key ∈ seen
      · rw [if_pos hseen, if_pos (h hseen)]
        exact ih h
      · rw [if_neg hseen]
        by_cases hseen' : first.key ∈ seen'
        · rw [if_pos hseen', List.filter_cons_of_neg (by simpa using hseen')]
          exact ih (List.cons_subset.mpr ⟨hseen', h⟩)
        · rw [if_neg hseen', List.filter_cons_of_pos (by simpa using hseen'),
            ih (List.cons_subset_cons _ h)]
          congr 1
          refine List.filter_congr fun r hr => ?_
          have hne : r.key ≠ first.key := by
            intro heq
            exact key_not_mem_seen hr (by simp [heq])
          simp [hne]

/-- The request for an asset is its first mention. -/
theorem mem_firstRequests_iff :
    r ∈ firstRequests seen rs ↔ r.key ∉ seen ∧ rs.find? (·.key = r.key) = some r := by
  induction rs generalizing seen with
  | nil => simp [firstRequests]
  | cons first rest ih =>
      unfold firstRequests
      by_cases hkey : first.key = r.key
      · rw [List.find?_cons_of_pos (by simpa using hkey), hkey]
        split
        · next hseen =>
            constructor
            · intro hr
              exact absurd hseen (key_not_mem_seen hr)
            · intro hr
              exact absurd hseen hr.1
        · next hnew =>
            constructor
            · intro hr
              rcases List.mem_cons.mp hr with rfl | hr
              · exact ⟨hnew, rfl⟩
              · exact absurd List.mem_cons_self (key_not_mem_seen hr)
            · rintro ⟨-, heq⟩
              rw [Option.some.inj heq]
              exact List.mem_cons_self
      · rw [List.find?_cons_of_neg (by simpa using hkey)]
        split
        · exact ih
        · have hne : r ≠ first := fun heq => hkey (by rw [heq])
          rw [List.mem_cons, or_iff_right hne, ih, List.mem_cons, not_or]
          constructor
          · rintro ⟨⟨-, hnew⟩, hfirst⟩
            exact ⟨hnew, hfirst⟩
          · rintro ⟨hnew, hfirst⟩
            exact ⟨⟨fun heq => hkey heq.symm, hnew⟩, hfirst⟩

end First

/-- The first mention of an asset is its request. -/
theorem mem_requests_iff {lines : List (ScriptLine R)} {r : Request R} :
    r ∈ requests lines ↔ (mentions lines).find? (·.key = r.key) = some r := by
  rw [requests_eq, mem_firstRequests_iff]
  simp

/-- The lines of a script give their numbers to its requests, in the same order. -/
theorem pairwise_requests_of {lines : List (ScriptLine R)} (rel : Nat → Nat → Prop)
    (h : lines.Pairwise fun line later => rel line.line later.line) :
    (requests lines).Pairwise fun r later => rel r.line later.line := by
  have hmentions : (mentions lines).Pairwise fun r later => rel r.line later.line := by
    refine h.filterMap _ ?_
    intro line later hrel r hr r' hr'
    rw [ScriptLine.line_of_request? hr, ScriptLine.line_of_request? hr']
    exact hrel
  exact hmentions.sublist (firstRequests_sublist [] _)

theorem pairwise_requests {lines : List (ScriptLine R)}
    (h : lines.Pairwise fun line later => line.line < later.line) :
    (requests lines).Pairwise fun r later => r.line < later.line :=
  pairwise_requests_of (· < ·) h

section Missing

variable {has has' : AssetKey → Bool} {rs : List (Request R)} {r : Request R}

/-- The requests for assets that are absent. -/
def missing (has : AssetKey → Bool) (rs : List (Request R)) : List (Request R) :=
  (firstRequests [] rs).filter fun r => !has r.key

theorem mem_missing_iff :
    r ∈ missing has rs ↔ rs.find? (·.key = r.key) = some r ∧ has r.key = false := by
  unfold missing
  rw [List.mem_filter, mem_firstRequests_iff]
  simp

/-- A mention of an asset that is there adds nothing. -/
theorem missing_cons_of_has (h : has r.key = true) : missing has (r :: rs) = missing has rs := by
  unfold missing
  have hfirst : firstRequests [] (r :: rs) = r :: firstRequests [r.key] rs := by
    simp [firstRequests]
  rw [hfirst, List.filter_cons_of_neg (by simp [h]),
    firstRequests_eq_filter (List.nil_subset [r.key]), List.filter_filter]
  refine List.filter_congr fun other _ => ?_
  by_cases hkey : other.key = r.key
  · simp [hkey, h]
  · simp [hkey]

/-- A mention of an absent asset is the next request, and behind it the asset is not missing. -/
theorem missing_cons_of_absent (h : has r.key = false)
    (hnext : ∀ other ∈ rs, has' other.key = (has other.key || decide (other.key = r.key))) :
    missing has (r :: rs) = r :: missing has' rs := by
  unfold missing
  have hfirst : firstRequests [] (r :: rs) = r :: firstRequests [r.key] rs := by
    simp [firstRequests]
  rw [hfirst, List.filter_cons_of_pos (by simp [h]),
    firstRequests_eq_filter (List.nil_subset [r.key]), List.filter_filter]
  congr 1
  refine List.filter_congr fun other hother => ?_
  rw [hnext other ((firstRequests_sublist [] rs).subset hother)]
  simp

end Missing

end Soundstage
