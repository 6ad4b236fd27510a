import Soundstage.Disk.Path
import Soundstage.Proofs.Text.Pieces

/-!
# The parts of joined paths

A path is a text, but all that it means is in its parts. The lemmas here say which parts the texts
have that are put together from others, so that no later proof has to look at characters.
-/

namespace Soundstage

namespace Path

/-- A text without slashes, which can be one part of a path. -/
def IsPart (text : String) : Prop := '/' ∉ text.toList

instance (text : String) : Decidable (IsPart text) := inferInstanceAs (Decidable (_ ∉ _))

theorem IsPart.append {text other : String} (h : IsPart text) (h' : IsPart other) :
    IsPart (text ++ other) := by
  unfold IsPart at *
  rw [String.toList_append, List.mem_append, not_or]
  exact ⟨h, h'⟩

theorem parts_ne_nil (path : String) : parts path ≠ [] := by
  intro h
  exact Text.pieces_ne_nil path.toList (List.map_eq_nil_iff.mp h)

theorem parts_of_isPart {text : String} (h : IsPart text) : parts text = [text] := by
  rw [parts, Text.pieces_of_not_mem h]
  simp

theorem isPart_of_mem_parts {path part : String} (h : part ∈ parts path) : IsPart part := by
  obtain ⟨piece, hpiece, rfl⟩ := List.mem_map.mp h
  rw [IsPart, String.toList_ofList]
  exact Text.not_mem_of_mem_pieces hpiece

theorem isPart_of_parts_eq {path name : String} {front : List String}
    (h : parts path = front ++ [name]) : IsPart name := by
  have hmem : name ∈ parts path := by
    rw [h]
    exact List.mem_append_right front List.mem_cons_self
  exact isPart_of_mem_parts hmem

theorem parts_slash (left right : String) :
    parts (left ++ "/" ++ right) = parts left ++ parts right := by
  have h : (left ++ "/" ++ right).toList = left.toList ++ '/' :: right.toList := by simp
  rw [parts, h, Text.pieces_append, List.map_append]
  rfl

theorem parts_intercalate {texts : List String} (hne : texts ≠ [])
    (h : ∀ text ∈ texts, IsPart text) : parts ("/".intercalate texts) = texts := by
  have hpieces : Text.pieces '/' ("/".intercalate texts).toList = texts.map String.toList := by
    rw [String.toList_intercalate]
    refine Text.pieces_intercalate (by simpa using hne) fun text ht => ?_
    obtain ⟨part, hpart, rfl⟩ := List.mem_map.mp ht
    exact h part hpart
  rw [parts, hpieces, List.map_map]
  simp [Function.comp_def]

/-- A path is the text of its parts. -/
theorem parts_injective : Function.Injective parts := by
  intro path other h
  have hjoined := congrArg (fun texts => ['/'].intercalate (texts.map String.toList)) h
  simp only [parts, List.map_map, Function.comp_def, String.toList_ofList, List.map_id',
    Text.intercalate_pieces] at hjoined
  exact String.toList_injective hjoined

end Path

end Soundstage
