import Mathlib
import Soundstage.Proofs.Mix.Reading
import Soundstage.Proofs.Number.Fixed
import Soundstage.Proofs.Text.Pieces
import Soundstage.Proofs.Text.Word

/-!
# Written graphs read back

No number that a graph can hold has a character of the graph's own syntax, so what is written falls
into the parts that it was put together from, and the readers find the labels and the filters of
each of them again, as `parts_text` says. The links between the parts are then a matter of lists.
-/

namespace Soundstage

namespace Text

variable {stop : Char} {rest : List Char}

theorem after?_append (start : String) (rest : List Char) :
    after? start (start.toList ++ rest) = some rest := by
  unfold after?
  rw [List.take_left, if_pos rfl, List.drop_left]

theorem span_append {field : List Char} (h : stop ∉ field) (hrest : rest.head? = some stop) :
    (field ++ rest).takeWhile (· ≠ stop) = field ∧ (field ++ rest).dropWhile (· ≠ stop) = rest := by
  have hfield : ∀ c ∈ field, decide (c ≠ stop) = true := fun c hc =>
    decide_eq_true fun heq => h (heq ▸ hc)
  have hstop : ∀ c ∈ rest.head?, decide (c ≠ stop) = false := by
    intro c hc
    rw [hrest, Option.mem_some_iff] at hc
    exact decide_eq_false (not_not.mpr hc.symm)
  exact ⟨takeWhile_append_of_forall hfield hstop, dropWhile_append_of_forall hfield hstop⟩

theorem fieldBefore_append {field : String} (h : stop ∉ field.toList)
    (hrest : rest.head? = some stop) : fieldBefore stop (field.toList ++ rest) = (field, rest) := by
  obtain ⟨htake, hdrop⟩ := span_append h hrest
  rw [fieldBefore, htake, hdrop, String.ofList_toList]

theorem not_mem_repr {c : Char} (h : c.isDigit = false) (n : ℕ) : c ∉ n.repr.toList := by
  intro hc
  rw [Nat.toList_repr] at hc
  rw [Nat.isDigit_of_mem_toDigits (by decide) (by decide) hc] at h
  exact Bool.noConfusion h

theorem countBefore?_append (h : stop.isDigit = false) (n : ℕ) (hrest : rest.head? = some stop) :
    countBefore? stop (n.repr.toList ++ rest) = some (n, rest) := by
  obtain ⟨htake, hdrop⟩ := span_append (not_mem_repr h n) hrest
  have hdigits : n.repr.toList.all Char.isDigit = true := by
    rw [List.all_eq_true, Nat.toList_repr]
    exact fun c hc => Nat.isDigit_of_mem_toDigits (by decide) (by decide) hc
  have hne : n.repr.toList ≠ [] := by
    rw [Nat.toList_repr]
    exact Nat.toDigits_ne_nil
  unfold countBefore?
  rw [htake, hdrop]
  dsimp only
  rw [if_pos ⟨hne, hdigits⟩, Nat.toList_repr, Nat.ofDigitChars_ten_toDigits]

end Text

namespace Graph

open Text

/-! ### Filters -/

theorem Clip.read?_filters {c : Chain} (hlength : ',' ∉ c.length.toList)
    (hleft : '*' ∉ c.left.toList) (hright : '*' ∉ c.right.toList) :
    Clip.read? c.filters = some ⟨c.sampleRate, c.length, c.left, c.right, c.delay⟩ := by
  unfold Chain.filters Clip.read?
  -- The last literal ends the text, so it is followed by nothing.
  rw [String.toList_append, ← List.append_nil "S:all=1".toList]
  simp only [String.toList_append, List.append_assoc]
  simp (disch := first | assumption | decide | simp) only [after?_append, countBefore?_append,
    fieldBefore_append, Option.bind_eq_bind, Option.bind_some, if_true]

theorem Sum.read?_sumFilters (chains : ℕ) (weight : String) :
    Sum.read? (sumFilters chains weight) = some ⟨chains + 1, weight⟩ := by
  unfold sumFilters Sum.read?
  simp only [String.toList_append, List.append_assoc, after?_append, Option.bind_eq_bind,
    Option.bind_some]
  rw [countBefore?_append (by decide) _ (by simp), Option.bind_some, after?_append,
    Option.bind_some, String.ofList_toList]

/-! ### Labels -/

theorem labelsFrom?_open {label : List Char} (h : ']' ∉ label) (read rest : List Char) :
    labelsFrom? (some read) (label ++ ']' :: rest)
      = (labelsFrom? none rest).map fun (labels, rest) =>
        (String.ofList (read.reverse ++ label) :: labels, rest) := by
  induction label generalizing read with
  | nil => rw [List.nil_append, labelsFrom?, if_pos rfl, List.append_nil]
  | cons c label ih =>
    rw [List.mem_cons, not_or] at h
    rw [List.cons_append, labelsFrom?, if_neg (Ne.symm h.1), ih h.2, List.reverse_cons,
      List.append_assoc]
    rfl

theorem labelsFrom?_bracketed {label : String} (h : ']' ∉ label.toList) (rest : List Char) :
    labelsFrom? none ((bracketed label).toList ++ rest)
      = (labelsFrom? none rest).map fun (labels, rest) => (label :: labels, rest) := by
  have htext : (bracketed label).toList ++ rest = '[' :: (label.toList ++ ']' :: rest) := by
    simp [bracketed]
  rw [htext, labelsFrom?, if_pos rfl, labelsFrom?_open h, List.reverse_nil, List.nil_append,
    String.ofList_toList]

/-- Written labels are read up to the first character of something else. -/
theorem labelsFrom?_flatMap {labels : List String} (h : ∀ label ∈ labels, ']' ∉ label.toList)
    (rest : List Char) (hrest : rest.head? ≠ some '[') :
    labelsFrom? none (labels.flatMap (fun label => (bracketed label).toList) ++ rest)
      = some (labels, rest) := by
  induction labels with
  | nil =>
    cases rest with
    | nil => rfl
    | cons c rest =>
      have hc : c ≠ '[' := fun heq => hrest (by rw [heq]; rfl)
      rw [List.flatMap_nil, List.nil_append, labelsFrom?, if_neg hc]
  | cons label labels ih =>
    rw [List.forall_mem_cons] at h
    rw [List.flatMap_cons, List.append_assoc, labelsFrom?_bracketed h.1, ih h.2]
    rfl

theorem labels?_flatMap {labels : List String} (h : ∀ label ∈ labels, ']' ∉ label.toList) :
    labels? (labels.flatMap fun label => (bracketed label).toList) = some labels := by
  have hread := labelsFrom?_flatMap h [] (by simp)
  rw [List.append_nil] at hread
  rw [labels?, hread, Option.bind_eq_bind, Option.bind_some]
  exact if_pos rfl

/-! ### Parts -/

namespace Part

/-- A part as it is written. -/
def chars (p : Part) : List Char :=
  p.reads.flatMap (fun label => (bracketed label).toList) ++ p.filters.toList
    ++ p.defines.flatMap fun label => (bracketed label).toList

/-- A text that has none of the characters of the syntax of graphs. -/
structure IsPlain (s : List Char) : Prop where
  opening : '[' ∉ s
  closing : ']' ∉ s
  semicolon : ';' ∉ s

/-- A part that can be read again. -/
structure IsReadable (p : Part) : Prop where
  filters : IsPlain p.filters.toList
  filters_ne_nil : p.filters.toList ≠ []
  reads : ∀ label ∈ p.reads, IsPlain label.toList
  defines : ∀ label ∈ p.defines, IsPlain label.toList
  defines_ne_nil : p.defines ≠ []

theorem head?_bracketed (label : String) (rest : List Char) :
    ((bracketed label).toList ++ rest).head? = some '[' := by
  simp [bracketed]

theorem IsReadable.read?_chars {p : Part} (h : p.IsReadable) : read? p.chars = some p := by
  have hopen : '[' ∉ p.filters.toList := h.filters.opening
  have hfilters : (p.filters.toList ++ p.defines.flatMap fun label =>
      (bracketed label).toList).head? ≠ some '[' := by
    obtain ⟨c, rest, hcons⟩ := List.exists_cons_of_ne_nil h.filters_ne_nil
    rw [hcons]
    intro heq
    exact hopen (by rw [hcons, ← Option.some.inj heq]; exact List.mem_cons_self)
  have hdefines : (p.defines.flatMap fun label => (bracketed label).toList).head? = some '[' := by
    obtain ⟨label, rest, hcons⟩ := List.exists_cons_of_ne_nil h.defines_ne_nil
    rw [hcons, List.flatMap_cons, head?_bracketed]
  obtain ⟨htake, hdrop⟩ := span_append hopen hdefines
  rw [read?, chars, List.append_assoc,
    labelsFrom?_flatMap (fun label hl => (h.reads label hl).closing) _ hfilters]
  rw [Option.bind_eq_bind, Option.bind_some]
  dsimp only
  rw [htake, hdrop, labels?_flatMap fun label hl => (h.defines label hl).closing,
    String.ofList_toList]
  rfl

theorem IsReadable.not_mem_chars {p : Part} (h : p.IsReadable) : ';' ∉ p.chars := by
  have hlabels {labels : List String} (h : ∀ label ∈ labels, IsPlain label.toList) :
      ';' ∉ labels.flatMap fun label => (bracketed label).toList := by
    intro hmem
    obtain ⟨label, hl, hc⟩ := List.mem_flatMap.mp hmem
    have hplain := (h label hl).semicolon
    simp [bracketed] at hc
    exact hplain hc
  simp only [chars, List.mem_append, not_or]
  exact ⟨⟨hlabels h.reads, h.filters.semicolon⟩, hlabels h.defines⟩

theorem isPlain_append {s t : List Char} : IsPlain (s ++ t) ↔ IsPlain s ∧ IsPlain t := by
  constructor
  · rintro ⟨hopening, hclosing, hsemicolon⟩
    rw [List.mem_append, not_or] at hopening hclosing hsemicolon
    exact ⟨⟨hopening.1, hclosing.1, hsemicolon.1⟩, hopening.2, hclosing.2, hsemicolon.2⟩
  · rintro ⟨hs, ht⟩
    constructor <;> rw [List.mem_append, not_or]
    · exact ⟨hs.opening, ht.opening⟩
    · exact ⟨hs.closing, ht.closing⟩
    · exact ⟨hs.semicolon, ht.semicolon⟩

theorem isPlain_repr (n : ℕ) : IsPlain n.repr.toList :=
  ⟨not_mem_repr (by decide) n, not_mem_repr (by decide) n, not_mem_repr (by decide) n⟩

end Part

/-! ### Numbers -/

/-- No number of a graph has a character that ends it. -/
theorem not_mem_number {c : Char} (hc : c ∈ [',', '*', '[', ']', ';']) (x : Float) :
    c ∉ (number x).toList := by
  intro h
  have hfixed := Style.forall_mem_fixed places x c h
  simp only [List.mem_cons, List.not_mem_nil, or_false] at hc
  rcases hc with rfl | rfl | rfl | rfl | rfl <;>
    exact absurd hfixed (by
      unfold Style.IsFixedChar Numeral.IsUnsignedChar Style.nameChars
      decide)

theorem isPlain_inputLabel (input : ℕ) : Part.IsPlain (inputLabel input).toList := by
  rw [inputLabel, String.toList_append]
  exact Part.isPlain_append.mpr ⟨Part.isPlain_repr input, by constructor <;> simp⟩

theorem isPlain_outLabel : Part.IsPlain outLabel.toList := by
  rw [outLabel]
  constructor <;> simp

theorem isPlain_number (x : Float) : Part.IsPlain (number x).toList :=
  ⟨not_mem_number (by decide) x, not_mem_number (by decide) x, not_mem_number (by decide) x⟩

end Graph

namespace Chain

/-- The texts of a chain are numbers. -/
def IsNumeric (c : Chain) : Prop :=
  ∃ length left right, c.length = Graph.number length ∧ c.left = Graph.number left ∧
    c.right = Graph.number right

theorem isNumeric_ofSegment (sampleRate index : ℕ) (s : Segment Float) :
    (ofSegment sampleRate index s).IsNumeric := ⟨_, _, _, rfl, rfl, rfl⟩

theorem isPlain_resultLabel (label : ℕ) : Graph.Part.IsPlain (resultLabel label).toList := by
  rw [resultLabel, String.toList_append]
  exact Graph.Part.isPlain_append.mpr ⟨by constructor <;> simp, Graph.Part.isPlain_repr label⟩

/-- The part of a graph that a chain is written as. -/
def part (c : Chain) : Graph.Part :=
  ⟨[Graph.inputLabel c.input], c.filters, [resultLabel c.label]⟩

theorem toList_text (c : Chain) : c.text.toList = c.part.chars := by
  simp [text, part, Graph.Part.chars]

theorem IsNumeric.isPlain_filters {c : Chain} (h : c.IsNumeric) :
    Graph.Part.IsPlain c.filters.toList := by
  obtain ⟨length, left, right, hlength, hleft, hright⟩ := h
  unfold filters
  rw [hlength, hleft, hright]
  simp only [String.toList_append, Graph.Part.isPlain_append, Graph.isPlain_number,
    Graph.Part.isPlain_repr, and_true]
  refine ⟨⟨⟨⟨⟨?_, ?_⟩, ?_⟩, ?_⟩, ?_⟩, ?_⟩ <;>
  constructor <;> simp

theorem IsNumeric.isReadable {c : Chain} (h : c.IsNumeric) : c.part.IsReadable where
  filters := h.isPlain_filters
  filters_ne_nil := by
    change c.filters.toList ≠ []
    unfold filters
    simp
  reads := by
    intro label hl
    rw [List.mem_singleton.mp hl]
    exact Graph.isPlain_inputLabel c.input
  defines := by
    intro label hl
    rw [List.mem_singleton.mp hl]
    exact isPlain_resultLabel c.label
  defines_ne_nil := List.cons_ne_nil _ _

theorem IsNumeric.read?_filters {c : Chain} (h : c.IsNumeric) : Graph.Clip.read? c.part.filters
    = some ⟨c.sampleRate, c.length, c.left, c.right, c.delay⟩ := by
  obtain ⟨length, left, right, hlength, hleft, hright⟩ := h
  have hcomma : ',' ∉ c.length.toList := by
    rw [hlength]
    exact Graph.not_mem_number (by decide) length
  have hstar : '*' ∉ c.left.toList ∧ '*' ∉ c.right.toList := by
    rw [hleft, hright]
    exact ⟨Graph.not_mem_number (by decide) left, Graph.not_mem_number (by decide) right⟩
  exact Graph.Clip.read?_filters hcomma hstar.1 hstar.2

end Chain

namespace Graph

open Text

/-- The part that sums the bed and chains. -/
def sumPart (chains : List Chain) (weight : String) : Part where
  reads := inputLabel 0 :: chains.map fun c => Chain.resultLabel c.label
  filters := sumFilters chains.length weight
  defines := [outLabel]

theorem isReadable_sumPart (chains : List Chain) (x : Float) :
    (sumPart chains (number x)).IsReadable where
  filters := by
    change Part.IsPlain (sumFilters chains.length (number x)).toList
    unfold sumFilters
    simp only [String.toList_append, Part.isPlain_append, isPlain_number, Part.isPlain_repr,
      and_true]
    refine ⟨?_, ?_⟩ <;> constructor <;> simp
  filters_ne_nil := by
    change (sumFilters chains.length (number x)).toList ≠ []
    unfold sumFilters
    simp
  reads := by
    intro label hl
    rcases List.mem_cons.mp hl with rfl | hl
    · exact isPlain_inputLabel 0
    · obtain ⟨c, -, rfl⟩ := List.mem_map.mp hl
      exact Chain.isPlain_resultLabel c.label
  defines := by
    intro label hl
    rw [List.mem_singleton.mp hl]
    exact isPlain_outLabel
  defines_ne_nil := List.cons_ne_nil _ _

theorem toList_text_mix (chains : List Chain) (weight : String) : (mix chains weight).text.toList
    = [';'].intercalate ((chains.map Chain.part ++ [sumPart chains weight]).map Part.chars) := by
  have hsum : (sumPart chains weight).chars = (bracketed (inputLabel 0)
      ++ String.join (chains.map fun c => bracketed (Chain.resultLabel c.label))
      ++ sumFilters chains.length weight ++ bracketed outLabel).toList := by
    simp [sumPart, Part.chars, List.flatMap_map, String.toList_join]
  have hjoin (last : List Char) (cs : List Chain) :
      [';'].intercalate ((cs.map Chain.part).map Part.chars ++ [last])
        = (String.join (cs.map fun c => c.text ++ ";")).toList ++ last := by
    induction cs with
    | nil => simp
    | cons c cs ih =>
      rw [List.map_cons, List.map_cons, List.cons_append, List.intercalate_cons_of_ne_nil (by simp),
        ih, List.map_cons, String.join_cons, String.toList_append, String.toList_append,
        Chain.toList_text]
      simp
  rw [List.map_append, List.map_singleton, hjoin, hsum, text]
  simp only [String.toList_append, List.append_assoc]

/-- A written graph falls into the parts of its chains and the part of its sum. -/
theorem parts_text_mix {chains : List Chain} (h : ∀ c ∈ chains, c.IsNumeric) (x : Float) :
    parts (mix chains (number x)).text
      = (chains.map Chain.part ++ [sumPart chains (number x)]).map some := by
  have hreadable : ∀ p ∈ chains.map Chain.part ++ [sumPart chains (number x)], p.IsReadable := by
    intro p hp
    rcases List.mem_append.mp hp with hp | hp
    · obtain ⟨c, hc, rfl⟩ := List.mem_map.mp hp
      exact (h c hc).isReadable
    · rw [List.mem_singleton.mp hp]
      exact isReadable_sumPart chains x
  rw [parts, toList_text_mix, Text.pieces_intercalate (by simp), List.map_map]
  · exact List.map_congr_left fun p hp => (hreadable p hp).read?_chars
  · intro text ht
    obtain ⟨p, hp, rfl⟩ := List.mem_map.mp ht
    exact (hreadable p hp).not_mem_chars

/-- The part that is left without clips: the bed goes through. -/
def bedPart : Part := ⟨[inputLabel 0], "anull", [outLabel]⟩

theorem isReadable_bedPart : bedPart.IsReadable where
  filters := by
    change Part.IsPlain "anull".toList
    constructor <;> simp
  filters_ne_nil := by
    change "anull".toList ≠ []
    simp
  reads := by
    intro label hl
    rw [List.mem_singleton.mp hl]
    exact isPlain_inputLabel 0
  defines := by
    intro label hl
    rw [List.mem_singleton.mp hl]
    exact isPlain_outLabel
  defines_ne_nil := List.cons_ne_nil _ _

theorem parts_text_bed : parts bed.text = [some bedPart] := by
  have htext : bed.text.toList = bedPart.chars := by simp [text, bedPart, Part.chars]
  rw [parts, htext, Text.pieces_of_not_mem isReadable_bedPart.not_mem_chars, List.map_singleton,
    isReadable_bedPart.read?_chars]

/-! ### Links -/

theorem repr_injective : Function.Injective Nat.repr := by
  intro m n h
  rw [← @Nat.ofDigitChars_ten_toDigits m, ← Nat.toList_repr, h, Nat.toList_repr,
    Nat.ofDigitChars_ten_toDigits]

theorem inputLabel_injective : Function.Injective inputLabel := fun _ _ h =>
  repr_injective ((String.append_left_inj ":a").mp h)

theorem resultLabel_injective : Function.Injective Chain.resultLabel := fun _ _ h =>
  repr_injective ((String.append_right_inj "s").mp h)

theorem not_mem_inputLabel {c : Char} (hc : c.isDigit = false) (h : c ∉ [':', 'a']) (input : ℕ) :
    c ∉ (inputLabel input).toList := by
  rw [inputLabel, String.toList_append, List.mem_append, not_or]
  exact ⟨not_mem_repr hc input, by simpa using h⟩

theorem not_mem_resultLabel {c : Char} (hc : c.isDigit = false) (h : c ≠ 's') (label : ℕ) :
    c ∉ (Chain.resultLabel label).toList := by
  rw [Chain.resultLabel, String.toList_append, List.mem_append, not_or]
  exact ⟨by simpa using h, not_mem_repr hc label⟩

theorem inputLabel_ne_resultLabel (input label : ℕ) :
    inputLabel input ≠ Chain.resultLabel label := by
  intro h
  refine not_mem_inputLabel (c := 's') (by decide) (by decide) input ?_
  rw [h, Chain.resultLabel, String.toList_append]
  simp

theorem outLabel_ne_inputLabel (input : ℕ) : outLabel ≠ inputLabel input := by
  intro h
  refine not_mem_inputLabel (c := 'o') (by decide) (by decide) input ?_
  rw [← h, outLabel]
  simp

theorem outLabel_ne_resultLabel (label : ℕ) : outLabel ≠ Chain.resultLabel label := by
  intro h
  refine not_mem_resultLabel (c := 'o') (by decide) (by decide) label ?_
  rw [← h, outLabel]
  simp

/-- No two streams of a graph have the same label. -/
theorem nodup_labels (inputs chains : ℕ) : ((List.range inputs).map inputLabel
    ++ ((List.range chains).map Chain.resultLabel ++ [outLabel])).Nodup := by
  have hsounds := (@List.nodup_range inputs).map inputLabel_injective
  have hresults := (@List.nodup_range chains).map resultLabel_injective
  refine hsounds.append (hresults.append (List.nodup_singleton _) ?_) ?_
  · rw [List.disjoint_singleton]
    intro h
    obtain ⟨label, -, heq⟩ := List.mem_map.mp h
    exact outLabel_ne_resultLabel label heq.symm
  · intro stream h h'
    obtain ⟨input, -, rfl⟩ := List.mem_map.mp h
    rcases List.mem_append.mp h' with h' | h'
    · obtain ⟨label, -, heq⟩ := List.mem_map.mp h'
      exact inputLabel_ne_resultLabel input label heq.symm
    · exact outLabel_ne_inputLabel input (List.mem_singleton.mp h').symm

/-- The inputs of chains that follow the bed, and their results, are linked by the sum. -/
theorem linked_mix {chains : List Chain} {n : ℕ}
    (hinputs : chains.map Chain.input = (List.range n).map Nat.succ)
    (hlabels : chains.map Chain.label = List.range n) (weight : String) :
    Linked (n + 1) (chains.map Chain.part ++ [sumPart chains weight]) [outLabel] := by
  have hreads : (chains.map Chain.part).flatMap Part.reads
      = ((List.range n).map Nat.succ).map inputLabel := by
    rw [← hinputs, List.map_map, List.flatMap_map, List.map_eq_flatMap]
    rfl
  have hdefines : (chains.map Chain.part).flatMap Part.defines
      = (List.range n).map Chain.resultLabel := by
    rw [← hlabels, List.map_map, List.flatMap_map, List.map_eq_flatMap]
    rfl
  have hsum : chains.map (fun c => Chain.resultLabel c.label)
      = (List.range n).map Chain.resultLabel := by
    rw [← hlabels, List.map_map]
    rfl
  constructor
  · rw [produced, List.flatMap_append, hdefines, List.flatMap_singleton]
    exact nodup_labels (n + 1) n
  · rw [consumed, produced, List.flatMap_append, List.flatMap_append, hreads, hdefines,
      List.flatMap_singleton, List.flatMap_singleton]
    change (_ ++ (inputLabel 0 :: chains.map (fun c => Chain.resultLabel c.label))
      ++ [outLabel]).Perm (_ ++ (_ ++ [outLabel]))
    rw [hsum, List.range_succ_eq_map, List.map_cons, List.append_assoc]
    exact List.perm_middle

theorem linked_bed : Linked 1 [bedPart] [outLabel] where
  nodup := nodup_labels 1 0
  perm := List.Perm.refl _

end Graph

end Soundstage
