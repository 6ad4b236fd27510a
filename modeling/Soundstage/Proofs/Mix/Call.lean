import Mathlib
import Soundstage.Proofs.Mix.Gains
import Soundstage.Proofs.Mix.Links

/-!
# Graph and arguments of one mix

The arguments with which a plan is rendered name the bed and then the files of its clips, and the
graph among them has one chain for each clip. `Describes` says what has to fit together for that:
three numberings, a count, and the labels between the parts. It holds of every plan, whatever its
numbers are.
-/

namespace Soundstage

open Soundstage.Graph

namespace RenderCall

theorem read?_flag {flag : String} (h : flag ∈ flags) {rest : List String} (hrest : rest ≠ []) :
    read? (flag :: rest) = read? rest := by
  obtain ⟨next, others, rfl⟩ := List.exists_cons_of_ne_nil hrest
  rw [read?, if_pos h]

/-- Options with their values, written one after the other. -/
theorem read?_flatMap {options : List (String × String)} (h : ∀ o ∈ options, o.1 ∉ flags)
    (rest : List String) : read? (options.flatMap (fun o => [o.1, o.2]) ++ rest)
      = (read? rest).map fun call => { call with options := options ++ call.options } := by
  induction options with
  | nil => simp
  | cons o options ih =>
    rw [List.forall_mem_cons] at h
    rw [List.flatMap_cons, List.append_assoc, List.cons_append, List.cons_append, List.nil_append,
      read?, if_neg h.1, ih h.2, Option.map_map]
    rfl

end RenderCall

/-- The part of a graph that cuts, pans and delays the clip with the given index. -/
structure Graph.Part.IsChainOf (part : Part) (sampleRate index : ℕ) (s : Segment Float) : Prop where
  reads : part.reads = [inputLabel (index + 1)]
  defines : part.defines = [Chain.resultLabel index]
  clip : Clip.read? part.filters = some
    { sampleRate
      length := Style.fixed 6 s.duration
      left := Style.fixed 6 (gains s.pan).left
      right := Style.fixed 6 (gains s.pan).right
      delay := Binary64.roundToCount (notNegative s.start * Float.ofNat sampleRate) }
  left : IsGain (gains s.pan).left
  right : IsGain (gains s.pan).right

/-- The part of a graph that sums the bed and a number of chains. -/
structure Graph.Part.IsSumOf (part : Part) (chains : ℕ) : Prop where
  reads : part.reads = inputLabel 0 :: (List.range chains).map Chain.resultLabel
  defines : part.defines = [outLabel]
  sum : ∃ weight, Sum.read? part.filters = some ⟨chains + 1, weight⟩

/-- What ffmpeg is told, and the parts of the graph among it, describe one mix of a plan. -/
structure MixPlan.Describes (plan : MixPlan) (sampleRate : ℕ) (call : RenderCall)
    (parts : List Part) : Prop where
  /-- The bed is input 0 and clip `i` is input `i + 1`. -/
  inputs : call.inputs = plan.bedSource sampleRate :: plan.paths
  graph : call.values "-filter_complex" = [plan.filterGraph sampleRate]
  readable : Graph.parts (plan.filterGraph sampleRate) = parts.map some
  map : (call.values "-map").map (fun labels => labels? labels.toList) = [some [outLabel]]
  linked : Linked call.inputs.length parts [outLabel]
  bed : plan.inputs = [] → plan.filterGraph sampleRate = "[0:a]anull[out]"
  mix : plan.inputs ≠ [] → ∃ (chains : List Part) (sum : Part), parts = chains ++ [sum] ∧
    chains.length = plan.inputs.length ∧ sum.IsSumOf plan.inputs.length ∧
    ∀ i s, plan.inputs[i]? = some s → ∃ chain : Part, chains[i]? = some chain ∧
      chain.IsChainOf sampleRate i s

/-- The options among the arguments of a plan. -/
def MixPlan.options (plan : MixPlan) (sampleRate : ℕ) (codec : String) : List (String × String) :=
  [("-loglevel", "error"), ("-f", "lavfi"), ("-i", plan.bedSource sampleRate)]
    ++ plan.paths.map (fun path => ("-i", path))
    ++ [("-filter_complex", plan.filterGraph sampleRate), ("-map", "[out]"),
      ("-ar", sampleRate.repr), ("-c:a", codec)]

theorem RenderCall.read?_arguments (plan : MixPlan) (sampleRate : ℕ) (codec out : String) :
    read? (plan.arguments sampleRate codec out) = some ⟨plan.options sampleRate codec, out⟩ := by
  have hflags {option : String} (h : option ∈ ["-loglevel", "-f", "-i", "-filter_complex", "-map",
      "-ar", "-c:a"]) : option ∉ flags := by
    simp only [List.mem_cons, List.not_mem_nil, or_false] at h
    rcases h with rfl | rfl | rfl | rfl | rfl | rfl | rfl <;> decide
  have htail : plan.arguments sampleRate codec out = "-hide_banner" ::
      ([("-loglevel", "error")].flatMap (fun o => [o.1, o.2]) ++ "-y" ::
        ((plan.options sampleRate codec).tail.flatMap (fun o => [o.1, o.2]) ++ [out])) := by
    simp [MixPlan.arguments, MixPlan.options, MixPlan.paths, List.flatMap_map]
  rw [htail, read?_flag (by decide) (by simp), read?_flatMap (by simpa using hflags (by simp)),
    read?_flag (by decide) (by simp), read?_flatMap ?_]
  · simp [read?, MixPlan.options]
  · intro o ho
    apply hflags
    simp only [MixPlan.options, List.cons_append, List.nil_append, List.tail_cons, List.mem_cons,
      List.mem_append, List.mem_map, List.not_mem_nil, or_false] at ho
    rcases ho with rfl | rfl | ⟨path, -, rfl⟩ | rfl | rfl | rfl | rfl <;> simp

/-- The chains of a plan, in the order of its clips. -/
def MixPlan.chains (plan : MixPlan) (sampleRate : ℕ) : List Chain :=
  plan.inputs.zipIdx.map fun (s, i) => Chain.ofSegment sampleRate i s

section Chains

variable (plan : MixPlan) (sampleRate : ℕ)

theorem MixPlan.length_chains : (plan.chains sampleRate).length = plan.inputs.length := by
  rw [chains, List.length_map, List.length_zipIdx]

theorem MixPlan.map_label_chains :
    (plan.chains sampleRate).map Chain.label = List.range plan.inputs.length := by
  rw [chains, List.map_map, List.range_eq_range', ← List.zipIdx_map_snd]
  rfl

theorem MixPlan.map_input_chains : (plan.chains sampleRate).map Chain.input
    = (List.range plan.inputs.length).map Nat.succ := by
  rw [← plan.map_label_chains sampleRate, chains, List.map_map, List.map_map, List.map_map]
  rfl

theorem MixPlan.isNumeric_of_mem_chains : ∀ c ∈ plan.chains sampleRate, c.IsNumeric := by
  intro c hc
  obtain ⟨⟨s, i⟩, -, rfl⟩ := List.mem_map.mp hc
  exact Chain.isNumeric_ofSegment sampleRate i s

theorem isChainOf_ofSegment (index : ℕ) (s : Segment Float) :
    (Chain.ofSegment sampleRate index s).part.IsChainOf sampleRate index s where
  reads := rfl
  defines := rfl
  clip := (Chain.isNumeric_ofSegment sampleRate index s).read?_filters
  left := (isGain_gains s.pan).1
  right := (isGain_gains s.pan).2

theorem isSumOf_sumPart (weight : String) :
    (sumPart (plan.chains sampleRate) weight).IsSumOf plan.inputs.length where
  reads := by
    rw [sumPart, ← plan.map_label_chains sampleRate, List.map_map]
    rfl
  defines := rfl
  sum := by
    rw [← plan.length_chains sampleRate]
    exact ⟨weight, Sum.read?_sumFilters _ weight⟩

end Chains

namespace MixPlan

variable {plan : MixPlan} (sampleRate : ℕ) (codec out : String)

theorem filterGraph_of_nil (h : plan.inputs = []) : plan.filterGraph sampleRate = bed.text := by
  simp [filterGraph, graph, h]

theorem filterGraph_of_ne_nil (h : plan.inputs ≠ []) :
    plan.filterGraph sampleRate = (mix (plan.chains sampleRate) (number plan.weight)).text := by
  simp [filterGraph, graph, h, chains]

/-- The inputs, the graph and the mapped label that a plan's options name. -/
theorem values_options (plan : MixPlan) :
    (⟨plan.options sampleRate codec, out⟩ : RenderCall).inputs
        = plan.bedSource sampleRate :: plan.paths ∧
      (⟨plan.options sampleRate codec, out⟩ : RenderCall).values "-filter_complex"
        = [plan.filterGraph sampleRate] ∧
      (⟨plan.options sampleRate codec, out⟩ : RenderCall).values "-map" = ["[out]"] := by
  refine ⟨?_, ?_, ?_⟩ <;>
    simp [RenderCall.inputs, RenderCall.values, options, List.filter_map, Function.comp_def]

theorem labels?_mapped : labels? "[out]".toList = some [outLabel] := by
  have h := @labels?_flatMap [outLabel] (by simp [outLabel])
  simpa [bracketed, outLabel] using h

theorem describes_of_nil (h : plan.inputs = []) :
    plan.Describes sampleRate ⟨plan.options sampleRate codec, out⟩ [bedPart] := by
  obtain ⟨hinputs, hgraph, hmap⟩ := values_options sampleRate codec out plan
  have htext := filterGraph_of_nil sampleRate h
  refine ⟨hinputs, hgraph, ?_, ?_, ?_, ?_, ?_⟩
  · rw [htext, parts_text_bed, List.map_singleton]
  · rw [hmap, List.map_singleton, labels?_mapped]
  · rw [hinputs, List.length_cons, paths, List.length_map, h]
    exact linked_bed
  · intro _
    rw [htext]
    decide
  · exact fun hne => absurd h hne

theorem describes_of_ne_nil (h : plan.inputs ≠ []) :
    plan.Describes sampleRate ⟨plan.options sampleRate codec, out⟩
      ((plan.chains sampleRate).map Chain.part
        ++ [sumPart (plan.chains sampleRate) (number plan.weight)]) := by
  obtain ⟨hinputs, hgraph, hmap⟩ := values_options sampleRate codec out plan
  refine ⟨hinputs, hgraph, ?_, ?_, ?_, ?_, ?_⟩
  · rw [filterGraph_of_ne_nil sampleRate h,
      parts_text_mix (plan.isNumeric_of_mem_chains sampleRate)]
  · rw [hmap, List.map_singleton, labels?_mapped]
  · rw [hinputs, List.length_cons, paths, List.length_map]
    exact linked_mix (plan.map_input_chains sampleRate) (plan.map_label_chains sampleRate) _
  · exact fun hnil => absurd hnil h
  · refine fun _ => ⟨_, _, rfl, ?_, isSumOf_sumPart plan sampleRate _, fun i s hs => ?_⟩
    · rw [List.length_map, plan.length_chains]
    · refine ⟨_, ?_, isChainOf_ofSegment sampleRate i s⟩
      simp [chains, List.getElem?_map, List.getElem?_zipIdx, hs]

/-- For every plan, rate, codec and output path, the arguments are read as a call that describes one
mix, together with the parts of the graph among them. -/
theorem arguments_describe (plan : MixPlan) :
    ∃ call parts, RenderCall.read? (plan.arguments sampleRate codec out) = some call ∧
      plan.Describes sampleRate call parts := by
  refine ⟨⟨plan.options sampleRate codec, out⟩, ?_⟩
  by_cases h : plan.inputs = []
  · exact ⟨_, RenderCall.read?_arguments plan sampleRate codec out,
      describes_of_nil sampleRate codec out h⟩
  · exact ⟨_, RenderCall.read?_arguments plan sampleRate codec out,
      describes_of_ne_nil sampleRate codec out h⟩

end MixPlan

end Soundstage
