import Soundstage.Mix.Pan
import Soundstage.Mix.Plan
import Soundstage.Number.Style

/-!
# Filter graphs

A plan is mixed by a graph of filters. Each clip has a chain that cuts it to its length, turns its
channels to its pan and delays it to its start; the ends of all chains are summed with the bed.
`Graph` is the graph as data and `Graph.text` the way it is written for ffmpeg, whose input 0 is the
bed and whose input `i + 1` is clip `i`.
-/

namespace Soundstage

/-- The filters of one clip. -/
structure Chain where
  /-- The input that is read. -/
  input : Nat
  sampleRate : Nat
  /-- The length of the clip in seconds. -/
  length : String
  left : String
  right : String
  /-- The start of the clip in samples. -/
  delay : Nat
  /-- The number in the label of the result. -/
  label : Nat
  deriving DecidableEq, Repr

/-- A graph of filters. -/
inductive Graph where
  /-- The bed alone. -/
  | bed
  /-- The sum of the bed and of chains, each turned down to a weight. -/
  | mix (chains : List Chain) (weight : String)
  deriving DecidableEq, Repr

/-- Places after the point of all numbers in a graph. -/
def Graph.places : Nat := 6

/-- A number as it is written in a graph. -/
def Graph.number (x : Float) : String := Style.fixed Graph.places x

/-- The chain of the clip with the given index. -/
def Chain.ofSegment (sampleRate index : Nat) (s : Segment Float) : Chain :=
  let g := gains s.pan
  { input := index + 1
    sampleRate := sampleRate
    length := Graph.number s.duration
    left := Graph.number g.left
    right := Graph.number g.right
    delay := Binary64.roundToCount (notNegative s.start * Float.ofNat sampleRate)
    label := index }

namespace Graph

/-- A label as it is written, in brackets. -/
def bracketed (label : String) : String := "[" ++ label ++ "]"

/-- The label of the sound of an input. -/
def inputLabel (input : Nat) : String := input.repr ++ ":a"

/-- The label of the result of a graph. -/
def outLabel : String := "out"

end Graph

namespace Chain

/-- The label of the result of a chain. -/
def resultLabel (label : Nat) : String := "s" ++ label.repr

/-- The filters of a chain as they are written. -/
def filters (c : Chain) : String :=
  "aformat=sample_fmts=fltp:sample_rates=" ++ c.sampleRate.repr
    ++ ":channel_layouts=stereo,atrim=end=" ++ c.length ++ ",asetpts=PTS-STARTPTS,pan=stereo|c0="
    ++ c.left ++ "*c0|c1=" ++ c.right ++ "*c1,adelay=delays=" ++ c.delay.repr ++ "S:all=1"

/-- A chain as it is written. -/
def text (c : Chain) : String :=
  Graph.bracketed (Graph.inputLabel c.input) ++ c.filters
    ++ Graph.bracketed (resultLabel c.label)

end Chain

namespace Graph

/-- The filters of the sum of the bed and of a number of chains as they are written. -/
def sumFilters (chains : Nat) (weight : String) : String :=
  "amix=inputs=" ++ (chains + 1).repr
    ++ ":duration=first:dropout_transition=0:normalize=0,volume=" ++ weight

/-- A graph as it is written: the chains, and the sum of the bed and their results. -/
def text : Graph → String
  | bed => bracketed (inputLabel 0) ++ "anull" ++ bracketed outLabel
  | mix chains weight =>
    String.join (chains.map fun c => c.text ++ ";")
      ++ bracketed (inputLabel 0)
      ++ String.join (chains.map fun c => bracketed (Chain.resultLabel c.label))
      ++ sumFilters chains.length weight ++ bracketed outLabel

end Graph

namespace MixPlan

/-- The graph of a plan. -/
def graph (plan : MixPlan) (sampleRate : Nat) : Graph :=
  if plan.inputs.isEmpty then .bed
  else .mix (plan.inputs.zipIdx.map fun (s, i) => Chain.ofSegment sampleRate i s)
    (Graph.number plan.weight)

/-- The graph of a plan as it is written. -/
def filterGraph (plan : MixPlan) (sampleRate : Nat) : String := (plan.graph sampleRate).text

/-- The source of the silent bed, as it is written. -/
def bedSource (plan : MixPlan) (sampleRate : Nat) : String :=
  "anullsrc=channel_layout=stereo:sample_rate=" ++ sampleRate.repr ++ ":d="
    ++ Graph.number plan.total

/-- The arguments with which ffmpeg renders a plan into a file. -/
def arguments (plan : MixPlan) (sampleRate : Nat) (codec out : String) : List String :=
  ["-hide_banner", "-loglevel", "error", "-y", "-f", "lavfi", "-i", plan.bedSource sampleRate]
    ++ plan.inputs.flatMap (fun s => ["-i", s.path])
    ++ ["-filter_complex", plan.filterGraph sampleRate, "-map", "[out]", "-ar", sampleRate.repr,
      "-c:a", codec, out]

end MixPlan

end Soundstage
