import Soundstage.Timeline.Basic

/-!
# Mix plans

A mix plan is what a renderer needs to know of a timeline: the length of the program, which is also
the length of the silent bed below all clips, and the clips in the order in which they were placed.
-/

namespace Soundstage

/-- The clips to be mixed into one program. -/
structure MixPlan where
  total : Float
  inputs : List (Segment Float)

namespace MixPlan

/-- The plan of a finished timeline. -/
def ofTimeline (t : Timeline Float) : MixPlan := ⟨t.total, t.segments⟩

/-- The files of a plan, in the order of its clips. -/
def paths (plan : MixPlan) : List String := plan.inputs.map Segment.path

/-- The gain of each summed stream: one over their count, the bed included. -/
def weight (plan : MixPlan) : Float := 1.0 / (Float.ofNat plan.inputs.length + 1.0)

end MixPlan

end Soundstage
