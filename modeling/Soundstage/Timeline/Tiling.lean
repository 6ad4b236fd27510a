import Soundstage.Failure
import Soundstage.Number.Scalar

/-!
# Covering a span with a loop

`tile` covers a span with copies of a loop that follow each other without gaps, the last one cut to
what is left. A rest of at most one millionth of a second is noise: it is not played, and a span
that misses a whole number of copies by less counts as that number of copies.
-/

namespace Soundstage

variable {R : Type} [Scalar R]

/-- One copy of a loop, by its offset from the start of the span. -/
structure Tile (R : Type) where
  offset : R
  duration : R
  deriving DecidableEq

/-- A loop that would take more copies than this for one span is unusable. -/
def maxTiles : Nat := 1000000

/-- The number of whole copies in a span that the loop fits into `ratio` times. One more than the
whole part is taken if the span misses it by less than the noise. -/
def wholeCopies (loop span ratio : R) : Nat :=
  let whole := Scalar.wholePart ratio
  if -Scalar.millionth < span - Scalar.ofNat (whole + 1) * loop then whole + 1 else whole

/-- Whole copies of a loop, and behind them the rest of the span if it is worth playing. -/
def layTiles (loop span : R) (copies : Nat) : List (Tile R) :=
  let covered := Scalar.ofNat copies * loop
  let rest := span - covered
  (List.range copies).map (fun i => ⟨Scalar.ofNat i * loop, loop⟩)
    ++ if Scalar.millionth < rest then [⟨covered, rest⟩] else []

/-- Covers a span with copies of a loop. A span that is no longer than the noise, or not finite,
needs none. -/
def tile (loop span : R) : Except (Failure R) (List (Tile R)) :=
  if ¬ Scalar.IsLength loop then .error (.invalidLoop loop)
  else if Scalar.isFinite span = false ∨ span ≤ Scalar.millionth then .ok []
  else
    let ratio := span / loop
    if Scalar.isFinite ratio = false ∨ Scalar.ofNat maxTiles ≤ ratio then .error (.invalidLoop loop)
    else .ok (layTiles loop span (wholeCopies loop span ratio))

/-- Covers a span that starts at a clock reading; the tiles are given by clock readings. -/
def tileFrom (loop start span : R) : Except (Failure R) (List (Tile R)) := do
  let tiles ← tile loop span
  return tiles.map fun t => ⟨start + t.offset, t.duration⟩

end Soundstage
