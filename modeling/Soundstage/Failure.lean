import Soundstage.Disk.Fault
import Soundstage.Number.Style

/-!
# Failures

Every way in which compiling or rendering a script can fail is a constructor of `Failure`, with
the data that the cause consists of. The wording is a function of the cause, `Failure.message`. A
failure knows the script line it comes from, `Failure.line?`, and keeps the first one it is given,
`Failure.atLine`.
-/

namespace Soundstage

/-- A cause of failure, over the numbers `R` of the timeline. -/
inductive Failure (R : Type) where
  /-- A script line that matches no command. -/
  | malformedLine (line : Nat) (reason text : String)
  /-- A scripted length or pause that cannot be played. -/
  | invalidDuration (line : Nat) (value : R)
  /-- A loop that cannot cover a span. -/
  | invalidLoop (value : R)
  /-- A pan outside of the stereo field. -/
  | invalidPan (line : Nat) (value : R)
  /-- A background track that is started while it plays. -/
  | duplicateTrack (line : Nat) (description : String)
  /-- A background track that is stopped while it does not play. -/
  | unknownTrack (line : Nat) (description : String)
  /-- An asset that could not be generated, and why. -/
  | generationFailed (line : Nat) (key : String) (cause : Failure R)
  /-- A file whose length could not be measured. -/
  | probeFailed (path message : String)
  /-- A file whose measured length cannot be played. -/
  | unplayable (path : String) (value : R)
  /-- A mix that could not be rendered. -/
  | renderFailed (message : String)
  /-- Work that was given up on request. -/
  | cancelled (what : String)
  /-- A setting that cannot be used. -/
  | configuration (message : String)
  /-- A failure that a line of the script is responsible for. -/
  | atLine (line : Nat) (cause : Failure R)
  /-- A clip that does not lie within the program. -/
  | outsideProgram (index : Nat) (path : String) (start duration total : R)
  /-- A generator that produced nothing. -/
  | emptyAsset (role text : String)
  /-- Something that the system refused. -/
  | refused (doing : String) (fault : Fault)
  /-- Any other failure, with the chain of its own causes, nearest first. -/
  | other (message : String) (causes : List String)

namespace Failure

variable {R : Type}

/-- The script line that is responsible, where it is known. -/
def line? : Failure R → Option Nat
  | malformedLine line _ _ | invalidDuration line _ | invalidPan line _ | duplicateTrack line _
  | unknownTrack line _ | generationFailed line _ _ | atLine line _ => some line
  | _ => none

/-- Names the responsible line of a failure that does not know one yet. -/
def locate (line : Nat) (failure : Failure R) : Failure R :=
  match failure.line? with
  | some _ => failure
  | none => atLine line failure

/-- Whether the work was given up on request. -/
def isCancelled : Failure R → Bool
  | cancelled _ => true
  | atLine _ cause => cause.isCancelled
  | _ => false

/-- The text of a failure. -/
def message : Failure Float → String
  | malformedLine line reason text =>
    "malformed line " ++ line.repr ++ ": " ++ reason ++ ": '" ++ text ++ "'"
  | invalidDuration line value =>
    "invalid duration on line " ++ line.repr ++ ": " ++ Style.plain.text value
  | invalidLoop value =>
    "invalid loop duration: " ++ Style.plain.text value
      ++ "s (loops must be positive and not vanishingly short)"
  | invalidPan line value =>
    "invalid pan on line " ++ line.repr ++ ": " ++ Style.plain.text value ++ " (expected -1..=1)"
  | duplicateTrack line description =>
    "duplicate background track on line " ++ line.repr ++ ": '" ++ description
      ++ "' is already playing"
  | unknownTrack line description =>
    "unknown background track on line " ++ line.repr ++ ": '" ++ description
      ++ "' was never started"
  | generationFailed line key cause =>
    "generation failed on line " ++ line.repr ++ " for '" ++ key ++ "': " ++ cause.message
  | probeFailed path message => "probe failed for '" ++ path ++ "': " ++ message
  | unplayable path value =>
    "probe failed for '" ++ path ++ "': probe returned non-positive duration "
      ++ Style.plain.text value
  | renderFailed message => "render failed: " ++ message
  | cancelled what => "cancelled: " ++ what
  | configuration message => "configuration error: " ++ message
  | atLine line cause => "line " ++ line.repr ++ ": " ++ cause.message
  | outsideProgram index path start duration total =>
    "segment " ++ index.repr ++ " ('" ++ path ++ "') is outside the program: start "
      ++ Style.plain.text start ++ " duration " ++ Style.plain.text duration ++ " total "
      ++ Style.plain.text total
  | emptyAsset role text => "generator returned no bytes for " ++ role ++ " '" ++ text ++ "'"
  | refused doing _ => doing
  | other message _ => message

/-- The texts of a failure and of the causes it was built on, nearest first. -/
def chain : Failure Float → List String
  | atLine line cause => (atLine line cause).message :: cause.chain
  | refused doing fault => [doing, fault.message]
  | other message causes => message :: causes
  | failure => [failure.message]

end Failure

end Soundstage
