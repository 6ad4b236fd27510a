import Mathlib
import Soundstage.Mix.Graph
import Soundstage.Text.Blank

/-!
# Reading filter graphs

What a written graph and a list of arguments say, apart from how they were written. Semicolons keep
the parts of a graph apart. The labels in front of a part are the streams that it reads, and the
labels behind its filters are the streams that it defines. `Clip.read?` and `Sum.read?` take the
filters of the two kinds of parts to pieces, and `RenderCall.read?` reads a list of arguments as
options with their values.
-/

namespace Soundstage

namespace Text

/-- What follows an expected beginning. -/
def after? (start : String) (s : List Char) : Option (List Char) :=
  if s.take start.toList.length = start.toList then some (s.drop start.toList.length) else none

/-- A field up to the character that ends it, and what follows from there on. -/
def fieldBefore (stop : Char) (s : List Char) : String × List Char :=
  (String.ofList (s.takeWhile (· ≠ stop)), s.dropWhile (· ≠ stop))

/-- A count up to the character that ends it, and what follows from there on. -/
def countBefore? (stop : Char) (s : List Char) : Option (ℕ × List Char) :=
  let field := s.takeWhile (· ≠ stop)
  if field ≠ [] ∧ field.all Char.isDigit = true then
    some (Nat.ofDigitChars 10 field 0, s.dropWhile (· ≠ stop))
  else none

end Text

namespace Graph

/-- The labels in brackets that a text begins with, and what follows them. The first argument is an
open label, backwards; a label that is never closed cannot be read. -/
def labelsFrom? : Option (List Char) → List Char → Option (List String × List Char)
  | none, [] => some ([], [])
  | some _, [] => none
  | none, c :: rest => if c = '[' then labelsFrom? (some []) rest else some ([], c :: rest)
  | some label, c :: rest =>
    if c = ']' then
      (labelsFrom? none rest).map fun (labels, rest) =>
        (String.ofList label.reverse :: labels, rest)
    else labelsFrom? (some (c :: label)) rest

/-- The labels in brackets of which a text consists. -/
def labels? (s : List Char) : Option (List String) := do
  let (labels, rest) ← labelsFrom? none s
  if rest = [] then some labels else none

/-- A part of a graph: the streams that it reads, its filters, and the streams that it defines. -/
structure Part where
  reads : List String
  filters : String
  defines : List String

namespace Part

/-- Reads a part. -/
def read? (s : List Char) : Option Part := do
  let (reads, s) ← labelsFrom? none s
  let defines ← labels? (s.dropWhile (· ≠ '['))
  some { reads, filters := String.ofList (s.takeWhile (· ≠ '[')), defines }

end Part

/-- The parts of a written graph; a part that cannot be read is nothing. -/
def parts (text : String) : List (Option Part) := (Text.pieces ';' text.toList).map Part.read?

/-- The streams that there are: the sounds of the inputs and what the parts define. -/
def produced (inputs : ℕ) (parts : List Part) : List String :=
  (List.range inputs).map inputLabel ++ parts.flatMap Part.defines

/-- The streams that are taken: what the parts read and what goes to the output. -/
def consumed (parts : List Part) (mapped : List String) : List String :=
  parts.flatMap Part.reads ++ mapped

/-- Every stream is produced once and consumed once. -/
structure Linked (inputs : ℕ) (parts : List Part) (mapped : List String) : Prop where
  nodup : (produced inputs parts).Nodup
  perm : (consumed parts mapped).Perm (produced inputs parts)

open Text

/-- What the filters of a chain say of its clip. -/
structure Clip where
  sampleRate : ℕ
  length : String
  left : String
  right : String
  delay : ℕ

namespace Clip

/-- Reads the filters of a chain. -/
def read? (text : String) : Option Clip := do
  let s ← after? "aformat=sample_fmts=fltp:sample_rates=" text.toList
  let (sampleRate, s) ← countBefore? ':' s
  let s ← after? ":channel_layouts=stereo,atrim=end=" s
  let (length, s) := fieldBefore ',' s
  let s ← after? ",asetpts=PTS-STARTPTS,pan=stereo|c0=" s
  let (left, s) := fieldBefore '*' s
  let s ← after? "*c0|c1=" s
  let (right, s) := fieldBefore '*' s
  let s ← after? "*c1,adelay=delays=" s
  let (delay, s) ← countBefore? 'S' s
  let s ← after? "S:all=1" s
  if s = [] then some { sampleRate, length, left, right, delay } else none

end Clip

/-- What the filters of a sum say: how many streams are added, and what each is multiplied with. -/
structure Sum where
  inputs : ℕ
  weight : String

namespace Sum

/-- Reads the filters of a sum. -/
def read? (text : String) : Option Sum := do
  let s ← after? "amix=inputs=" text.toList
  let (inputs, s) ← countBefore? ':' s
  let weight ← after? ":duration=first:dropout_transition=0:normalize=0,volume=" s
  some { inputs, weight := String.ofList weight }

end Sum

end Graph

/-- What ffmpeg is told by its arguments. -/
structure RenderCall where
  /-- The options and their values. -/
  options : List (String × String)
  /-- The file that is written. -/
  output : String

namespace RenderCall

/-- The options that have no value. -/
def flags : List String := ["-hide_banner", "-y"]

/-- Reads arguments: options, each with its value if it has one, and the output at the end. -/
def read? : List String → Option RenderCall
  | [] => none
  | [output] => some ⟨[], output⟩
  | option :: value :: rest =>
    if option ∈ flags then read? (value :: rest)
    else (read? rest).map fun call => { call with options := (option, value) :: call.options }

/-- The values of an option, in their order. -/
def values (call : RenderCall) (option : String) : List String :=
  (call.options.filter (·.1 = option)).map Prod.snd

/-- The inputs, in their order: input 0 is the first one. -/
def inputs (call : RenderCall) : List String := call.values "-i"

end RenderCall

end Soundstage
