import Soundstage.Json.Literal
import Soundstage.Number.Hexadecimal
import Soundstage.Text.Gapped

/-!
# JSON tokens

`scan` cuts a text into tokens. A text token is first taken apart into `Piece`s, which are then
joined: two escaped halves of a character in a row are the character, and a half alone is a gap.
-/

namespace Soundstage.Json

/-- A token. -/
inductive Token where
  | listStart
  | listEnd
  | recordStart
  | recordEnd
  | comma
  | colon
  | null
  | truth (value : Bool)
  | number (literal : List Char)
  | text (content : Gapped)
  deriving DecidableEq, Repr

/-- A piece of a text token. -/
inductive Piece where
  /-- A character or a gap that stands for itself, or an escaped character. -/
  | char (c : Option Char)
  /-- A 16-bit unit that is escaped by its number. -/
  | unit (n : Nat)
  deriving DecidableEq, Repr

namespace Token

/-- The blanks between tokens. -/
def isBlank (c : Char) : Bool := c = ' ' || c = '\t' || c = '\n' || c = '\r'

/-- The value of hexadecimal digits. -/
def hexValue? (digits : List (Option Char)) : Option Nat :=
  digits.foldlM (fun n d => (d.bind Hexadecimal.value?).map (16 * n + ·)) 0

/-- The character that a letter stands for after a backslash. -/
def escaped? (c : Char) : Option Char :=
  match c with
  | '"' => some '"'
  | '\\' => some '\\'
  | '/' => some '/'
  | 'b' => some '\x08'
  | 'f' => some '\x0c'
  | 'n' => some '\n'
  | 'r' => some '\r'
  | 't' => some '\t'
  | _ => none

/-- What one step of reading a text token finds: its end, or a piece and how many characters it
takes up. -/
inductive Found where
  | finish
  | piece (p : Piece) (length : Nat)

/-- Looks at what stands next in a text token. Control characters have to be escaped. -/
def next? : Gapped → Option Found
  | [] => none
  | none :: _ => some (.piece (.char none) 1)
  | some '"' :: _ => some .finish
  | some '\\' :: some 'u' :: rest =>
    let digits := rest.take 4
    if digits.length < 4 then none else (hexValue? digits).map fun n => .piece (.unit n) 6
  | some '\\' :: some c :: _ => (escaped? c).map fun c => .piece (.char (some c)) 2
  | some '\\' :: _ => none
  | some c :: _ => if c.toNat < 0x20 then none else some (.piece (.char (some c)) 1)

/-- The pieces of a text token up to its end, and how many characters it takes up. The first number
is how many characters at the front belong to a piece that has been found already. -/
def pieces : Nat → Gapped → Option (List Piece × Nat)
  | _, [] => none
  | pending + 1, _ :: rest => (pieces pending rest).map fun (ps, n) => (ps, n + 1)
  | 0, c :: rest =>
    match next? (c :: rest) with
    | none => none
    | some .finish => some ([], 1)
    | some (.piece p length) => (pieces (length - 1) rest).map fun (ps, n) => (p :: ps, n + 1)

/-- Whether a unit is the first half of a character. -/
def isHighHalf (n : Nat) : Bool := 0xd800 ≤ n && n ≤ 0xdbff

/-- Whether a unit is the second half of a character. -/
def isLowHalf (n : Nat) : Bool := 0xdc00 ≤ n && n ≤ 0xdfff

/-- The text of pieces. -/
def join : List Piece → Gapped
  | [] => []
  | .char c :: rest => c :: join rest
  | .unit high :: .unit low :: rest =>
    if isHighHalf high && isLowHalf low then
      some (Char.ofNat (0x10000 + (high - 0xd800) * 0x400 + (low - 0xdc00))) :: join rest
    else
      (if isHighHalf high || isLowHalf high then none else some (Char.ofNat high))
        :: join (.unit low :: rest)
  | .unit n :: rest =>
    (if isHighHalf n || isLowHalf n then none else some (Char.ofNat n)) :: join rest

/-- The characters that numbers consist of. -/
def isNumeric (c : Option Char) : Bool :=
  c.any fun c => Numeral.isDigit c || c = '+' || c = '-' || c = '.' || c = 'e' || c = 'E'

/-- The number that a text begins with, and how many characters it takes up. -/
def number? (text : Gapped) : Option (Token × Nat) :=
  let literal := Gapped.lossy (text.takeWhile isNumeric)
  (Literal.ofText? literal).map fun _ => (.number literal, literal.length)

/-- The token that a text begins with, and how many characters it takes up. -/
def first? (text : Gapped) : Option (Token × Nat) :=
  match text with
  | some '[' :: _ => some (.listStart, 1)
  | some ']' :: _ => some (.listEnd, 1)
  | some '{' :: _ => some (.recordStart, 1)
  | some '}' :: _ => some (.recordEnd, 1)
  | some ',' :: _ => some (.comma, 1)
  | some ':' :: _ => some (.colon, 1)
  | some 'n' :: some 'u' :: some 'l' :: some 'l' :: _ => some (.null, 4)
  | some 't' :: some 'r' :: some 'u' :: some 'e' :: _ => some (.truth true, 4)
  | some 'f' :: some 'a' :: some 'l' :: some 's' :: some 'e' :: _ => some (.truth false, 5)
  | some '"' :: rest =>
    (pieces 0 rest).map fun (ps, n) => (.text (join ps), n + 1)
  | _ => number? text

/-- The tokens of a text, of whose front `pending` characters belong to a token found already. -/
def scanFrom : Nat → Gapped → Option (List Token)
  | _, [] => some []
  | pending + 1, _ :: rest => scanFrom pending rest
  | 0, c :: rest =>
    if c.any isBlank then scanFrom 0 rest
    else do
      let (token, length) ← first? (c :: rest)
      return token :: (← scanFrom (length - 1) rest)

/-- The tokens of a text. -/
def scan (text : Gapped) : Option (List Token) := scanFrom 0 text

end Token

end Soundstage.Json
