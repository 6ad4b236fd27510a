import Soundstage.Proofs.Json.Numeral
import Soundstage.Proofs.Json.Spelling

/-!
# The lexical grammar of JSON

`Lexes` says without a reader how a text is cut into tokens: each token is spelled by its lexeme,
blanks may stand between tokens, and a number extends as far as the characters of numbers do.
`scan_eq_some_iff` says that a text is cut into tokens exactly as this grammar cuts it.
-/

namespace Soundstage.Json

open Token

/-- The text of a number: characters of numbers that can be taken apart. -/
def IsNumber (literal : List Char) : Prop :=
  (∀ c ∈ literal, isNumeric (some c) = true) ∧ ∃ n, Literal.ofText? literal = some n

/-- What may follow a number. -/
def EndsNumber (rest : Gapped) : Prop := ∀ c ∈ rest.head?, isNumeric c = false

/-- How one token is spelled. -/
inductive Lexeme : Gapped → Token → Prop
  | listStart : Lexeme [some '['] .listStart
  | listEnd : Lexeme [some ']'] .listEnd
  | recordStart : Lexeme [some '{'] .recordStart
  | recordEnd : Lexeme [some '}'] .recordEnd
  | comma : Lexeme [some ','] .comma
  | colon : Lexeme [some ':'] .colon
  | null : Lexeme [some 'n', some 'u', some 'l', some 'l'] .null
  | yes : Lexeme [some 't', some 'r', some 'u', some 'e'] (.truth true)
  | no : Lexeme [some 'f', some 'a', some 'l', some 's', some 'e'] (.truth false)
  | number {literal : List Char} {n : Literal} (h : n.Writes literal) :
      Lexeme (literal.map some) (.number literal)
  | text {body : Gapped} {ps : List Piece} (h : Spells body ps) :
      Lexeme (some '"' :: (body ++ [some '"'])) (.text (join ps))

/-- What may follow a token: behind a number no character that numbers consist of. -/
def Ends (token : Token) (rest : Gapped) : Prop :=
  ∀ literal, token = .number literal → EndsNumber rest

/-- A text is cut into tokens, between which it may have blanks. -/
inductive Lexes : Gapped → List Token → Prop
  | nil : Lexes [] []
  | blank {c : Char} {rest : Gapped} {tokens : List Token} (hblank : Token.isBlank c = true)
      (hrest : Lexes rest tokens) : Lexes (some c :: rest) tokens
  | token {lexeme rest : Gapped} {token : Token} {tokens : List Token}
      (hlexeme : Lexeme lexeme token) (hends : Ends token rest) (hrest : Lexes rest tokens) :
      Lexes (lexeme ++ rest) (token :: tokens)

variable {text lexeme rest : Gapped} {token : Token} {tokens : List Token} {length : Nat}

theorem isNumber_iff {literal : List Char} :
    IsNumber literal ↔ ∃ n : Literal, n.Writes literal := by
  constructor
  · rintro ⟨-, n, hn⟩
    exact ⟨n, Literal.ofText?_eq_some_iff.mp hn⟩
  · rintro ⟨n, hn⟩
    exact ⟨hn.isNumeric, n, Literal.ofText?_eq_some_iff.mpr hn⟩

theorem lossy_map_some (chars : List Char) : Gapped.lossy (chars.map some) = chars := by
  simp [Gapped.lossy, Function.comp_def]

theorem IsNumber.exists_cons {literal : List Char} (h : IsNumber literal) :
    ∃ c rest, literal = c :: rest := by
  obtain ⟨-, n, hn⟩ := h
  refine List.exists_cons_of_ne_nil ?_
  rintro rfl
  simp [Literal.ofText?] at hn

theorem isBlank_of_isNumeric {c : Char} (hc : isNumeric (some c) = true) :
    Token.isBlank c = false := by
  cases hblank : Token.isBlank c with
  | false => rfl
  | true =>
    simp only [Token.isBlank, Bool.or_eq_true, decide_eq_true_eq] at hblank
    rcases hblank with ((rfl | rfl) | rfl) | rfl <;> simp [isNumeric, Numeral.isDigit] at hc

theorem first?_of_isNumeric {c : Char} (hc : isNumeric (some c) = true) (rest : Gapped) :
    first? (some c :: rest) = number? (some c :: rest) := by
  unfold first?
  split <;> first | rfl | simp_all [isNumeric, Numeral.isDigit]

theorem first?_number {literal : List Char} (h : IsNumber literal) {rest : Gapped}
    (hrest : EndsNumber rest) :
    first? (literal.map some ++ rest) = some (.number literal, literal.length) := by
  have htake : (literal.map some ++ rest).takeWhile isNumeric = literal.map some := by
    rw [List.takeWhile_append_of_pos (by simpa using h.1)]
    cases rest with
    | nil => simp
    | cons c rest => simp [hrest c (by simp)]
  obtain ⟨c, others, rfl⟩ := h.exists_cons
  obtain ⟨n, hn⟩ := h.2
  rw [List.map_cons, List.cons_append, first?_of_isNumeric (h.1 c (by simp)), ← List.cons_append,
    ← List.map_cons, number?, htake, lossy_map_some, hn, Option.map_some]

theorem exists_lexeme_of_number? (h : number? text = some (token, length)) :
    ∃ lexeme rest, text = lexeme ++ rest ∧ lexeme.length = length ∧ Lexeme lexeme token ∧
      Ends token rest := by
  obtain ⟨n, hn, hfound⟩ := Option.map_eq_some_iff.mp h
  cases hfound
  have hwhole : (Gapped.lossy (text.takeWhile isNumeric)).map some = text.takeWhile isNumeric := by
    rw [Gapped.lossy, List.map_map]
    refine (List.map_congr_left fun c hc => ?_).trans (List.map_id _)
    have hnumeric := List.mem_takeWhile_imp hc
    cases c with
    | none => cases hnumeric
    | some c => rfl
  refine ⟨text.takeWhile isNumeric, text.dropWhile isNumeric,
    List.takeWhile_append_dropWhile.symm, by rw [Gapped.lossy, List.length_map], ?_, ?_⟩
  · have hlexeme := Lexeme.number (Literal.ofText?_eq_some_iff.mp hn)
    rwa [hwhole] at hlexeme
  · intro literal _ c hc
    have hhead := List.head?_dropWhile_not isNumeric text
    rw [Option.mem_def.mp hc] at hhead
    simpa using hhead

/-- A text begins with a token exactly if it begins with its lexeme. -/
theorem first?_eq_some_iff : first? text = some (token, length) ↔
    ∃ lexeme rest, text = lexeme ++ rest ∧ lexeme.length = length ∧ Lexeme lexeme token ∧
      Ends token rest := by
  constructor
  · intro h
    unfold first? at h
    split at h
    · cases h
      exact ⟨[some '['], _, rfl, rfl, .listStart, nofun⟩
    · cases h
      exact ⟨[some ']'], _, rfl, rfl, .listEnd, nofun⟩
    · cases h
      exact ⟨[some '{'], _, rfl, rfl, .recordStart, nofun⟩
    · cases h
      exact ⟨[some '}'], _, rfl, rfl, .recordEnd, nofun⟩
    · cases h
      exact ⟨[some ','], _, rfl, rfl, .comma, nofun⟩
    · cases h
      exact ⟨[some ':'], _, rfl, rfl, .colon, nofun⟩
    · cases h
      exact ⟨[some 'n', some 'u', some 'l', some 'l'], _, rfl, rfl, .null, nofun⟩
    · cases h
      exact ⟨[some 't', some 'r', some 'u', some 'e'], _, rfl, rfl, .yes, nofun⟩
    · cases h
      exact ⟨[some 'f', some 'a', some 'l', some 's', some 'e'], _, rfl, rfl, .no, nofun⟩
    · next rest =>
      obtain ⟨⟨ps, n⟩, hpieces, hfound⟩ := Option.map_eq_some_iff.mp h
      cases hfound
      obtain ⟨body, behind, rfl, rfl, hspells⟩ := pieces_eq_some_iff.mp hpieces
      exact ⟨some '"' :: (body ++ [some '"']), behind, by simp, by simp, .text hspells, nofun⟩
    · exact exists_lexeme_of_number? h
  · rintro ⟨lexeme, rest, rfl, rfl, hlexeme, hends⟩
    cases hlexeme with
    | number h =>
      rw [List.length_map]
      exact first?_number (isNumber_iff.mpr ⟨_, h⟩) (hends _ rfl)
    | @text body ps h =>
      have hpieces := h.pieces_append rest
      simp only [List.cons_append, List.append_assoc, List.nil_append, first?, hpieces,
        Option.map_some, List.length_cons, List.length_append, List.length_nil]
    | _ => rfl

/-- No token is spelled by a text that begins with a blank. -/
theorem Lexeme.exists_cons (h : Lexeme lexeme token) :
    ∃ c others, lexeme = c :: others ∧ c.any Token.isBlank = false := by
  cases h with
  | number h =>
    obtain ⟨c, others, rfl⟩ := (isNumber_iff.mpr ⟨_, h⟩).exists_cons
    exact ⟨some c, others.map some, rfl, isBlank_of_isNumeric (h.isNumeric c List.mem_cons_self)⟩
  | _ => exact ⟨_, _, rfl, rfl⟩

/-- The characters that belong to a token found before them are passed over. -/
theorem scanFrom_skip (front rest : Gapped) :
    scanFrom front.length (front ++ rest) = scanFrom 0 rest := by
  induction front with
  | nil => rfl
  | cons c front ih => simpa only [List.length_cons, List.cons_append, scanFrom] using ih

theorem scanFrom_lexeme (hlexeme : Lexeme lexeme token) (hends : Ends token rest) :
    scanFrom 0 (lexeme ++ rest) = (scanFrom 0 rest).map (token :: ·) := by
  have hfirst := first?_eq_some_iff.mpr ⟨lexeme, rest, rfl, rfl, hlexeme, hends⟩
  obtain ⟨c, others, rfl, hblank⟩ := hlexeme.exists_cons
  have hskip := scanFrom_skip others rest
  rw [List.cons_append] at hfirst ⊢
  simp only [scanFrom, hblank, hfirst, List.length_cons, Nat.add_sub_cancel, hskip,
    Bool.false_eq_true, if_false, Option.bind_eq_bind, Option.bind_some, Option.map_eq_bind]
  rfl

theorem Lexes.scanFrom_eq (h : Lexes text tokens) : scanFrom 0 text = some tokens := by
  induction h with
  | nil => rfl
  | blank hblank _ ih => simpa [scanFrom, hblank] using ih
  | token hlexeme hends _ ih => rw [scanFrom_lexeme hlexeme hends, ih, Option.map_some]

/-- A text that is cut into tokens is cut as the grammar says. The induction is on the length of the
text, since a token may take up several characters. -/
theorem lexes_of_scanFrom (h : scanFrom 0 text = some tokens) : Lexes text tokens := by
  induction hsize : text.length using Nat.strongRecOn generalizing text tokens with
  | ind size ih =>
    cases text with
    | nil =>
      cases h
      exact .nil
    | cons c text =>
      rw [List.length_cons] at hsize
      cases hblank : c.any Token.isBlank with
      | true =>
        rw [scanFrom, if_pos hblank] at h
        cases c with
        | none => cases hblank
        | some c => exact .blank hblank (ih text.length (by omega) h rfl)
      | false =>
        simp only [scanFrom, hblank, Bool.false_eq_true, if_false, Option.bind_eq_bind,
          Option.bind_eq_some_iff, Option.pure_def, Option.some.injEq, Prod.exists] at h
        obtain ⟨token, length, hfirst, others, hothers, rfl⟩ := h
        obtain ⟨lexeme, rest, hsplit, rfl, hlexeme, hends⟩ := first?_eq_some_iff.mp hfirst
        obtain ⟨c', front, rfl, -⟩ := hlexeme.exists_cons
        obtain ⟨rfl, rfl : text = front ++ rest⟩ := List.cons.inj hsplit
        rw [List.length_cons, Nat.add_sub_cancel, scanFrom_skip] at hothers
        rw [List.length_append] at hsize
        exact .token hlexeme hends (ih rest.length (by omega) hothers rfl)

/-- A text is cut into tokens exactly as the grammar cuts it. -/
theorem scan_eq_some_iff : scan text = some tokens ↔ Lexes text tokens :=
  ⟨lexes_of_scanFrom, Lexes.scanFrom_eq⟩

end Soundstage.Json
