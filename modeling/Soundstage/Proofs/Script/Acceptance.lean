import Mathlib
import Soundstage.Proofs.Script.Grammar

/-!
# What the parser accepts

Each field reader takes the texts that write its field and no others. With the laws of words this
gives `parse_accepts_grammar`: a line is read as a command exactly if it writes that command, a line
that writes none is refused under its number and as it stands, and the order in which the rules of
the keywords are tried does not matter.
-/

namespace Soundstage

open Text

theorem writesFloat_iff {text : List Char} {x : Float} :
    WritesFloat text x ↔ ∃ n, Numeral.ofPlain? text = some n ∧ n.toFloat = x := by
  constructor
  · rintro ⟨n, hwrites, hrounds⟩
    exact ⟨n, Numeral.ofPlain?_eq_some_iff.mpr hwrites,
      n.rounds_toFloat.unique n.size_nonneg hrounds⟩
  · rintro ⟨n, hread, rfl⟩
    exact ⟨n, Numeral.ofPlain?_eq_some_iff.mp hread, n.rounds_toFloat⟩

theorem WritesFloat.isSolid {text : List Char} {x : Float} (h : WritesFloat text x) :
    IsSolid text ∧ text ≠ [] := by
  obtain ⟨n, hwrites, -⟩ := h
  exact ⟨hwrites.isSolid, hwrites.ne_nil⟩

theorem WritesFloat.isNaN_eq_false {text : List Char} {x : Float} (h : WritesFloat text x) :
    x.isNaN = false := by
  obtain ⟨n, -, hrounds⟩ := h
  exact hrounds.defined

theorem bind_eq_ok {ε α β : Type} {work : Except ε α} {next : α → Except ε β} {b : β} :
    work >>= next = .ok b ↔ ∃ a, work = .ok a ∧ next a = .ok b := by
  cases work with
  | error e => exact iff_of_false (fun h => nomatch h) fun ⟨_, h, _⟩ => nomatch h
  | ok a =>
    exact ⟨fun h => ⟨a, rfl, h⟩, fun ⟨a', h, h'⟩ => by rw [Except.ok.inj h]; exact h'⟩

theorem return_eq_ok {ε α : Type} {a b : α} : (pure a : Except ε α) = .ok b ↔ a = b :=
  ⟨Except.ok.inj, fun h => h ▸ rfl⟩

namespace Field

variable {keyword : Keyword} {field : String} {fields rest : List Char} {x : Float} {s : String}

theorem isEmpty_eq_false {l : List Char} (h : l ≠ []) : l.isEmpty = false := by
  simpa using h

/-- Behind a word, the reader of numbers takes what writes a number that is a word of its own. -/
theorem number_eq_ok_iff (hfields : EndsWord fields) :
    number keyword field fields = .ok (x, rest) ↔ WritesNumber fields x rest ∧ EndsWord rest := by
  constructor
  · intro h
    obtain ⟨lead, hsplit, hlead, hsolid, hends⟩ := exists_nextWord fields
    unfold number at h
    dsimp only at h
    split at h
    · exact nomatch h
    · next hword =>
      split at h
      · exact nomatch h
      · next n hn =>
        obtain ⟨rfl, rfl⟩ := Prod.ext_iff.mp (Except.ok.inj h)
        have hne : (nextWord fields).1 ≠ [] := by simpa using hword
        have hgap : IsGap lead := by
          rw [hsplit] at hfields
          exact hfields.isGap hlead (hsolid.isRest hne _)
        exact ⟨⟨lead, _, hsplit, hgap, writesFloat_iff.mpr ⟨n, hn, rfl⟩⟩, hends⟩
  · rintro ⟨⟨gap, word, rfl, hgap, hword⟩, hends⟩
    obtain ⟨hsolid, hne⟩ := hword.isSolid
    obtain ⟨n, hn, rfl⟩ := writesFloat_iff.mp hword
    rw [number, nextWord_append hgap.2 hsolid hne hends]
    dsimp only
    rw [isEmpty_eq_false hne, if_neg Bool.false_ne_true, hn]

/-- Behind a word, the reader of texts takes what writes a text. -/
theorem text_eq_ok_iff (hfields : EndsWord fields) :
    text keyword field fields = .ok s ↔ WritesText fields s := by
  constructor
  · intro h
    obtain ⟨lead, hsplit, hlead, hrest⟩ := exists_trimStart fields
    unfold text at h
    dsimp only at h
    split at h
    · exact nomatch h
    · next hne =>
      obtain rfl := Except.ok.inj h
      have hrest := hrest.resolve_left (by simpa using hne)
      rw [hsplit] at hfields
      refine ⟨lead, ?_, hfields.isGap hlead hrest, ?_⟩
      · rwa [String.toList_ofList]
      · rwa [String.toList_ofList]
  · rintro ⟨gap, rfl, hgap, hrest⟩
    have hne : s.toList ≠ [] := by
      obtain ⟨c, rest, hs, -⟩ := hrest
      rw [hs]
      exact List.cons_ne_nil c rest
    rw [text, trimStart_append hgap.2 hrest, isEmpty_eq_false hne, if_neg Bool.false_ne_true,
      String.ofList_toList]

theorem finish_eq_ok_iff : finish keyword fields = .ok () ↔ AreBlanks fields := by
  constructor
  · intro h
    unfold finish at h
    dsimp only at h
    split at h
    · next hnil =>
      obtain ⟨lead, hsplit, hlead, -⟩ := exists_trimStart fields
      rw [List.isEmpty_iff.mp hnil, List.append_nil] at hsplit
      rwa [hsplit]
    · exact nomatch h
  · intro h
    rw [finish, trimStart_of_areBlanks h]
    rfl

end Field

theorem WritesText.endsWord {fields : List Char} {s : String} (h : WritesText fields s) :
    EndsWord fields := by
  obtain ⟨gap, rfl, hgap, -⟩ := h
  exact hgap.endsWord_append _

theorem WritesNumber.endsWord {fields rest : List Char} {x : Float}
    (h : WritesNumber fields x rest) : EndsWord fields := by
  obtain ⟨gap, number, rfl, hgap, -⟩ := h
  exact hgap.endsWord_append _

theorem WritesNumber.isNaN_eq_false {fields rest : List Char} {x : Float}
    (h : WritesNumber fields x rest) : x.isNaN = false := by
  obtain ⟨gap, number, -, -, hnumber⟩ := h
  exact hnumber.isNaN_eq_false

namespace Command

variable {fields : List Char} {c : Command Float}

theorem WritesFields.isNaN_eq_false (h : c.WritesFields fields) :
    ∀ x ∈ c.numbers, x.isNaN = false := by
  cases c with
  | voice | backgroundStart | wait =>
    obtain ⟨rest, hnumber, -⟩ := h
    exact List.forall_mem_singleton.mpr hnumber.isNaN_eq_false
  | sound =>
    obtain ⟨rest, rest', hnumber, hnumber', -⟩ := h
    exact List.forall_mem_cons.mpr
      ⟨hnumber.isNaN_eq_false, List.forall_mem_singleton.mpr hnumber'.isNaN_eq_false⟩
  | backgroundStop => exact fun x hx => absurd hx List.not_mem_nil

/-- What writes fields follows a word. -/
theorem WritesFields.endsWord (h : c.WritesFields fields) : EndsWord fields := by
  cases c with
  | voice | backgroundStart | wait =>
    obtain ⟨rest, hnumber, -⟩ := h
    exact hnumber.endsWord
  | sound =>
    obtain ⟨rest, rest', hnumber, -⟩ := h
    exact hnumber.endsWord
  | backgroundStop => exact WritesText.endsWord h

theorem number_text_eq_ok_iff (hfields : EndsWord fields) (keyword : Keyword)
    (field field' : String) (build : Float → String → Command Float) :
    (do
      let (x, rest) ← Field.number keyword field fields
      return build x (← Field.text keyword field' rest)) = .ok c ↔
    ∃ x s rest, WritesNumber fields x rest ∧ WritesText rest s ∧ build x s = c := by
  rw [bind_eq_ok]
  constructor
  · rintro ⟨⟨x, rest⟩, hnumber, h⟩
    obtain ⟨s, htext, h⟩ := bind_eq_ok.mp h
    obtain ⟨hnumber, hends⟩ := (Field.number_eq_ok_iff hfields).mp hnumber
    exact ⟨x, s, rest, hnumber, (Field.text_eq_ok_iff hends).mp htext, return_eq_ok.mp h⟩
  · rintro ⟨x, s, rest, hnumber, htext, rfl⟩
    refine ⟨(x, rest), (Field.number_eq_ok_iff hfields).mpr ⟨hnumber, htext.endsWord⟩, ?_⟩
    exact bind_eq_ok.mpr ⟨s, (Field.text_eq_ok_iff htext.endsWord).mpr htext, rfl⟩

/-- Behind a keyword, the fields of its commands are taken and no others. -/
theorem parseFields_eq_ok_iff (hfields : EndsWord fields) (keyword : Keyword) :
    keyword.parseFields fields = .ok c ↔ c.keyword = keyword ∧ c.WritesFields fields := by
  cases keyword with
  | voice =>
    rw [Keyword.parseFields, number_text_eq_ok_iff hfields]
    constructor
    · rintro ⟨pan, phrase, rest, hnumber, htext, rfl⟩
      exact ⟨rfl, rest, hnumber, htext⟩
    · rintro ⟨hkeyword, h⟩
      cases c <;> cases hkeyword
      obtain ⟨rest, hnumber, htext⟩ := h
      exact ⟨_, _, rest, hnumber, htext, rfl⟩
  | bgstart =>
    rw [Keyword.parseFields, number_text_eq_ok_iff hfields]
    constructor
    · rintro ⟨pan, description, rest, hnumber, htext, rfl⟩
      exact ⟨rfl, rest, hnumber, htext⟩
    · rintro ⟨hkeyword, h⟩
      cases c <;> cases hkeyword
      obtain ⟨rest, hnumber, htext⟩ := h
      exact ⟨_, _, rest, hnumber, htext, rfl⟩
  | sound =>
    rw [Keyword.parseFields, bind_eq_ok]
    constructor
    · rintro ⟨⟨pan, rest⟩, hnumber, h⟩
      obtain ⟨hnumber, hends⟩ := (Field.number_eq_ok_iff hfields).mp hnumber
      obtain ⟨duration, description, rest', hnumber', htext, rfl⟩ :=
        (number_text_eq_ok_iff hends _ _ _ _).mp h
      exact ⟨rfl, rest, rest', hnumber, hnumber', htext⟩
    · rintro ⟨hkeyword, h⟩
      cases c <;> cases hkeyword
      obtain ⟨rest, rest', hnumber, hnumber', htext⟩ := h
      refine ⟨(_, rest), (Field.number_eq_ok_iff hfields).mpr ⟨hnumber, hnumber'.endsWord⟩, ?_⟩
      exact (number_text_eq_ok_iff hnumber'.endsWord _ _ _ _).mpr
        ⟨_, _, rest', hnumber', htext, rfl⟩
  | bgstop =>
    rw [Keyword.parseFields, bind_eq_ok]
    constructor
    · rintro ⟨description, htext, h⟩
      obtain rfl := return_eq_ok.mp h
      exact ⟨rfl, (Field.text_eq_ok_iff hfields).mp htext⟩
    · rintro ⟨hkeyword, h⟩
      cases c <;> cases hkeyword
      exact ⟨_, (Field.text_eq_ok_iff hfields).mpr h, rfl⟩
  | wait =>
    rw [Keyword.parseFields, bind_eq_ok]
    constructor
    · rintro ⟨⟨duration, rest⟩, hnumber, h⟩
      obtain ⟨hnumber, hends⟩ := (Field.number_eq_ok_iff hfields).mp hnumber
      obtain ⟨⟨⟩, hfinish, h⟩ := bind_eq_ok.mp h
      obtain rfl := return_eq_ok.mp h
      exact ⟨rfl, rest, hnumber, Field.finish_eq_ok_iff.mp hfinish⟩
    · rintro ⟨hkeyword, h⟩
      cases c <;> cases hkeyword
      obtain ⟨rest, hnumber, hblanks⟩ := h
      refine ⟨(_, rest), (Field.number_eq_ok_iff hfields).mpr ⟨hnumber, hblanks.endsWord⟩, ?_⟩
      exact bind_eq_ok.mpr ⟨(), Field.finish_eq_ok_iff.mpr hblanks, rfl⟩

end Command

namespace Keyword

variable {line : List Char} {keyword keyword' : Keyword} {c : Command Float}

theorem isSolid_text (keyword : Keyword) : IsSolid keyword.text.toList := by
  have hall : keyword.text.toList.all (!isBlank ·) = true := by cases keyword <;> rfl
  exact fun c hc => by simpa using List.all_eq_true.mp hall c hc

theorem text_ne_nil (keyword : Keyword) : keyword.text.toList ≠ [] := by
  cases keyword <;> decide

theorem text_injective (h : keyword.text.toList = keyword'.text.toList) : keyword = keyword' := by
  cases keyword <;> cases keyword' <;> first | rfl | exact absurd h (by decide)

theorem mem_all (keyword : Keyword) : keyword ∈ all := by
  cases keyword <;> decide

theorem match?_eq (keyword : Keyword) (line : List Char) :
    keyword.match? line = if keyword.text.toList = (nextWord line).1
      then some (keyword.parseFields (nextWord line).2) else none := rfl

/-- A line is taken by the rule of one keyword at most, whatever comes of its fields. -/
theorem eq_of_match?_ne_none (h : keyword.match? line ≠ none) (h' : keyword'.match? line ≠ none) :
    keyword = keyword' := by
  rw [match?_eq] at h h'
  have hword := (ite_ne_right_iff.mp h).1
  have hword' := (ite_ne_right_iff.mp h').1
  exact text_injective (hword.trans hword'.symm)

/-- The rule of a keyword takes the lines that write one of its commands. -/
theorem match?_eq_some_ok_iff :
    keyword.match? line = some (.ok c) ↔ c.keyword = keyword ∧ c.Writes line := by
  rw [match?_eq]
  constructor
  · intro h
    obtain ⟨lead, hsplit, hlead, -, hends⟩ := exists_nextWord line
    split at h
    · next hword =>
      obtain ⟨rfl, hfields⟩ := (Command.parseFields_eq_ok_iff hends keyword).mp (Option.some.inj h)
      rw [← hword] at hsplit
      exact ⟨rfl, lead, _, hsplit, hlead, hfields⟩
    · exact nomatch h
  · rintro ⟨rfl, lead, fields, rfl, hlead, hfields⟩
    have hends := hfields.endsWord
    rw [nextWord_append hlead c.keyword.isSolid_text c.keyword.text_ne_nil hends, if_pos rfl,
      (Command.parseFields_eq_ok_iff hends c.keyword).mpr ⟨rfl, hfields⟩]

end Keyword

namespace Command

variable {line : List Char} {keyword : Keyword} {rules : List Keyword} {c : Command Float}

theorem readBy_of_forall_none (h : ∀ keyword ∈ rules, keyword.match? line = none)
    (reason : Option Mismatch) : readBy line reason rules
      = .error (reason.getD (.unknownCommand (String.ofList (nextWord line).1))) := by
  induction rules with
  | nil => rfl
  | cons keyword rules ih =>
    rw [readBy, h keyword List.mem_cons_self]
    exact ih fun keyword hmem => h keyword (List.mem_cons_of_mem _ hmem)

/-- The rule that takes the line decides, whichever rules are tried before and after it. -/
theorem readBy_of_match? (hmem : keyword ∈ rules) (hnodup : rules.Nodup)
    {result : Except Mismatch (Command Float)} (h : keyword.match? line = some result) :
    readBy line none rules = result := by
  have hother {keyword' : Keyword} (hne : keyword' ≠ keyword) : keyword'.match? line = none := by
    by_contra hsome
    exact hne (Keyword.eq_of_match?_ne_none hsome (by rw [h]; exact Option.some_ne_none _))
  induction rules with
  | nil => exact absurd hmem List.not_mem_nil
  | cons first rules ih =>
    obtain ⟨hfirst, hnodup⟩ := List.nodup_cons.mp hnodup
    rcases List.mem_cons.mp hmem with rfl | hmem
    · rw [readBy, h]
      cases result with
      | ok c => rfl
      | error mismatch =>
        exact readBy_of_forall_none
          (fun keyword' hmem => hother (ne_of_mem_of_not_mem hmem hfirst)) _
    · rw [readBy, hother (ne_of_mem_of_not_mem hmem hfirst).symm]
      exact ih hmem hnodup

/-- A line is read in one way, in whatever order the rules are tried. -/
theorem readBy_perm (h : rules.Perm Keyword.all) : readBy line none rules = read line := by
  have hall : Keyword.all.Nodup := by decide
  by_cases hmatch : ∃ keyword, Keyword.match? keyword line ≠ none
  · obtain ⟨keyword, hkeyword⟩ := hmatch
    obtain ⟨result, hresult⟩ := Option.ne_none_iff_exists'.mp hkeyword
    rw [read, readBy_of_match? (h.mem_iff.mpr keyword.mem_all) (h.nodup_iff.mpr hall) hresult,
      readBy_of_match? keyword.mem_all hall hresult]
  · have hnone (keyword : Keyword) : keyword.match? line = none :=
      not_not.mp (not_exists.mp hmatch keyword)
    rw [read, readBy_of_forall_none fun keyword _ => hnone keyword,
      readBy_of_forall_none fun keyword _ => hnone keyword]

theorem read_eq_ok_iff : read line = .ok c ↔ c.Writes line := by
  have hall : Keyword.all.Nodup := by decide
  constructor
  · intro h
    by_cases hmatch : ∃ keyword, Keyword.match? keyword line ≠ none
    · obtain ⟨keyword, hkeyword⟩ := hmatch
      obtain ⟨result, hresult⟩ := Option.ne_none_iff_exists'.mp hkeyword
      rw [read, readBy_of_match? keyword.mem_all hall hresult] at h
      exact (Keyword.match?_eq_some_ok_iff.mp (hresult.trans (congrArg some h))).2
    · have hnone (keyword : Keyword) : keyword.match? line = none :=
        not_not.mp (not_exists.mp hmatch keyword)
      rw [read, readBy_of_forall_none fun keyword _ => hnone keyword] at h
      exact nomatch h
  · intro h
    exact readBy_of_match? c.keyword.mem_all hall (Keyword.match?_eq_some_ok_iff.mpr ⟨rfl, h⟩)

theorem parse_eq_ok_iff {number : ℕ} : parse line number = .ok c ↔ c.Writes line := by
  rw [← read_eq_ok_iff, parse]
  cases h : read line with
  | ok c' => simp
  | error mismatch => simp

/-- Lines and commands belong together as the grammar says: a line is read as a command exactly if
it writes that command, and it writes one at most; a line that writes none is refused with its
number and its text. One rule at most takes a line, so their order does not matter. -/
theorem parse_accepts_grammar (line : String) (number : ℕ) :
    (∀ c, parse line.toList number = .ok c ↔ c.Writes line.toList) ∧
    (∀ c : Command Float, c.Writes line.toList → ∀ x ∈ c.numbers, x.isNaN = false) ∧
    ((¬ ∃ c : Command Float, c.Writes line.toList) →
      ∃ reason, parse line.toList number = .error (.malformedLine number reason line)) ∧
    (∀ c c' : Command Float, c.Writes line.toList → c'.Writes line.toList → c = c') ∧
    (∀ keyword keyword' : Keyword, keyword.match? line.toList ≠ none →
      keyword'.match? line.toList ≠ none → keyword = keyword') ∧
    ∀ rules : List Keyword, rules.Perm Keyword.all →
      readBy line.toList none rules = read line.toList := by
  refine ⟨fun c => parse_eq_ok_iff, fun c h => ?_, fun hnone => ?_, fun c c' h h' => ?_,
    fun keyword keyword' => Keyword.eq_of_match?_ne_none, fun rules => readBy_perm⟩
  · obtain ⟨lead, fields, -, -, hfields⟩ := h
    exact hfields.isNaN_eq_false
  · rw [parse]
    cases h : read line.toList with
    | ok c => exact absurd ⟨c, read_eq_ok_iff.mp h⟩ hnone
    | error mismatch => exact ⟨mismatch.message, by rw [String.ofList_toList]⟩
  · exact Except.ok.inj ((read_eq_ok_iff.mpr h).symm.trans (read_eq_ok_iff.mpr h'))

end Command

end Soundstage
