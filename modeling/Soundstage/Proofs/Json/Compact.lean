import Soundstage.Json.Reader
import Soundstage.Proofs.Json.Quotation

/-!
# Compact values

The compact layout of a value is cut into the tokens of the value, and these build the value again.
A number is the one part whose end is not seen from itself: what follows it must not be a character
that numbers consist of.
-/

namespace Soundstage.Json

open Token

mutual

/-- The tokens of a value. -/
def Tree.tokens : Tree → List Token
  | .null => [.null]
  | .truth value => [.truth value]
  | .number literal => [.number literal]
  | .text content => [.text content]
  | .list items => .listStart :: itemTokens items ++ [.listEnd]
  | .record members => .recordStart :: memberTokens members ++ [.recordEnd]

/-- The tokens of items with commas between them. -/
def itemTokens : List Tree → List Token
  | [] => []
  | [item] => item.tokens
  | item :: rest => item.tokens ++ .comma :: itemTokens rest

/-- The tokens of members with commas between them. -/
def memberTokens : List (Gapped × Tree) → List Token
  | [] => []
  | [(name, value)] => .text name :: .colon :: value.tokens
  | (name, value) :: rest => .text name :: .colon :: value.tokens ++ .comma :: memberTokens rest

end

/-- A text without gaps. -/
def IsWhole (content : Gapped) : Prop := ∃ chars : List Char, content = chars.map some

/-- A value that is lost in no layout: its numbers are numbers and its texts have no gaps. -/
inductive Tree.IsWritten : Tree → Prop
  | null : IsWritten .null
  | truth (value : Bool) : IsWritten (.truth value)
  | number {literal : List Char} (h : IsNumber literal) : IsWritten (.number literal)
  | text {content : Gapped} (h : IsWhole content) : IsWritten (.text content)
  | list {items : List Tree} (h : ∀ item ∈ items, IsWritten item) : IsWritten (.list items)
  | record {members : List (Gapped × Tree)} (hnames : ∀ member ∈ members, IsWhole member.1)
      (hvalues : ∀ member ∈ members, IsWritten member.2) : IsWritten (.record members)

/-! ## Cutting a text into tokens -/

/-- A text is cut into tokens, whatever comes after it. -/
def Scans (text : List Char) (tokens : List Token) : Prop :=
  ∀ rest more, EndsNumber rest → Lexes rest more → Lexes (text.map some ++ rest) (tokens ++ more)

variable {s t : List Char} {tokens tokens' : List Token} {token : Token}

theorem scans_nil : Scans [] [] := fun _ _ _ h => h

/-- A token that shows its own end needs nothing of what follows it. -/
theorem Scans.cons (hlexeme : Lexeme (s.map some) token) (hends : ∀ rest, Ends token rest)
    (h : Scans t tokens) : Scans (s ++ t) (token :: tokens) := by
  intro rest more hrest hmore
  rw [List.map_append, List.append_assoc]
  exact .token hlexeme (hends _) (h rest more hrest hmore)

/-- A value is followed by a comma or by the end of what it stands in. -/
theorem Scans.append_cons {c : Char} (h : Scans s tokens) (hc : isNumeric (some c) = false)
    (h' : Scans (c :: t) tokens') : Scans (s ++ c :: t) (tokens ++ tokens') := by
  intro rest more hrest hmore
  have hends : EndsNumber ((c :: t).map some ++ rest) := by simpa [EndsNumber] using hc
  rw [List.map_append, List.append_assoc, List.append_assoc]
  exact h _ _ hends (h' rest more hrest hmore)

theorem scans_quoted {content : Gapped} (hcontent : IsWhole content) (h : Scans s tokens) :
    Scans (quoted content ++ s) (.text content :: tokens) := by
  obtain ⟨chars, rfl⟩ := hcontent
  exact h.cons (lexeme_quoted chars) nofun

theorem scans_number {literal : List Char} (h : IsNumber literal) :
    Scans literal [.number literal] := by
  intro rest more hrest hmore
  obtain ⟨n, hn⟩ := isNumber_iff.mp h
  exact .token (.number hn) (fun _ _ => hrest) hmore

theorem scans_items : ∀ {items : List Tree},
    (∀ item ∈ items, Scans item.compact item.tokens) → Scans (compactItems items) (itemTokens items)
  | [], _ => scans_nil
  | [item], h => h item (by simp)
  | item :: next :: rest, h => by
    have htail : Scans (compactItems (next :: rest)) (itemTokens (next :: rest)) :=
      scans_items fun i hi => h i (List.mem_cons_of_mem _ hi)
    exact (h item (by simp)).append_cons rfl (htail.cons (s := [',']) .comma nofun)

theorem scans_member {name : Gapped} {value : Tree} (hname : IsWhole name)
    (h : Scans value.compact value.tokens) :
    Scans (quoted name ++ ':' :: value.compact) (.text name :: .colon :: value.tokens) :=
  scans_quoted hname (h.cons (s := [':']) .colon nofun)

theorem scans_members : ∀ {members : List (Gapped × Tree)},
    (∀ member ∈ members, IsWhole member.1) →
    (∀ member ∈ members, Scans member.2.compact member.2.tokens) →
    Scans (compactMembers members) (memberTokens members)
  | [], _, _ => scans_nil
  | [(name, value)], hnames, h =>
    scans_member (hnames (name, value) (by simp)) (h (name, value) (by simp))
  | (name, value) :: next :: rest, hnames, h => by
    have htail : Scans (compactMembers (next :: rest)) (memberTokens (next :: rest)) :=
      scans_members (fun m hm => hnames m (List.mem_cons_of_mem _ hm))
        fun m hm => h m (List.mem_cons_of_mem _ hm)
    have hmember := scans_member (hnames (name, value) (by simp)) (h (name, value) (by simp))
    exact hmember.append_cons rfl (htail.cons (s := [',']) .comma nofun)

/-- A value that is written is cut into its own tokens. -/
theorem Tree.IsWritten.scans {tree : Tree} (h : tree.IsWritten) :
    Scans tree.compact tree.tokens := by
  induction h with
  | null => exact scans_nil.cons (s := ['n', 'u', 'l', 'l']) .null nofun
  | truth value =>
    cases value with
    | true => exact scans_nil.cons (s := ['t', 'r', 'u', 'e']) .yes nofun
    | false => exact scans_nil.cons (s := ['f', 'a', 'l', 's', 'e']) .no nofun
  | number h => exact scans_number h
  | @text content h =>
    have := scans_quoted h scans_nil
    rwa [List.append_nil] at this
  | list _ ih =>
    have hend : Scans [']'] [.listEnd] := scans_nil.cons (s := [']']) .listEnd nofun
    exact ((scans_items ih).append_cons rfl hend).cons (s := ['[']) .listStart nofun
  | record hnames _ ih =>
    have hend : Scans ['}'] [.recordEnd] := scans_nil.cons (s := ['}']) .recordEnd nofun
    exact ((scans_members hnames ih).append_cons rfl hend).cons (s := ['{']) .recordStart nofun

/-! ## Building a value from its tokens -/

/-- Tokens take a reader that waits for a value to the point after the value, wherever it stands. -/
def Builds (tokens : List Token) (tree : Tree) : Prop :=
  ∀ frames more, (tokens ++ more).foldlM State.step? (.value frames) =
    more.foldlM State.step? (.after tree frames)

variable {tree : Tree}

theorem Builds.foldlM_eq (h : Builds tokens tree) (frames : List Frame) :
    tokens.foldlM State.step? (.value frames) = some (.after tree frames) := by
  simpa using h frames []

/-- The first item of a list is read like any other value, since no value begins with the end of
a list. -/
theorem Builds.listStart (h : Builds tokens tree) (frames : List Frame) (more : List Token) :
    (tokens ++ more).foldlM State.step? (.listStart frames) =
      (tokens ++ more).foldlM State.step? (.value (.list [] :: frames)) := by
  have hvalue := h.foldlM_eq frames
  cases tokens with
  | nil => simp at hvalue
  | cons token tokens =>
    cases token with
    | listEnd => simp [State.step?, State.value?] at hvalue
    | _ => rfl

theorem exists_itemTokens_cons (item : Tree) (items : List Tree) :
    ∃ tail, itemTokens (item :: items) = item.tokens ++ tail := by
  cases items with
  | nil => exact ⟨[], (List.append_nil _).symm⟩
  | cons _ _ => exact ⟨_, rfl⟩

theorem builds_items {item : Tree} {items : List Tree}
    (h : ∀ i ∈ item :: items, Builds i.tokens i) (done : List Tree) (frames : List Frame)
    (more : List Token) :
    (itemTokens (item :: items) ++ .listEnd :: more).foldlM State.step?
        (.value (.list done :: frames)) =
      more.foldlM State.step? (.after (.list (done.reverse ++ item :: items)) frames) := by
  induction items generalizing item done with
  | nil =>
    rw [itemTokens, h item (by simp)]
    simp [State.step?, State.after?]
  | cons next rest ih =>
    have hrest := ih (fun i hi => h i (List.mem_cons_of_mem _ hi)) (item :: done)
    rw [itemTokens, List.append_assoc, h item (by simp)]
    · simpa [State.step?, State.after?] using hrest
    · simp

theorem exists_memberTokens_cons (name : Gapped) (value : Tree) (members : List (Gapped × Tree)) :
    ∃ tail, memberTokens ((name, value) :: members) = .text name :: tail := by
  cases members with
  | nil => exact ⟨_, rfl⟩
  | cons _ _ => exact ⟨_, rfl⟩

theorem builds_members {name : Gapped} {value : Tree} {members : List (Gapped × Tree)}
    (h : ∀ m ∈ (name, value) :: members, Builds m.2.tokens m.2) (done : List (Gapped × Tree))
    (frames : List Frame) (more : List Token) :
    (memberTokens ((name, value) :: members) ++ .recordEnd :: more).foldlM State.step?
        (.name done frames) =
      more.foldlM State.step? (.after (.record (done.reverse ++ (name, value) :: members))
        frames) := by
  have hvalue := h (name, value) (by simp) (.record done name :: frames)
  induction members generalizing name value done with
  | nil =>
    simp only [memberTokens, List.cons_append, List.foldlM_cons, State.step?, Option.bind_eq_bind,
      Option.bind_some]
    rw [hvalue]
    simp [State.step?, State.after?]
  | cons next rest ih =>
    have hnext := h next (by simp) (.record ((name, value) :: done) next.1 :: frames)
    have hrest := ih (fun m hm => h m (List.mem_cons_of_mem _ hm)) ((name, value) :: done) hnext
    simp only [memberTokens, List.cons_append, List.append_assoc, List.foldlM_cons, State.step?,
      Option.bind_eq_bind, Option.bind_some]
    rw [hvalue]
    simpa [State.step?, State.after?] using hrest

mutual

/-- The tokens of a value build it. -/
theorem Tree.builds : ∀ tree : Tree, Builds tree.tokens tree
  | .null => fun _ _ => rfl
  | .truth _ => fun _ _ => rfl
  | .number _ => fun _ _ => rfl
  | .text _ => fun _ _ => rfl
  | .list [] => fun _ _ => rfl
  | .list (item :: rest) => by
    intro frames more
    have hitems := builds_items (forall_mem_builds (item :: rest)) [] frames more
    obtain ⟨tail, htail⟩ := exists_itemTokens_cons item rest
    have hstart := item.builds.listStart frames (tail ++ .listEnd :: more)
    simp only [htail, List.append_assoc] at hitems
    simp only [Tree.tokens, htail, List.cons_append, List.append_assoc, List.nil_append,
      List.foldlM_cons, State.step?, State.value?, Option.bind_eq_bind, Option.bind_some]
    rw [hstart, hitems, List.reverse_nil, List.nil_append]
  | .record [] => fun _ _ => rfl
  | .record ((name, value) :: rest) => by
    intro frames more
    have hmembers := builds_members (forall_mem_snd_builds ((name, value) :: rest)) [] frames more
    obtain ⟨tail, htail⟩ := exists_memberTokens_cons name value rest
    simp only [htail, List.cons_append, List.foldlM_cons, State.step?, Option.bind_eq_bind,
      Option.bind_some, List.reverse_nil, List.nil_append] at hmembers
    simpa only [Tree.tokens, htail, List.cons_append, List.append_assoc, List.nil_append,
      List.foldlM_cons, State.step?, State.value?, Option.bind_eq_bind, Option.bind_some]
      using hmembers

theorem forall_mem_builds : ∀ items : List Tree, ∀ item ∈ items, Builds item.tokens item
  | [] => by simp
  | item :: rest => by
    have hitem := item.builds
    have hrest := forall_mem_builds rest
    simpa using ⟨hitem, hrest⟩

theorem forall_mem_snd_builds : ∀ members : List (Gapped × Tree),
    ∀ member ∈ members, Builds member.2.tokens member.2
  | [] => by simp
  | (name, value) :: rest => by
    have hvalue := value.builds
    have hrest := forall_mem_snd_builds rest
    rintro member (_ | ⟨_, hmember⟩)
    · exact hvalue
    · exact hrest member hmember

end

theorem Tree.ofTokens?_tokens (tree : Tree) : Tree.ofTokens? tree.tokens = some tree := by
  simp [Tree.ofTokens?, tree.builds.foldlM_eq []]

/-- The compact text of a written value is read as the value. -/
theorem Tree.IsWritten.read?_compact (h : tree.IsWritten) :
    Tree.read? (tree.compact.map some) = some tree := by
  have hscan := h.scans [] [] (by simp [EndsNumber]) .nil
  rw [List.append_nil, List.append_nil] at hscan
  rw [Tree.read?, scan_eq_some_iff.mpr hscan, Option.bind_some, Tree.ofTokens?_tokens]

end Soundstage.Json
