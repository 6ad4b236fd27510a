import Soundstage.Proofs.Json.Compact

/-!
# The grammar of JSON values

A text writes a value if it is cut into the tokens of that value. The reader takes one token after
the other, and `State.taken` is what it has taken when it is in a state: the lists and records that
have been begun show all tokens before it. So a value that is read has the tokens that were read,
and `read?_eq_some_iff` says that the reader finds exactly the values that texts write.
-/

namespace Soundstage.Json

/-- The text writes a value, with whatever blanks between its tokens. -/
def Tree.IsWrittenBy (text : Gapped) (tree : Tree) : Prop := Lexes text tree.tokens

/-- The tokens of items with a comma behind each. -/
def begunItems (items : List Tree) : List Token := items.flatMap fun item => item.tokens ++ [.comma]

/-- The tokens of members with a comma behind each. -/
def begunMembers (members : List (Gapped × Tree)) : List Token :=
  members.flatMap fun member => .text member.1 :: .colon :: (member.2.tokens ++ [.comma])

/-- The tokens of a list or record up to the value that is due in it. -/
def Frame.taken : Frame → List Token
  | .list items => .listStart :: begunItems items.reverse
  | .record members name =>
    .recordStart :: (begunMembers members.reverse ++ [.text name, .colon])

/-- The tokens of all that has been begun, from the outermost on. -/
def takenBy (frames : List Frame) : List Token := frames.reverse.flatMap Frame.taken

/-- The tokens that lead to a state. -/
def State.taken : State → List Token
  | value frames => takenBy frames
  | listStart frames => takenBy frames ++ [.listStart]
  | recordStart frames => takenBy frames ++ [.recordStart]
  | name members frames => takenBy frames ++ .recordStart :: begunMembers members.reverse
  | colon members key frames =>
    takenBy frames ++ .recordStart :: (begunMembers members.reverse ++ [.text key])
  | after tree frames => takenBy frames ++ tree.tokens

variable {token : Token} {tokens : List Token} {tree : Tree} {frames : List Frame}
  {state next : State}

@[simp]
theorem takenBy_cons (frame : Frame) (frames : List Frame) :
    takenBy (frame :: frames) = takenBy frames ++ frame.taken := by
  simp [takenBy]

theorem begunItems_append (items : List Tree) (item : Tree) :
    begunItems (items ++ [item]) = begunItems items ++ (item.tokens ++ [.comma]) := by
  simp [begunItems]

theorem begunMembers_append (members : List (Gapped × Tree)) (name : Gapped) (value : Tree) :
    begunMembers (members ++ [(name, value)])
      = begunMembers members ++ .text name :: .colon :: (value.tokens ++ [.comma]) := by
  simp [begunMembers]

/-- The last item of a list has no comma behind it. -/
theorem itemTokens_append (items : List Tree) (item : Tree) :
    itemTokens (items ++ [item]) = begunItems items ++ item.tokens := by
  induction items with
  | nil => rfl
  | cons first rest ih =>
      obtain ⟨second, others, hcons⟩ := List.exists_cons_of_ne_nil
        (List.append_ne_nil_of_right_ne_nil rest (List.cons_ne_nil item []))
      rw [List.cons_append, hcons, itemTokens, ← hcons, ih]
      · simp [begunItems]
      · simp

theorem memberTokens_append (members : List (Gapped × Tree)) (name : Gapped) (value : Tree) :
    memberTokens (members ++ [(name, value)])
      = begunMembers members ++ .text name :: .colon :: value.tokens := by
  induction members with
  | nil => rfl
  | cons first rest ih =>
      obtain ⟨second, others, hcons⟩ := List.exists_cons_of_ne_nil
        (List.append_ne_nil_of_right_ne_nil rest (List.cons_ne_nil (name, value) []))
      rw [List.cons_append, hcons, memberTokens, ← hcons, ih]
      · simp [begunMembers]
      · simp

/-- Where a value is due, the tokens before it and the next one lead to the next state. -/
theorem State.taken_value? (h : value? frames token = some next) :
    next.taken = takenBy frames ++ [token] := by
  cases token <;> cases h <;> rfl

theorem State.taken_after? (h : after? tree frames token = some next) :
    next.taken = takenBy frames ++ (tree.tokens ++ [token]) := by
  unfold after? at h
  split at h
  · cases h
    simp [taken, Frame.taken, begunItems_append]
  · cases h
    simp [taken, Frame.taken, Tree.tokens, itemTokens_append]
  · cases h
    simp [taken, Frame.taken, begunMembers_append]
  · cases h
    simp [taken, Frame.taken, Tree.tokens, memberTokens_append]
  · cases h

/-- One token is taken in each step. -/
theorem State.taken_step? (h : state.step? token = some next) :
    next.taken = state.taken ++ [token] := by
  unfold step? at h
  split at h
  · exact taken_value? h
  · cases h
    simp [taken, Tree.tokens, itemTokens]
  · rw [taken_value? h]
    simp [taken, Frame.taken, begunItems]
  · cases h
    simp [taken, Tree.tokens, memberTokens]
  · cases h
    simp [taken, begunMembers]
  · cases h
    simp [taken]
  · cases h
    simp [taken, Frame.taken]
  · rw [taken_after? h]
    simp [taken]
  · cases h

/-- A run of the reader has taken its tokens. -/
theorem State.taken_foldlM (h : tokens.foldlM step? state = some next) :
    next.taken = state.taken ++ tokens := by
  induction tokens generalizing state with
  | nil =>
      cases h
      exact (List.append_nil _).symm
  | cons token rest ih =>
      rw [List.foldlM_cons] at h
      obtain ⟨middle, hstep, hrest⟩ := Option.bind_eq_some_iff.mp h
      rw [ih hrest, taken_step? hstep, List.append_assoc]
      rfl

/-- Tokens are read as a value exactly if they are its tokens. -/
theorem Tree.ofTokens?_eq_some_iff : ofTokens? tokens = some tree ↔ tokens = tree.tokens := by
  constructor
  · intro h
    unfold ofTokens? at h
    split at h
    · next found hfold =>
      obtain rfl := Option.some.inj h
      have htaken := State.taken_foldlM hfold
      simpa [State.taken, takenBy] using htaken.symm
    · cases h
  · rintro rfl
    exact ofTokens?_tokens tree

/-- A text is read as a value exactly if it writes that value. -/
theorem Tree.read?_eq_some_iff {text : Gapped} :
    read? text = some tree ↔ tree.IsWrittenBy text := by
  unfold read? IsWrittenBy
  rw [Option.bind_eq_some_iff]
  constructor
  · rintro ⟨tokens, hscan, htokens⟩
    rw [← ofTokens?_eq_some_iff.mp htokens]
    exact scan_eq_some_iff.mp hscan
  · intro h
    exact ⟨tree.tokens, scan_eq_some_iff.mpr h, ofTokens?_tokens tree⟩

end Soundstage.Json
