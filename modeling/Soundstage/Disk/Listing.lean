/-!
# Listings

A `Listing` is what is known of the places below a folder, as a tree of names: for each name what
stands there, if anything does, and the listing of what is below it. Its view is `Listing.get?`,
by the names that lead to a place. `Listing.put` changes that view at one place and nowhere else,
as `get?_put` and `get?_put_of_ne` say.
-/

namespace Soundstage

/-- What can stand at a place. -/
inductive Entry where
  | file (content : ByteArray)
  | folder

instance : DecidableEq Entry
  | .file content, .file content' =>
    @decidable_of_iff _ (content = content') (by simp) (ByteArray.instDecidableEq content content')
  | .folder, .folder => isTrue rfl
  | .file _, .folder | .folder, .file _ => isFalse (by simp)

/-- The places below a folder. -/
inductive Listing where
  | empty
  /-- A name, what stands there, the places below it, and the other names of the folder. -/
  | named (name : String) (entry : Option Entry) (below others : Listing)

namespace Listing

/-- What stands at a name, and the places below it. -/
def find (name : String) : Listing → Option Entry × Listing
  | empty => (none, empty)
  | named other entry below others => if other = name then (entry, below) else others.find name

/-- The listing with another entry, and other places below it, at a name. -/
def set (listing : Listing) (name : String) (entry : Option Entry) (below : Listing) : Listing :=
  match listing with
  | empty => named name entry below empty
  | named other old within others =>
    if other = name then named name entry below others
    else named other old within (others.set name entry below)

/-- What stands at the place that names lead to. -/
def get? (listing : Listing) : List String → Option Entry
  | [] => none
  | [name] => (listing.find name).1
  | name :: next :: rest => (listing.find name).2.get? (next :: rest)

/-- The listing with another entry at the place that names lead to. -/
def put (listing : Listing) (entry : Option Entry) : List String → Listing
  | [] => listing
  | [name] => listing.set name entry (listing.find name).2
  | name :: next :: rest =>
    let (old, below) := listing.find name
    listing.set name old (below.put entry (next :: rest))

/-- The listing below the place that names lead to. -/
def inside (listing : Listing) (names : List String) : Listing :=
  names.foldl (fun listing name => (listing.find name).2) listing

@[simp]
theorem find_set (listing : Listing) (name : String) (entry : Option Entry) (below : Listing) :
    (listing.set name entry below).find name = (entry, below) := by
  induction listing with
  | empty => simp [set, find]
  | named other old within others _ ih =>
    by_cases h : other = name
    · simp [set, find, h]
    · simp [set, find, h, ih]

theorem find_set_of_ne (listing : Listing) {name other : String} (entry : Option Entry)
    (below : Listing) (h : other ≠ name) :
    (listing.set name entry below).find other = listing.find other := by
  induction listing with
  | empty => simp [set, find, h.symm]
  | named first old within others _ ih =>
    by_cases hn : first = name
    · subst hn
      simp [set, find, h.symm]
    · simp [set, find, hn, ih]

/-- What is put is there. -/
theorem get?_put (listing : Listing) (entry : Option Entry) {names : List String}
    (h : names ≠ []) : (listing.put entry names).get? names = entry := by
  induction names generalizing listing with
  | nil => exact absurd rfl h
  | cons name rest ih =>
    cases rest with
    | nil => simp [put, get?]
    | cons next rest => simpa [put, get?] using ih (listing.find name).2 (by simp)

/-- Putting an entry at one place leaves all others as they are. -/
theorem get?_put_of_ne (listing : Listing) (entry : Option Entry) {names others : List String}
    (h : others ≠ names) : (listing.put entry names).get? others = listing.get? others := by
  induction names generalizing listing others with
  | nil => rfl
  | cons name rest ih =>
    cases others with
    | nil => rfl
    | cons other below =>
      by_cases hn : other = name
      · subst hn
        have hne : below ≠ rest := fun hb => h (by rw [hb])
        cases rest <;> cases below <;> simp_all [put, get?]
      · cases rest <;> cases below <;> simp [put, get?, find_set_of_ne, hn]

/-- A place is found by its last name in the listing that the other names lead to. -/
theorem get?_concat (listing : Listing) (names : List String) (name : String) :
    listing.get? (names ++ [name]) = ((listing.inside names).find name).1 := by
  induction names generalizing listing with
  | nil => rfl
  | cons first rest ih =>
    rw [List.cons_append]
    cases rest with
    | nil => rfl
    | cons next rest => exact ih (listing.find first).2

theorem inside_concat (listing : Listing) (names : List String) (name : String) :
    listing.inside (names ++ [name]) = ((listing.inside names).find name).2 := by
  simp [inside]

/-- The files of a listing, each with the names that lead to it, which stand behind the names
`outer`, innermost first. -/
def filesBelow (outer : List String) : Listing → List (List String × ByteArray)
  | empty => []
  | named name entry below others =>
    let found := match entry with
      | some (.file content) => [((name :: outer).reverse, content)]
      | _ => []
    found ++ below.filesBelow (name :: outer) ++ others.filesBelow outer

/-- The files of a listing, each with the names that lead to it. -/
def files (listing : Listing) : List (List String × ByteArray) := listing.filesBelow []

end Listing

end Soundstage
