/-!
# Places

A place is where a file or a folder can stand. It is given by the names that lead to it from its
anchor, which is the working directory, one of the folders above it, or the root. The anchors
themselves are folders whatever a program does. By which names one anchor could be reached from
another is not known, so places with different anchors count as different.
-/

namespace Soundstage

/-- A folder that places are counted from. -/
inductive Anchor where
  /-- The folder so many levels above the working directory, which is at level 0. -/
  | above (levels : Nat)
  | root
  deriving DecidableEq, Repr

/-- The folder around an anchor. The root is the folder around itself. -/
def Anchor.outer : Anchor → Anchor
  | above levels => above (levels + 1)
  | root => root

/-- A place: the names that lead to it from its anchor. -/
@[ext]
structure Place where
  anchor : Anchor
  names : List String
  deriving DecidableEq, Repr

namespace Place

/-- The working directory. -/
def working : Place := ⟨.above 0, []⟩

/-- The root. -/
def root : Place := ⟨.root, []⟩

/-- The place of a name in the folder at a place. -/
def child (place : Place) (name : String) : Place :=
  { place with names := place.names ++ [name] }

/-- The place of the folder around a place. -/
def parent (place : Place) : Place :=
  if place.names = [] then ⟨place.anchor.outer, []⟩
  else { place with names := place.names.dropLast }

@[simp]
theorem parent_child (place : Place) (name : String) : (place.child name).parent = place := by
  simp [child, parent]

theorem child_inj {place other : Place} {name name' : String}
    (h : place.child name = other.child name') : place = other ∧ name = name' := by
  have hanchor := congrArg Place.anchor h
  obtain ⟨hnames, hlast⟩ := List.append_inj' (congrArg Place.names h) rfl
  exact ⟨Place.ext hanchor hnames, (List.cons.inj hlast).1⟩

theorem names_child_ne_nil (place : Place) (name : String) : (place.child name).names ≠ [] := by
  simp [child]

end Place

end Soundstage
