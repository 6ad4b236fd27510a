import Soundstage.Disk.Basic
import Soundstage.Disk.Fault
import Soundstage.Disk.Path

/-!
# Where paths lead

A path leads to a place by its parts from left to right. Every part but the last has to lead to a
folder. A path may leave the working directory, as the folders above it are there.

`Disk.follow` is this rule, by the view of the disk. `Disk.walk` keeps the listings of the folders
that it comes through, so that each part is looked up in one folder; `walk_eq_follow` says that it
finds the same.
-/

namespace Soundstage

namespace Disk

/-- The longest name of a file or folder, in bytes. -/
def longestName : Nat := 255

/-- The length from which on a path is refused, in bytes. -/
def longestPath : Nat := 4096

/-- Where a path leads. -/
structure Target where
  place : Place
  /-- Set for a path that can only name a folder, as it ends in a slash. -/
  folderOnly : Bool
  deriving DecidableEq, Repr

/-- Follows the parts of a path from a folder. The entry at the last place is not looked at. -/
def follow (disk : Disk) (here : Place) : List String → Except Fault Target
  | [] => .ok ⟨here, true⟩
  | part :: rest =>
    if part = "" || part = "." then follow disk here rest
    else if part = ".." then follow disk here.parent rest
    else if longestName < part.utf8ByteSize then .error .nameTooLong
    else
      let place := here.child part
      if rest = [] then .ok ⟨place, false⟩
      else match disk.get? place with
        | none =>
          if rest.all (· = "") then .ok ⟨place, true⟩ else .error .notFound
        | some (.file _) =>
          if rest.all (· = "") then .ok ⟨place, true⟩ else .error .notFolder
        | some .folder => follow disk place rest

/-- The names from an anchor to a folder, innermost first, each with the places below it. -/
abbrev Trail := List (String × Listing)

namespace Trail

/-- The places below the folder at the end of a trail, from those below its anchor. -/
def listing (trail : Trail) (base : Listing) : Listing :=
  match trail with
  | [] => base
  | (_, inner) :: _ => inner

/-- Each listing of the trail is what the listing around it has below the name. -/
def IsBelow (base : Listing) : Trail → Prop
  | [] => True
  | (name, inner) :: outer =>
    inner = ((listing outer base).find name).2 ∧ IsBelow base outer

theorem listing_eq_inside {base : Listing} {trail : Trail} (h : trail.IsBelow base) :
    trail.listing base = base.inside (trail.map Prod.fst).reverse := by
  induction trail with
  | nil => rfl
  | cons step outer ih =>
    obtain ⟨name, inner⟩ := step
    rw [List.map_cons, List.reverse_cons, Listing.inside_concat, ← ih h.2]
    exact h.1

end Trail

/-- A folder that a path has come to. -/
structure Spot where
  anchor : Anchor
  /-- The places below the anchor. -/
  base : Listing
  trail : Trail

namespace Spot

/-- The place of the folder. -/
def place (spot : Spot) : Place := ⟨spot.anchor, (spot.trail.map Prod.fst).reverse⟩

/-- An anchor. -/
def atAnchor (disk : Disk) (anchor : Anchor) : Spot := ⟨anchor, disk.listing anchor, []⟩

/-- The folder around a folder. -/
def parent (spot : Spot) (disk : Disk) : Spot :=
  match spot.trail with
  | [] => atAnchor disk spot.anchor.outer
  | _ :: outer => { spot with trail := outer }

/-- What stands at a name in the folder, and the spot there. -/
def child (spot : Spot) (name : String) : Option Entry × Spot :=
  let (entry, below) := (spot.trail.listing spot.base).find name
  (entry, { spot with trail := (name, below) :: spot.trail })

/-- The listings of the spot are those of a disk. -/
def IsOn (spot : Spot) (disk : Disk) : Prop :=
  spot.base = disk.listing spot.anchor ∧ spot.trail.IsBelow spot.base

theorem isOn_atAnchor (disk : Disk) (anchor : Anchor) : (atAnchor disk anchor).IsOn disk :=
  ⟨rfl, trivial⟩

theorem place_parent (spot : Spot) (disk : Disk) :
    (spot.parent disk).place = spot.place.parent := by
  obtain ⟨anchor, base, trail⟩ := spot
  cases trail <;> simp [parent, place, Place.parent, atAnchor]

theorem place_child (spot : Spot) (name : String) :
    (spot.child name).2.place = spot.place.child name := by
  simp [child, place, Place.child]

theorem IsOn.parent {spot : Spot} {disk : Disk} (h : spot.IsOn disk) :
    (spot.parent disk).IsOn disk := by
  obtain ⟨anchor, base, trail⟩ := spot
  cases trail with
  | nil => exact isOn_atAnchor disk anchor.outer
  | cons step outer => exact ⟨h.1, h.2.2⟩

theorem IsOn.child {spot : Spot} {disk : Disk} (h : spot.IsOn disk) (name : String) :
    (spot.child name).2.IsOn disk :=
  ⟨h.1, rfl, h.2⟩

theorem IsOn.entry_child {spot : Spot} {disk : Disk} (h : spot.IsOn disk) (name : String) :
    (spot.child name).1 = disk.get? (spot.place.child name) := by
  rw [get?_eq_listing _ (Place.names_child_ne_nil _ _)]
  change ((spot.trail.listing spot.base).find name).1
    = (disk.listing spot.anchor).get? ((spot.trail.map Prod.fst).reverse ++ [name])
  rw [Listing.get?_concat, Trail.listing_eq_inside h.2, h.1]

end Spot

/-- Follows the parts of a path from a spot. -/
def walk (disk : Disk) (spot : Spot) : List String → Except Fault Target
  | [] => .ok ⟨spot.place, true⟩
  | part :: rest =>
    if part = "" || part = "." then walk disk spot rest
    else if part = ".." then walk disk (spot.parent disk) rest
    else if longestName < part.utf8ByteSize then .error .nameTooLong
    else
      let (entry, inner) := spot.child part
      if rest = [] then .ok ⟨inner.place, false⟩
      else match entry with
        | none =>
          if rest.all (· = "") then .ok ⟨inner.place, true⟩ else .error .notFound
        | some (.file _) =>
          if rest.all (· = "") then .ok ⟨inner.place, true⟩ else .error .notFolder
        | some .folder => walk disk inner rest

/-- Keeping the listings on the way finds what looking up every place finds. -/
theorem walk_eq_follow (disk : Disk) {spot : Spot} (h : spot.IsOn disk) (parts : List String) :
    disk.walk spot parts = disk.follow spot.place parts := by
  induction parts generalizing spot with
  | nil => rfl
  | cons part rest ih =>
    simp only [walk, follow, ih h, ih h.parent, ih (h.child part), Spot.place_parent,
      Spot.place_child, h.entry_child]

/-- Where a path leads, from the working directory or from the root. -/
def locate (disk : Disk) (path : String) : Except Fault Target :=
  if path = "" then .error .notFound
  else if path.toList.contains '\x00' then .error .nulInName
  else if longestPath ≤ path.utf8ByteSize then .error .nameTooLong
  else
    let start : Anchor := if Path.isAbsolute path then .root else .above 0
    disk.walk (.atAnchor disk start) (Path.parts path)

end Disk

end Soundstage
