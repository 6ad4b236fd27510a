import Soundstage.Disk.Listing
import Soundstage.Disk.Place

/-!
# The disk

A `Disk` is what is known to stand somewhere: a file or a folder at each of finitely many places,
with a listing for each anchor. The view of a disk is `Disk.get?`, and every operation is described
by what it does to that view. The anchors are folders; nothing else is found in the folders above
the working directory but what was put there.
-/

namespace Soundstage

/-- What stands at the places below each anchor, each anchor at most once. -/
structure Disk where
  listings : List (Anchor × Listing) := []

namespace Disk

/-- The places below an anchor. -/
def listing (disk : Disk) (anchor : Anchor) : Listing :=
  ((disk.listings.find? fun l => l.1 = anchor).map Prod.snd).getD .empty

/-- The view of a disk. Every anchor is a folder. -/
def get? (disk : Disk) (place : Place) : Option Entry :=
  if place.names = [] then some .folder else (disk.listing place.anchor).get? place.names

/-- The disk with another entry, or none, at a place. -/
def set (disk : Disk) (place : Place) (entry : Option Entry) : Disk :=
  ⟨(place.anchor, (disk.listing place.anchor).put entry place.names)
    :: disk.listings.filter fun l => l.1 ≠ place.anchor⟩

/-- The disk with an entry removed. -/
def erase (disk : Disk) (place : Place) : Disk := disk.set place none

/-- The disk with an entry put at a place. -/
def put (disk : Disk) (place : Place) (entry : Entry) : Disk := disk.set place (some entry)

theorem get?_of_names_eq_nil (disk : Disk) {place : Place} (h : place.names = []) :
    disk.get? place = some .folder := if_pos h

@[simp]
theorem get?_working (disk : Disk) : disk.get? .working = some .folder := rfl

theorem get?_eq_listing (disk : Disk) {place : Place} (h : place.names ≠ []) :
    disk.get? place = (disk.listing place.anchor).get? place.names := if_neg h

theorem listing_set_self (disk : Disk) (place : Place) (entry : Option Entry) :
    (disk.set place entry).listing place.anchor
      = (disk.listing place.anchor).put entry place.names := by
  simp [set, listing]

theorem listing_set_of_ne (disk : Disk) {place : Place} {anchor : Anchor} (entry : Option Entry)
    (h : anchor ≠ place.anchor) : (disk.set place entry).listing anchor = disk.listing anchor := by
  unfold listing
  rw [set, List.find?_cons_of_neg (by simpa using h.symm), List.find?_filter]
  congr 3
  funext l
  by_cases hl : l.1 = anchor
  · simp [hl, h]
  · simp [hl]

theorem get?_set (disk : Disk) {place : Place} (entry : Option Entry) (h : place.names ≠ []) :
    (disk.set place entry).get? place = entry := by
  rw [get?_eq_listing _ h, listing_set_self, Listing.get?_put _ _ h]

theorem get?_set_of_ne (disk : Disk) {place other : Place} (entry : Option Entry)
    (h : other ≠ place) : (disk.set place entry).get? other = disk.get? other := by
  by_cases ho : other.names = []
  · rw [get?_of_names_eq_nil _ ho, get?_of_names_eq_nil _ ho]
  · rw [get?_eq_listing _ ho, get?_eq_listing _ ho]
    by_cases ha : other.anchor = place.anchor
    · have hn : other.names ≠ place.names := fun hn => h (Place.ext ha hn)
      rw [ha, listing_set_self, Listing.get?_put_of_ne _ _ hn]
    · rw [listing_set_of_ne _ _ ha]

/-- What is put is there. -/
theorem get?_put (disk : Disk) {place : Place} (entry : Entry) (h : place.names ≠ []) :
    (disk.put place entry).get? place = some entry := disk.get?_set (some entry) h

/-- Putting an entry at one place leaves all others as they are. -/
theorem get?_put_of_ne (disk : Disk) {place other : Place} (entry : Entry) (h : other ≠ place) :
    (disk.put place entry).get? other = disk.get? other := disk.get?_set_of_ne (some entry) h

end Disk

end Soundstage
