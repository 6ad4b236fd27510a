import Soundstage.Proofs.Asset.Lasting

/-!
# Which files a call brings up

A call to the store that succeeds brings up the file of its asset and no other one, and it asks the
generator exactly if this file was absent. Assets whose texts have one digest and one fragment have
their file in common, so that the laws here speak of paths, not of keys.
-/

namespace Soundstage

variable {R σ : Type}

namespace Store

variable {store : Store} {key other : AssetKey} {shelf shelf' : Shelf} {state state' : σ}
  {generate : σ → Except (Failure R) ByteArray × σ} {path : String}

/-- Assets that stand at one place have one path. -/
theorem pathFor_eq_of_place_eq (h : Path.IsPart store.extension)
    (hplace : Path.place (store.pathFor other) = Path.place (store.pathFor key)) :
    store.pathFor other = store.pathFor key := by
  rw [place_pathFor h, place_pathFor h] at hplace
  obtain ⟨hfolder, hname⟩ := Place.child_inj hplace
  have hrole := (Place.child_inj hfolder).2
  rw [String.append_empty, String.append_empty] at hname
  unfold pathFor
  rw [hrole, hname]

/-- A voice and a sound never have one path. -/
theorem pathFor_voice_ne_sound (h : Path.IsPart store.extension) (phrase description : String) :
    store.pathFor ⟨.voice, phrase⟩ ≠ store.pathFor ⟨.sound, description⟩ := by
  intro hpath
  have hplace := congrArg Path.place hpath
  rw [place_pathFor h, place_pathFor h] at hplace
  cases (beside_inj hplace).1

theorem Finds.congr {disk : Disk} (hpath : store.pathFor other = store.pathFor key)
    (h : store.Finds key disk) : store.Finds other disk := by
  unfold Finds at h ⊢
  rw [hpath]
  exact h

/-- A call that succeeds asks the generator exactly for what is absent. -/
theorem Ensures.state_of_ok (h : store.Ensures key generate shelf state (.ok path) shelf' state')
    (hext : Path.IsPart store.extension) (hfinds : store.Finds key shelf.disk) :
    state' = if shelf.disk.isFile (store.pathFor key) then state else (generate state).2 := by
  cases h with
  | found hf => rw [if_pos hf]
  | overtaken hno hr hf =>
      rw [isFile_of_reserve hext hfinds hr hf] at hno
      cases hno
  | answered hno _ _ hg => rw [if_neg (by simp [hno]), hg]

/-- Behind it the file of the asset is there, and of the others those that were there before. -/
theorem Ensures.isFile_of_finds
    (h : store.Ensures key generate shelf state (.ok path) shelf' state')
    (hext : Path.IsPart store.extension) (hfinds : store.Finds other shelf.disk) :
    store.Finds other shelf'.disk ∧
      (shelf'.disk.isFile (store.pathFor other) = true ↔
        shelf.disk.isFile (store.pathFor other) = true ∨
          store.pathFor key = store.pathFor other) := by
  by_cases hpath : store.pathFor key = store.pathFor other
  · have hfile := h.isFile_of_ok
    exact ⟨(finds_of_isFile hfile).congr hpath.symm, by simp [← hpath, hfile]⟩
  · -- The places that the call touches are not that of the other asset.
    have hplace : Path.place (store.pathFor other) ∉
        Path.place (store.pathFor key) :: store.scratch key shelf.temporaries := by
      intro hmem
      rcases List.mem_cons.mp hmem with heq | hmem
      · exact hpath (pathFor_eq_of_place_eq hext heq).symm
      · exact place_not_mem_scratch hext key other shelf.temporaries hmem
    have hchanges : shelf.disk.Changes shelf'.disk
        (Path.place (store.pathFor key) :: store.scratch key shelf.temporaries) := by
      rcases h.changes with hscratch | ⟨-, -, -, -, -, hboth⟩
      · exact hscratch.mono (List.subset_cons_self _ _)
      · exact hboth
    refine ⟨hfinds.of_changes hchanges hplace, ?_⟩
    simp only [hpath, or_false, Disk.isFile_iff, ← Disk.read_eq_ok_iff,
      hfinds.read_eq_ok_iff hchanges hplace]

end Store

end Soundstage
