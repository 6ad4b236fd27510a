import Soundstage.Proofs.Disk.Changes
import Soundstage.Proofs.Disk.Sibling
import Soundstage.Proofs.Asset.Keeping
import Soundstage.Proofs.Asset.Naming
import Soundstage.Proofs.Tool.Watching
import Soundstage.Tool.Render

/-!
# Rendering is all or nothing

A renderer lets its program write to a partial file beside the goal and moves this file into place
only when the program has reported that all went well. However a run ends, the partial file is gone
behind it: it has become the goal, or it has been removed. What is assumed of the program is that
it leaves alone everything but the file that its last argument names.
-/

namespace Soundstage

variable {σ : Type}

namespace Path

end Path

namespace Store

variable {disk : Disk} {path : String} {content : ByteArray}

end Store

namespace Renderer

variable {r : Renderer} {programs : Programs σ} {plan : MixPlan} {out : String} {disk : Disk}
  {cancelled : Bool} {state : σ}

theorem moveIntoPlace_eq_ok {source goal : String} {moved : Disk}
    (h : moveIntoPlace source goal disk = .ok moved) : disk.rename source goal = .ok moved := by
  unfold moveIntoPlace at h
  cases hrename : disk.rename source goal with
  | error fault =>
      rw [hrename] at h
      cases h
  | ok renamed =>
      rw [hrename] at h
      cases h
      rfl

end Renderer

namespace Disk

variable {disk disk' : Disk} {paths : List String} {path : String}

/-- Folders that are added do not change what a path has led to. -/
theorem AddsFoldersAt.look (h : disk.AddsFoldersAt disk' paths) {entry : Entry}
    (hlook : disk.look path = .ok entry) : disk'.look path = .ok entry := by
  rw [look_eq_ok_iff] at hlook ⊢
  obtain ⟨hr, hg, hentry⟩ := hlook
  refine ⟨hr.mono h.addsFolders.keepsFolders, ?_, hentry⟩
  rcases h (Path.place path) with hsame | ⟨hnone, -⟩
  · rw [hsame, hg]
  · rw [hg] at hnone
    cases hnone

/-- What looks the same as a disk with folders added has these folders added. -/
theorem AddsFoldersAt.congr {disk'' : Disk} (h : disk.AddsFoldersAt disk' paths)
    (hsame : ∀ place, disk''.get? place = disk'.get? place) :
    disk.AddsFoldersAt disk'' paths := by
  intro place
  rw [hsame place]
  exact h place

end Disk

/-- A program that writes one byte to its last argument and reports that all went well. -/
def writingPrograms : Programs Unit where
  answers _ _ := true
  start _ arguments disk _ :=
    match arguments.getLast? with
    | none => (.error .notFound, ())
    | some last =>
      match disk.write last ⟨#[1]⟩ with
      | .error fault => (.error fault, ())
      | .ok written => (.ok ⟨[], .ok (.exited 0), .empty, .empty, written⟩, ())

/-- A renderer of a process with a number, which calls `ffmpeg` without a limit of time. -/
def plainRenderer : Renderer := { process := 7 }

end Soundstage
