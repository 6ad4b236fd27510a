import Mathlib
import Soundstage.Proofs.Json.Saved
import Soundstage.Settings.File

/-!
# Saved values are kept

Settings are kept member by member, where a member that is absent has a value of its own. With them
every kind of value that is saved is kept by its compact text.
-/

namespace Soundstage

open Json Json.Tree

/-! ## Settings -/

namespace Limits

/-- Limits are counts of 64 bits. -/
def IsInRange (l : Limits) : Prop :=
  l.generate < countBound ∧ l.probe < countBound ∧ l.render < countBound

theorem isInRange_absent : ({} : Limits).IsInRange := ⟨by decide, by decide, by decide⟩

theorem keepsMember_limit {absent : ℕ} (h : absent < countBound) :
    KeepsMember ofNat (Member.orElse (count? countBound) absent) (fun _ => []) (· < countBound) :=
  (keeps_count countBound).orElse ⟨h, fun _ hx => absurd hx List.not_mem_nil⟩

theorem ofTree?_tree (l : Limits) : ofTree? l.tree = (do
    return ⟨← count? countBound (ofNat l.generate), ← count? countBound (ofNat l.probe),
      ← count? countBound (ofNat l.render)⟩ : Option Limits) := by
  simp only [tree, ofTree?]
  rw [members?_ofMembers]
  case hnames => rfl
  case hnodup => decide
  simp

theorem keeps_limits : Keeps tree ofTree? (fun _ => []) IsInRange where
  isWritten l := isWritten_ofMembers (by simp [isWritten_ofNat])
  back {l} hrange _ _ := by
    obtain ⟨hgenerate, hprobe, hrender⟩ := hrange
    rw [ofTree?_tree, count?_ofNat hgenerate, count?_ofNat hprobe, count?_ofNat hrender]
    rfl
  isFinite_of_back _ _ hx := absurd hx List.not_mem_nil
  accepted {saved l} h := by
    simp only [ofTree?, Option.bind_eq_bind, Option.bind_eq_some_iff] at h
    obtain ⟨members, -, h⟩ := h
    split at h
    · simp only [Option.bind_eq_some_iff, Option.pure_def, Option.some.injEq] at h
      obtain ⟨_, hgenerate, _, hprobe, _, hrender, rfl⟩ := h
      refine ⟨⟨?_, ?_, ?_⟩, fun _ hx => absurd hx List.not_mem_nil⟩
      · exact ((keepsMember_limit (by decide)).accepted hgenerate).1
      · exact ((keepsMember_limit (by decide)).accepted hprobe).1
      · exact ((keepsMember_limit (by decide)).accepted hrender).1
    · exact absurd h (by simp)

end Limits

namespace Encoding

theorem keeps_encoding :
    Keeps tree ofTree? (fun _ => []) fun e => e.sampleRate < sampleRateBound :=
  (((keeps_count sampleRateBound).orElse ⟨by decide, by simp⟩).pair
    (keeps_string.orElse ⟨trivial, by simp⟩) (fun _ => rfl) (fun _ _ => ⟨rfl, rfl⟩) (by decide)
    true).congr (by simp)

end Encoding

namespace Account

/-- The double of an account. -/
def numbers (a : Account) : List Float := [a.influence]

theorem ofTree?_tree (a : Account) : ofTree? a.tree =
    (float? (ofFloat a.influence)).map fun influence => { a with influence := influence } := by
  simp only [tree, ofTree?]
  rw [members?_ofMembers]
  case hnames => rfl
  case hnodup => decide
  simp [Option.map_eq_bind]

theorem keeps_account : Keeps tree ofTree? numbers fun _ => True where
  isWritten a := isWritten_ofMembers (by
    simp [isWritten_ofString, isWritten_ofOption, isWritten_ofFloat])
  back {a} _ hfinite hback := by
    simp only [numbers, List.forall_mem_singleton] at hfinite hback
    rw [ofTree?_tree, float?_ofFloat hfinite hback]
    rfl
  isFinite_of_back {a b} h := by
    rw [ofTree?_tree] at h
    obtain ⟨_, hinfluence, -⟩ := Option.map_eq_some_iff.mp h
    simpa [numbers] using isFinite_of_ofFloat hinfluence
  accepted {saved a} h := by
    simp only [ofTree?, Option.bind_eq_bind, Option.bind_eq_some_iff] at h
    obtain ⟨members, -, h⟩ := h
    split at h
    · simp only [Option.bind_eq_some_iff, Option.pure_def, Option.some.injEq] at h
      obtain ⟨_, -, _, -, _, -, _, -, _, hinfluence, _, -, rfl⟩ := h
      have habsent : ∀ x ∈ [({} : Account).influence], x.isFinite = true := by decide +kernel
      exact ⟨trivial, ((keeps_float.orElse ⟨trivial, habsent⟩).accepted hinfluence).2⟩
    · exact absurd h (by simp)

end Account

namespace Settings

/-- The double of settings. -/
def numbers (s : Settings) : List Float := s.account.numbers

/-- Counts of 64 bits and a sample rate of 32 bits. -/
def IsInRange (s : Settings) : Prop :=
  s.workers < countBound ∧ s.limits.IsInRange ∧ s.encoding.sampleRate < Encoding.sampleRateBound

theorem ofTree?_tree (workers : ℕ) (s : Settings) : ofTree? workers s.tree = (do
    return ⟨s.runFolder, s.assetFolder, s.assetExtension, ← count? countBound (ofNat s.workers),
      ← Limits.ofTree? s.limits.tree, ← Encoding.ofTree? s.encoding.tree,
      ← Account.ofTree? s.account.tree⟩ : Option Settings) := by
  simp only [tree, ofTree?]
  rw [members?_ofMembers]
  case hnames => rfl
  case hnodup => decide
  simp

theorem keeps_settings {workers : ℕ} (h : workers < countBound) :
    Keeps tree (ofTree? workers) numbers IsInRange where
  isWritten s := isWritten_ofMembers (by
    simp [isWritten_ofString, isWritten_ofOption, isWritten_ofNat,
      Limits.keeps_limits.isWritten s.limits, Encoding.keeps_encoding.isWritten s.encoding,
      Account.keeps_account.isWritten s.account])
  back {s} hrange hfinite hback := by
    obtain ⟨hworkers, hlimits, hencoding⟩ := hrange
    rw [ofTree?_tree, count?_ofNat hworkers, Limits.keeps_limits.back hlimits (by simp) (by simp),
      Encoding.keeps_encoding.back hencoding (by simp) (by simp),
      Account.keeps_account.back trivial hfinite hback]
    rfl
  isFinite_of_back {s t} ht := by
    simp only [ofTree?_tree, Option.bind_eq_bind, Option.bind_eq_some_iff] at ht
    obtain ⟨_, -, _, -, _, -, _, haccount, -⟩ := ht
    exact Account.keeps_account.isFinite_of_back haccount
  accepted {saved s} hs := by
    simp only [ofTree?, Option.bind_eq_bind, Option.bind_eq_some_iff] at hs
    obtain ⟨members, -, hs⟩ := hs
    split at hs
    · simp only [Option.bind_eq_some_iff, Option.pure_def, Option.some.injEq] at hs
      obtain ⟨_, -, _, -, _, -, _, hworkers, _, hlimits, _, hencoding, _, haccount, rfl⟩ := hs
      have hrange := ((keeps_count countBound).orElse ⟨h, by simp⟩).accepted hworkers
      have habsent := Limits.isInRange_absent
      have hlimits := (Limits.keeps_limits.orElse ⟨habsent, by simp⟩).accepted hlimits
      have hencoding := (Encoding.keeps_encoding.orElse ⟨by decide, by simp⟩).accepted hencoding
      have hnumbers : ∀ x ∈ ({} : Account).numbers, x.isFinite = true := by decide +kernel
      have haccount := (Account.keeps_account.orElse ⟨trivial, hnumbers⟩).accepted haccount
      exact ⟨⟨hrange.1, hlimits.1, hencoding.1⟩, haccount.2⟩
    · exact absurd hs (by simp)

end Settings

/-! ## All saved values -/

/-- Commands, lines, clips, timelines, plans and settings are kept by their texts, and a double that
is not finite is written as null. -/
theorem saved_values_are_kept :
    (∀ x : Float, x.isFinite = false → (ofFloat x).compact = "null".toList) ∧
    IsKept (Saved.text (α := Command Float)) Saved.read? Command.numbers (fun _ => True) ∧
    IsKept (Saved.text (α := ScriptLine Float)) Saved.read? ScriptLine.numbers
      (fun l => l.line < countBound) ∧
    IsKept (Saved.text (α := Segment Float)) Saved.read? Segment.numbers (fun _ => True) ∧
    IsKept (Saved.text (α := Timeline Float)) Saved.read? Timeline.numbers (fun _ => True) ∧
    IsKept (Saved.text (α := MixPlan)) Saved.read? MixPlan.numbers (fun _ => True) ∧
    ∀ workers < countBound,
      IsKept Settings.text (Settings.read? workers) Settings.numbers Settings.IsInRange := by
  refine ⟨fun x hx => ?_, ?_, ?_, ?_, ?_, ?_, fun workers hworkers => ?_⟩
  · rw [ofFloat_of_not_isFinite hx]
    rfl
  · exact (Command.keeps_command (by decide)).isKept
  · exact keeps_line.isKept
  · exact keeps_segment.isKept
  · exact keeps_timeline.isKept
  · exact keeps_plan.isKept
  · exact (Settings.keeps_settings hworkers).isKept

/-- A line with a quote, a line end and a letter beyond ASCII, a clip with the negative zero and the
least positive double, a pause whose length is not a number, settings of four workers, and a pause
that another program has saved with its members turned round and a whole number. -/
theorem rain_is_kept :
    let line : ScriptLine Float := ⟨7, .sound (-0.25) 2.5 "rain \"on\" the café\n"⟩
    let clip : Segment Float := ⟨"assets/rain.opus", -0.0, 5e-324, 0.1⟩
    let broken : Command Float := .wait (0.0 / 0.0)
    let settings : Settings := { workers := 4 }
    let pause : Command Float := .wait 3.0
    Saved.read? (Saved.text line) = some line ∧ Saved.read? (Saved.text clip) = some clip ∧
      Saved.read? (α := Command Float) (Saved.text broken) = none ∧
      Settings.read? 8 settings.text = some settings ∧
      Saved.read? "\x7b\"secs\":3,\"kind\":\"wait\"\x7d" = some pause ∧
      Saved.read? (Saved.text pause) = some pause := by
  intro line clip broken settings pause
  obtain ⟨-, hcommand, hline, hsegment, -, -, hsettings⟩ := saved_values_are_kept
  have hpause : Saved.read? "\x7b\"secs\":3,\"kind\":\"wait\"\x7d" = some pause := by
    decide +kernel
  refine ⟨?_, ?_, ?_, ?_, hpause, ?_⟩
  · exact hline.read_text line (by decide) (by decide +kernel) (by decide +kernel)
  · exact hsegment.read_text clip trivial (by decide +kernel) (by decide +kernel)
  · exact hcommand.refused broken ⟨0.0 / 0.0, List.mem_singleton.mpr rfl, by decide +kernel⟩
  · exact (hsettings 8 (by decide)).read_text settings
      ⟨by decide, Limits.isInRange_absent, by decide⟩ (by decide +kernel) (by decide +kernel)
  · exact hcommand.again _ pause hpause (by decide +kernel)

end Soundstage
