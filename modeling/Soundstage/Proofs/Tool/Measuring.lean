import Soundstage.Proofs.Json.Grammar
import Soundstage.Proofs.Json.Named
import Soundstage.Proofs.Number.Scientific
import Soundstage.Proofs.Number.Value
import Soundstage.Proofs.Text.Utf8
import Soundstage.Proofs.Tool.Watching
import Soundstage.Tool.Probe

/-!
# Measured lengths

`Probe.Reports` says without a reader which reports state which length, and `Prober.measure` answers
with a length exactly if the program that measures has ended well and its report states that length.
In every other case the file has not been measured: because giving up was requested, if the run was
cut short by that, and otherwise because measuring has failed.
-/

namespace Soundstage

open Json

variable {σ : Type}

namespace Json.Member

variable {α : Type} {read? : Tree → Option α} {member : Option Tree} {a : α}

/-- A member that may be absent has a value where it is there and is not null. -/
theorem optional_eq_some_iff : optional read? member = some (some a) ↔
    ∃ tree, member = some tree ∧ tree ≠ .null ∧ read? tree = some a := by
  unfold optional
  split
  · simp
  · simp
  · next tree hnull =>
    constructor
    · intro h
      obtain ⟨found, hfound, heq⟩ := Option.map_eq_some_iff.mp h
      exact ⟨tree, rfl, fun htree => hnull (by rw [htree]), by rw [hfound, Option.some.inj heq]⟩
    · rintro ⟨found, hfound, -, hread⟩
      obtain rfl := Option.some.inj hfound
      rw [hread, Option.map_some]

end Json.Member

theorem Json.Tree.string?_eq_some_iff {tree : Tree} {s : String} :
    tree.string? = some s ↔ tree = .ofString s := by
  constructor
  · intro h
    unfold string? at h
    split at h
    · rw [Gapped.text?_eq_some_iff.mp h]
      rfl
    · cases h
  · rintro rfl
    exact string?_ofString s

namespace Probe

variable {tree format : Tree} {text : String} {report : List UInt8} {length : Float}

/-- A report states a length: it is the JSON of a record whose member `format` is a record whose
member `duration` is a text that writes the length, which can be played. -/
def Reports (report : List UInt8) (length : Float) : Prop :=
  ∃ (tree format : Tree) (text : String), tree.IsWrittenBy (Utf8.decode report) ∧
    tree.Holds "format" (some format) ∧ format.Holds "duration" (some (.ofString text)) ∧
    Numeral.WritesDouble text.toList length ∧ Scalar.IsLength length

theorem formatLength?_eq_some_iff : formatLength? format = some (some text) ↔
    format.Holds "duration" (some (.ofString text)) := by
  unfold formatLength?
  rw [Option.bind_eq_bind, Option.bind_eq_some_iff, ← Tree.members?_eq_some_iff]
  constructor
  · rintro ⟨members, hmembers, h⟩
    split at h
    · next duration =>
      obtain ⟨value, rfl, -, hvalue⟩ := Member.optional_eq_some_iff.mp h
      rw [hmembers, Tree.string?_eq_some_iff.mp hvalue]
    · cases h
  · intro h
    exact ⟨_, h, Member.optional_eq_some_iff.mpr ⟨_, rfl, nofun, Tree.string?_ofString text⟩⟩

theorem reportedLength?_eq_some_iff : reportedLength? tree = some (some text) ↔
    ∃ format, tree.Holds "format" (some format) ∧
      format.Holds "duration" (some (.ofString text)) := by
  unfold reportedLength?
  rw [Option.bind_eq_bind, Option.bind_eq_some_iff]
  constructor
  · rintro ⟨members, hmembers, h⟩
    split at h
    · next member =>
      obtain ⟨found, hfound, heq⟩ := Option.bind_eq_some_iff.mp h
      obtain rfl := Option.join_eq_some_iff.mp (Option.some.inj heq)
      obtain ⟨format, rfl, -, hformat⟩ := Member.optional_eq_some_iff.mp hfound
      exact ⟨format, Tree.members?_eq_some_iff.mp hmembers, formatLength?_eq_some_iff.mp hformat⟩
    · cases h
  · rintro ⟨format, hformat, hduration⟩
    have hnull : format ≠ .null := by
      rintro rfl
      cases hduration
    refine ⟨_, Tree.members?_eq_some_iff.mpr hformat, ?_⟩
    exact Option.bind_eq_some_iff.mpr ⟨_, Member.optional_eq_some_iff.mpr
      ⟨format, rfl, hnull, formatLength?_eq_some_iff.mpr hduration⟩, rfl⟩

/-- A length is found where a text is found that is read as a length. -/
theorem lengthOf_eq_ok_iff_exists_text : lengthOf report = .ok length ↔ ∃ text,
    (Tree.read? (Utf8.decode report)).bind reportedLength? = some (some text) ∧
    Numeral.readFloat? (Text.trim text.toList) = some length ∧ Scalar.IsLength length := by
  constructor
  · intro h
    unfold lengthOf at h
    split at h
    · cases h
    · cases h
    · next text hreport =>
      split at h
      · cases h
      · next found hfound =>
        split at h
        · next hplayable =>
          obtain rfl := Except.ok.inj h
          exact ⟨text, hreport, hfound, hplayable⟩
        · cases h
  · rintro ⟨text, hreport, hfound, hplayable⟩
    unfold lengthOf
    rw [hreport]
    dsimp only
    rw [hfound]
    exact if_pos hplayable

/-- The length that is found in a report is the one that the report states. -/
theorem lengthOf_eq_ok_iff : lengthOf report = .ok length ↔ Reports report length := by
  rw [lengthOf_eq_ok_iff_exists_text]
  constructor
  · rintro ⟨text, hreport, hread⟩
    obtain ⟨tree, htree, hreported⟩ := Option.bind_eq_some_iff.mp hreport
    obtain ⟨format, hformat, hduration⟩ := reportedLength?_eq_some_iff.mp hreported
    obtain ⟨hwrites, hplayable⟩ := Numeral.readFloat?_trim_iff.mp hread
    exact ⟨tree, format, text, Tree.read?_eq_some_iff.mp htree, hformat, hduration, hwrites,
      hplayable⟩
  · rintro ⟨tree, format, text, hwritten, hformat, hduration, hwrites, hplayable⟩
    refine ⟨text, Option.bind_eq_some_iff.mpr ⟨tree, Tree.read?_eq_some_iff.mpr hwritten, ?_⟩,
      Numeral.readFloat?_trim_iff.mpr ⟨hwrites, hplayable⟩⟩
    exact reportedLength?_eq_some_iff.mpr ⟨format, hformat, hduration⟩

theorem Reports.unique {length' : Float} (h : Reports report length)
    (h' : Reports report length') : length = length' := by
  rw [← lengthOf_eq_ok_iff] at h h'
  exact Except.ok.inj (h.symm.trans h')

theorem Reports.isLength (h : Reports report length) :
    length.isFinite = true ∧ 0 < Binary64.value length := by
  obtain ⟨-, -, -, -, -, -, -, hlength⟩ := h
  exact Binary64.isLength_iff_value_pos.mp hlength

/-- The members of a report besides the length leave the length alone. -/
theorem reports_text {before after before' after' : List (Gapped × Tree)}
    (hlength : Scalar.IsLength length) (hbefore : OtherNames "format" before)
    (hafter : OtherNames "format" after) (hbefore' : OtherNames "duration" before')
    (hafter' : OtherNames "duration" after')
    (hreport : (Tree.record (before ++ (.ofString "format", .record (before' ++
      (.ofString "duration", .ofString (Style.plain.text length)) :: after')) :: after)).IsWrittenBy
        (Utf8.decode report)) : Reports report length :=
  ⟨_, _, Style.plain.text length, hreport, .member hbefore hafter, .member hbefore' hafter',
    Numeral.writesDouble_text hlength.1, hlength⟩

end Probe

namespace Prober

variable {prober : Prober} {programs : Programs σ} {path : String} {disk : Disk} {state : σ}
  {p : Child} {look : Look} {cancelled : Bool}

/-- What comes of measuring a file when the program that measures has been settled. -/
inductive Measures (path : String) (p : Child) (look : Look) : Except (Failure Float) Float → Prop
  /-- The program has ended well, and its report states a length. -/
  | reported {length : Float} (hended : look.ended = some (.ok (.exited 0)))
      (hreport : Probe.Reports p.output.data.toList length) : Measures path p look (.ok length)
  /-- Giving up has been requested while the program runs. -/
  | cancelled (hended : look.ended = none) (hasked : look.cancelled = true) :
      Measures path p look (.error (.cancelled ("probe '" ++ path ++ "'")))
  /-- Whatever else the program comes to. -/
  | failed {message : String}
      (hasked : ¬ (look.ended = none ∧ look.cancelled = true))
      (hreport : look.ended = some (.ok (.exited 0)) →
        ∀ length, ¬ Probe.Reports p.output.data.toList length) :
      Measures path p look (.error (.probeFailed path message))

/-- What is concluded from a report of a program that has ended by itself. -/
theorem measures_of_finished {status : ExitStatus} (hended : look.ended = some (.ok status)) :
    Measures path p look (conclude path (.ok ⟨status, p.output, p.errors⟩)) := by
  have hasked : ¬ (look.ended = none ∧ look.cancelled = true) := by
    rw [hended]
    nofun
  unfold conclude
  dsimp only
  split
  · next hsuccess =>
    obtain rfl : status = .exited 0 := of_decide_eq_true hsuccess
    cases hlength : Probe.lengthOf p.output.data.toList with
    | ok length => exact .reported hended (Probe.lengthOf_eq_ok_iff.mp hlength)
    | error reason =>
      refine .failed hasked fun _ length hreport => ?_
      rw [Probe.lengthOf_eq_ok_iff.mpr hreport] at hlength
      cases hlength
  · next hfailed =>
    refine .failed hasked fun hzero => ?_
    rw [hended] at hzero
    obtain rfl : status = .exited 0 := Except.ok.inj (Option.some.inj hzero)
    exact absurd (by decide) hfailed

/-- Measuring comes to what the decisive look at the program says. -/
theorem measures_of_decidedBy
    (h : (prober.invocation path).DecidedBy programs disk state p look) :
    Measures path p look (prober.measure programs path disk false state).outcome := by
  have hsettles := h.settles
  change Measures path p look
    (conclude path ((prober.invocation path).run programs disk false state).outcome)
  generalize ((prober.invocation path).run programs disk false state).outcome = outcome
    at hsettles ⊢
  generalize ((prober.invocation path).run programs disk false state).acts = acts at hsettles
  have hlooks : ∀ {answer}, look.ended = some answer →
      ¬ (look.ended = none ∧ look.cancelled = true) := by
    intro answer hended
    rw [hended]
    nofun
  cases hsettles with
  | finished hended => exact measures_of_finished hended
  | lost hended =>
    refine .failed (hlooks hended) fun hzero => ?_
    rw [hended] at hzero
    cases hzero
  | cancelled hended hasked => exact .cancelled hended hasked
  | overdue hended hasked =>
    refine .failed (fun hboth => ?_) fun hzero => ?_
    · rw [hasked] at hboth
      cases hboth.2
    · rw [hended] at hzero
      cases hzero

/-- Giving up has been requested before, or the program cannot be started, or measuring comes to
what the decisive look at it says. -/
theorem measure_cases (prober : Prober) (programs : Programs σ) (path : String) (disk : Disk)
    (cancelled : Bool) (state : σ) :
    (cancelled = true ∧ (prober.measure programs path disk cancelled state).outcome
        = .error (.cancelled ("probe '" ++ path ++ "'"))) ∨
      cancelled = false ∧
        ((∃ message, (prober.measure programs path disk cancelled state).outcome
          = .error (.probeFailed path message)) ∨
        ∃ p look, (prober.invocation path).DecidedBy programs disk state p look ∧
          Measures path p look (prober.measure programs path disk cancelled state).outcome) := by
  have hmeasure : (prober.measure programs path disk cancelled state).outcome
      = conclude path ((prober.invocation path).run programs disk cancelled state).outcome := rfl
  obtain ⟨-, ⟨rfl, hcancelled⟩ | ⟨rfl, name, fault, hfailed⟩⟩ | ⟨rfl, p, state', hstarts⟩ :=
    (prober.invocation path).run_cases programs disk cancelled state
  · exact .inl ⟨rfl, by rw [hmeasure, hcancelled]; rfl⟩
  · exact .inr ⟨rfl, .inl ⟨_, by rw [hmeasure, hfailed]; rfl⟩⟩
  · obtain ⟨look, hdecided⟩ := hstarts.exists_decidedBy
    exact .inr ⟨rfl, .inr ⟨p, look, hdecided, measures_of_decidedBy hdecided⟩⟩

theorem measure_eq_ok_iff {length : Float} :
    (prober.measure programs path disk cancelled state).outcome = .ok length ↔
      cancelled = false ∧ ∃ p look,
        (prober.invocation path).DecidedBy programs disk state p look ∧
        look.ended = some (.ok (.exited 0)) ∧ Probe.Reports p.output.data.toList length := by
  constructor
  · intro h
    obtain ⟨-, hcancelled⟩ | ⟨hfree, ⟨message, hfailed⟩ | ⟨p, look, hdecided, hmeasures⟩⟩ :=
      measure_cases prober programs path disk cancelled state
    · rw [h] at hcancelled
      cases hcancelled
    · rw [h] at hfailed
      cases hfailed
    · rw [h] at hmeasures
      cases hmeasures with
      | reported hended hreport => exact ⟨hfree, p, look, hdecided, hended, hreport⟩
  · rintro ⟨rfl, p, look, hdecided, hended, hreport⟩
    have hmeasures := measures_of_decidedBy hdecided
    generalize (prober.measure programs path disk false state).outcome = outcome at hmeasures ⊢
    cases hmeasures with
    | reported _ hfound => rw [hreport.unique hfound]
    | cancelled hrunning =>
      rw [hended] at hrunning
      cases hrunning
    | failed _ hnone => exact absurd hreport (hnone hended length)

theorem measure_eq_cancelled_iff :
    (prober.measure programs path disk cancelled state).outcome
        = .error (.cancelled ("probe '" ++ path ++ "'")) ↔
      cancelled = true ∨ ∃ p look,
        (prober.invocation path).DecidedBy programs disk state p look ∧
        look.ended = none ∧ look.cancelled = true := by
  constructor
  · intro h
    obtain ⟨hasked, -⟩ | ⟨-, ⟨message, hfailed⟩ | ⟨p, look, hdecided, hmeasures⟩⟩ :=
      measure_cases prober programs path disk cancelled state
    · exact .inl hasked
    · rw [h] at hfailed
      cases hfailed
    · rw [h] at hmeasures
      cases hmeasures with
      | cancelled hended hasked => exact .inr ⟨p, look, hdecided, hended, hasked⟩
  · intro h
    cases cancelled with
    | true => rfl
    | false =>
      obtain hfalse | ⟨p, look, hdecided, hended, hasked⟩ := h
      · cases hfalse
      · have hmeasures := measures_of_decidedBy hdecided
        generalize (prober.measure programs path disk false state).outcome = outcome
          at hmeasures ⊢
        cases hmeasures with
        | reported hfinished =>
          rw [hended] at hfinished
          cases hfinished
        | cancelled => rfl
        | failed hnot => exact absurd ⟨hended, hasked⟩ hnot

theorem failure_of_measure {failure : Failure Float}
    (h : (prober.measure programs path disk cancelled state).outcome = .error failure) :
    (∃ message, failure = .probeFailed path message) ∨
      failure = .cancelled ("probe '" ++ path ++ "'") := by
  obtain ⟨-, hcancelled⟩ | ⟨-, ⟨message, hfailed⟩ | ⟨p, look, -, hmeasures⟩⟩ :=
    measure_cases prober programs path disk cancelled state
  · rw [h] at hcancelled
    exact .inr (Except.error.inj hcancelled)
  · rw [h] at hfailed
    exact .inl ⟨message, Except.error.inj hfailed⟩
  · rw [h] at hmeasures
    cases hmeasures with
    | cancelled => exact .inr rfl
    | failed => exact .inl ⟨_, rfl⟩

/-- **Measured lengths.** Whatever a program does that measures a file, the file gets a length
exactly if the program ends well and its report states that length, which is finite and above zero.
A report states a length whatever else its records hold. Otherwise measuring has failed, unless the
run was cut short by a request to give up. -/
theorem measure_reports_length (prober : Prober) (programs : Programs σ) (path : String)
    (disk : Disk) (cancelled : Bool) (state : σ) :
    (∀ length, (prober.measure programs path disk cancelled state).outcome = .ok length ↔
      cancelled = false ∧ ∃ p look,
        (prober.invocation path).DecidedBy programs disk state p look ∧
        look.ended = some (.ok (.exited 0)) ∧ Probe.Reports p.output.data.toList length) ∧
    (∀ length, (prober.measure programs path disk cancelled state).outcome = .ok length →
      length.isFinite = true ∧ 0 < Binary64.value length) ∧
    (∀ failure, (prober.measure programs path disk cancelled state).outcome = .error failure →
      (∃ message, failure = .probeFailed path message) ∨
        failure = .cancelled ("probe '" ++ path ++ "'")) ∧
    ((prober.measure programs path disk cancelled state).outcome
        = .error (.cancelled ("probe '" ++ path ++ "'")) ↔
      cancelled = true ∨ ∃ p look,
        (prober.invocation path).DecidedBy programs disk state p look ∧
        look.ended = none ∧ look.cancelled = true) ∧
    ∀ (length : Float) (before after before' after' : List (Gapped × Tree)) (report : String),
      length.isFinite = true → 0 < Binary64.value length →
      OtherNames "format" before → OtherNames "format" after →
      OtherNames "duration" before' → OtherNames "duration" after' →
      (Tree.record (before ++ (.ofString "format", .record (before' ++
        (.ofString "duration", .ofString (Style.plain.text length)) :: after')) :: after)).IsWrittenBy
          (.ofString report) →
      Probe.Reports report.toUTF8.data.toList length := by
  refine ⟨fun length => measure_eq_ok_iff, fun length h => ?_, fun failure => failure_of_measure,
    measure_eq_cancelled_iff, ?_⟩
  · obtain ⟨-, p, look, -, -, hreport⟩ := measure_eq_ok_iff.mp h
    exact hreport.isLength
  · intro length before after before' after' report hfinite hpos hbefore hafter hbefore' hafter'
      hreport
    rw [← Utf8.decode_toUTF8] at hreport
    exact Probe.reports_text (Binary64.isLength_iff_value_pos.mpr ⟨hfinite, hpos⟩) hbefore hafter
      hbefore' hafter' hreport

end Prober

/-- A report with more than the length in it, and with blanks. -/
def wordyReport : String :=
  "\x7b \"format\" : \x7b\"size\": 7, \"duration\": \"2.5\"\x7d,\n \"streams\": [null] \x7d\n"

/-- A program that writes that report and ends well. -/
def wordyChild : Child where
  looks := []
  last := .ok (.exited 0)
  output := wordyReport.toUTF8
  errors := .empty
  disk := {}

/-- A program that is started as that child, whatever it is called. -/
def wordyPrograms : Programs Unit where
  answers _ _ := true
  start _ _ _ _ := (.ok wordyChild, ())

theorem Prober.decidedBy_wordy :
    (({} : Prober).invocation "a.opus").DecidedBy wordyPrograms {} () wordyChild
      ⟨some (.ok (.exited 0)), false, 0⟩ where
  starts := by
    refine ⟨(), ?_, by decide, rfl⟩
    rw [Invocation.isPassable_eq]
    decide
  first := ⟨[], [], rfl, nofun, .inl ⟨_, rfl⟩⟩

/-- The length is found between everything else, and not if giving up was requested before. -/
theorem Prober.measure_reports_length_wordy :
    Probe.Reports wordyReport.toUTF8.data.toList 2.5 ∧
    (({} : Prober).measure wordyPrograms "a.opus" {} false ()).outcome = .ok 2.5 ∧
    (({} : Prober).measure wordyPrograms "a.opus" {} true ()).outcome
      = .error (.cancelled "probe 'a.opus'") := by
  have htext : Style.plain.text 2.5 = "2.5" := by decide
  have hlength : Scalar.IsLength (2.5 : Float) := by decide
  obtain ⟨hfinite, hpos⟩ := Binary64.isLength_iff_value_pos.mp hlength
  obtain ⟨hok, -, -, -, hreports⟩ :=
    measure_reports_length {} wordyPrograms "a.opus" {} false ()
  obtain ⟨-, -, -, hcancelled, -⟩ := measure_reports_length {} wordyPrograms "a.opus" {} true ()
  have hreport : Probe.Reports wordyReport.toUTF8.data.toList 2.5 := by
    refine hreports 2.5 [] [(.ofString "streams", .list [.null])]
      [(.ofString "size", .number ['7'])] [] wordyReport hfinite hpos nofun ?_ ?_ nofun ?_
    · intro member hmember
      rw [List.mem_singleton.mp hmember]
      exact ⟨"streams", rfl, by decide⟩
    · intro member hmember
      rw [List.mem_singleton.mp hmember]
      exact ⟨"size", rfl, by decide⟩
    · rw [htext]
      exact Tree.read?_eq_some_iff.mp rfl
  exact ⟨hreport, (hok 2.5).mpr ⟨rfl, wordyChild, _, decidedBy_wordy, rfl, hreport⟩,
    hcancelled.mpr (.inl rfl)⟩

end Soundstage
