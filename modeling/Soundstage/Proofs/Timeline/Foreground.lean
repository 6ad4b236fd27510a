import Soundstage.Proofs.Timeline.Blame
import Soundstage.Proofs.Timeline.Ending

/-!
# The foreground of a script

Voices and sounds move the clock; background tracks only read it. So a script without its background
commands is built to the same voices and sounds at the same places, as long as the generators give
something for every call, lengths of voices depend on the phrases alone, nobody requests to give up
and the store can keep what is generated. Both builds are followed side by side, command by command:
they have the same clock, and the second has only the clips that voices and sounds have placed.
-/

namespace Soundstage

variable {R σ : Type}

/-- A command for a background track. -/
def Command.isBackground : Command R → Bool
  | .backgroundStart .. | .backgroundStop _ => true
  | _ => false

theorem Command.isForeground_of_isBackground {command : Command R}
    (h : command.isBackground = true) : command.isForeground = false := by
  cases command <;> first | rfl | cases h

/-- Generators give at least one byte for every call, as long as work is not given up. -/
structure Collaborators.Generous (c : Collaborators R σ) : Prop where
  speech : ∀ phrase state, ∃ content,
    (c.speech phrase false state).outcome = .ok content ∧ content.isEmpty = false
  sound : ∀ description hint state, ∃ content,
    (c.sound description hint false state).outcome = .ok content ∧ content.isEmpty = false

/-- Every file of a voice can be measured, and its length is given by the phrase. -/
def Setup.MeasuresVoices (setup : Setup R σ) (length : String → R) : Prop :=
  ∀ phrase disk state, disk.isFile (setup.store.pathFor ⟨.voice, phrase⟩) = true →
    (setup.collaborators.probe (setup.store.pathFor ⟨.voice, phrase⟩) disk false state).outcome
      = .ok (length phrase)

namespace Store

variable {store : Store} {key : AssetKey} {generate : σ → Except (Failure R) ByteArray × σ}
  {shelf shelf' : Shelf} {state state' : σ} {result : Except (Failure R) String}

/-- An asset that can be stored and whose generator gives something is had. -/
theorem Ensures.isOk_of_canStore (h : store.Ensures key generate shelf state result shelf' state')
    (hcan : store.CanStore R 1 shelf key)
    (hgenerate : ∃ content, (generate state).1 = .ok content ∧ content.isEmpty = false) :
    result = .ok (store.pathFor key) := by
  obtain ⟨content, hcontent, hbytes⟩ := hgenerate
  refine h.eq_ok_iff.mpr fun hf => ?_
  obtain ⟨disk, hreserve, hwrite⟩ := hcan hf
  exact ⟨disk, hreserve, fun _ => ⟨content, hcontent, hbytes, hwrite 0 Nat.one_pos content⟩⟩

end Store

namespace Build

variable {setup : Setup R σ} {s t u : Session R σ} {r : Request R}

/-- A request for an asset that can be stored is answered. -/
theorem materialize_isOk (hgenerous : setup.collaborators.Generous)
    (hquiet : s.surroundings.cancelled = false) (hcan : setup.store.CanStore R 1 s.shelf r.key) :
    ∃ t, materialize setup r s = .ok (setup.store.pathFor r.key) t := by
  obtain ⟨hensures, hm⟩ := ensures_and_materialize_eq setup r s
  have hgenerate : ∃ content,
      (setup.collaborators.generate r.key r.hint s.surroundings).1 = .ok content ∧
        content.isEmpty = false := by
    obtain ⟨⟨role, text⟩, hint, line⟩ := r
    cases role with
    | voice => simpa only [Collaborators.generate, Surroundings.ask, hquiet]
        using hgenerous.speech text _
    | sound => simpa only [Collaborators.generate, Surroundings.ask, hquiet]
        using hgenerous.sound text hint _
  rw [hensures.isOk_of_canStore hcan hgenerate] at hm
  exact ⟨_, hm⟩

variable [Scalar R] {length : String → R} {lines shorter : List (ScriptLine R)}
  {line line' : ScriptLine R} {p q p' : Progress R} {s' v : Session R σ}

/-- The clips that voices and sounds place in a run of commands, in their order. -/
def foreground (setup : Setup R σ) :
    List (ScriptLine R) → Progress R → Session R σ → List (Segment R)
  | [], _, _ => []
  | line :: rest, p, s =>
    match step setup p line s with
    | .ok q t =>
      (if line.command.isForeground then q.segments.toList.drop p.segments.size else [])
        ++ foreground setup rest q t
    | .error _ _ => []

/-- They are among the clips that the run places. -/
theorem foreground_sublist (h : lines.foldlM (step setup) p s = .ok q t) :
    ∃ placed, q.segments.toList = p.segments.toList ++ placed ∧
      (foreground setup lines p s).Sublist placed := by
  induction lines generalizing p s with
  | nil =>
      cases h
      exact ⟨[], (List.append_nil _).symm, .refl _⟩
  | cons line rest ih =>
      rw [List.foldlM_cons] at h
      obtain ⟨next, u, hstep, hrest⟩ := Work.bind_eq_ok.mp h
      obtain ⟨first, hfirst⟩ := exists_segments_of_step hstep
      obtain ⟨others, hothers, hsub⟩ := ih hrest
      refine ⟨first ++ others, by rw [hothers, hfirst, List.append_assoc], ?_⟩
      unfold foreground
      simp only [hstep]
      refine List.Sublist.append ?_ hsub
      split
      · rw [hfirst, ← Array.length_toList, List.drop_left]
      · exact List.nil_sublist _

/-- Commands for background tracks do not move the clock. -/
theorem clock_of_background (hline : line.command.isBackground = true)
    (h : step setup p line s = .ok q t) : q.clock = p.clock := by
  obtain ⟨next, u, -, happly, rfl⟩ := step_eq_ok_iff.mp h
  obtain ⟨number, command⟩ := line
  cases command with
  | backgroundStart pan description =>
      obtain ⟨-, -, rfl⟩ := apply_backgroundStart_eq_ok_iff.mp happly
      rfl
  | backgroundStop description =>
      obtain ⟨track, -, hflush⟩ := apply_backgroundStop_eq_ok_iff.mp happly
      obtain ⟨placed, loops, rfl⟩ := exists_clips_of_flush hflush
      rfl
  | _ => cases hline

omit [Scalar R] in
/-- The file that a voice has been answered with is measured. -/
theorem exists_probe_voice {phrase path : String} {hint : Option R} {number : Nat}
    (hcalm : setup.collaborators.Calm) (hvoices : setup.MeasuresVoices length)
    (hquiet : s.surroundings.cancelled = false)
    (hmade : materialize setup ⟨⟨.voice, phrase⟩, hint, number⟩ s = .ok path t) :
    ∃ u, Work.probe setup.collaborators (setup.store.pathFor ⟨.voice, phrase⟩) t
      = .ok (length phrase) u := by
  have hquiet' := Work.upto_of_ok hmade ((upholds_quiet hcalm).materialize _ s) hquiet
  have hask : (t.surroundings.ask (.probe (setup.store.pathFor ⟨.voice, phrase⟩))
      (setup.collaborators.probe (setup.store.pathFor ⟨.voice, phrase⟩) t.shelf.disk)).1
        = .ok (length phrase) := by
    have hmeasured := hvoices phrase _ t.surroundings.state (isFile_of_materialize hmade)
    simpa only [Surroundings.ask, hquiet'] using hmeasured
  unfold Work.probe
  split
  · next secs surroundings heq =>
      rw [heq] at hask
      cases hask
      exact ⟨_, rfl⟩
  · next failure surroundings heq =>
      rw [heq] at hask
      cases hask

omit [Scalar R] in
theorem exists_checkpoint (hcalm : setup.collaborators.Calm)
    (hs : s.surroundings.cancelled = false) (what : String) :
    ∃ t, Work.checkpoint setup.collaborators what s = .ok () t := by
  unfold Work.checkpoint
  simp [hs, hcalm.meanwhile]

/-- A voice, a sound or a pause does the same to two builds that have the same clock. -/
theorem exists_step_beside {before : List (ScriptLine R)} (hcalm : setup.collaborators.Calm)
    (hgenerous : setup.collaborators.Generous) (hvoices : setup.MeasuresVoices length)
    (hstores : ∀ r u, Asked setup shorter s' r u → setup.store.CanStore R 1 u.shelf r.key)
    (hcomes : ComesTo setup shorter s' before line' p' t)
    (hquiet : t.surroundings.cancelled = false) (hcommand : line'.command = line.command)
    (hline : line.command.isBackground = false) (hclock : p'.clock = p.clock)
    (h : step setup p line s = .ok q u) :
    ∃ q' u' placed, step setup p' line' t = .ok q' u' ∧ q'.clock = q.clock ∧ q'.live = p'.live ∧
      (line.command.isForeground = false → placed = []) ∧
      q.segments.toList = p.segments.toList ++ placed ∧
      q'.segments.toList = p'.segments.toList ++ placed := by
  obtain ⟨next, u₀, hcheck₀, happly, rfl⟩ := step_eq_ok_iff.mp h
  have hquiet₀ := not_cancelled_of_checkpoint hcheck₀
  obtain ⟨v, hcheck⟩ := exists_checkpoint hcalm hquiet "timeline build"
  have hquiet' := not_cancelled_of_checkpoint hcheck
  have hgo : ∀ {next' : Progress R} {w : Session R σ}, apply setup p' line' v = .ok next' w →
      step setup p' line' t = .ok { next' with report :=
        { next'.report with commands := next'.report.commands + 1 } } w :=
    fun happly' => step_eq_ok_iff.mpr ⟨_, v, hcheck, happly', rfl⟩
  have hmade : ∀ {r : Request R}, line'.request? = some r →
      ∃ w, materialize setup r v = .ok (setup.store.pathFor r.key) w :=
    fun hr => materialize_isOk hgenerous hquiet' (hstores _ v (.command hcomes hr hcheck))
  obtain ⟨number, command⟩ := line
  obtain ⟨number', command'⟩ := line'
  obtain rfl : command' = command := hcommand
  cases command' with
  | voice pan phrase =>
      obtain ⟨u₁, secs, hmade₀, hmeasure, rfl⟩ := apply_voice_eq_ok_iff.mp happly
      obtain ⟨hprobe, hlength⟩ := measure_eq_ok_iff.mp hmeasure
      obtain ⟨_, hsame⟩ := exists_probe_voice hcalm hvoices hquiet₀ hmade₀
      rw [hprobe] at hsame
      cases hsame
      obtain ⟨w, hpath⟩ := hmade rfl
      obtain ⟨x, hprobe'⟩ := exists_probe_voice hcalm hvoices hquiet' hpath
      have hmeasure' : measure setup (setup.store.pathFor ⟨.voice, phrase⟩) number' w
          = .ok (length phrase) x := measure_eq_ok_iff.mpr ⟨hprobe', hlength⟩
      have happly' : apply setup p' ⟨number', .voice pan phrase⟩ v = .ok _ x :=
        apply_voice_eq_ok_iff.mpr ⟨w, _, hpath, hmeasure', rfl⟩
      exact ⟨_, x, _, hgo happly', by simp [Progress.play, hclock], rfl,
        (fun hnone => by cases hnone), Array.toList_push, by
          rw [← hclock]
          exact Array.toList_push⟩
  | sound pan duration description =>
      obtain ⟨hlength, -, rfl⟩ := apply_sound_eq_ok_iff.mp happly
      obtain ⟨w, hpath⟩ := hmade rfl
      have happly' : apply setup p' ⟨number', .sound pan duration description⟩ v = .ok _ w :=
        apply_sound_eq_ok_iff.mpr ⟨hlength, hpath, rfl⟩
      exact ⟨_, w, _, hgo happly', by simp [Progress.play, hclock], rfl,
        (fun hnone => by cases hnone), Array.toList_push, by
          rw [← hclock]
          exact Array.toList_push⟩
  | wait duration =>
      obtain ⟨hpause, rfl, -⟩ := apply_wait_eq_ok_iff.mp happly
      have happly' : apply setup p' ⟨number', .wait duration⟩ v = .ok _ v :=
        apply_wait_eq_ok_iff.mpr ⟨hpause, rfl, rfl⟩
      exact ⟨_, v, [], hgo happly', by simp [hclock], rfl, fun _ => rfl, by simp, by simp⟩
  | backgroundStart pan description => cases hline
  | backgroundStop description => cases hline

/-- The two builds go on side by side, by induction on the commands of the first. -/
theorem exists_run_beside {rest rest' before : List (ScriptLine R)}
    (hcalm : setup.collaborators.Calm) (hgenerous : setup.collaborators.Generous)
    (hvoices : setup.MeasuresVoices length)
    (hstores : ∀ r u, Asked setup shorter s' r u → setup.store.CanStore R 1 u.shelf r.key)
    (hc : checkStructure shorter = .ok ()) (hopens : Opens setup shorter s' v)
    (hlines : shorter = before ++ rest') (hbefore : commands setup before v = .ok p' t)
    (hquiet : t.surroundings.cancelled = false) (hclock : p'.clock = p.clock)
    (hrest : rest'.map (·.command)
      = (rest.filter fun line => !line.command.isBackground).map (·.command))
    (h : rest.foldlM (step setup) p s = .ok q u) :
    ∃ q' u', rest'.foldlM (step setup) p' t = .ok q' u' ∧ q'.clock = q.clock ∧
      q'.live = p'.live ∧
      q'.segments.toList = p'.segments.toList ++ foreground setup rest p s := by
  induction rest generalizing rest' before p p' s t with
  | nil =>
      cases h
      obtain rfl := List.map_eq_nil_iff.mp hrest
      exact ⟨p', t, rfl, hclock, rfl, (List.append_nil _).symm⟩
  | cons line rest ih =>
      rw [List.foldlM_cons] at h
      obtain ⟨next, u₁, hstep, hgo⟩ := Work.bind_eq_ok.mp h
      cases hline : line.command.isBackground with
      | true =>
          rw [List.filter_cons_of_neg (by simp [hline])] at hrest
          have hsame := clock_of_background hline hstep
          obtain ⟨q', u', hrun, hclock', hlive, hsegments⟩ :=
            ih hlines hbefore hquiet (hclock.trans hsame.symm) hrest hgo
          refine ⟨q', u', hrun, hclock', hlive, ?_⟩
          have hnone := Command.isForeground_of_isBackground hline
          unfold foreground
          simpa only [hstep, hnone, Bool.false_eq_true, if_false, List.nil_append] using hsegments
      | false =>
          rw [List.filter_cons_of_pos (by simp [hline]), List.map_cons] at hrest
          obtain ⟨line', rest'', rfl, hcommand, hrest⟩ := List.map_eq_cons_iff.mp hrest
          have hcomes : ComesTo setup shorter s' before line' p' t :=
            ⟨hc, hlines, hopens, hbefore⟩
          obtain ⟨p₁, t₁, placed, hstep', hclock₁, hlive₁, hnone, hplaced, hplaced'⟩ :=
            exists_step_beside hcalm hgenerous hvoices hstores hcomes hquiet hcommand hline hclock
              hstep
          have hquiet₁ := Work.upto_of_ok hstep' (upholds_step (upholds_quiet hcalm) p' line' t)
            hquiet
          have hlines₁ : shorter = (before ++ [line']) ++ rest'' := by
            rw [hlines, List.append_assoc, List.singleton_append]
          obtain ⟨q', u', hrun, hclock', hlive, hsegments⟩ := ih hlines₁
            (commands_concat_eq_ok.mpr ⟨p', t, hbefore, hstep'⟩) hquiet₁ hclock₁ hrest hgo
          refine ⟨q', u', ?_, hclock', hlive.trans hlive₁, ?_⟩
          · rw [List.foldlM_cons, Work.bind_apply_of_ok hstep']
            exact hrun
          · have hclips : (if line.command.isForeground then
                next.segments.toList.drop p.segments.size else []) = placed := by
              split
              · rw [hplaced, ← Array.length_toList, List.drop_left]
              · next hforeground => exact (hnone (by simpa using hforeground)).symm
            unfold foreground
            simp only [hstep, hclips]
            rw [hsegments, hplaced', List.append_assoc]

/-- Workers whose requests are all answered do not fail, so that the first command is come to. -/
theorem exists_opens (hcalm : setup.collaborators.Calm) (hgenerous : setup.collaborators.Generous)
    (hstores : ∀ r u, Asked setup shorter s' r u → setup.store.CanStore R 1 u.shelf r.key)
    (hc : checkStructure shorter = .ok ()) (hquiet : s'.surroundings.cancelled = false) :
    ∃ v, Opens setup shorter s' v ∧ v.surroundings.cancelled = false := by
  have hopens : ∃ v, Opens setup shorter s' v := by
    by_cases hw : 1 < setup.workers
    · cases hprefetch : prefetch setup shorter s' with
      | ok _ v => exact ⟨v, .ahead hw hprefetch⟩
      | error failure v =>
          obtain ⟨r, -, u, cause, hasked, hcause, -⟩ := prefetch_eq_error hc hw hprefetch
          obtain ⟨t, hfails⟩ := hcause.materialize
          have hquiet' := hasked.upholds (upholds_quiet hcalm) hquiet
          obtain ⟨w, hmade⟩ := materialize_isOk hgenerous hquiet' (hstores r u hasked)
          rw [hmade] at hfails
          cases hfails
    · exact ⟨s', .alone hw⟩
  obtain ⟨v, hopens⟩ := hopens
  exact ⟨v, hopens, hopens.upholds (upholds_quiet hcalm) hquiet⟩

end Build

section Check

variable [Scalar R] {lines shorter : List (ScriptLine R)}

theorem playingAfter_of_foreground {playing : List String}
    (h : ∀ line ∈ lines, line.command.IsValid ∧ line.command.isBackground = false) :
    lines.foldlM ScriptLine.playingAfter playing = .ok playing := by
  induction lines with
  | nil => rfl
  | cons line rest ih =>
      obtain ⟨hvalid, hline⟩ := h line List.mem_cons_self
      have hfirst : line.playingAfter playing = .ok playing := by
        refine ScriptLine.playingAfter_eq_ok_iff.mpr ⟨hvalid, ?_⟩
        cases hcommand : line.command <;> rw [hcommand] at hline <;> first | rfl | cases hline
      rw [List.foldlM_cons, hfirst]
      exact ih fun other hother => h other (List.mem_cons_of_mem _ hother)

/-- A script without its background commands is accepted if the whole script is. -/
theorem checkStructure_of_foreground (h : checkStructure lines = .ok ())
    (hshorter : shorter.map (·.command)
      = (lines.filter fun line => !line.command.isBackground).map (·.command)) :
    checkStructure shorter = .ok () := by
  refine checkStructure_eq_ok_iff.mpr ⟨[], playingAfter_of_foreground fun line hline => ?_⟩
  have hmem : line.command ∈ shorter.map (·.command) := List.mem_map_of_mem hline
  rw [hshorter] at hmem
  obtain ⟨original, horiginal, heq⟩ := List.mem_map.mp hmem
  obtain ⟨hin, hforeground⟩ := List.mem_filter.mp horiginal
  rw [← heq]
  exact ⟨isValid_of_checkStructure h original hin, by simpa using hforeground⟩

theorem checkSegments_eq_ok_iff {total : R} {index : Nat} {segments : List (Segment R)} :
    checkSegments total index segments = .ok () ↔ ∀ clip ∈ segments, clip.Within total := by
  induction segments generalizing index with
  | nil => simp [checkSegments]
  | cons first rest ih =>
      unfold checkSegments
      by_cases h : first.Within total
      · simp [h, ih]
      · simp [h]

end Check

theorem Build.finish_of_check [Scalar R] {p : Progress R} (h : p.timeline.check = .ok ()) :
    finish p = .ok (p.timeline, { p.report with segments := p.segments.size }) := by
  have hc : (⟨p.clock, p.segments.toList⟩ : Timeline R).check = .ok () := h
  unfold finish
  simp only [hc, bind, Except.bind]
  rfl

/-- **Background tracks never affect the foreground.** Where a script is built, the script without
its background commands is built from any cache whose assets can be stored. It has the same length,
and its clips are those that voices and sounds have placed in the first build, in the same order. -/
theorem build_without_background [Scalar R] (setup : Setup R σ) (length : String → R)
    (lines shorter : List (ScriptLine R)) (s s' t : Session R σ) (timeline : Timeline R)
    (report : Report) (hcalm : setup.collaborators.Calm)
    (hgenerous : setup.collaborators.Generous) (hvoices : setup.MeasuresVoices length)
    (hshorter : shorter.map (·.command)
      = (lines.filter fun line => !line.command.isBackground).map (·.command))
    (h : build setup lines s = .ok (timeline, report) t)
    (hquiet : s'.surroundings.cancelled = false)
    (hstores : ∀ r u, Build.Asked setup shorter s' r u →
      setup.store.CanStore R 1 u.shelf r.key) :
    ∃ v report' t', Build.Opens setup lines s v ∧
      build setup shorter s' = .ok (⟨timeline.total,
        Build.foreground setup lines { clock := Scalar.zero } v⟩, report') t' ∧
      (Build.foreground setup lines { clock := Scalar.zero } v).Sublist timeline.segments := by
  obtain ⟨hc, v, hopens, hconclude⟩ := build_eq_ok_iff.mp h
  obtain ⟨p, u, q, hcommands, hflush, hfinish⟩ := Build.conclude_eq_ok_iff.mp hconclude
  obtain ⟨rfl, hwithin, -⟩ := Build.finish_eq_ok hfinish
  have hc' := checkStructure_of_foreground hc hshorter
  obtain ⟨v', hopens', hquiet'⟩ := Build.exists_opens hcalm hgenerous hstores hc' hquiet
  obtain ⟨p', u', hcommands', hclock, hlive, hsegments⟩ :=
    Build.exists_run_beside hcalm hgenerous hvoices hstores hc' hopens' (List.nil_append _).symm
      rfl hquiet' rfl hshorter hcommands
  obtain ⟨placed, hplaced, hsub⟩ := Build.foreground_sublist hcommands
  obtain ⟨htotal, late, hlate⟩ := Build.exists_segments_of_flushes hflush
  have hamong : (Build.foreground setup lines { clock := Scalar.zero } v).Sublist
      q.timeline.segments := by
    have hall : q.timeline.segments = placed ++ late := by
      rw [show q.timeline.segments = q.segments.toList from rfl, hlate]
      simpa using hplaced
    rw [hall]
    exact hsub.trans (List.sublist_append_left placed late)
  have hflush' : Build.flushAll setup p' u' = .ok { p' with live := [] } u' := by
    unfold Build.flushAll
    rw [hlive]
    rfl
  have htimeline : ({ p' with live := [] } : Build.Progress R).timeline
      = ⟨q.timeline.total, Build.foreground setup lines { clock := Scalar.zero } v⟩ := by
    have hclips : p'.segments.toList = Build.foreground setup lines { clock := Scalar.zero } v := by
      simpa using hsegments
    show (⟨p'.clock, p'.segments.toList⟩ : Timeline R) = _
    rw [hclips, hclock, ← htotal]
    rfl
  have hcheck : ({ p' with live := [] } : Build.Progress R).timeline.check = .ok () := by
    rw [htimeline]
    exact checkSegments_eq_ok_iff.mpr fun clip hclip =>
      checkSegments_eq_ok_iff.mp hwithin clip (hamong.subset hclip)
  have hconclude' := Build.conclude_eq_ok_iff.mpr
    ⟨p', u', _, hcommands', hflush', Build.finish_of_check hcheck⟩
  rw [htimeline] at hconclude'
  exact ⟨v, _, u', hopens, build_eq_ok_iff.mpr ⟨hc', v', hopens', hconclude'⟩, hamong⟩

theorem generous_steady : steadyCollaborators.Generous :=
  ⟨fun _ _ => ⟨_, rfl, rfl⟩, fun _ _ _ => ⟨_, rfl, rfl⟩⟩

/-- The script of the rain without the rain. -/
def dryScript : List (ScriptLine Float) := [⟨1, .voice 0 "Hello"⟩, ⟨2, .wait 3⟩]

/-- Of the four clips of the rain script one is spoken, and it is the only one of the dry script. -/
theorem build_without_background_rain :
    ∃ timeline report t, build steadySetup rainScript freshSession = .ok (timeline, report) t ∧
      timeline.segments.length = 4 ∧
      ∃ v report' t', Build.Opens steadySetup rainScript freshSession v ∧
        build steadySetup dryScript freshSession = .ok (⟨timeline.total,
          Build.foreground steadySetup rainScript { clock := Scalar.zero } v⟩, report') t' ∧
        (Build.foreground steadySetup rainScript { clock := Scalar.zero } v).Sublist
          timeline.segments ∧
        (Build.foreground steadySetup rainScript { clock := Scalar.zero } v).length = 1 := by
  have hrain : ((build steadySetup rainScript).answer? freshSession).map (·.1.segments.length)
      = some 4 := by decide +kernel
  have hdry : ((build steadySetup dryScript).answer? freshSession).map (·.1.segments.length)
      = some 1 := by decide +kernel
  obtain ⟨⟨timeline, report⟩, hsome, hfour⟩ := Option.map_eq_some_iff.mp hrain
  obtain ⟨t, h⟩ := Work.answer?_eq_some_iff.mp hsome
  have hstores : ∀ r u, Build.Asked steadySetup dryScript freshSession r u →
      steadySetup.store.CanStore Float 1 u.shelf r.key := by
    rintro r u (⟨-, hw, -⟩ | @⟨before, line, _, p, w, _, hcomes, hr, hcheck⟩)
    · exact absurd hw (by decide)
    · obtain @⟨after, v, -, hlines, hopens, hbefore⟩ := hcomes
      -- Only the first line of the dry script asks for an asset.
      rcases before with _ | ⟨first, _ | ⟨second, rest⟩⟩
      · cases hlines
        cases hr
        cases hbefore
        cases hopens with
        | alone =>
            obtain rfl := Work.behind_of_ok hcheck
            decide +kernel
        | ahead hw => exact absurd hw (by decide)
      · cases hlines
        cases hr
      · simp [dryScript] at hlines
  obtain ⟨v, report', t', hopens, hshorter, hsub⟩ := build_without_background steadySetup
    (fun _ => 2) rainScript dryScript freshSession freshSession t timeline report
    (calm_constant _ _ _) generous_steady (fun _ _ _ _ => rfl) (by decide) h rfl hstores
  refine ⟨timeline, report, t, h, hfour, v, report', t', hopens, hshorter, hsub, ?_⟩
  rw [Work.answer?_eq_some_iff.mpr ⟨t', hshorter⟩] at hdry
  exact Option.some.inj hdry

/-- A hidden greeting, with a folder in the place of its lock file. -/
def lockedShelf : Shelf where
  disk := hiddenShelf.disk.put ⟨.above 0, ["b", "voice", greeting.fileName "opus" ++ ".lock"]⟩
    .folder

/-- It rains while somebody says hello. -/
def wetGreetingScript : List (ScriptLine Float) :=
  [⟨1, .backgroundStart 0 "rain"⟩, ⟨2, .voice 0 "Hello"⟩, ⟨3, .backgroundStop "rain"⟩]

/-- One worker whose assets are hidden. -/
def hidingSetup : Setup Float Unit := { steadySetup with store := hidingStore }

/-- Collaborators that give no bytes for a sound of a wished length. -/
def moodyCollaborators : Collaborators Float Unit :=
  { steadyCollaborators with
    sound := fun _ hint _ _ => ⟨.ok (if hint.isSome then ⟨#[]⟩ else ⟨#[1]⟩), false, ()⟩ }

/-- One worker with such collaborators. -/
def moodySetup : Setup Float Unit := { steadySetup with collaborators := moodyCollaborators }

/-- It rains while a second of rain is played. -/
def downpourScript : List (ScriptLine Float) :=
  [⟨1, .backgroundStart 0 "rain"⟩, ⟨2, .sound 0 1 "rain"⟩, ⟨3, .backgroundStop "rain"⟩]

/-- Both conditions are needed. A background track can make the folder through which a greeting is
found that cannot be stored, though all generators succeed. And it can be the one whose call gives
the bytes of a sound. -/
theorem not_build_without_background :
    (hidingSetup.collaborators.Calm ∧ hidingSetup.collaborators.Generous ∧
      hidingSetup.MeasuresVoices (fun _ => 2) ∧
      (∃ result t, build hidingSetup wetGreetingScript ⟨lockedShelf, ⟨false, [], ()⟩⟩
        = .ok result t) ∧
      ∃ failure t, build hidingSetup [⟨1, .voice 0 "Hello"⟩] ⟨lockedShelf, ⟨false, [], ()⟩⟩
        = .error failure t) ∧
    moodySetup.collaborators.Calm ∧ moodySetup.MeasuresVoices (fun _ => 2) ∧
      (∀ phrase cancelled state, ∃ content,
        (moodyCollaborators.speech phrase cancelled state).outcome = .ok content) ∧
      (∀ description hint cancelled state, ∃ content,
        (moodyCollaborators.sound description hint cancelled state).outcome = .ok content) ∧
      (∃ result t, build moodySetup downpourScript freshSession = .ok result t) ∧
      ∃ failure t, build moodySetup [⟨1, .sound 0 1 "rain"⟩] freshSession = .error failure t := by
  have hmoody : moodySetup.collaborators.Calm :=
    ⟨fun _ _ => rfl, fun _ _ _ => rfl, fun _ _ _ => rfl, fun _ => rfl⟩
  refine ⟨⟨calm_constant _ _ _, generous_steady, fun _ _ _ _ => rfl, ?_, ?_⟩, hmoody,
    fun _ _ _ _ => rfl, fun _ _ _ => ⟨_, rfl⟩, fun _ _ _ _ => ⟨_, rfl⟩, ?_, ?_⟩
  · exact Work.isSome_answer?_iff.mp (by decide +kernel)
  · exact Work.isSome_failure?_iff.mp (by decide +kernel)
  · exact Work.isSome_answer?_iff.mp (by decide +kernel)
  · exact Work.isSome_failure?_iff.mp (by decide +kernel)

end Soundstage
