import Soundstage.Proofs.Asset.Presence
import Soundstage.Proofs.Timeline.Belated
import Soundstage.Proofs.Timeline.Stopping

/-!
# The calls of a build are those of its script

`Occasion.calls` says line by line which calls a script takes, from the files that are there at the
beginning and from the readings of the clock. Here a build with one worker is shown to make exactly
these. `Session.Takes` relates the sessions around each step, and adds up along a build. What a step
has to know of the lines before it is kept in two places: on the disk, which holds the files of
their assets (`Occasion.Shelves`), and in the progress of the build, which remembers the loops that
have been measured and where the tracks that play were started (`Occasion.Recalls`).
-/

namespace Soundstage

variable {R σ α : Type}

/-- Between two moments of a session these calls are made, the first one first, and so many requests
for assets are answered. -/
structure Session.Takes (s : Session R σ) (calls : List (Call R)) (answered : Nat)
    (t : Session R σ) : Prop where
  calls : ∃ recent, t.surroundings.calls = recent ++ s.surroundings.calls ∧
    recent.reverse.map (·.call) = calls
  total : t.shelf.stats.total = s.shelf.stats.total + answered

namespace Session.Takes

variable {s t u : Session R σ} {calls calls' : List (Call R)} {answered answered' : Nat}

theorem of_calls_eq (hcalls : t.surroundings.calls = s.surroundings.calls)
    (hshelf : t.shelf = s.shelf) : s.Takes [] 0 t where
  calls := ⟨[], hcalls, rfl⟩
  total := by rw [hshelf, Nat.add_zero]

theorem refl (s : Session R σ) : s.Takes [] 0 s := of_calls_eq rfl rfl

theorem trans (h : s.Takes calls answered t) (h' : t.Takes calls' answered' u) :
    s.Takes (calls ++ calls') (answered + answered') u := by
  obtain ⟨recent, hcalls, rfl⟩ := h.calls
  obtain ⟨recent', hcalls', rfl⟩ := h'.calls
  refine ⟨⟨recent' ++ recent, by rw [hcalls', hcalls, List.append_assoc], by simp⟩, ?_⟩
  rw [h'.total, h.total, Nat.add_assoc]

end Session.Takes

section Lines

variable {take : List (ScriptLine R) → ScriptLine R → List α}

@[simp] theorem lineByLine_nil : lineByLine take [] = [] := rfl

/-- A line looks at the lines before it only. -/
theorem lineByLine_concat (lines : List (ScriptLine R)) (line : ScriptLine R) :
    lineByLine take (lines ++ [line]) = lineByLine take lines ++ take lines line := by
  unfold lineByLine
  rw [List.zipIdx_append, List.flatMap_append]
  congr 1
  · apply List.flatMap_congr
    rintro ⟨earlier, i⟩ hmem
    have hi : i ≤ lines.length := Nat.le_of_lt (List.snd_lt_of_mem_zipIdx hmem)
    dsimp only
    rw [List.take_append_of_le_length hi]
  · simp

end Lines

theorem ScriptLine.generation?_eq (line : ScriptLine R) :
    line.generation? = line.request?.map Request.call := by
  obtain ⟨number, command⟩ := line
  cases command <;> rfl

namespace Build

variable {setup : Setup R σ} {s t u : Session R σ} {r : Request R} {path what : String}
  {number : Nat} {secs : R}

theorem takes_checkpoint (h : Work.checkpoint setup.collaborators what s = .ok () t) :
    s.Takes [] 0 t ∧ t.shelf = s.shelf := by
  have ht := Work.behind_of_ok h
  rw [Work.behind_checkpoint] at ht
  subst ht
  exact ⟨.of_calls_eq rfl rfl, rfl⟩

theorem takes_probe (h : Work.probe setup.collaborators path s = .ok secs t) :
    s.Takes [.probe path] 0 t ∧ t.shelf = s.shelf := by
  have ht := Work.behind_of_ok h
  rw [Work.behind_probe] at ht
  subst ht
  exact ⟨⟨⟨[⟨.probe path, s.surroundings.cancelled⟩], rfl, rfl⟩, rfl⟩, rfl⟩

/-- A request that is answered is a call to the store that is. -/
theorem ensures_of_materialize (h : materialize setup r s = .ok path t) :
    setup.store.Ensures r.key (setup.collaborators.generate r.key r.hint) s.shelf s.surroundings
      (.ok path) t.shelf t.surroundings := by
  obtain ⟨hensures, hm⟩ := ensures_and_materialize_eq setup r s
  rw [Work.behind_of_ok h] at hensures hm
  cases ha : storeAnswer setup r s with
  | ok found =>
      rw [h, ha] at hm
      cases hm
      rwa [ha] at hensures
  | error failure =>
      rw [h, ha] at hm
      cases hm

/-- A request takes the call to its generator exactly if the file of the asset is absent. -/
theorem takes_materialize (hext : Path.IsPart setup.store.extension)
    (hfinds : setup.store.Finds r.key s.shelf.disk) (h : materialize setup r s = .ok path t) :
    s.Takes (if s.shelf.disk.isFile (setup.store.pathFor r.key) then [] else [r.call]) 1 t := by
  have hensures := ensures_of_materialize h
  refine ⟨?_, hensures.total⟩
  rw [hensures.state_of_ok hext hfinds]
  split
  · exact ⟨[], rfl, rfl⟩
  · obtain ⟨reply, hreply⟩ := setup.collaborators.exists_generate_eq r
    rw [hreply]
    exact ⟨[⟨r.call, s.surroundings.cancelled⟩], rfl, rfl⟩

end Build

namespace Occasion

/-- Measuring some files and then others. -/
theorem measurements_append (measured first more : List String) :
    (measurements measured (first ++ more) : List (Call R))
      = measurements measured first ++ measurements (measured ++ first) more := by
  induction first generalizing measured with
  | nil => simp [measurements]
  | cons path rest ih => simp [measurements, ih]

variable {setup : Setup R σ} {o : Occasion R} {keys : AssetKey → Prop}
  {done : List (ScriptLine R)} {line : ScriptLine R} {disk : Disk} {s t : Session R σ}
  {r : Request R} {path : String} {p q : Build.Progress R} {track : Build.Track R} {number : Nat}
  {measured : List String}

/-- Behind some lines the files of the given assets that are there are those that were there at the
beginning, and those of the assets of the lines. -/
structure Shelves (setup : Setup R σ) (o : Occasion R) (keys : AssetKey → Prop)
    (done : List (ScriptLine R)) (disk : Disk) : Prop where
  finds : ∀ key, keys key → setup.store.Finds key disk
  files : ∀ key, keys key → (disk.isFile (setup.store.pathFor key) = true ↔
    o.present (setup.store.pathFor key) = true ∨
      ∃ line ∈ done, o.file? line = some (setup.store.pathFor key))

/-- A line without an asset changes nothing. -/
theorem Shelves.pass (h : Shelves setup o keys done disk) (hline : o.file? line = none) :
    Shelves setup o keys (done ++ [line]) disk where
  finds := h.finds
  files := by
    intro key hkey
    simp [h.files key hkey, hline]

theorem file?_of_request (hpath : o.path = setup.store.pathFor) (hr : line.request? = some r) :
    o.file? line = some (setup.store.pathFor r.key) := by
  rw [file?, line.key?_eq, hr, hpath]
  rfl

/-- A line with an asset brings up its file, and takes the generation that it should. -/
theorem Shelves.materialize (h : Shelves setup o keys done s.shelf.disk) (line : ScriptLine R)
    (hpath : o.path = setup.store.pathFor) (hext : Path.IsPart setup.store.extension)
    (hr : line.request? = some r) (hkey : keys r.key)
    (hm : Build.materialize setup r s = .ok path t) :
    Shelves setup o keys (done ++ [line]) t.shelf.disk ∧ s.Takes (o.generation done line) 1 t := by
  have hfile := file?_of_request hpath hr
  have hensures := Build.ensures_of_materialize hm
  refine ⟨⟨fun key hother => (hensures.isFile_of_finds hext (h.finds key hother)).1, ?_⟩, ?_⟩
  · intro key hother
    rw [(hensures.isFile_of_finds hext (h.finds key hother)).2, h.files key hother]
    simp only [List.mem_append, List.mem_singleton, or_and_right, exists_or, exists_eq_left, hfile,
      Option.some.injEq, or_assoc]
  · have htakes := Build.takes_materialize hext (h.finds r.key hkey) hm
    have hgeneration : o.generation done line
        = if s.shelf.disk.isFile (setup.store.pathFor r.key) then [] else [r.call] := by
      have hthere : (o.present (setup.store.pathFor r.key)
          || done.any fun earlier => o.file? earlier = some (setup.store.pathFor r.key))
            = s.shelf.disk.isFile (setup.store.pathFor r.key) := by
        rw [Bool.eq_iff_iff, h.files r.key hkey]
        simp
      rw [generation, hfile, line.generation?_eq, hr]
      dsimp only
      rw [hthere]
      rfl
    rwa [hgeneration]

variable [Scalar R]

theorem loops_concat (o : Occasion R) (done : List (ScriptLine R)) (line : ScriptLine R) :
    o.loops (done ++ [line]) = o.loops done ++ (o.loopAt? done line).toList :=
  lineByLine_concat done line

theorem calls_concat (o : Occasion R) (done : List (ScriptLine R)) (line : ScriptLine R) :
    o.calls (done ++ [line]) = o.calls done ++ o.callsAt done line :=
  lineByLine_concat done line

/-- The file of a track, if the clock has moved by more than the noise since its start. -/
def played? (clock : R) (track : Build.Track R) : Option String :=
  if clock - track.start ≤ Scalar.millionth then none else some track.path

/-- Behind some lines a build remembers the loops that these have measured, and where the tracks
that play were started. -/
structure Recalls (o : Occasion R) (done : List (ScriptLine R)) (p : Build.Progress R) : Prop where
  loops : ∀ path, (p.loops.lookup path).isSome = true ↔ path ∈ o.loops done
  starts : ∀ track ∈ p.live, ∃ i pan,
    Clips.latestStart? done track.description done.length = some (i, pan) ∧
      o.clock i = track.start ∧ track.path = o.path ⟨.sound, track.description⟩
  clock : o.clock done.length = p.clock

/-- A track that plays and ends now is one that the lines say has been played. -/
theorem Recalls.loop?_eq (h : o.Recalls done p) (htrack : track ∈ p.live) :
    o.loop? done track.description = played? p.clock track := by
  obtain ⟨i, pan, hlatest, hstart, hpath⟩ := h.starts track htrack
  rw [loop?, hlatest, played?, h.clock, hpath]
  dsimp only
  rw [hstart]

/-- A line starts a track at the clock, ends one, or leaves the tracks as they are. -/
theorem Recalls.concat (h : o.Recalls done p) (hpath : o.path = setup.store.pathFor)
    (hlive : q.live = Build.liveAfter setup p line)
    (hnodup : (q.live.map (·.description)).Nodup)
    (hloops : ∀ path, (q.loops.lookup path).isSome = true ↔ path ∈ o.loops (done ++ [line]))
    (hclock : o.clock (done ++ [line]).length = q.clock) : o.Recalls (done ++ [line]) q where
  loops := hloops
  clock := hclock
  starts := by
    intro track htrack
    rw [Clips.latestStart?_concat]
    rw [hlive] at htrack hnodup
    obtain ⟨number, command⟩ := line
    cases command with
    | backgroundStart pan description =>
        rw [Build.liveAfter, List.map_append, List.nodup_append] at hnodup
        rcases List.mem_append.mp htrack with hold | hnew
        · have hne : description ≠ track.description := fun heq =>
            hnodup.2.2 _ (List.mem_map_of_mem hold) _ List.mem_cons_self heq.symm
          simpa only [Clips.startPan?, if_neg hne] using h.starts track hold
        · rw [List.mem_singleton] at hnew
          subst hnew
          exact ⟨done.length, pan, by simp [Clips.startPan?], h.clock, by rw [hpath]⟩
    | backgroundStop description => exact h.starts track (List.mem_of_mem_eraseP htrack)
    | voice pan phrase => exact h.starts track htrack
    | sound pan duration description => exact h.starts track htrack
    | wait duration => exact h.starts track htrack

end Occasion

namespace Build

variable [Scalar R] {setup : Setup R σ} {o : Occasion R} {keys : AssetKey → Prop}
  {done more : List (ScriptLine R)} {line : ScriptLine R} {s t u : Session R σ} {p q : Progress R}
  {track : Track R} {number : Nat} {measured : List String} {path : String} {secs : R}

theorem takes_measure (h : measure setup path number s = .ok secs t) :
    s.Takes [.probe path] 0 t ∧ t.shelf = s.shelf :=
  takes_probe (measure_eq_ok_iff.mp h).1

/-- Placing a track measures its loop, unless its span is noise or the loop has been measured. -/
theorem takes_flush (hloops : ∀ path, (p.loops.lookup path).isSome = true ↔ path ∈ measured)
    (h : flush setup p track number s = .ok q t) :
    s.Takes (Occasion.measurements measured (Occasion.played? p.clock track).toList) 0 t ∧
      t.shelf = s.shelf ∧
      ∀ path, (q.loops.lookup path).isSome = true ↔
        path ∈ measured ++ (Occasion.played? p.clock track).toList := by
  rcases flush_eq_ok_iff.mp h with ⟨hspan, rfl, rfl⟩ | ⟨hspan, secs, p', tiles, hloop, -, rfl⟩
  · simp only [Occasion.played?, if_pos hspan]
    exact ⟨.refl _, trivial, by simpa using hloops⟩
  · simp only [Occasion.played?, if_neg hspan, Option.toList_some, Occasion.measurements,
      List.append_nil]
    rcases loopLength_eq_ok_iff.mp hloop with ⟨hknown, rfl, rfl⟩ | ⟨hnew, hmeasure, rfl⟩
    · have hmem : track.path ∈ measured := (hloops _).mp (by rw [hknown]; rfl)
      rw [if_pos hmem]
      refine ⟨.refl _, rfl, fun path => ?_⟩
      rw [hloops]
      simp only [List.mem_append, List.mem_singleton]
      exact ⟨.inl, fun hpath => hpath.elim id fun heq => heq ▸ hmem⟩
    · have hmem : track.path ∉ measured := fun hmem => by
        have hsome := (hloops _).mpr hmem
        rw [hnew] at hsome
        cases hsome
      obtain ⟨htakes, hshelf⟩ := takes_measure hmeasure
      rw [if_neg hmem]
      refine ⟨htakes, hshelf, fun path => ?_⟩
      rw [List.lookup_cons, List.mem_append, List.mem_singleton, ← hloops path]
      by_cases hpath : path = track.path
      · simp [hpath]
      · have hother : (path == track.path) = false := by simpa using hpath
        rw [hother]
        simp only [hpath, or_false]

/-- What a command takes, and how it changes what the build has to know. The tracks that play behind
it are distinct, and the clock is the one that the occasion reads there. -/
theorem takes_apply (hpath : o.path = setup.store.pathFor)
    (hext : Path.IsPart setup.store.extension) (hkeys : ∀ key ∈ line.key?, keys key)
    (hshelves : o.Shelves setup keys done s.shelf.disk) (hrecalls : o.Recalls done p)
    (h : apply setup p line s = .ok q t) (hnodup : (q.live.map (·.description)).Nodup)
    (hclock : o.clock (done ++ [line]).length = q.clock) :
    o.Shelves setup keys (done ++ [line]) t.shelf.disk ∧ o.Recalls (done ++ [line]) q ∧
      s.Takes (o.callsAt done line) (if line.key?.isSome then 1 else 0) t := by
  have hlive := live_of_apply h
  -- Only a stop measures loops.
  have hothers : o.loopAt? done line = none → q.loops = p.loops →
      ∀ path, (q.loops.lookup path).isSome = true ↔ path ∈ o.loops (done ++ [line]) := by
    intro hnone hloops path
    rw [hloops, hrecalls.loops, o.loops_concat, hnone]
    simp
  obtain ⟨number, command⟩ := line
  cases command with
  | voice pan phrase =>
      obtain ⟨u, secs, hasset, hmeasure, rfl⟩ := apply_voice_eq_ok_iff.mp h
      obtain ⟨hshelves', hgenerates⟩ :=
        hshelves.materialize ⟨number, .voice pan phrase⟩ hpath hext rfl (hkeys _ rfl)
          hasset
      obtain ⟨hprobes, hshelf⟩ := takes_measure hmeasure
      refine ⟨by rwa [hshelf], hrecalls.concat hpath hlive hnodup (hothers rfl rfl) hclock, ?_⟩
      rw [← hpath] at hprobes
      exact hgenerates.trans hprobes
  | sound pan duration description =>
      obtain ⟨-, hasset, rfl⟩ := apply_sound_eq_ok_iff.mp h
      obtain ⟨hshelves', hgenerates⟩ :=
        hshelves.materialize ⟨number, .sound pan duration description⟩ hpath hext rfl (hkeys _ rfl)
          hasset
      refine ⟨hshelves', hrecalls.concat hpath hlive hnodup (hothers rfl rfl) hclock, ?_⟩
      exact hgenerates.trans (.refl t)
  | backgroundStart pan description =>
      obtain ⟨-, hasset, rfl⟩ := apply_backgroundStart_eq_ok_iff.mp h
      obtain ⟨hshelves', hgenerates⟩ :=
        hshelves.materialize ⟨number, .backgroundStart pan description⟩ hpath hext rfl (hkeys _ rfl)
          hasset
      refine ⟨hshelves', hrecalls.concat hpath hlive hnodup (hothers rfl rfl) hclock, ?_⟩
      exact hgenerates.trans (.refl t)
  | backgroundStop description =>
      obtain ⟨track, hfind, hflush⟩ := apply_backgroundStop_eq_ok_iff.mp h
      have hloop : o.loopAt? done ⟨number, .backgroundStop description⟩
          = Occasion.played? (p.drop description).clock track := by
        obtain rfl : track.description = description := by simpa using List.find?_some hfind
        exact hrecalls.loop?_eq (List.mem_of_find?_eq_some hfind)
      obtain ⟨hmeasures, hshelf, hloops⟩ := takes_flush (p := p.drop description)
        hrecalls.loops hflush
      refine ⟨by rw [hshelf]; exact hshelves.pass rfl, ?_, ?_⟩
      · refine hrecalls.concat hpath hlive hnodup (fun path => ?_) hclock
        rw [hloops path, o.loops_concat, hloop]
      · rw [← hloop] at hmeasures
        exact hmeasures
  | wait duration =>
      obtain ⟨-, rfl, rfl⟩ := apply_wait_eq_ok_iff.mp h
      exact ⟨hshelves.pass rfl, hrecalls.concat hpath hlive hnodup (hothers rfl rfl) hclock,
        .refl _⟩

/-- What some commands take, by induction on the script from its end. -/
theorem takes_commands (keys : AssetKey → Prop) (hpath : o.path = setup.store.pathFor)
    (hext : Path.IsPart setup.store.extension)
    (hkeys : ∀ line ∈ done, ∀ key ∈ line.key?, keys key)
    (hclock : ∀ before after p u, done = before ++ after → commands setup before s = .ok p u →
      o.clock before.length = p.clock)
    (hstart : o.Shelves setup keys [] s.shelf.disk) (hc : checkStructure (done ++ more) = .ok ())
    (h : commands setup done s = .ok p t) :
    o.Shelves setup keys done t.shelf.disk ∧ o.Recalls done p ∧
      s.Takes (o.calls done) (done.countP (·.key?.isSome)) t := by
  induction done using List.reverseRecOn generalizing p t more with
  | nil =>
      have hzero := hclock [] [] p t rfl h
      cases h
      exact ⟨hstart, ⟨by simp [Occasion.loops], by simp, hzero⟩, .refl s⟩
  | append_singleton done line ih =>
      have hnodup := nodup_live hc h
      have hbehind := hclock _ [] p t (List.append_nil _).symm h
      obtain ⟨p', u, hdone, hstep⟩ := commands_concat_eq_ok.mp h
      obtain ⟨q, v, hcheck, happly, rfl⟩ := step_eq_ok_iff.mp hstep
      obtain ⟨hwaits, hshelf⟩ := takes_checkpoint hcheck
      rw [List.append_assoc] at hc
      obtain ⟨hshelves, hrecalls, htakes⟩ := ih
        (fun earlier hearlier => hkeys earlier (List.mem_append_left _ hearlier))
        (fun before after p u hdone => hclock before (after ++ [line]) p u (by simp [hdone])) hc
        hdone
      obtain ⟨hshelves', hrecalls', hcalls⟩ := takes_apply hpath hext
        (hkeys line (List.mem_append_right _ List.mem_cons_self)) (by rwa [hshelf]) hrecalls happly
        hnodup hbehind
      refine ⟨hshelves', ⟨hrecalls'.loops, hrecalls'.starts, hrecalls'.clock⟩, ?_⟩
      rw [o.calls_concat, List.countP_append, List.countP_singleton]
      have hline := hwaits.trans hcalls
      rw [List.nil_append, Nat.zero_add] at hline
      exact htakes.trans hline

/-- What the end of a script takes, by induction on the tracks that are left. -/
theorem takes_flushAll {tracks : List (Track R)}
    (hloops : ∀ path, (p.loops.lookup path).isSome = true ↔ path ∈ measured)
    (h : tracks.foldlM (flushLeft setup) p s = .ok q t) :
    s.Takes (Occasion.measurements measured (tracks.filterMap (Occasion.played? p.clock))) 0 t := by
  induction tracks generalizing p s measured with
  | nil =>
      cases h
      exact .refl _
  | cons track rest ih =>
      rw [List.foldlM_cons] at h
      obtain ⟨p', u, hleft, hrest⟩ := Work.bind_eq_ok.mp h
      obtain ⟨p'', hflush, hp'⟩ := flushLeft_eq_ok hleft
      obtain ⟨hmeasures, -, hloops'⟩ := takes_flush hloops hflush
      obtain ⟨placed, loops, hp''⟩ := exists_clips_of_flush hflush
      have hclock : p'.clock = p.clock := by rw [hp', hp'']
      have hremembers : ∀ path, (p'.loops.lookup path).isSome = true ↔
          path ∈ measured ++ (Occasion.played? p.clock track).toList := by
        rw [hp']
        exact hloops'
      have hrests := ih hremembers hrest
      rw [hclock] at hrests
      have hboth := hmeasures.trans hrests
      rw [← Occasion.measurements_append] at hboth
      rw [List.filterMap_cons]
      cases hplayed : Occasion.played? p.clock track with
      | none => simpa [hplayed] using hboth
      | some path => simpa [hplayed] using hboth

/-- What the clock of a build reads before the command at a position, and behind the last one. -/
def clockAt (setup : Setup R σ) (lines : List (ScriptLine R)) (s : Session R σ) (position : Nat) :
    R :=
  match commands setup (lines.take position) s with
  | .ok p _ => p.clock
  | .error .. => Scalar.zero

theorem clockAt_of_commands (h : commands setup done s = .ok p t) :
    clockAt setup (done ++ more) s done.length = p.clock := by
  rw [clockAt, List.take_left, h]

end Build

/-- The occasion of a build: the assets that are there when it begins, and the readings of its
clock. -/
def Setup.occasion [Scalar R] (setup : Setup R σ) (lines : List (ScriptLine R))
    (s : Session R σ) : Occasion R :=
  ⟨setup.store.pathFor, s.shelf.disk.isFile, Build.clockAt setup lines s⟩

/-- The file that a call measures. -/
def Call.probed? : Call R → Option String
  | probe path => some path
  | speech _ | sound _ _ | render _ _ => none

namespace Occasion

variable {o : Occasion R} {lines before : List (ScriptLine R)} {line : ScriptLine R}

theorem probed?_generation (o : Occasion R) (before : List (ScriptLine R)) (line : ScriptLine R) :
    (o.generation before line).filterMap Call.probed? = [] := by
  have hnone : line.generation?.toList.filterMap Call.probed? = [] := by
    obtain ⟨number, command⟩ := line
    cases command <;> rfl
  unfold generation
  split
  · rfl
  · split
    · rfl
    · exact hnone

/-- Each file of a list is measured once, unless it has been measured before. -/
theorem count_measurements (measured list : List String) (path : String) :
    ((measurements measured list : List (Call R)).filterMap Call.probed?).count path
      = if path ∈ list ∧ path ∉ measured then 1 else 0 := by
  induction list generalizing measured with
  | nil => simp [measurements]
  | cons first rest ih =>
      rw [measurements, List.filterMap_append, List.count_append, ih]
      by_cases hfirst : first = path
      · subst hfirst
        by_cases hmem : first ∈ measured <;> simp [hmem, Call.probed?]
      · by_cases hmem : first ∈ measured <;>
          simp [hmem, hfirst, Ne.symm hfirst, Call.probed?]

/-- Among assets whose texts have different digests, a line takes the generation of its asset unless
this is there at the beginning or is the asset of an earlier line. -/
theorem generation_of_apart {setup : Setup R σ} {key : AssetKey}
    (hpath : o.path = setup.store.pathFor) (hext : Path.IsPart setup.store.extension)
    (hkey : line.key? = some key)
    (hapart : ∀ earlier ∈ before, ∀ other ∈ earlier.key?, key.Apart other) :
    o.generation before line
      = if o.present (o.path key) || before.any (fun earlier => earlier.key? = some key) then []
        else line.generation?.toList := by
  have hsame : (before.any fun earlier => o.file? earlier = some (o.path key))
      = before.any fun earlier => earlier.key? = some key := by
    rw [Bool.eq_iff_iff, List.any_eq_true, List.any_eq_true]
    refine exists_congr fun earlier => and_congr_right fun hearlier => ?_
    rw [decide_eq_true_iff, decide_eq_true_iff, file?, Option.map_eq_some_iff]
    constructor
    · rintro ⟨other, hother, heq⟩
      by_cases hother' : other = key
      · rw [hother, hother']
      · rw [hpath] at heq
        exact absurd (congrArg Path.place heq)
          (Store.place_pathFor_ne hext (hapart earlier hearlier other hother) hother')
    · intro h
      exact ⟨key, h, rfl⟩
  rw [generation, file?, hkey]
  dsimp only [Option.map_some]
  rw [hsame]

variable [Scalar R]

/-- The lines of a script measure the file of a sound once, if they stop a track of it after more
than the noise, by induction on the script from its end. -/
theorem count_calls (hpath : ∀ phrase description, o.path ⟨.voice, phrase⟩
      ≠ o.path ⟨.sound, description⟩) (lines : List (ScriptLine R)) (description : String) :
    ((o.calls lines).filterMap Call.probed?).count (o.path ⟨.sound, description⟩)
      = if o.path ⟨.sound, description⟩ ∈ o.loops lines then 1 else 0 := by
  induction lines using List.reverseRecOn with
  | nil => rfl
  | append_singleton lines line ih =>
      rw [o.calls_concat, o.loops_concat, List.filterMap_append, List.count_append, ih, callsAt,
        List.filterMap_append, probed?_generation, List.nil_append]
      obtain ⟨number, command⟩ := line
      cases command with
      | voice pan phrase => simp [loopAt?, Call.probed?, hpath phrase description]
      | _ =>
          rw [count_measurements]
          by_cases hmem : o.path ⟨.sound, description⟩ ∈ o.loops lines <;> simp [hmem]

/-- So do the lines of a script together with its end. -/
theorem count_calls_append_callsAtEnd (hpath : ∀ phrase description, o.path ⟨.voice, phrase⟩
      ≠ o.path ⟨.sound, description⟩) (lines : List (ScriptLine R)) (tracks : List String)
    (description : String) :
    ((o.calls lines ++ o.callsAtEnd lines tracks).filterMap Call.probed?).count
        (o.path ⟨.sound, description⟩)
      = if o.path ⟨.sound, description⟩ ∈ o.loops lines ++ tracks.filterMap (o.loop? lines) then 1
        else 0 := by
  rw [List.filterMap_append, List.count_append, count_calls hpath, callsAtEnd, count_measurements]
  by_cases hmem : o.path ⟨.sound, description⟩ ∈ o.loops lines <;> simp [hmem]

end Occasion

/-- **The calls of a build are those of its script.** One worker builds a script without failing.
The store has an extension without slashes, and hides no file of the script's assets. Then the calls
up to each command are those that its lines say, those of the whole build are these and the ones
that the end takes for the tracks that are never stopped, and each line with an asset has been
answered once. The generation of a line depends on the files that were there at the beginning and on
earlier lines with the same file; where the digests of texts differ, these are the earlier lines
with the same asset. A loop is measured once if some track of it ends after more than the noise, and
otherwise not at all. -/
theorem build_calls_accounted [Scalar R] (setup : Setup R σ) (lines : List (ScriptLine R))
    (s t : Session R σ) (timeline : Timeline R) (report : Report) (hone : ¬ 1 < setup.workers)
    (hext : Path.IsPart setup.store.extension)
    (hfinds : ∀ line ∈ lines, ∀ key ∈ line.key?, setup.store.Finds key s.shelf.disk)
    (h : build setup lines s = .ok (timeline, report) t) :
    (∀ done more, lines = done ++ more → ∃ p u, Build.commands setup done s = .ok p u ∧
      s.Takes ((setup.occasion lines s).calls done) (done.countP (·.key?.isSome)) u) ∧
    s.Takes ((setup.occasion lines s).calls lines
        ++ (setup.occasion lines s).callsAtEnd lines (neverStopped lines))
      (lines.countP (·.key?.isSome)) t ∧
    (∀ done line more key, lines = done ++ line :: more → line.key? = some key →
      (∀ earlier ∈ done, ∀ other ∈ earlier.key?, key.Apart other) →
      (setup.occasion lines s).generation done line
        = if s.shelf.disk.isFile (setup.store.pathFor key)
              || done.any (fun earlier => earlier.key? = some key) then []
          else line.generation?.toList) ∧
    ∀ description,
      (((setup.occasion lines s).calls lines
          ++ (setup.occasion lines s).callsAtEnd lines (neverStopped lines)).filterMap
            Call.probed?).count (setup.store.pathFor ⟨.sound, description⟩)
        = if setup.store.pathFor ⟨.sound, description⟩ ∈ (setup.occasion lines s).loops lines
              ++ (neverStopped lines).filterMap ((setup.occasion lines s).loop? lines) then 1
          else 0 := by
  obtain ⟨hc, v, hopens, hconclude⟩ := build_eq_ok_iff.mp h
  have hv : v = s := by
    cases hopens with
    | alone => rfl
    | ahead hw => exact absurd hw hone
  subst hv
  obtain ⟨p, u, q, hcommands, hflush, -⟩ := Build.conclude_eq_ok_iff.mp hconclude
  -- Up to any command the build is where the lines before it say.
  have hupto : ∀ done more p u, lines = done ++ more → Build.commands setup done v = .ok p u →
      (setup.occasion lines v).Recalls done p ∧
        v.Takes ((setup.occasion lines v).calls done) (done.countP (·.key?.isSome)) u := by
    intro done more p u hlines hdone
    refine (Build.takes_commands (fun key => setup.store.Finds key v.shelf.disk) rfl hext
      (fun line hline => hfinds line (hlines ▸ List.mem_append_left _ hline)) ?_
      ⟨fun _ => id, by simp [Setup.occasion]⟩ (hlines ▸ hc) hdone).2
    intro before after p' u' hbefore hrun
    rw [hlines, hbefore, List.append_assoc]
    exact Build.clockAt_of_commands hrun
  refine ⟨fun done more hlines => ?_, ?_, fun done line more key hlines hkey hapart => ?_,
    fun description => ?_⟩
  · subst hlines
    obtain ⟨p', u', hdone, -⟩ := Build.exists_commands_of_append hcommands
    exact ⟨p', u', hdone, (hupto done more p' u' rfl hdone).2⟩
  · obtain ⟨hrecalls, htakes⟩ := hupto lines [] p u (List.append_nil _).symm hcommands
    have hends := Build.takes_flushAll (p := { p with live := [] }) hrecalls.loops hflush
    have hleft : p.live.filterMap (Occasion.played? p.clock)
        = (neverStopped lines).filterMap ((setup.occasion lines v).loop? lines) := by
      have hlawful : checkStructure (lines ++ []) = .ok () := by rwa [List.append_nil]
      rw [← Build.descriptions_of_commands hlawful hcommands, List.filterMap_map]
      exact List.filterMap_congr fun track htrack => (hrecalls.loop?_eq htrack).symm
    rw [hleft] at hends
    exact htakes.trans hends
  · exact Occasion.generation_of_apart rfl hext hkey hapart
  · exact Occasion.count_calls_append_callsAtEnd (o := setup.occasion lines v)
      (Store.pathFor_voice_ne_sound hext) lines _ description

/-- The rain and the greeting are generated, the greeting is measured when it is spoken, and the
loop of the rain when it stops. -/
theorem build_calls_accounted_rain :
    ∃ timeline report t, build steadySetup rainScript freshSession = .ok (timeline, report) t ∧
      freshSession.Takes
        [.sound "rain" none, .speech "Hello",
          .probe "cache/voice/hello_185f8db32271fe25f561a6fc938b2e26.opus",
          .probe "cache/sound/rain_319b44c570a417ff3444896cd4aa77f0.opus"] 2 t := by
  have hok : ((build steadySetup rainScript).answer? freshSession).isSome = true := by
    decide +kernel
  have hcalls : (steadySetup.occasion rainScript freshSession).calls rainScript
      ++ (steadySetup.occasion rainScript freshSession).callsAtEnd rainScript
        (neverStopped rainScript)
      = [.sound "rain" none, .speech "Hello",
          .probe "cache/voice/hello_185f8db32271fe25f561a6fc938b2e26.opus",
          .probe "cache/sound/rain_319b44c570a417ff3444896cd4aa77f0.opus"] := by
    decide +kernel
  have hext : Path.IsPart steadySetup.store.extension := by decide
  obtain ⟨⟨timeline, report⟩, t, h⟩ := Work.isSome_answer?_iff.mp hok
  have htakes := (build_calls_accounted steadySetup rainScript freshSession t timeline report
    (by decide) hext (fun _ _ key _ => Store.finds_empty hext key) h).2.1
  rw [hcalls] at htakes
  exact ⟨timeline, report, t, h, htakes⟩

/-- All calls behind a computation that answers, latest first. -/
def Work.callsBehind? (work : Work R σ α) (s : Session R σ) : Option (List (Call R)) :=
  match work s with
  | .ok _ t => some (t.surroundings.calls.map (·.call))
  | .error _ _ => none

theorem Work.callsBehind?_eq_some_iff {work : Work R σ α} {s : Session R σ}
    {calls : List (Call R)} : work.callsBehind? s = some calls ↔
      ∃ a t, work s = .ok a t ∧ t.surroundings.calls.map (·.call) = calls := by
  unfold callsBehind?
  cases work s <;> simp

/-- Somebody says hello. -/
def greetingScript : List (ScriptLine Float) := [⟨1, .voice 0 "Hello"⟩]

/-- One worker whose assets have one file in common. -/
def sharingSetup : Setup Float Unit := { steadySetup with store := sharingStore }

/-- The conditions are needed. A file that is hidden below a root comes up when the folder of its
asset is made, and an extension may lead all assets to one file. In both cases an asset is not
generated, although its path led to no file when the build began and no earlier line has the same
asset. -/
theorem not_accounted_hidden_or_shared :
    (hiddenShelf.disk.isFile (hidingStore.pathFor greeting) = false ∧
      ∃ result t, build hidingSetup greetingScript ⟨hiddenShelf, ⟨false, [], ()⟩⟩ = .ok result t ∧
        t.surroundings.calls.map (·.call) = [.probe (hidingStore.pathFor greeting)]) ∧
    greeting.Apart farewell ∧
    freshSession.shelf.disk.isFile (sharingStore.pathFor farewell) = false ∧
    ∃ result t, build sharingSetup farewellScript freshSession = .ok result t ∧
      t.surroundings.calls.map (·.call)
        = [.probe (sharingStore.pathFor farewell), .probe (sharingStore.pathFor greeting),
            .speech "Hello"] := by
  have hhidden : (build hidingSetup greetingScript).callsBehind? ⟨hiddenShelf, ⟨false, [], ()⟩⟩
      = some [.probe (hidingStore.pathFor greeting)] := by decide +kernel
  have hshared : (build sharingSetup farewellScript).callsBehind? freshSession
      = some [.probe (sharingStore.pathFor farewell), .probe (sharingStore.pathFor greeting),
          .speech "Hello"] := by decide +kernel
  exact ⟨⟨by decide +kernel, Work.callsBehind?_eq_some_iff.mp hhidden⟩,
    fun heq => absurd heq (by decide +kernel), by decide +kernel,
    Work.callsBehind?_eq_some_iff.mp hshared⟩

end Soundstage
