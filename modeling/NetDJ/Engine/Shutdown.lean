import NetDJ.Engine.Turn

/-!
# `PlayerThread.cpp`: what the thread starts after `Stop`

`mainloop` calls `Stop` and waits for the thread, which looks at `mStopPlayer` in the inner loop and
after a song. On its other ways to the top of the main loop it does not.

* `Starts` : a song is taken from a collection or announced, or a file is removed;
* `announced_of_run` : a run that takes no song announces at most the one that is there;
* `not_starts_of_idle` : a thread without a song that finds none starts nothing;
* `Passes` : the places from which the thread comes to the top of the main loop without a look at
  `mStopPlayer`;
* `not_finds_of_not_passes` : a thread that is stopped elsewhere asks for no song any more;
* `starts_nothing_iff` : every `Stop` is honoured exactly if those that come at one of these places
  find the collections without a song from then on.
-/

namespace NetDJ.Engine

/-- The song of an iteration that has not been announced. -/
def Pc.fetched : Pc → Option (SongFile × Nat)
  | opening song col | announce song col => some (song, col)
  | _ => none

namespace PlayerThread

def Finds (s : PlayerThread) (a : Answer) : Prop :=
  s.pc = .fetch ∧ Found (getNextSong s.mCols a.disks)

def playing : Event → Option (SongFile × Nat)
  | .sigSongPlaying song col => some (song, col)
  | _ => none

def isRemove : Event → Bool
  | .remove _ _ _ => true
  | _ => false

/-- The step takes a song from a collection, emits `SigSongPlaying` or removes a file. -/
def Starts (s : PlayerThread) (a : Answer) (s' : PlayerThread) : Prop :=
  Finds s a ∨ ∃ es, s'.log = s.log ++ es ∧ ∃ e ∈ es, (playing e).isSome ∨ isRemove e = true

def announced (s : PlayerThread) : List (SongFile × Nat) := s.log.filterMap playing

/-! ## What a step announces -/

/-- No song is announced and no file is removed. -/
def Silent (es : List Event) : Prop := ∀ e ∈ es, playing e = none ∧ isRemove e = false

theorem silent_nil : Silent [] := fun _ he => absurd he List.not_mem_nil

theorem Silent.announced {es : List Event} (hes : Silent es) {s s' : PlayerThread}
    (hlog : s'.log = s.log ++ es) : s'.announced = s.announced := by
  have hnone : es.filterMap playing = [] :=
    List.filterMap_eq_nil_iff.mpr fun e he => (hes e he).1
  rw [PlayerThread.announced, hlog, List.filterMap_append, hnone, List.append_nil]
  rfl

theorem Silent.not_starts {es : List Event} (hes : Silent es) {s s' : PlayerThread} {a : Answer}
    (hlog : s'.log = s.log ++ es) (hfinds : ¬ Finds s a) : ¬ Starts s a s' := by
  rintro (hf | ⟨es', he, e, hmem, hkind⟩)
  · exact hfinds hf
  · rw [hlog, List.append_cancel_left_eq] at he
    obtain ⟨hplaying, hremove⟩ := hes e (he ▸ hmem)
    rw [hplaying, hremove] at hkind
    exact hkind.elim nofun nofun

theorem thread_fetch {s s' : PlayerThread} {a : Answer} (hpc : s.pc = .fetch)
    (h : s.thread a = some s') :
    (Finds s a ∨ s'.pc = .sleep ∨ s'.pc = .done) ∧ ∃ es, s'.log = s.log ++ es ∧ Silent es := by
  unfold PlayerThread.thread at h
  rw [hpc] at h
  dsimp only at h
  split at h
  · cases h
  · next cols song col hg =>
    cases h
    exact ⟨.inl ⟨hpc, cols, song, col, hg⟩, [], rfl, silent_nil⟩
  · next cols hg =>
    cases h
    exact ⟨.inr (.inl rfl), _, rfl, by simp [Silent, playing, isRemove]⟩
  · next cols e hg =>
    cases h
    exact ⟨.inr (.inr rfl), _, rfl, by simp [Silent, playing, isRemove]⟩
  · cases h

/-- What a step announces that takes no song is the song of its iteration, and then the iteration
has none to announce. -/
def Announces (s s' : PlayerThread) : Prop :=
  ∃ songs, s'.announced = s.announced ++ songs ∧
    songs ++ s'.pc.fetched.toList <+: s.pc.fetched.toList

theorem Silent.announces {es : List Event} (hes : Silent es) {s s' : PlayerThread}
    (hlog : s'.log = s.log ++ es) (hpc : s'.pc.fetched = none ∨ s'.pc.fetched = s.pc.fetched) :
    Announces s s' := by
  refine ⟨[], by rw [hes.announced hlog, List.append_nil], ?_⟩
  rcases hpc with hpc | hpc
  · rw [hpc]
    exact List.nil_prefix
  · rw [hpc]
    exact List.prefix_rfl

theorem silent_closing_announced (song : SongFile) (col : Nat) (removed : Bool) :
    (closing song col removed).filterMap playing = [] := by
  unfold closing
  cases removed <;> cases song.mDeleteAfterPlay <;> rfl

theorem thread_announced {s s' : PlayerThread} {a : Answer} (hfinds : ¬ Finds s a)
    (h : s.thread a = some s') : Announces s s' := by
  by_cases hfetch : s.pc = .fetch
  · obtain ⟨hcases, es, hlog, hes⟩ := thread_fetch hfetch h
    refine hes.announces hlog (.inl ?_)
    rcases hcases.resolve_left hfinds with hpc | hpc
    · rw [hpc]
      rfl
    · rw [hpc]
      rfl
  unfold PlayerThread.thread at h
  cases hpc : s.pc <;> rw [hpc] at h <;> dsimp only at h
  case fetch => exact absurd hpc hfetch
  case connect | send =>
    split at h <;> cases h
    · exact Silent.announces (by simp [Silent, playing, isRemove]) rfl (.inl rfl)
    · exact Silent.announces (by simp [Silent, playing, isRemove]) rfl (.inl rfl)
  case opening song col =>
    split at h <;> cases h
    · exact silent_nil.announces rfl (.inr (by rw [hpc]; rfl))
    · exact Silent.announces (by simp [Silent, playing, isRemove, wrongFile]) rfl (.inl rfl)
  case announce song col =>
    have hone : ∀ es pc, es.filterMap playing = [(song, col)] → pc.fetched = none →
        Announces s (s.emit es pc) := by
      intro es pc hes hnone
      refine ⟨[(song, col)], ?_, ?_⟩
      · show (s.log ++ es).filterMap playing = _
        rw [List.filterMap_append, hes]
        rfl
      · rw [hpc, show (s.emit es pc).pc = pc from rfl, hnone]
        exact List.prefix_rfl
    split at h <;> cases h
    · exact hone _ _ rfl rfl
    · exact hone _ _ rfl rfl
  case read | testStop | testSkip | afterStop | afterSkip =>
    split at h <;> cases h
    · exact Silent.announces (by simp [Silent, playing, isRemove]) rfl (.inl rfl)
    · exact Silent.announces (by simp [Silent, playing, isRemove]) rfl (.inl rfl)
  case sleep | clearSkip =>
    cases h
    exact silent_nil.announces rfl (.inl rfl)
  case close song col =>
    cases h
    refine ⟨[], ?_, List.nil_prefix⟩
    show (s.log ++ closing song col a.removed).filterMap playing = _
    rw [List.filterMap_append, silent_closing_announced]
    rfl
  case done => cases h

/-- A run that takes no song announces at most the one that is there. -/
theorem announced_of_run {s s' : PlayerThread} {acts : List Act}
    (hfinds : ∀ t b, Machine.Takes step s acts t (.thread b) → ¬ Finds t b)
    (h : Machine.run step s acts = some s') : Announces s s' := by
  induction acts generalizing s with
  | nil =>
    cases h
    exact silent_nil.announces (List.append_nil _).symm (.inr rfl)
  | cons act acts ih =>
    obtain ⟨t, ht, hr⟩ := Option.bind_eq_some_iff.mp h
    obtain ⟨later, hlater, hrest⟩ :=
      ih (fun u b hu => hfinds u b (Machine.takes_cons.mpr (.inr ⟨t, ht, hu⟩))) hr
    cases act with
    | stop | skip =>
      cases ht
      exact ⟨later, hlater, hrest⟩
    | thread a =>
      obtain ⟨now, hnow, hfirst⟩ :=
        thread_announced (hfinds s a (Machine.takes_cons.mpr (.inl ⟨rfl, rfl⟩))) ht
      refine ⟨now ++ later, by rw [hlater, hnow, List.append_assoc], ?_⟩
      rw [List.append_assoc]
      exact ((List.prefix_append_right_inj now).mpr hrest).trans hfirst

/-! ## A thread without a song -/

/-- At the top of the main loop, asleep, or at the end of the thread. -/
def Idle (s : PlayerThread) : Prop := s.pc = .fetch ∨ s.pc = .sleep ∨ s.pc = .done

theorem Idle.thread {s s' : PlayerThread} {a : Answer} (hs : Idle s) (hfinds : ¬ Finds s a)
    (h : s.thread a = some s') : Idle s' ∧ ¬ Starts s a s' := by
  rcases hs with hpc | hpc | hpc
  · obtain ⟨hcases, es, hlog, hes⟩ := thread_fetch hpc h
    exact ⟨.inr (hcases.resolve_left hfinds), hes.not_starts hlog hfinds⟩
  · rw [PlayerThread.thread, hpc] at h
    cases h
    exact ⟨.inl rfl, silent_nil.not_starts rfl hfinds⟩
  · rw [PlayerThread.thread, hpc] at h
    cases h

/-- A thread without a song that finds none starts nothing. -/
theorem not_starts_of_idle {s t t' : PlayerThread} {acts : List Act} {a : Answer} (hs : Idle s)
    (hfinds : ∀ u b, Machine.Takes step s acts u (.thread b) → ¬ Finds u b)
    (ht : Machine.Takes step s acts t (.thread a)) (h : t.thread a = some t') : ¬ Starts t a t' := by
  have hidle : Idle t := by
    refine Machine.takes_invariant_under (C := fun u act => ∀ b, act = .thread b → ¬ Finds u b) ?_ hs
      ?_ ht
    · intro u act u' hu hnone hstep
      cases act with
      | stop | skip =>
        cases hstep
        exact hu
      | thread b => exact (hu.thread (hnone b rfl) hstep).1
    · rintro u act hu b rfl
      exact hfinds u b hu
  exact (hidle.thread (hfinds t a ht) h).2

/-! ## A thread that is stopped -/

theorem thread_mStopPlayer {s s' : PlayerThread} {a : Answer} (h : s.thread a = some s') :
    s'.mStopPlayer = s.mStopPlayer := by
  unfold PlayerThread.thread at h
  cases hpc : s.pc <;> rw [hpc] at h <;> dsimp only at h
  case fetch =>
    split at h <;> cases h
    · rfl
    · rfl
    · rfl
  case sleep | close | clearSkip =>
    cases h
    rfl
  case done => cases h
  all_goals
    split at h <;> cases h
    · rfl
    · rfl

/-- What the next step of the thread meets. -/
def next (acts : List Act) : Option Answer :=
  acts.findSome? fun act => match act with
    | .thread a => some a
    | _ => none

/-- From here the thread comes to the top of the main loop without a look at `mStopPlayer`: it is
there, or asleep in front of it, or behind the look after a song; or `Connect` does not throw, or
something is wrong with the file. -/
def Passes (s : PlayerThread) (acts : List Act) : Prop :=
  match s.pc with
  | .fetch | .sleep | .afterSkip | .clearSkip => True
  | .connect => ∃ a ∈ next acts, a.shout = none
  | .opening _ _ => ∃ a ∈ next acts, a.fileOk = false
  | _ => False

/-- A stopped thread that does not pass by the look at `mStopPlayer` does not come to do so. -/
theorem not_passes_thread {s s' : PlayerThread} {a : Answer} {acts : List Act}
    (hstop : s.mStopPlayer = true) (hs : ¬ s.Passes (.thread a :: acts))
    (h : s.thread a = some s') : ¬ s'.Passes acts := by
  unfold Passes at hs
  unfold PlayerThread.thread at h
  cases hpc : s.pc <;> rw [hpc] at h hs <;> dsimp only at h hs
  case connect =>
    split at h
    · cases h
      exact id
    · next hshout => exact absurd ⟨a, rfl, hshout⟩ hs
  case opening =>
    split at h
    · cases h
      exact id
    · next hok => exact absurd ⟨a, rfl, Bool.eq_false_iff.mpr hok⟩ hs
  case fetch | sleep | afterSkip | clearSkip => exact absurd trivial hs
  case announce | read | testStop | testSkip | send =>
    split at h <;> cases h
    · exact id
    · exact id
  case close =>
    cases h
    exact id
  case afterStop =>
    rw [if_pos hstop] at h
    cases h
    exact id
  case done => cases h

/-- So it does not ask the collections for a song. -/
theorem not_finds_of_not_passes {s t : PlayerThread} {acts : List Act} {a : Answer}
    (hstop : s.mStopPlayer = true) (hs : ¬ s.Passes acts)
    (h : Machine.Takes step s acts t (.thread a)) : ¬ Finds t a := by
  induction acts generalizing s with
  | nil => exact absurd h Machine.not_takes_nil
  | cons act acts ih =>
    rcases Machine.takes_cons.mp h with ⟨rfl, rfl⟩ | ⟨u, hu, hrest⟩
    · rintro ⟨hpc, -⟩
      rw [Passes, hpc] at hs
      exact hs trivial
    · cases act with
      | stop =>
        cases hu
        exact ih (s := { s with mStopPlayer := true }) rfl hs hrest
      | skip =>
        cases hu
        exact ih (s := { s with mSkipSong := true }) hstop hs hrest
      | thread b =>
        exact ih ((thread_mStopPlayer hu).trans hstop) (not_passes_thread hstop hs hu) hrest

/-! ## After `Stop` -/

/-- Once `Stop` has been called, no later iteration starts anything, and no song is announced but one
that the iteration under way has fetched. -/
structure StartsNothing (s : PlayerThread) (acts : List Act) : Prop where
  later : ∀ before mid after t, acts = before ++ .stop :: (mid ++ after) →
    Machine.run step s (before ++ .stop :: mid) = some t → t.pc = .fetch →
    ∀ u b u', Machine.Takes step t after u (.thread b) → u.thread b = some u' → ¬ Starts u b u'
  announced : ∀ before after t t', acts = before ++ .stop :: after →
    Machine.run step s before = some t → Machine.run step t (.stop :: after) = some t' →
    ∃ songs, t'.announced = t.announced ++ songs ∧ songs <+: t.pc.fetched.toList

/-- A `Stop` that comes where the thread passes by the look at the flag finds the collections empty
from then on. -/
def StaysEmpty (s : PlayerThread) (acts : List Act) : Prop :=
  ∀ before after t, acts = before ++ .stop :: after → Machine.run step s before = some t →
    t.Passes after → ∀ u b, Machine.Takes step t (.stop :: after) u (.thread b) → u.pc = .fetch →
    ¬ Holds u.mCols b.disks

theorem StaysEmpty.not_finds {s t u : PlayerThread} {before after : List Act} {b : Answer}
    (h : StaysEmpty s (before ++ .stop :: after)) (ht : Machine.run step s before = some t)
    (hu : Machine.Takes step t (.stop :: after) u (.thread b)) : ¬ Finds u b := by
  by_cases hpasses : t.Passes after
  · rintro ⟨hpc, hfound⟩
    exact h before after t rfl ht hpasses u b hu hpc ((found_iff _ _).mp hfound)
  · rcases Machine.takes_cons.mp hu with ⟨-, ⟨⟩⟩ | ⟨v, hv, hu⟩
    cases hv
    exact @not_finds_of_not_passes { t with mStopPlayer := true } u after b rfl hpasses hu

/-- **Every `Stop` is honoured exactly if those that come where the thread passes by the look at
`mStopPlayer` find the collections empty from then on.** -/
theorem starts_nothing_iff (s : PlayerThread) (acts : List Act) :
    StartsNothing s acts ↔ StaysEmpty s acts := by
  constructor
  · rintro h before after t rfl ht - u b hu hpc hholds
    have hfound : Found (getNextSong u.mCols b.disks) := (found_iff _ _).mpr hholds
    -- The call of `Stop` is behind, since the step is one of the thread.
    rcases Machine.takes_cons.mp hu with ⟨-, ⟨⟩⟩ | ⟨v, hv, mid, rest, rfl, hmid⟩
    have hrun : Machine.run step s (before ++ .stop :: mid) = some u := by
      rw [Machine.run_append, ht, Option.bind_some, Machine.run_cons, hv]
      exact hmid
    have hnext : ∃ u', u.thread b = some u' := by
      obtain ⟨cols, song, col, hg⟩ := hfound
      unfold PlayerThread.thread
      rw [hpc]
      dsimp only
      rw [hg]
      exact ⟨_, rfl⟩
    obtain ⟨u', hu'⟩ := hnext
    have htakes : Machine.Takes step u (.thread b :: rest) u (.thread b) :=
      Machine.takes_cons.mpr (.inl ⟨rfl, rfl⟩)
    exact h.later before mid _ u rfl hrun hpc u b u' htakes hu' (.inl ⟨hpc, hfound⟩)
  · intro h
    refine ⟨?_, ?_⟩
    · rintro before mid after t rfl ht hpc u b u' hu hu'
      rw [Machine.run_append] at ht
      obtain ⟨v, hv, hmid⟩ := Option.bind_eq_some_iff.mp ht
      exact not_starts_of_idle (.inl hpc) (fun w c hw => h.not_finds hv (hw.prepend hmid)) hu hu'
    · rintro before after t t' rfl ht ht'
      have hnone : ∀ u b, Machine.Takes step t (.stop :: after) u (.thread b) → ¬ Finds u b :=
        fun u b hu => h.not_finds ht hu
      obtain ⟨songs, hsongs, hprefix⟩ := announced_of_run hnone ht'
      exact ⟨songs, hsongs, (List.prefix_append songs _).trans hprefix⟩

/-- The thread goes on, and the request collection finds `request`. -/
def asking (request : Disk) : Answer := ⟨none, [request, Turn.noRequests], true, 0, true⟩

/-- `Stop` is called while the thread sleeps because there is no song, and then a request arrives. -/
def stopWaiting : List Act :=
  [.thread (asking Turn.noRequests), .thread (asking Turn.noRequests), .stop,
    .thread (asking Turn.noRequests), .thread (asking Turn.oneRequest)]

theorem started_after_stop : ¬ ∀ REQUEST_DIR SHARE_DIR request share p acts,
    mainloop REQUEST_DIR SHARE_DIR request share = some (.ok p) → StartsNothing p acts := by
  intro h
  have hwaiting : ∃ p t t', mainloop "/req".toList "/shr".toList Turn.noRequests
        Turn.noRequests = some (.ok p) ∧
      Machine.run step p (stopWaiting.take 4) = some t ∧ t.pc = .fetch ∧
      t.thread (asking Turn.oneRequest) = some t' ∧ Finds t (asking Turn.oneRequest) :=
    ⟨_, _, _, rfl, rfl, rfl, rfl, rfl, _, _, _, rfl⟩
  obtain ⟨p, t, t', hmain, ht, hpc, ht', hfinds⟩ := hwaiting
  have htakes : Machine.Takes step t (stopWaiting.drop 4) t (.thread (asking Turn.oneRequest)) :=
    Machine.takes_cons.mpr (.inl ⟨rfl, rfl⟩)
  exact (h _ _ _ _ p stopWaiting hmain).later (stopWaiting.take 2) [.thread (asking Turn.noRequests)]
    (stopWaiting.drop 4) t rfl ht hpc t _ t' htakes ht' (.inl hfinds)

end PlayerThread

end NetDJ.Engine
