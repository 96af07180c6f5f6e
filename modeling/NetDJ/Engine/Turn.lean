import NetDJ.Engine.PlayerThread

/-!
# `PlayerThread.cpp`: the turn of a song

The player with the contents of the file it plays, block by block. `readBlock` and `Send` do not
fail; it may throw elsewhere.

* `Turn.step` : the steps of the thread, with what is read and sent;
* `removes_iff` : the player removes the songs that it closes and that say so;
* `Ok`, `ok_of_run` : as long as nothing is called, a song is sent in full or not at all, and that
  depends on the flags when it was announced;
* `removed_in_turn_iff` : so each file that is removed had its turn exactly if no song is announced
  while a flag is still up from before.
-/

namespace NetDJ.Engine

open PlayerThread (closing thread_cases thread_close mem_closing_remove pc_of_mainloop)

/-- The player and the file it plays: what the file holds, what is left of it to read, and what is
in `buf`. Since the last `SigSongPlaying`: what `Send` got, whether `Stop` or `Skip` has been called,
and whether one of their flags was up at that moment already. -/
structure Turn where
  player : PlayerThread
  file : Str
  rest : Str
  buf : Str
  sent : Str
  called : Bool
  stale : Bool

namespace Turn

def start (player : PlayerThread) : Turn := ⟨player, [], [], [], [], false, false⟩

/-- `readBlock` returns the length of a block of the file, and 0 only at its end. `Send` does not
throw. -/
def works (s : Turn) (a : Answer) : Bool :=
  match s.player.pc with
  | .read _ _ => 0 ≤ a.bytes && a.bytes ≤ min 4096 s.rest.length && (a.bytes ≠ 0 || s.rest = [])
  | .send _ _ _ => a.shout.isNone
  | _ => true

/-- The file beside the step of the thread; `content` is what it holds when it is opened. -/
def follow (s : Turn) (a : Answer) (content : Str) (player : PlayerThread) : Turn :=
  match s.player.pc with
  | .opening _ _ => { s with player := player, file := content, rest := content }
  | .announce _ _ =>
    { s with
      player := player, sent := [], called := false,
      stale := s.player.mStopPlayer || s.player.mSkipSong }
  | .read _ _ =>
    { s with
      player := player, buf := s.rest.take a.bytes.toNat, rest := s.rest.drop a.bytes.toNat }
  | .send _ _ _ => { s with player := player, sent := s.sent ++ s.buf }
  | _ => { s with player := player }

inductive Act where
  | stop
  | skip
  | thread (a : Answer) (content : Str)

def step (s : Turn) : Act → Option Turn
  | .stop => (s.player.step .stop).map fun player => { s with player := player, called := true }
  | .skip => (s.player.step .skip).map fun player => { s with player := player, called := true }
  | .thread a content =>
    if s.works a then (s.player.thread a).map (s.follow a content) else none

/-- The step from `s` to `s'` calls `QFile::remove` on the song. -/
def Removes (s s' : Turn) (song : SongFile) (col : Nat) : Prop :=
  ∃ es ok, s'.player.log = s.player.log ++ es ∧ .remove song col ok ∈ es

@[simp] theorem follow_player (s : Turn) (a : Answer) (content : Str) (player : PlayerThread) :
    (s.follow a content player).player = player := by
  unfold follow
  split <;> rfl

theorem step_thread {s s' : Turn} {a : Answer} {content : Str}
    (h : s.step (.thread a content) = some s') :
    s.works a = true ∧ ∃ player, s.player.thread a = some player ∧
      s' = s.follow a content player := by
  obtain ⟨hw, h⟩ := Option.ite_none_right_eq_some.mp h
  obtain ⟨player, hp, he⟩ := Option.map_eq_some_iff.mp h
  exact ⟨hw, player, hp, he.symm⟩

theorem step_close {s : Turn} {song : SongFile} {col : Nat} (hpc : s.player.pc = .close song col)
    (a : Answer) (content : Str) : ∃ s', s.step (.thread a content) = some s' := by
  have hw : s.works a = true := by
    unfold works
    rw [hpc]
  rw [step, if_pos hw, thread_close hpc]
  exact ⟨_, rfl⟩

/-! ## What is removed -/

theorem not_removes_quiet {s s' : Turn} {es : List Event} (hes : PlayerThread.Quiet es)
    (h : s'.player.log = s.player.log ++ es) (song : SongFile) (col : Nat) :
    ¬ Removes s s' song col := by
  rintro ⟨es', ok, he, hmem⟩
  rw [h, List.append_cancel_left_eq] at he
  exact (hes song col).2 ok (he ▸ hmem)

theorem removes_iff {s s' : Turn} {act : Act} (h : s.step act = some s') (song : SongFile)
    (col : Nat) : Removes s s' song col ↔
      (∃ a content, act = .thread a content) ∧ s.player.pc = .close song col ∧
        song.mDeleteAfterPlay = true := by
  cases act with
  | stop | skip =>
    cases h
    have hquiet : PlayerThread.Quiet [] :=
      fun song col => ⟨List.not_mem_nil, fun _ => List.not_mem_nil⟩
    refine iff_of_false (not_removes_quiet hquiet (List.append_nil _).symm song col) ?_
    rintro ⟨⟨a, content, he⟩, -⟩
    cases he
  | thread a content =>
    obtain ⟨-, player, hp, rfl⟩ := step_thread h
    constructor
    · intro hrem
      rcases thread_cases hp with ⟨-, -, es, hes, hlog⟩ | ⟨-, -, -, es, hes, hlog⟩ |
        ⟨song', col', hpc, -, -, hlog⟩
      · exact absurd hrem (not_removes_quiet hes (by rw [follow_player, hlog]) song col)
      · exact absurd hrem (not_removes_quiet hes (by rw [follow_player, hlog]) song col)
      · obtain ⟨es, ok, he, hmem⟩ := hrem
        rw [follow_player, hlog, List.append_cancel_left_eq] at he
        rw [← he, mem_closing_remove] at hmem
        obtain ⟨hdel, rfl, rfl, -⟩ := hmem
        exact ⟨⟨a, content, rfl⟩, hpc, hdel⟩
    · rintro ⟨-, hpc, hdel⟩
      rw [thread_close hpc] at hp
      cases hp
      refine ⟨closing song col a.removed, a.removed, ?_, mem_closing_remove.mpr ⟨hdel, rfl, rfl, rfl⟩⟩
      rw [follow_player]
      rfl

/-! ## What is sent -/

/-- What was sent of a song: nothing if a flag was up already, else all but `left`. -/
def Part (s : Turn) (left : Str) : Prop :=
  if s.stale then s.sent = [] else s.sent ++ left = s.file

theorem part_stale {s : Turn} (h : s.stale = true) (left : Str) : s.Part left ↔ s.sent = [] := by
  rw [Part, if_pos h]

theorem part_fresh {s : Turn} (h : s.stale = false) (left : Str) :
    s.Part left ↔ s.sent ++ left = s.file := by
  rw [Part, if_neg (by rw [h]; exact Bool.false_ne_true)]

def raised (s : Turn) : Bool := s.player.mStopPlayer || s.player.mSkipSong

/-- As long as nothing is called, the flags are as they were when the song was announced, and a song
is sent in full or not at all. -/
def Ok (s : Turn) : Prop :=
  match s.player.pc with
  | .announce _ _ => s.rest = s.file
  | .read _ _ => s.called = true ∨ s.raised = s.stale ∧ s.Part s.rest
  | .testStop _ _ _ => s.called = true ∨ s.raised = s.stale ∧ s.Part (s.buf ++ s.rest)
  | .testSkip _ _ _ =>
    s.called = true ∨ s.player.mStopPlayer = false ∧ s.raised = s.stale ∧ s.Part (s.buf ++ s.rest)
  | .send _ _ _ =>
    s.called = true ∨ s.stale = false ∧ s.raised = false ∧ s.Part (s.buf ++ s.rest)
  | .close _ _ => s.called = true ∨ s.Part []
  | _ => True

theorem ok_called {s : Turn} {player : PlayerThread} (hpc : player.pc = s.player.pc)
    (hs : s.Ok) : Ok { s with player := player, called := true } := by
  unfold Ok at hs ⊢
  dsimp only at hs ⊢
  rw [hpc]
  split <;> simp_all

theorem Ok.step {s s' : Turn} {act : Act} (hs : s.Ok) (h : s.step act = some s') : s'.Ok := by
  cases act with
  | stop | skip =>
    cases h
    exact ok_called rfl hs
  | thread a content =>
    obtain ⟨hw, player, hp, rfl⟩ := step_thread h
    unfold PlayerThread.thread at hp
    unfold Ok at hs
    unfold works at hw
    unfold follow
    cases hpc : s.player.pc <;> rw [hpc] at hp hs hw <;> dsimp only at hp hs hw ⊢
    case connect | afterStop | afterSkip =>
      split at hp <;> cases hp
      · trivial
      · trivial
    case fetch =>
      split at hp <;> cases hp
      · trivial
      · trivial
      · trivial
    case opening song col =>
      split at hp <;> cases hp
      · exact rfl
      · trivial
    case announce song col =>
      split at hp <;> cases hp
      · trivial
      · refine .inr ⟨rfl, ?_⟩
        show if _ then ([] : Str) = [] else [] ++ s.rest = s.file
        split
        · rfl
        · exact hs
    case read song col =>
      split at hp <;> cases hp
      · refine hs.imp_right fun ⟨hflags, hpart⟩ => ⟨hflags, ?_⟩
        show s.Part (s.rest.take _ ++ s.rest.drop _)
        rwa [List.take_append_drop]
      · refine hs.imp_right fun ⟨_, hpart⟩ => ?_
        have hrest : s.rest = [] := by
          simp only [Bool.and_eq_true, Bool.or_eq_true, decide_eq_true_eq] at hw
          exact hw.2.resolve_left (by omega)
        rwa [hrest] at hpart
    case testStop song col bytes =>
      split at hp <;> cases hp
      · next hstop =>
        refine hs.imp_right fun ⟨hflags, hpart⟩ => ?_
        have hstale : s.stale = true := by rw [← hflags, raised, hstop, Bool.true_or]
        exact (part_stale hstale _).mpr ((part_stale hstale _).mp hpart)
      · next hstop => exact hs.imp_right fun hs => ⟨Bool.eq_false_iff.mpr hstop, hs⟩
    case testSkip song col bytes =>
      split at hp <;> cases hp
      · next hskip =>
        refine hs.imp_right fun ⟨_, hflags, hpart⟩ => ?_
        have hstale : s.stale = true := by rw [← hflags, raised, hskip, Bool.or_true]
        exact (part_stale hstale _).mpr ((part_stale hstale _).mp hpart)
      · next hskip =>
        refine hs.imp_right fun ⟨hstop, hflags, hpart⟩ => ?_
        have hraised : s.raised = false := by
          rw [raised, hstop, Bool.eq_false_iff.mpr hskip, Bool.or_false]
        exact ⟨hflags ▸ hraised, hraised, hpart⟩
    case send song col bytes =>
      split at hp <;> cases hp
      · trivial
      · refine hs.imp_right fun ⟨hstale, hraised, hpart⟩ => ⟨hraised.trans hstale.symm, ?_⟩
        rw [part_fresh hstale] at hpart
        refine (part_fresh ?_ _).mpr ?_
        · exact hstale
        · show s.sent ++ s.buf ++ s.rest = s.file
          rw [List.append_assoc, hpart]
    case sleep | close | clearSkip =>
      cases hp
      trivial
    case done => cases hp

theorem ok_of_run {p : PlayerThread} (hp : p.pc = .connect) {acts : List Act} {s : Turn}
    (h : Machine.run step (start p) acts = some s) : s.Ok := by
  have hstart : (start p).Ok := by
    unfold Ok start
    rw [hp]
    trivial
  exact Machine.run_keeps (fun _ _ _ ht hstep => ht.step hstep) hstart h

/-- A song at its end was sent in full, unless a flag was up already. -/
theorem Ok.sent_iff {s : Turn} (hs : s.Ok) {song : SongFile} {col : Nat}
    (hpc : s.player.pc = .close song col) :
    (s.sent = s.file ∨ s.called = true) ↔
      (s.file ≠ [] → s.stale = false ∨ s.called = true) := by
  unfold Ok at hs
  rw [hpc] at hs
  dsimp only at hs
  rcases hs with hcalled | hpart
  · exact iff_of_true (.inr hcalled) fun _ => .inr hcalled
  · cases hstale : s.stale with
    | true =>
      rw [part_stale hstale] at hpart
      have hnot : ¬ (true = false) := nofun
      rw [hpart, eq_comm, or_iff_not_imp_left, or_iff_right hnot]
    | false =>
      rw [part_fresh hstale, List.append_nil] at hpart
      exact iff_of_true (.inl hpart) fun _ => .inl rfl

/-- **A file is removed only after its turn exactly if no song that is to be removed, and that has
something to send, is announced while a flag is still up, with no further call before its end.** -/
theorem removed_in_turn_iff {REQUEST_DIR SHARE_DIR : Str} {request share : Disk} {p : PlayerThread}
    (hmain : mainloop REQUEST_DIR SHARE_DIR request share = some (.ok p)) (acts : List Act) :
    (∀ t act t' song col, Machine.Takes step (start p) acts t act → t.step act = some t' →
        Removes t t' song col → t.sent = t.file ∨ t.called = true) ↔
      ∀ t a content song col, Machine.Takes step (start p) acts t (.thread a content) →
        t.player.pc = .close song col → song.mDeleteAfterPlay = true → t.file ≠ [] →
        t.stale = false ∨ t.called = true := by
  have hok : ∀ t act, Machine.Takes step (start p) acts t act → t.Ok := by
    rintro t act ⟨before, after, -, ht⟩
    exact ok_of_run (pc_of_mainloop hmain) ht
  constructor
  · intro h t a content song col htakes hpc hdel
    obtain ⟨t', ht'⟩ := step_close hpc a content
    have hrem : Removes t t' song col := (removes_iff ht' song col).mpr ⟨⟨a, content, rfl⟩, hpc, hdel⟩
    exact ((hok t _ htakes).sent_iff hpc).mp (h t _ t' song col htakes ht' hrem)
  · intro h t act t' song col htakes ht' hrem
    obtain ⟨⟨a, content, rfl⟩, hpc, hdel⟩ := (removes_iff ht' song col).mp hrem
    exact ((hok t _ htakes).sent_iff hpc).mpr (h t a content song col htakes hpc hdel)

/-- A request directory that holds one file, and a share file without lines. -/
def oneRequest : Disk :=
  ⟨some [⟨"/req/a.mp3".toList, false, 10⟩], [⟨fun _ => none, some false⟩],
    ⟨.null, true, true, true, []⟩, 0⟩

def noRequests : Disk := { oneRequest with entries := some [] }

/-- The calls of `Shout` and the file work, and `readBlock` returns `bytes`. -/
def answering (bytes : Int) : Act :=
  .thread ⟨none, [noRequests, noRequests], true, bytes, true⟩ "ab".toList

/-- A song of two bytes is played, with the calls `acts` before it is announced. -/
def playAfter (acts : List Act) : List Act :=
  [answering 0, answering 0, answering 0] ++ acts ++
    [answering 0, answering 2, answering 2, answering 2, answering 2, answering 0, answering 0]

def requested : SongFile := ⟨"/req/a.mp3".toList, 1, true, false⟩

/-- A skip that comes too late for the song before is held against the next one. -/
theorem removed_unsent : ¬ ∀ REQUEST_DIR SHARE_DIR request share p acts t act t' song col,
    mainloop REQUEST_DIR SHARE_DIR request share = some (.ok p) →
      Machine.Takes step (start p) acts t act → t.step act = some t' → Removes t t' song col →
      t.sent = t.file ∨ t.called = true := by
  intro h
  have hunsent : ∃ p t t', mainloop "/req".toList "/shr".toList oneRequest oneRequest = some (.ok p) ∧
      Machine.run step (start p) ((playAfter [.skip]).take 8) = some t ∧
      t.step (answering 2) = some t' ∧ Removes t t' requested 0 ∧ t.sent ≠ t.file ∧
      t.called = false :=
    ⟨_, _, _, rfl, rfl, rfl, ⟨closing requested 0 true, true, rfl, by decide⟩, by decide, by decide⟩
  obtain ⟨p, t, t', hmain, ht, ht', hrem, hsent, hcalled⟩ := hunsent
  have htakes : Machine.Takes step (start p) (playAfter [.skip]) t (answering 2) :=
    ⟨(playAfter [.skip]).take 8, (playAfter [.skip]).drop 9, rfl, ht⟩
  rcases h _ _ _ _ p (playAfter [.skip]) t _ t' _ _ hmain htakes ht' hrem with h | h
  · exact hsent h
  · rw [hcalled] at h
    cases h

/-- No call comes, and the file is removed when it has been sent. -/
theorem removed_in_turn_played : ∃ p s,
    mainloop "/req".toList "/shr".toList oneRequest oneRequest = some (.ok p) ∧
      Machine.run step (start p) (playAfter []) = some s ∧ s.sent = "ab".toList ∧
      ∀ t act t' song col, Machine.Takes step (start p) (playAfter []) t act →
        t.step act = some t' → Removes t t' song col → t.sent = t.file ∨ t.called = true := by
  refine ⟨_, _, rfl, rfl, rfl, (@removed_in_turn_iff "/req".toList "/shr".toList oneRequest
    oneRequest _ rfl (playAfter [])).mpr fun t a content song col ht _ _ _ => .inl ?_⟩
  refine Machine.forall_takes_cons (P := fun t _ => t.stale = false) rfl rfl ?_ t _ ht
  iterate 9 refine Machine.forall_takes_cons rfl rfl ?_
  exact Machine.forall_takes_nil

end Turn

end NetDJ.Engine
