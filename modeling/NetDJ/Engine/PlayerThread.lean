import NetDJ.Lib.Machine
import NetDJ.Engine.Collections

/-!
# `PlayerThread.cpp`: the thread that plays

The thread is a machine that takes one step between two looks at `mStopPlayer` and `mSkipSong`,
which the slots of the server and `mainloop` set at any moment.

* `mainloop` : the collections and the thread at its start;
* `PlayerThread.step` : the calls of `Stop` and `Skip`, and the steps of the thread;
* `PlayerThread.thread_cases` : what a step of the thread does;
* `Tracked`, `tracked_of_run` : the player removes what it closes exactly if the song says so;
* `closed_of_run` : it closes a song when it has reached the song's end;
* `share_kept_iff` : so no song of the list file is removed exactly if none whose end is reached has
  been built on memory that held true.
-/

namespace NetDJ.Engine

inductive Event where
  | sigStart | sigStop
  | sigMessage (aMsg : Str) (aLevel : Nat) (aClass : EntryClass)
  | sigSongPlaying (song : SongFile) (col : Nat)
  | send (bytes : Int)
  /-- `file.close()`. -/
  | close (song : SongFile) (col : Nat)
  /-- `QFile::remove`, and whether it worked. -/
  | remove (song : SongFile) (col : Nat) (ok : Bool)
  deriving DecidableEq

/-- Where the thread is, with `currentSong` and the position of `currentCollection`. -/
inductive Pc where
  | connect
  | fetch
  /-- `sleep(10)`, when there was no song. -/
  | sleep
  | opening (song : SongFile) (col : Nat)
  | announce (song : SongFile) (col : Nat)
  | read (song : SongFile) (col : Nat)
  | testStop (song : SongFile) (col : Nat) (bytes : Int)
  | testSkip (song : SongFile) (col : Nat) (bytes : Int)
  | send (song : SongFile) (col : Nat) (bytes : Int)
  | close (song : SongFile) (col : Nat)
  | afterStop
  | afterSkip
  | clearSkip
  | done
  deriving DecidableEq

def Pc.current : Pc → Option (SongFile × Nat)
  | opening s c | announce s c | read s c | testStop s c _ | testSkip s c _ | send s c _
  | close s c => some (s, c)
  | connect | fetch | sleep | afterStop | afterSkip | clearSkip | done => none

/-- What a step of the thread meets: what the calls of `Shout` throw, what the collections find,
whether the file is there, readable and opens, what `readBlock` returns, and whether `QFile::remove`
works. -/
structure Answer where
  shout : Option StdException
  disks : List Disk
  fileOk : Bool
  bytes : Int
  removed : Bool

structure PlayerThread where
  mStopPlayer : Bool
  mSkipSong : Bool
  mCols : List ICollection
  pc : Pc
  log : List Event

/-- The constructor of a collection, with its `Update`. -/
def construct (c : ICollection) (disk : Disk) : Option (Except Failure ICollection) :=
  (c.update disk).map fun (c, r) => r.map fun _ => c

/-- The collections that `mainloop` builds and the player thread it starts; `none` as long as the
construction of the request collection does not return. -/
def mainloop (REQUEST_DIR SHARE_DIR : Str) (request share : Disk) :
    Option (Except Failure PlayerThread) :=
  match construct (.dir (.init "request".toList "Requests".toList REQUEST_DIR true true))
    request with
  | none => none
  | some (.error e) => some (.error e)
  | some (.ok req) =>
    (construct (.file (.init "share".toList "Shares".toList SHARE_DIR)) share).map fun r =>
      r.map fun shr => ⟨false, false, [req, shr], .connect, []⟩

namespace PlayerThread

def emit (s : PlayerThread) (es : List Event) (pc : Pc) : PlayerThread :=
  { s with log := s.log ++ es, pc := pc }

/-- `catch (StdException &e)` and the end of the thread. -/
def caught (s : PlayerThread) (es : List Event) (e : StdException) : PlayerThread :=
  s.emit (es ++ [.sigMessage ("EXCEPTION: [".toList ++ e.getType ++ "] ".toList ++ e.what) 0 .crit,
    .sigStop]) .done

def wrongFile (song : SongFile) : Event :=
  .sigMessage ("Something is wrong with the file: ".toList ++ song.mFilename) 10 .warn

def notDeleted (song : SongFile) : Event :=
  .sigMessage ("Could not delete file: ".toList ++ song.mFilename) 20 .warn

/-- `file.close()` and the deletion. -/
def closing (song : SongFile) (col : Nat) (removed : Bool) : List Event :=
  .close song col ::
    if song.mDeleteAfterPlay then
      .remove song col removed :: if removed then [] else [notDeleted song]
    else []

/-- A step of `run`. -/
def thread (s : PlayerThread) (a : Answer) : Option PlayerThread :=
  match s.pc with
  | .connect =>
    match a.shout with
    | some e => some (s.caught [.sigStart] e)
    | none => some (s.emit [.sigStart] .fetch)
  | .fetch =>
    match getNextSong s.mCols a.disks with
    | none => none
    | some (cols, .ok (some (song, col))) =>
      some ({ s with mCols := cols }.emit [] (.opening song col))
    | some (cols, .ok none) =>
      some ({ s with mCols := cols }.emit
        [.sigMessage "I have no files to play...".toList 10 .warn] .sleep)
    | some (cols, .error (.thrown e)) => some ({ s with mCols := cols }.caught [] e)
    | some (_, .error .undefined) => none
  | .sleep => some (s.emit [] .fetch)
  | .opening song col =>
    if a.fileOk then some (s.emit [] (.announce song col))
    else some (s.emit [wrongFile song] .fetch)
  | .announce song col =>
    let es := [.sigSongPlaying song col, .sigMessage "Check song type!".toList 10 .crit]
    match a.shout with
    | some e => some (s.caught es e)
    | none => some (s.emit es (.read song col))
  | .read song col =>
    if 0 < a.bytes then some (s.emit [] (.testStop song col a.bytes))
    else some (s.emit [] (.close song col))
  | .testStop song col bytes =>
    if s.mStopPlayer then some (s.emit [] (.close song col))
    else some (s.emit [] (.testSkip song col bytes))
  | .testSkip song col bytes =>
    if s.mSkipSong then some (s.emit [] (.close song col))
    else some (s.emit [] (.send song col bytes))
  | .send song col bytes =>
    match a.shout with
    | some e => some (s.caught [] e)
    | none => some (s.emit [.send bytes] (.read song col))
  | .close song col => some (s.emit (closing song col a.removed) .afterStop)
  | .afterStop =>
    if s.mStopPlayer then some (s.emit [.sigStop] .done) else some (s.emit [] .afterSkip)
  | .afterSkip => if s.mSkipSong then some (s.emit [] .clearSkip) else some (s.emit [] .fetch)
  | .clearSkip => some ({ s with mSkipSong := false }.emit [] .fetch)
  | .done => none

inductive Act where
  | stop
  | skip
  | thread (a : Answer)

def step (s : PlayerThread) : Act → Option PlayerThread
  | .stop => some { s with mStopPlayer := true }
  | .skip => some { s with mSkipSong := true }
  | .thread a => s.thread a

/-! ## What a step does -/

/-- No file is closed or removed. -/
def Quiet (es : List Event) : Prop :=
  ∀ song col, .close song col ∉ es ∧ ∀ ok, .remove song col ok ∉ es

/-- What a step of the thread does. -/
inductive Did (s : PlayerThread) (a : Answer) (s' : PlayerThread) : Prop
  | went (cols : s'.mCols = s.mCols) (current : s'.pc.current = s.pc.current ∨ s'.pc.current = none)
    (log : ∃ es, Quiet es ∧ s'.log = s.log ++ es)
  | fetched (r : Except Failure (Option (SongFile × Nat)))
    (cols : getNextSong s.mCols a.disks = some (s'.mCols, r))
    (current : ∀ song col, s'.pc.current = some (song, col) → r = .ok (some (song, col)))
    (log : ∃ es, Quiet es ∧ s'.log = s.log ++ es)
  | closed (song : SongFile) (col : Nat) (pc : s.pc = .close song col) (cols : s'.mCols = s.mCols)
    (current : s'.pc.current = none) (log : s'.log = s.log ++ closing song col a.removed)

theorem quiet_caught {es : List Event} (hes : Quiet es) (e : Event) (he : Quiet [e]) :
    Quiet (es ++ [e, .sigStop]) := by
  intro song col
  simpa [List.mem_append, hes song col, Quiet] using he song col

theorem Did.emit {s : PlayerThread} {a : Answer} {es : List Event} {pc : Pc} (hes : Quiet es)
    (hpc : pc.current = s.pc.current ∨ pc.current = none) : Did s a (s.emit es pc) :=
  .went rfl hpc ⟨es, hes, rfl⟩

theorem Did.caught {s : PlayerThread} {a : Answer} {es : List Event} (hes : Quiet es)
    (e : StdException) : Did s a (s.caught es e) :=
  .emit (quiet_caught hes _ (by simp [Quiet])) (.inr rfl)

theorem thread_cases {s s' : PlayerThread} {a : Answer} (h : s.thread a = some s') :
    Did s a s' := by
  unfold thread at h
  cases hpc : s.pc <;> rw [hpc] at h <;> dsimp only at h
  case connect =>
    split at h <;> cases h
    · exact .caught (by simp [Quiet]) _
    · exact .emit (by simp [Quiet]) (.inr rfl)
  case fetch =>
    split at h
    · cases h
    · next cols song col hg =>
      cases h
      refine .fetched _ hg (fun song' col' hc => ?_) ⟨[], by simp [Quiet], rfl⟩
      cases hc
      rfl
    · next cols hg =>
      cases h
      exact .fetched _ hg nofun ⟨_, by simp [Quiet], rfl⟩
    · next cols e hg =>
      cases h
      exact .fetched _ hg nofun ⟨_, quiet_caught (by simp [Quiet]) _ (by simp [Quiet]), rfl⟩
    · cases h
  case opening song col =>
    split at h <;> cases h
    · exact .emit (by simp [Quiet]) (.inl (by rw [hpc]; rfl))
    · exact .emit (by simp [Quiet, wrongFile]) (.inr rfl)
  case announce | send =>
    split at h <;> cases h
    · exact .caught (by simp [Quiet]) _
    · exact .emit (by simp [Quiet]) (.inl (by rw [hpc]; rfl))
  case read | testStop | testSkip =>
    split at h <;> cases h
    · exact .emit (by simp [Quiet]) (.inl (by rw [hpc]; rfl))
    · exact .emit (by simp [Quiet]) (.inl (by rw [hpc]; rfl))
  case close song col =>
    cases h
    exact .closed song col hpc rfl rfl rfl
  case afterStop | afterSkip =>
    split at h <;> cases h
    · exact .emit (by simp [Quiet]) (.inr rfl)
    · exact .emit (by simp [Quiet]) (.inr rfl)
  case sleep | clearSkip =>
    cases h
    exact .went rfl (.inr rfl) ⟨[], by simp [Quiet], rfl⟩
  case done => cases h

/-! ## What is removed -/

/-- The song has the flag of its collection: the request directory assigns true, the list file
nothing. -/
def Owned (song : SongFile) (col : Nat) : Prop :=
  ∃ flag, [some true, none][col]? = some flag ∧ song.mDeleteAfterPlay = flag.getD song.memory

theorem Owned.share {song : SongFile} (h : Owned song 1) : song.mDeleteAfterPlay = song.memory := by
  obtain ⟨flag, hf, h⟩ := h
  cases hf
  exact h

/-- The songs carry the flags of their collections, and the player removes a song it closes exactly
if the song's flag says so. -/
structure Tracked (s : PlayerThread) : Prop where
  assigned : s.mCols.map ICollection.assigned = [some true, none]
  sound : ∀ c ∈ s.mCols, c.Sound
  current : ∀ song col, s.pc.current = some (song, col) → Owned song col
  closed : ∀ song col, .close song col ∈ s.log → Owned song col ∧
    (song.mDeleteAfterPlay = true → ∃ ok, .remove song col ok ∈ s.log)
  removed : ∀ song col ok, .remove song col ok ∈ s.log →
    .close song col ∈ s.log ∧ song.mDeleteAfterPlay = true

theorem construct_sound {c c' : ICollection} {disk : Disk}
    (h : construct c disk = some (.ok c')) (hc : c.Sound) :
    c'.assigned = c.assigned ∧ c'.Sound := by
  obtain ⟨⟨d, r⟩, hd, he⟩ := Option.map_eq_some_iff.mp h
  cases r <;> cases he
  exact ICollection.update_sound hc hd

theorem tracked_of_mainloop {REQUEST_DIR SHARE_DIR : Str} {request share : Disk}
    {s : PlayerThread} (h : mainloop REQUEST_DIR SHARE_DIR request share = some (.ok s)) :
    Tracked s := by
  unfold mainloop at h
  split at h
  · cases h
  · cases h
  · next req hreq =>
    obtain ⟨r, hr, he⟩ := Option.map_eq_some_iff.mp h
    cases r <;> cases he
    have hreq := construct_sound hreq (CollectionSonglistDir.init_flagged _ _ _ true true)
    have hshr := construct_sound hr (CollectionSonglistFile.init_unassigned _ _ _)
    refine ⟨?_, List.forall_mem_cons.mpr ⟨hreq.2, List.forall_mem_singleton.mpr hshr.2⟩,
      nofun, nofun, nofun⟩
    rw [List.map_cons, List.map_singleton, hreq.1, hshr.1]
    rfl

/-- Quiet events do not touch what has been closed and removed. -/
theorem Tracked.quiet {s s' : PlayerThread} (hs : Tracked s) {es : List Event} (hes : Quiet es)
    (hlog : s'.log = s.log ++ es)
    (hassigned : s'.mCols.map ICollection.assigned = [some true, none])
    (hsound : ∀ c ∈ s'.mCols, c.Sound)
    (hcurrent : ∀ song col, s'.pc.current = some (song, col) → Owned song col) : Tracked s' := by
  refine ⟨hassigned, hsound, hcurrent, fun song col h => ?_, fun song col ok h => ?_⟩
  · rw [hlog, List.mem_append, or_iff_left (hes song col).1] at h
    refine ⟨(hs.closed song col h).1, fun hd => ?_⟩
    obtain ⟨ok, hr⟩ := (hs.closed song col h).2 hd
    exact ⟨ok, hlog ▸ List.mem_append_left es hr⟩
  · rw [hlog, List.mem_append, or_iff_left ((hes song col).2 ok)] at h
    obtain ⟨hclose, hdel⟩ := hs.removed song col ok h
    exact ⟨hlog ▸ List.mem_append_left es hclose, hdel⟩

theorem mem_closing_close {song song' : SongFile} {col col' : Nat} {removed : Bool} :
    .close song' col' ∈ closing song col removed ↔ song' = song ∧ col' = col := by
  unfold closing
  cases removed <;> cases song.mDeleteAfterPlay <;> simp [notDeleted]

theorem mem_closing_remove {song song' : SongFile} {col col' : Nat} {removed ok : Bool} :
    .remove song' col' ok ∈ closing song col removed ↔
      song.mDeleteAfterPlay = true ∧ song' = song ∧ col' = col ∧ ok = removed := by
  unfold closing
  cases removed <;> cases song.mDeleteAfterPlay <;> simp [notDeleted]

theorem Tracked.thread {s s' : PlayerThread} {a : Answer} (hs : Tracked s)
    (h : s.thread a = some s') : Tracked s' := by
  rcases thread_cases h with ⟨hcols, hcur, es, hes, hlog⟩ | ⟨r, hg, hcur, es, hes, hlog⟩ |
    ⟨song, col, hpc, hcols, hcur, hlog⟩
  · refine hs.quiet hes hlog (hcols ▸ hs.assigned) (hcols ▸ hs.sound) fun song col hc => ?_
    rcases hcur with hcur | hcur
    · exact hs.current song col (hcur ▸ hc)
    · rw [hcur] at hc
      cases hc
  · obtain ⟨hassigned, hsound, hsong⟩ := getNextSong_sound hs.sound hg
    refine hs.quiet hes hlog (hassigned.trans hs.assigned) hsound fun song col hc => ?_
    have howned := hsong song col (hcur song col hc)
    rwa [hs.assigned] at howned
  · have howned := hs.current song col (by rw [hpc]; rfl)
    refine ⟨hcols ▸ hs.assigned, hcols ▸ hs.sound, ?_, ?_, ?_⟩
    · rw [hcur]
      exact nofun
    · intro song' col' hc
      rw [hlog, List.mem_append, mem_closing_close] at hc
      rcases hc with hc | ⟨rfl, rfl⟩
      · refine ⟨(hs.closed song' col' hc).1, fun hd => ?_⟩
        obtain ⟨ok, hr⟩ := (hs.closed song' col' hc).2 hd
        exact ⟨ok, hlog ▸ List.mem_append_left _ hr⟩
      · refine ⟨howned, fun hd => ⟨a.removed, hlog ▸ List.mem_append_right _ ?_⟩⟩
        exact mem_closing_remove.mpr ⟨hd, rfl, rfl, rfl⟩
    · intro song' col' ok hr
      rw [hlog, List.mem_append, mem_closing_remove] at hr
      rcases hr with hr | ⟨hd, rfl, rfl, rfl⟩
      · exact ⟨hlog ▸ List.mem_append_left _ (hs.removed song' col' ok hr).1,
          (hs.removed song' col' ok hr).2⟩
      · exact ⟨hlog ▸ List.mem_append_right _ (mem_closing_close.mpr ⟨rfl, rfl⟩), hd⟩

theorem Tracked.step {s s' : PlayerThread} {act : Act} (hs : Tracked s)
    (h : s.step act = some s') : Tracked s' := by
  cases act with
  | stop =>
    cases h
    exact ⟨hs.assigned, hs.sound, hs.current, hs.closed, hs.removed⟩
  | skip =>
    cases h
    exact ⟨hs.assigned, hs.sound, hs.current, hs.closed, hs.removed⟩
  | thread a => exact hs.thread h

theorem tracked_of_run {s s' : PlayerThread} {acts : List Act} (hs : Tracked s)
    (h : Machine.run step s acts = some s') : Tracked s' :=
  Machine.run_keeps (fun _ _ _ ht hstep => ht.step hstep) hs h

/-! ## What is closed -/

theorem thread_close {s : PlayerThread} {song : SongFile} {col : Nat} (h : s.pc = .close song col)
    (a : Answer) : s.thread a = some (s.emit (closing song col a.removed) .afterStop) := by
  unfold thread
  rw [h]

theorem closed_step {s s' : PlayerThread} {act : Act} (h : s.step act = some s') {song : SongFile}
    {col : Nat} : .close song col ∈ s'.log ↔
      .close song col ∈ s.log ∨ ∃ a, .thread a = act ∧ s.pc = .close song col := by
  cases act with
  | stop | skip =>
    cases h
    simp
  | thread a =>
    constructor
    · intro hmem
      rcases thread_cases h with ⟨-, -, es, hes, hlog⟩ | ⟨-, -, -, es, hes, hlog⟩ |
        ⟨song', col', hpc, -, -, hlog⟩
      · rw [hlog, List.mem_append, or_iff_left (hes song col).1] at hmem
        exact .inl hmem
      · rw [hlog, List.mem_append, or_iff_left (hes song col).1] at hmem
        exact .inl hmem
      · rw [hlog, List.mem_append, mem_closing_close] at hmem
        refine hmem.imp_right ?_
        rintro ⟨rfl, rfl⟩
        exact ⟨a, rfl, hpc⟩
    · rintro (hmem | ⟨-, -, hpc⟩)
      · rcases thread_cases h with ⟨_, _, es, _, hlog⟩ | ⟨_, _, _, es, _, hlog⟩ |
          ⟨_, _, _, _, _, hlog⟩
        all_goals
          rw [hlog]
          exact List.mem_append_left _ hmem
      · rw [step, thread_close hpc] at h
        cases h
        exact List.mem_append_right _ (mem_closing_close.mpr ⟨rfl, rfl⟩)

theorem pc_of_mainloop {REQUEST_DIR SHARE_DIR : Str} {request share : Disk} {p : PlayerThread}
    (h : mainloop REQUEST_DIR SHARE_DIR request share = some (.ok p)) : p.pc = .connect := by
  unfold mainloop at h
  split at h
  · cases h
  · cases h
  · obtain ⟨r, -, he⟩ := Option.map_eq_some_iff.mp h
    cases r <;> cases he
    rfl

theorem log_of_mainloop {REQUEST_DIR SHARE_DIR : Str} {request share : Disk} {s : PlayerThread}
    (h : mainloop REQUEST_DIR SHARE_DIR request share = some (.ok s)) : s.log = [] := by
  unfold mainloop at h
  split at h
  · cases h
  · cases h
  · obtain ⟨r, -, he⟩ := Option.map_eq_some_iff.mp h
    cases r <;> cases he
    rfl

/-- A song has been closed exactly if the run took a step from its end. -/
theorem closed_of_run {s s' : PlayerThread} {acts : List Act} (hlog : s.log = [])
    (h : Machine.run step s acts = some s') (song : SongFile) (col : Nat) :
    .close song col ∈ s'.log ↔
      ∃ t a, Machine.Takes step s acts t (.thread a) ∧ t.pc = .close song col := by
  refine Machine.run_induction (P := fun acts s' => .close song col ∈ s'.log ↔
    ∃ t a, Machine.Takes step s acts t (.thread a) ∧ t.pc = .close song col) ?_ ?_ acts s' h
  · simp [hlog, Machine.not_takes_nil]
  · intro acts t act t' ht ih hstep
    rw [closed_step hstep, ih]
    simp only [Machine.takes_snoc, ht, Option.some.injEq, or_and_right, exists_or, and_assoc,
      exists_eq_left', exists_and_left]

/-- **No song of the list file is removed exactly if none whose end the player reaches has been
built on memory that held true.** -/
theorem share_kept_iff {REQUEST_DIR SHARE_DIR : Str} {request share : Disk} {s s' : PlayerThread}
    {acts : List Act} (hmain : mainloop REQUEST_DIR SHARE_DIR request share = some (.ok s))
    (hrun : Machine.run step s acts = some s') :
    (∀ song col ok, .remove song col ok ∈ s'.log → col = 0) ↔
      ∀ t a song, Machine.Takes step s acts t (.thread a) → t.pc = .close song 1 →
        song.memory = false := by
  have ht := tracked_of_run (tracked_of_mainloop hmain) hrun
  have hclosed := closed_of_run (log_of_mainloop hmain) hrun
  constructor
  · intro h t a song htakes hpc
    obtain ⟨howned, hdel⟩ := ht.closed song 1 ((hclosed song 1).mpr ⟨t, a, htakes, hpc⟩)
    by_contra hm
    rw [Bool.not_eq_false, ← howned.share] at hm
    obtain ⟨ok, hr⟩ := hdel hm
    exact absurd (h song 1 ok hr) (by decide)
  · intro h song col ok hr
    obtain ⟨hc, hdel⟩ := ht.removed song col ok hr
    obtain ⟨howned, -⟩ := ht.closed song col hc
    obtain ⟨t, a, htakes, hpc⟩ := (hclosed song col).mp hc
    match col, howned with
    | 0, _ => rfl
    | 1, howned =>
      rw [howned.share, h t a song htakes hpc] at hdel
      cases hdel
    | _ + 2, ⟨_, hf, _⟩ => cases hf

/-- A share file of one line, "a.mp3", for which `new` gives memory that holds `memory`. -/
def oneLine (memory : Bool) : Disk :=
  ⟨some [], [], ⟨.setTime_t 1, true, true, true, [("a.mp3".toList, some memory)]⟩, 0⟩

def emptySong : Answer := ⟨none, [oneLine false, oneLine false], true, 0, true⟩

def onlySong (memory : Bool) : SongFile := ⟨"a.mp3".toList, 1, memory, memory⟩

/-- The thread up to the end of its first song. -/
def playOnce : List Act := List.replicate 6 (.thread emptySong)

/-- The song of the list file is removed if its memory held true. -/
theorem share_removed : ∃ s s', mainloop "req".toList "shr".toList (oneLine true) (oneLine true) =
      some (.ok s) ∧ Machine.run step s playOnce = some s' ∧
      .remove (onlySong true) 1 true ∈ s'.log :=
  ⟨_, _, rfl, rfl, by decide⟩

theorem share_kept_oneLine : ∃ s s', mainloop "req".toList "shr".toList (oneLine false)
      (oneLine false) = some (.ok s) ∧ Machine.run step s playOnce = some s' ∧
      .close (onlySong false) 1 ∈ s'.log ∧ ∀ song col ok, .remove song col ok ∈ s'.log → col = 0 := by
  refine ⟨_, _, rfl, rfl, by decide, (@share_kept_iff "req".toList "shr".toList (oneLine false)
    (oneLine false) _ _ playOnce rfl rfl).mpr fun t a song ht => ?_⟩
  refine Machine.forall_takes_cons (P := fun t _ => t.pc = .close song 1 → song.memory = false) rfl
    (fun hpc => ?_) ?_ t _ ht
  · cases hpc
  iterate 4 refine Machine.forall_takes_cons rfl nofun ?_
  refine Machine.forall_takes_cons rfl (fun hpc => ?_) Machine.forall_takes_nil
  cases hpc
  rfl

end PlayerThread

end NetDJ.Engine
