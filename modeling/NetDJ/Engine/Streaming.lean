import NetDJ.Engine.PlayerThread

/-!
# `PlayerThread.cpp`: the bytes of a song

The thread with the file it reads: the content, the position in it and the buffer. A block is read
before the flags are tested, so the last block of a song may not be sent. `Send` gets the bytes also
where it throws, and the log keeps the songs that were played before.

* `Streaming.step` : the steps of the player with their bytes;
* `Trace` : what a listener and the flags see;
* `Unaltered` : between the announcement of a song and the closing of its file the bytes sent are a
  front part of the file, and all of it if no test found a flag;
* `Ok`, `Ok.step` : where the position stands against the bytes sent;
* `streams_unaltered` : the songs go out unaltered in every run.
-/

namespace NetDJ.Engine

inductive Trace where
  /-- `SigSongPlaying`, with the content of the file. -/
  | playing (content : List UInt8)
  /-- A test of `mStopPlayer` or `mSkipSong` in the loop that sends. -/
  | tested (flag : Bool)
  /-- The bytes passed to `Send`. -/
  | sent (bytes : List UInt8)
  /-- `file.close()`. -/
  | closed
  deriving DecidableEq

namespace Trace

/-- An item of the loop that sends. -/
def Inner : Trace → Prop
  | tested _ | sent _ => True
  | playing _ | closed => False

def bytes : Trace → List UInt8
  | sent bytes => bytes
  | playing _ | tested _ | closed => []

end Trace

def sentBytes (log : List Trace) : List UInt8 := log.flatMap Trace.bytes

/-- The thread, the open file and `buf`. -/
structure Streaming where
  player : PlayerThread
  content : List UInt8
  pos : Nat
  buf : List UInt8
  log : List Trace

namespace Streaming

def start (player : PlayerThread) (buf : List UInt8) : Streaming := ⟨player, [], 0, buf, []⟩

/-- What `readBlock` may return: 1 to 4096 while bytes remain, then 0. -/
def readable (s : Streaming) (bytes : Int) : Bool :=
  if s.pos < s.content.length then
    decide (1 ≤ bytes ∧ bytes ≤ 4096 ∧ s.pos + bytes.toNat ≤ s.content.length)
  else bytes == 0

/-- `readBlock`: the block goes to the front of `buf`. -/
def readBlock (s : Streaming) (bytes : Int) : Streaming :=
  { s with
    pos := s.pos + bytes.toNat
    buf := (s.content.drop s.pos).take bytes.toNat ++ s.buf.drop bytes.toNat }

def trace (s : Streaming) (e : Trace) : Streaming := { s with log := s.log ++ [e] }

/-- A step of the thread; `opened` is the content of the file that it opens. -/
def thread (s : Streaming) (a : Answer) (opened : List UInt8) : Option Streaming :=
  (s.player.thread a).bind fun player =>
    let s' := { s with player := player }
    match s.player.pc with
    | .opening _ _ => some { s' with content := opened, pos := 0 }
    | .announce _ _ => some (s'.trace (.playing s.content))
    | .read _ _ => if s.readable a.bytes then some (s'.readBlock a.bytes) else none
    | .testStop _ _ _ => some (s'.trace (.tested s.player.mStopPlayer))
    | .testSkip _ _ _ => some (s'.trace (.tested s.player.mSkipSong))
    | .send _ _ bytes => some (s'.trace (.sent (s.buf.take bytes.toNat)))
    | .close _ _ => some (s'.trace .closed)
    | .connect | .fetch | .sleep | .afterStop | .afterSkip | .clearSkip | .done => some s'

inductive Act where
  | stop
  | skip
  | thread (a : Answer) (opened : List UInt8)

def step (s : Streaming) : Act → Option Streaming
  | .stop => (s.player.step .stop).map fun player => { s with player := player }
  | .skip => (s.player.step .skip).map fun player => { s with player := player }
  | .thread a opened => s.thread a opened

end Streaming

/-! ## The songs of a log -/

/-- Between `SigSongPlaying` and the closing of a file the bytes sent are a front part of the file,
and all of it if the file is closed and no test of the loop found a flag. -/
def Unaltered (log : List Trace) : Prop :=
  ∀ before content mid after, log = before ++ .playing content :: mid ++ after →
    (∀ e ∈ mid, e.Inner) → sentBytes mid <+: content ∧
      (after.head? = some .closed → .tested true ∉ mid → sentBytes mid = content)

/-- The log ends in the items `mid` of the song with this content. -/
def LastSong (log : List Trace) (content : List UInt8) (mid : List Trace) : Prop :=
  (∃ before, log = before ++ .playing content :: mid) ∧ ∀ e ∈ mid, e.Inner

@[simp] theorem sentBytes_nil : sentBytes [] = [] := rfl

theorem sentBytes_snoc (mid : List Trace) (e : Trace) :
    sentBytes (mid ++ [e]) = sentBytes mid ++ e.bytes := by
  simp [sentBytes]

namespace LastSong
variable {log mid mid' : List Trace} {content content' : List UInt8}

theorem playing (log : List Trace) (content : List UInt8) :
    LastSong (log ++ [.playing content]) content [] :=
  ⟨⟨log, rfl⟩, fun _ h => absurd h List.not_mem_nil⟩

theorem snoc (h : LastSong log content mid) {e : Trace} (he : e.Inner) :
    LastSong (log ++ [e]) content (mid ++ [e]) := by
  obtain ⟨⟨before, rfl⟩, hmid⟩ := h
  refine ⟨⟨before, by simp⟩, ?_⟩
  simpa [or_imp, forall_and] using ⟨hmid, he⟩

/-- A song whose announcement is not behind another one's: it is the same. -/
theorem eq_of_append {add : List Trace} (hmid : ∀ e ∈ mid, e.Inner)
    (h : Trace.playing content :: mid = add ++ .playing content' :: mid') :
    content = content' ∧ mid = mid' := by
  cases add with
  | nil => simpa using h
  | cons e add =>
    have htail : mid = add ++ .playing content' :: mid' := (List.cons.inj h).2
    exact (hmid (.playing content') (by simp [htail])).elim

theorem unique (h : LastSong log content mid) (h' : LastSong log content' mid') :
    content = content' ∧ mid = mid' := by
  obtain ⟨⟨before, rfl⟩, hmid⟩ := h
  obtain ⟨⟨before', heq⟩, hmid'⟩ := h'
  rcases List.append_eq_append_iff.mp heq with ⟨add, -, hadd⟩ | ⟨add, -, hadd⟩
  · exact eq_of_append hmid hadd
  · obtain ⟨hc, hm⟩ := eq_of_append hmid' hadd
    exact ⟨hc.symm, hm.symm⟩

end LastSong

theorem unaltered_nil : Unaltered [] := by
  intro before content mid after h
  simp at h

theorem Unaltered.snoc {log : List Trace} (h : Unaltered log) {e : Trace}
    (hlast : ∀ content mid, LastSong log content mid →
      (e.Inner → sentBytes mid ++ e.bytes <+: content) ∧
        (e = .closed → .tested true ∉ mid → sentBytes mid = content)) :
    Unaltered (log ++ [e]) := by
  intro before content mid after heq hmid
  rcases List.eq_nil_or_concat after with rfl | ⟨after, e', rfl⟩
  · refine ⟨?_, by simp⟩
    rcases List.eq_nil_or_concat mid with rfl | ⟨mid, e', rfl⟩
    · simp
    · rw [List.append_nil, List.concat_eq_append, ← List.cons_append, ← List.append_assoc] at heq
      obtain ⟨hlog, he⟩ := List.append_inj' heq rfl
      obtain rfl := List.singleton_inj.mp he
      rw [List.concat_eq_append, sentBytes_snoc]
      simp only [List.concat_eq_append, List.mem_append, List.mem_singleton, or_imp,
        forall_and, forall_eq] at hmid
      exact (hlast content mid ⟨⟨before, hlog⟩, hmid.1⟩).1 hmid.2
  · rw [List.concat_eq_append, ← List.append_assoc] at heq
    obtain ⟨hlog, he⟩ := List.append_inj' heq rfl
    obtain rfl := List.singleton_inj.mp he
    obtain ⟨hfront, hall⟩ := h before content mid after hlog hmid
    refine ⟨hfront, fun hclosed => ?_⟩
    cases after with
    | nil =>
      rw [List.append_nil] at hlog
      exact (hlast content mid ⟨⟨before, hlog⟩, hmid⟩).2 (by simpa using hclosed)
    | cons e' after => exact hall (by simpa using hclosed)

theorem Unaltered.last {log mid : List Trace} {content : List UInt8} (h : Unaltered log)
    (hl : LastSong log content mid) : sentBytes mid <+: content := by
  obtain ⟨⟨before, hlog⟩, hmid⟩ := hl
  exact (h before content mid [] (by rw [hlog, List.append_nil]) hmid).1

theorem Unaltered.playing {log : List Trace} (h : Unaltered log) (content : List UInt8) :
    Unaltered (log ++ [.playing content]) := h.snoc fun _ _ _ => ⟨False.elim, nofun⟩

theorem Unaltered.tested {log : List Trace} (h : Unaltered log) (flag : Bool) :
    Unaltered (log ++ [.tested flag]) := by
  refine h.snoc fun content mid hl => ⟨fun _ => ?_, nofun⟩
  rw [show (Trace.tested flag).bytes = [] from rfl, List.append_nil]
  exact h.last hl

theorem Unaltered.sent {log mid : List Trace} {content bytes : List UInt8} (h : Unaltered log)
    (hl : LastSong log content mid) (hfront : sentBytes mid ++ bytes <+: content) :
    Unaltered (log ++ [.sent bytes]) := by
  refine h.snoc fun content' mid' hl' => ⟨fun _ => ?_, nofun⟩
  obtain ⟨rfl, rfl⟩ := hl.unique hl'
  exact hfront

theorem Unaltered.closed {log mid : List Trace} {content : List UInt8} (h : Unaltered log)
    (hl : LastSong log content mid) (hall : .tested true ∉ mid → sentBytes mid = content) :
    Unaltered (log ++ [.closed]) := by
  refine h.snoc fun content' mid' hl' => ⟨False.elim, fun _ => ?_⟩
  obtain ⟨rfl, rfl⟩ := hl.unique hl'
  exact hall

/-! ## The steps of the thread -/

/-- The program counter behind a step. -/
def Pc.Next (s : PlayerThread) (a : Answer) (pc' : Pc) : Prop :=
  match s.pc with
  | .opening song col => pc' = .announce song col ∨ pc' = .fetch
  | .announce song col | .send song col _ => pc' = .read song col ∨ pc' = .done
  | .read song col => pc' = if 0 < a.bytes then .testStop song col a.bytes else .close song col
  | .testStop song col bytes =>
    pc' = if s.mStopPlayer then .close song col else .testSkip song col bytes
  | .testSkip song col bytes =>
    pc' = if s.mSkipSong then .close song col else .send song col bytes
  | .close _ _ => pc' = .afterStop
  | .connect | .fetch | .sleep | .afterStop | .afterSkip | .clearSkip | .done =>
    pc' = .fetch ∨ pc' = .sleep ∨ pc' = .done ∨ pc' = .afterSkip ∨ pc' = .clearSkip ∨
      ∃ song col, pc' = .opening song col

theorem PlayerThread.thread_pc {s s' : PlayerThread} {a : Answer} (h : s.thread a = some s') :
    Pc.Next s a s'.pc := by
  unfold PlayerThread.thread at h
  unfold Pc.Next
  cases hpc : s.pc <;> rw [hpc] at h <;> dsimp only at h ⊢
  case connect | afterStop | afterSkip => split at h <;> cases h <;> simp [emit, caught]
  case fetch => split at h <;> cases h <;> simp [emit, caught]
  case opening | announce | send => split at h <;> cases h <;> simp [emit, caught]
  case read | testStop | testSkip =>
    split at h <;> cases h
    · next hc => rw [if_pos hc, emit]
    · next hc => rw [if_neg hc, emit]
  case sleep | close | clearSkip =>
    cases h
    simp [emit]
  case done => cases h

namespace Streaming

/-- Where the position stands, as the program counter has it: what has been read is sent, or stands
in `buf`. -/
def Keeps (s : Streaming) (mid : List Trace) : Pc → Prop
  | .read _ _ => .tested true ∉ mid ∧ sentBytes mid = s.content.take s.pos
  | .testStop _ _ bytes | .testSkip _ _ bytes | .send _ _ bytes => .tested true ∉ mid ∧
    sentBytes mid ++ s.buf.take bytes.toNat = s.content.take s.pos
  | .close _ _ => .tested true ∉ mid → sentBytes mid = s.content
  | .opening _ _ | .announce _ _ | .connect | .fetch | .sleep | .afterStop | .afterSkip
  | .clearSkip | .done => True

/-- What holds between the steps: a song that is about to be announced is read from its start, and
the song that is sent is the last one of the log. -/
structure Ok (s : Streaming) : Prop where
  log : Unaltered s.log
  song : match s.player.pc with
    | .read _ _ | .testStop _ _ _ | .testSkip _ _ _ | .send _ _ _ | .close _ _ =>
      ∃ mid, LastSong s.log s.content mid ∧ s.Keeps mid s.player.pc
    | .announce _ _ => s.pos = 0
    | .opening _ _ | .connect | .fetch | .sleep | .afterStop | .afterSkip | .clearSkip
    | .done => True

theorem start_ok {player : PlayerThread} (h : player.pc = .connect) (buf : List UInt8) :
    (start player buf).Ok := by
  refine ⟨unaltered_nil, ?_⟩
  simp [start, h]

theorem keeps_tested {log mid : List Trace} {content : List UInt8} (h : LastSong log content mid)
    (hfree : .tested true ∉ mid) :
    LastSong (log ++ [.tested false]) content (mid ++ [.tested false]) ∧
      .tested true ∉ mid ++ [.tested false] ∧
      sentBytes (mid ++ [.tested false]) = sentBytes mid := by
  refine ⟨h.snoc trivial, by simpa using hfree, ?_⟩
  rw [sentBytes_snoc]
  exact List.append_nil _

theorem take_readBlock (s : Streaming) {bytes : Int} (h : s.readable bytes = true)
    (hpos : 0 < bytes) :
    s.content.take s.pos ++ (s.readBlock bytes).buf.take bytes.toNat =
      s.content.take (s.readBlock bytes).pos := by
  have hlen : ((s.content.drop s.pos).take bytes.toNat).length = bytes.toNat := by
    unfold readable at h
    split at h
    · rw [List.length_take, List.length_drop]
      have hfit := (of_decide_eq_true h).2.2
      omega
    · have hzero : bytes = 0 := by simpa using h
      omega
  unfold readBlock
  dsimp only
  rw [List.take_left' hlen, ← List.take_add]

/-- `readBlock` returns 0 at the end of the file. -/
theorem take_of_readable {s : Streaming} {bytes : Int} (h : s.readable bytes = true)
    (hpos : ¬ 0 < bytes) : s.content.take s.pos = s.content := by
  unfold readable at h
  split at h
  · have hone := (of_decide_eq_true h).1
    omega
  · next hend => exact List.take_of_length_le (Nat.le_of_not_lt hend)

theorem Ok.thread {s s' : Streaming} {a : Answer} {opened : List UInt8} (hs : s.Ok)
    (h : s.thread a opened = some s') : s'.Ok := by
  obtain ⟨player, hplayer, hs'⟩ := Option.bind_eq_some_iff.mp h
  have hnext := PlayerThread.thread_pc hplayer
  obtain ⟨hlog, hsong⟩ := hs
  unfold Pc.Next at hnext
  cases hpc : s.player.pc <;> rw [hpc] at hnext hsong hs' <;> dsimp only at hnext hsong hs'
  case connect | fetch | sleep | afterStop | afterSkip | clearSkip | done =>
    cases hs'
    refine ⟨hlog, ?_⟩
    rcases hnext with hn | hn | hn | hn | hn | ⟨_, _, hn⟩ <;> simp [hn]
  case opening song col =>
    cases hs'
    refine ⟨hlog, ?_⟩
    rcases hnext with hn | hn <;> simp [hn]
  case announce song col =>
    cases hs'
    refine ⟨hlog.playing s.content, ?_⟩
    rcases hnext with hn | hn
    · simp only [trace, hn]
      exact ⟨[], LastSong.playing _ _, by simp, by simp [hsong]⟩
    · simp [trace, hn]
  case read song col =>
    obtain ⟨mid, hl, hfree, hsent⟩ := hsong
    split at hs'
    · next hread =>
      cases hs'
      refine ⟨hlog, ?_⟩
      split at hnext
      · next hpos =>
        simp only [readBlock, hnext]
        refine ⟨mid, hl, hfree, ?_⟩
        rw [hsent]
        exact take_readBlock s hread hpos
      · next hpos =>
        simp only [readBlock, hnext]
        exact ⟨mid, hl, fun _ => hsent.trans (take_of_readable hread hpos)⟩
    · cases hs'
  case testStop song col bytes | testSkip song col bytes =>
    obtain ⟨mid, hl, hfree, hsent⟩ := hsong
    cases hs'
    refine ⟨hlog.tested _, ?_⟩
    split at hnext
    · next hflag =>
      simp only [trace, hnext, hflag]
      exact ⟨_, hl.snoc trivial, fun hnot => absurd (by simp) hnot⟩
    · next hflag =>
      obtain ⟨hl', hfree', hsent'⟩ := keeps_tested hl hfree
      simp only [trace, hnext, Bool.eq_false_of_not_eq_true hflag]
      exact ⟨_, hl', hfree', hsent'.symm ▸ hsent⟩
  case send song col bytes =>
    obtain ⟨mid, hl, hfree, hsent⟩ := hsong
    cases hs'
    refine ⟨hlog.sent hl (hsent ▸ List.take_prefix _ _), ?_⟩
    rcases hnext with hn | hn
    · simp only [trace, hn]
      refine ⟨_, hl.snoc trivial, by simpa using hfree, ?_⟩
      rw [sentBytes_snoc]
      exact hsent
    · simp [trace, hn]
  case close song col =>
    obtain ⟨mid, hl, hall⟩ := hsong
    cases hs'
    refine ⟨hlog.closed hl hall, ?_⟩
    simp [trace, hnext]

theorem Ok.step {s s' : Streaming} {a : Act} (hs : s.Ok) (h : s.step a = some s') : s'.Ok := by
  match a, h with
  | .stop, h | .skip, h =>
    cases h
    exact ⟨hs.log, hs.song⟩
  | .thread a opened, h => exact hs.thread h

/-- **The songs go out unaltered**: in every run, for every content of the files, every division
into blocks and every moment at which `Stop` and `Skip` are called. -/
theorem streams_unaltered {player : PlayerThread} (hstart : player.pc = .connect) {buf : List UInt8}
    {as : List Act} {s : Streaming} (h : Machine.run step (start player buf) as = some s) :
    Unaltered s.log :=
  (Machine.run_keeps (fun _ _ _ => Ok.step) (start_ok hstart buf) h).log

def oneSong : PlayerThread :=
  ⟨false, false, [.file { CollectionSonglistFile.init "c".toList [] "/list".toList with
    mSonglist := [SongFile.new false "/a.mp3".toList 1] }], .connect, []⟩

/-- A step in which everything works, and `readBlock` returns `bytes`. -/
def works (bytes : Int) : Act :=
  .thread ⟨none, [⟨none, [], ⟨.null, true, true, true, []⟩, 0⟩], true, bytes, true⟩ [1, 2, 3]

/-- `Skip` is called behind the first block: the second one is read and not sent. -/
def skipped : List Act :=
  List.replicate 4 (works 0) ++ [works 2, works 0, works 0, works 0, .skip, works 1, works 0,
    works 0, works 0]

theorem streams_unaltered_skipped : ∃ s,
    Machine.run step (start oneSong []) skipped = some s ∧
      s.log = [.playing [1, 2, 3], .tested false, .tested false, .sent [1, 2], .tested false,
        .tested true, .closed] ∧ Unaltered s.log := by
  refine ⟨_, rfl, rfl, ?_⟩
  exact streams_unaltered (rfl : oneSong.pc = .connect)
    (rfl : Machine.run step (start oneSong []) skipped = _)

end Streaming

end NetDJ.Engine
