import NetDJ.Lib.Traces
import NetDJ.Engine.PlayerThread

/-!
# `PlayerThread.cpp`: what `Skip` and `Stop` do to the songs

A flag is tested before each block, and `mSkipSong` is taken back when the song has been closed.

* `skipped`, `stopped` : the songs that a test of a flag cuts;
* `skipped_step`, `stopped_step` : a step pays for the song it cuts;
* `cuts_le` : no more songs are cut than there are calls of `Skip`, and `Stop` cuts one at most;
* `Raised`, `sends_le` : after a call at most one more block of the song goes out.
-/

namespace NetDJ.Engine

/-- The thread is behind the loop that sends, or has not come to it. -/
def Pc.outside : Pc → Bool
  | .close _ _ | .afterStop | .afterSkip | .clearSkip | .done => true
  | .connect | .fetch | .sleep | .opening _ _ | .announce _ _ | .read _ _ | .testStop _ _ _
  | .testSkip _ _ _ | .send _ _ _ => false

/-- The thread will end if `mStopPlayer` is up. -/
def Pc.ending : Pc → Bool
  | .close _ _ | .afterStop | .done => true
  | .connect | .fetch | .sleep | .opening _ _ | .announce _ _ | .read _ _ | .testStop _ _ _
  | .testSkip _ _ _ | .send _ _ _ | .afterSkip | .clearSkip => false

namespace PlayerThread

def skipped (s : PlayerThread) (act : Act) (_ : PlayerThread) : List SongFile :=
  match act, s.pc with
  | .thread _, .testSkip song _ _ => if s.mSkipSong then [song] else []
  | _, _ => []

def stopped (s : PlayerThread) (act : Act) (_ : PlayerThread) : List SongFile :=
  match act, s.pc with
  | .thread _, .testStop song _ _ => if s.mStopPlayer then [song] else []
  | _, _ => []

def calls : Act → Nat
  | .skip => 1
  | .stop | .thread _ => 0

/-- A call of `Skip` that has not cut a song, and still can. -/
def skipSaved (s : PlayerThread) : Nat := if s.mSkipSong && !s.pc.outside then 1 else 0

/-- `Stop` has not cut a song, and still can. -/
def stopSaved (s : PlayerThread) : Nat := if s.mStopPlayer && s.pc.ending then 0 else 1

theorem skipped_step (s : PlayerThread) (act : Act) (s' : PlayerThread) (h : s.step act = some s') :
    (skipped s act s').length + skipSaved s' ≤ skipSaved s + calls act := by
  unfold skipSaved
  cases act with
  | stop =>
    cases h
    exact Nat.le_of_eq (Nat.zero_add _)
  | skip =>
    cases h
    show 0 + (if _ then 1 else 0) ≤ (if _ then 1 else 0) + 1
    split <;> omega
  | thread a =>
    unfold step thread at h
    unfold skipped calls
    cases hpc : s.pc <;> rw [hpc] at h <;> dsimp only at h ⊢
    case fetch =>
      -- The flag goes on to the song that is found.
      split at h <;> cases h <;> simp [emit, caught, Pc.outside]
    case testSkip =>
      split at h <;> next hskip => cases h; simp [hskip, emit, Pc.outside]
    case sleep | close | clearSkip =>
      cases h
      simp [emit, Pc.outside]
    case done => cases h
    all_goals split at h <;> next hcase => cases h; simp [hcase, emit, caught, Pc.outside]

theorem stopped_step (s : PlayerThread) (act : Act) (s' : PlayerThread) (h : s.step act = some s') :
    (stopped s act s').length + stopSaved s' ≤ stopSaved s + 0 := by
  have hone : ∀ b : Bool, (if b = true then 0 else 1) ≤ 1 := by decide
  unfold stopSaved
  cases act with
  | stop =>
    cases h
    show 0 + (if true && s.pc.ending then 0 else 1) ≤ (if s.mStopPlayer && s.pc.ending then 0 else 1)
    cases s.mStopPlayer <;> cases s.pc.ending <;> decide
  | skip =>
    cases h
    exact Nat.le_of_eq (Nat.zero_add _)
  | thread a =>
    unfold step thread at h
    unfold stopped
    cases hpc : s.pc <;> rw [hpc] at h <;> dsimp only at h ⊢
    case fetch =>
      split at h <;> cases h <;> simp [emit, caught, Pc.ending, hone]
    case sleep | close | clearSkip =>
      cases h
      simp [emit, Pc.ending]
    case done => cases h
    all_goals split at h <;> next hcase => cases h; simp [hcase, emit, caught, Pc.ending, hone]

/-- **In every run no more songs are cut because of `mSkipSong` than `Skip` has been called, and at
most one because of `mStopPlayer`.** -/
theorem cuts_le {s s' : PlayerThread} {acts : List Act} (hs : s.mSkipSong = false)
    (h : Machine.run step s acts = some s') :
    (Machine.outputs step skipped s acts).length ≤ (acts.map calls).sum ∧
      (Machine.outputs step stopped s acts).length ≤ 1 := by
  have hskip := Machine.outputs_length_le (I := fun _ => True) (C := fun _ _ => True)
    (fun s act s' _ _ hstep => ⟨trivial, skipped_step s act s' hstep⟩) trivial
    (fun _ _ _ => trivial) h
  have hstop := Machine.outputs_length_le (I := fun _ => True) (C := fun _ _ => True)
    (fun s act s' _ _ hstep => ⟨trivial, stopped_step s act s' hstep⟩) trivial
    (fun _ _ _ => trivial) h
  have hnone : skipSaved s = 0 := by rw [skipSaved, hs, Bool.false_and, if_neg Bool.false_ne_true]
  have hone : stopSaved s ≤ 1 := by
    unfold stopSaved
    split
    · exact Nat.zero_le 1
    · exact le_rfl
  have hzero : (acts.map fun _ => 0).sum = 0 := by simp
  rw [hzero] at hstop
  rw [hnone] at hskip
  omega

/-! ## What is sent after a call -/

def sends (s : PlayerThread) (act : Act) (_ : PlayerThread) : List Int :=
  match act, s.pc with
  | .thread _, .send _ _ bytes => [bytes]
  | _, _ => []

/-- A flag is up, and will be until a file has been closed. -/
def Raised (s : PlayerThread) : Prop :=
  (s.mStopPlayer = true ∨ s.mSkipSong = true) ∧
    (s.pc.outside = false ∨ s.pc = .done ∨ ∃ song col, s.pc = .close song col)

/-- The test of the flag that is up is behind the thread. -/
def late (s : PlayerThread) : Nat :=
  match s.pc with
  | .send _ _ _ => 1
  | .testSkip _ _ _ => if s.mSkipSong then 0 else 1
  | _ => 0

def closesNot (s : PlayerThread) (act : Act) : Bool :=
  match act, s.pc with
  | .thread _, .close _ _ => false
  | _, _ => true

/-- A block is sent only if the test of the flag came before the call. -/
theorem sends_step (s : PlayerThread) (act : Act) (s' : PlayerThread) (hs : s.Raised)
    (hclose : s.closesNot act = true) (h : s.step act = some s') :
    s'.Raised ∧ (sends s act s').length + late s' ≤ late s + 0 := by
  obtain ⟨hflag, hpc⟩ := hs
  cases act with
  | stop =>
    cases h
    exact ⟨⟨.inl rfl, hpc⟩, Nat.le_of_eq (Nat.zero_add _)⟩
  | skip =>
    cases h
    refine ⟨⟨.inr rfl, hpc⟩, ?_⟩
    show 0 + (match s.pc with | .send _ _ _ => 1 | .testSkip _ _ _ => 0 | _ => 0) ≤ late s
    unfold late
    cases s.pc <;> simp
  | thread a =>
    unfold step thread at h
    unfold sends late Raised
    rcases hpc with hpc | hpc | ⟨song, col, hpc⟩
    · cases hpc' : s.pc <;> rw [hpc'] at h hpc <;> dsimp only at h ⊢
      case fetch =>
        split at h <;> cases h <;> exact ⟨⟨hflag, by simp [emit, caught, Pc.outside]⟩, le_rfl⟩
      case sleep =>
        cases h
        exact ⟨⟨hflag, .inl rfl⟩, le_rfl⟩
      case testStop song col bytes =>
        split at h
        · cases h
          exact ⟨⟨hflag, .inr (.inr ⟨song, col, rfl⟩)⟩, le_rfl⟩
        · next hstop =>
          cases h
          exact ⟨⟨hflag, .inl rfl⟩, by simp [emit, hflag.resolve_left hstop]⟩
      case testSkip song col bytes =>
        split at h
        · cases h
          exact ⟨⟨hflag, .inr (.inr ⟨song, col, rfl⟩)⟩, Nat.zero_le _⟩
        · next hskip =>
          cases h
          exact ⟨⟨hflag, .inl rfl⟩, by simp [emit, hskip]⟩
      case close | afterStop | afterSkip | clearSkip | done => cases hpc
      all_goals
        split at h <;> cases h <;> exact ⟨⟨hflag, by simp [emit, caught, Pc.outside]⟩, le_rfl⟩
    · rw [hpc] at h
      cases h
    · unfold closesNot at hclose
      rw [hpc] at hclose
      cases hclose

/-- **After a call of `Skip` or `Stop` at most one block is passed to `Send` before a file is
closed.** -/
theorem sends_le {s s' : PlayerThread} {acts : List Act}
    (hflag : s.mStopPlayer = true ∨ s.mSkipSong = true) (hpc : s.pc.outside = false)
    (hclose : ∀ t act, Machine.Takes step s acts t act → t.closesNot act = true)
    (h : Machine.run step s acts = some s') :
    (Machine.outputs step sends s acts).length ≤ 1 := by
  have hsends := Machine.outputs_length_le sends_step ⟨hflag, .inl hpc⟩ hclose h
  have hlate : late s ≤ 1 := by
    unfold late
    split
    · exact le_rfl
    · split
      · exact Nat.zero_le 1
      · exact le_rfl
    · exact Nat.zero_le 1
  have hzero : (acts.map fun _ => 0).sum = 0 := by simp
  rw [hzero] at hsends
  omega

def twoBytes : Answer := { emptySong with bytes := 2 }

def toSend : List Act := List.replicate 7 (.thread twoBytes)

def toClose : List Act := List.replicate 4 (.thread twoBytes)

theorem cuts_le_oneSkip : ∃ s s', mainloop "req".toList "shr".toList (oneLine false)
      (oneLine false) = some (.ok s) ∧ Machine.run step s (toSend ++ .skip :: toClose) = some s' ∧
    Machine.outputs step skipped s (toSend ++ .skip :: toClose) = [onlySong false] ∧
    (Machine.outputs step skipped s (toSend ++ .skip :: toClose)).length ≤
      ((toSend ++ .skip :: toClose).map calls).sum ∧
    (Machine.outputs step stopped s (toSend ++ .skip :: toClose)).length ≤ 1 :=
  ⟨_, _, rfl, rfl, rfl, cuts_le rfl rfl⟩

theorem sends_le_oneSkip : ∃ s t s', mainloop "req".toList "shr".toList (oneLine false)
      (oneLine false) = some (.ok s) ∧ Machine.run step s (toSend ++ [.skip]) = some t ∧
    Machine.run step t toClose = some s' ∧ s'.pc = .close (onlySong false) 1 ∧
    Machine.outputs step sends t toClose = [2] ∧
    (Machine.outputs step sends t toClose).length ≤ 1 :=
  ⟨_, _, _, rfl, rfl, rfl, rfl, rfl,
    sends_le (.inr rfl) rfl ((Machine.forall_takes_iff rfl).mpr rfl) rfl⟩

end PlayerThread

end NetDJ.Engine
