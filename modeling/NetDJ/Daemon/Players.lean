import NetDJ.Daemon.Player

/-!
# `main.cc`: the commands that start and stop the player threads

The commands and the threads share the two flags `stop_player` and `next_song` and nothing else. A
step of the model is one read or write of a flag, or what a thread does between two of them.

* `PlayerThread.step` : a step of `player_thread`;
* `Players.step` : the commands of the HTTP thread and the steps of the player threads;
* `step_alive` : only `pthread_create` adds a live thread;
* `one_player_iff` : there is at most one live thread in every state of a run exactly if no thread is
  live when another is created;
* `Held`, `held_of_run` : after a stop the flag stays, and a thread that is past the start of a song
  plays nothing more;
* `stop_kept_iff` : a stop is kept exactly if no thread is still at its first statement.
-/

namespace NetDJ.Daemon

structure Flags where
  stop_player : Bool
  next_song : Bool
  deriving DecidableEq

/-- Where a player thread is: at which read or write of a flag, or at which call between two. -/
inductive Pc where
  | resetStop
  | resetNext
  | shoutNew
  | testOpen
  | shoutOpen
  | testLog
  /-- `while (!stop_player)`. -/
  | testLoop
  | clearNext
  | getSong
  /-- `while (!stop_player && !next_song)`, its left and its right side. -/
  | testStop (fobj : File)
  | testNext (fobj : File)
  | send (fobj : File)
  /-- `(stop_player || next_song) ? 1 : 0`, its left and its right side. -/
  | logStop (fobj : File)
  | logNext (fobj : File)
  | done

/-- The step reads `stop_player` to know whether to go on. -/
def Pc.TestsStop : Pc → Prop
  | testOpen | testLog | testLoop | testStop _ => True
  | _ => False

/-- Where a thread starts no song and sends nothing if `stop_player` is true and stays so. -/
def Pc.Leaving : Pc → Prop
  | resetStop | clearNext | getSong | testNext _ | send _ => False
  | _ => True

theorem Pc.TestsStop.leaving {pc : Pc} (h : pc.TestsStop) : pc.Leaving := by
  cases pc <;> trivial

/-- What a thread lets out: a song is announced, a block is sent. -/
inductive Streamed where
  | playing (fobj : File)
  | sent (bytes : Nat)

/-- A thread, with whether its `logfile` is open and the lines in it. -/
structure PlayerThread where
  pc : Pc
  logfile : Bool
  streamed : List Streamed
  logged : List (File × Bool)

/-- What a step of a thread meets: whether the structures of libshout are there, whether the server
answers, the configuration and whether the log file opens, what the round finds, whether the song
opens, what `fread` returns, and whether `shout_send` works. -/
structure Answer where
  structures : Bool
  connects : Bool
  PLAYER_LOG : Bool
  logOpens : Bool
  outcome : Outcome
  opens : Bool
  read : Nat
  sends : Bool

namespace PlayerThread

def init : PlayerThread := ⟨.resetStop, false, [], []⟩

def goto (t : PlayerThread) (pc : Pc) : PlayerThread := { t with pc := pc }

def emit (t : PlayerThread) (e : Streamed) (pc : Pc) : PlayerThread :=
  { t with streamed := t.streamed ++ [e], pc := pc }

/-- The end of a round, from the line in the log file on. -/
def logLine (t : PlayerThread) (fobj : File) : Pc :=
  if t.logfile then .logStop fobj else .testLoop

/-- A step of `player_thread`. -/
def step (f : Flags) (t : PlayerThread) (a : Answer) : Option (Flags × PlayerThread) :=
  match t.pc with
  | .resetStop => some ({ f with stop_player := false }, t.goto .resetNext)
  | .resetNext => some ({ f with next_song := false }, t.goto .shoutNew)
  | .shoutNew =>
    if a.structures then some (f, t.goto .testOpen)
    else some ({ f with stop_player := true }, t.goto .testOpen)
  | .testOpen => if f.stop_player then some (f, t.goto .testLog) else some (f, t.goto .shoutOpen)
  | .shoutOpen =>
    if a.connects then some (f, t.goto .testLog)
    else some ({ f with stop_player := true }, t.goto .testLog)
  | .testLog =>
    if f.stop_player then some (f, t.goto .testLoop)
    else some (f, { t with logfile := a.PLAYER_LOG && a.logOpens }.goto .testLoop)
  | .testLoop => if f.stop_player then some (f, t.goto .done) else some (f, t.goto .clearNext)
  | .clearNext => some ({ f with next_song := false }, t.goto .getSong)
  | .getSong =>
    match a.outcome with
    | .noFiles | .passed => some (f, t.goto .testLoop)
    | .opens fobj _ =>
      if a.opens then some (f, t.emit (.playing fobj) (.testStop fobj))
      else some (f, t.emit (.playing fobj) (t.logLine fobj))
  | .testStop fobj =>
    if f.stop_player then some (f, t.goto (t.logLine fobj)) else some (f, t.goto (.testNext fobj))
  | .testNext fobj =>
    if f.next_song then some (f, t.goto (t.logLine fobj)) else some (f, t.goto (.send fobj))
  | .send fobj =>
    if 0 < a.read then
      if a.sends then some (f, t.emit (.sent a.read) (.testStop fobj))
      else some (f, t.emit (.sent a.read) (t.logLine fobj))
    else some (f, t.goto (t.logLine fobj))
  | .logStop fobj =>
    if f.stop_player then some (f, { t with logged := t.logged ++ [(fobj, true)] }.goto .testLoop)
    else some (f, t.goto (.logNext fobj))
  | .logNext fobj =>
    some (f, { t with logged := t.logged ++ [(fobj, f.next_song)] }.goto .testLoop)
  | .done => none

/-- Created and not yet past the main loop. -/
def Alive (t : PlayerThread) : Bool :=
  match t.pc with
  | .done => false
  | _ => true

theorem alive_of_step {f : Flags} {t : PlayerThread} {a : Answer} {r : Flags × PlayerThread}
    (h : step f t a = some r) : t.Alive = true := by
  unfold step at h
  unfold Alive
  split
  · next hpc =>
    rw [hpc] at h
    cases h
  · rfl

theorem logLine_leaving (t : PlayerThread) (fobj : File) : (t.logLine fobj).Leaving := by
  unfold logLine
  split <;> trivial

theorem logLine_ne (t : PlayerThread) (fobj : File) : t.logLine fobj ≠ .resetStop := by
  unfold logLine
  split <;> exact nofun

/-- Only the first statement takes a stop back, and no thread comes back to it. -/
theorem step_stopped {f f' : Flags} {t t' : PlayerThread} {a : Answer} (hpc : t.pc ≠ .resetStop)
    (hf : f.stop_player = true) (h : step f t a = some (f', t')) :
    f'.stop_player = true ∧ t'.pc ≠ .resetStop := by
  unfold step at h
  cases ht : t.pc <;> rw [ht] at h <;> dsimp only at h
  case resetStop => exact absurd ht hpc
  case resetNext | clearNext | logNext =>
    cases h
    exact ⟨hf, nofun⟩
  case shoutNew | shoutOpen =>
    split at h <;> cases h
    · exact ⟨hf, nofun⟩
    · exact ⟨rfl, nofun⟩
  case testOpen | testLog | testLoop | logStop =>
    rw [if_pos hf] at h
    cases h
    exact ⟨hf, nofun⟩
  case getSong =>
    split at h
    · cases h
      exact ⟨hf, nofun⟩
    · cases h
      exact ⟨hf, nofun⟩
    · split at h <;> cases h
      · exact ⟨hf, nofun⟩
      · exact ⟨hf, logLine_ne t _⟩
  case testStop fobj =>
    rw [if_pos hf] at h
    cases h
    exact ⟨hf, logLine_ne t fobj⟩
  case testNext fobj =>
    split at h <;> cases h
    · exact ⟨hf, logLine_ne t fobj⟩
    · exact ⟨hf, nofun⟩
  case send fobj =>
    split at h
    · split at h <;> cases h
      · exact ⟨hf, nofun⟩
      · exact ⟨hf, logLine_ne t fobj⟩
    · cases h
      exact ⟨hf, logLine_ne t fobj⟩
  case done => cases h

theorem step_leaving {f f' : Flags} {t t' : PlayerThread} {a : Answer} (hpc : t.pc.Leaving)
    (hf : f.stop_player = true) (h : step f t a = some (f', t')) :
    t'.pc.Leaving ∧ t'.streamed = t.streamed := by
  unfold step at h
  cases ht : t.pc <;> rw [ht] at h hpc <;> dsimp only at h
  case resetStop | clearNext | getSong | testNext | send => exact hpc.elim
  case testOpen | testLog | testLoop | logStop =>
    rw [if_pos hf] at h
    cases h
    exact ⟨trivial, rfl⟩
  case testStop fobj =>
    rw [if_pos hf] at h
    cases h
    exact ⟨logLine_leaving t fobj, rfl⟩
  case shoutNew | shoutOpen =>
    split at h <;> cases h
    · exact ⟨trivial, rfl⟩
    · exact ⟨trivial, rfl⟩
  case resetNext | logNext =>
    cases h
    exact ⟨trivial, rfl⟩
  case done => cases h

end PlayerThread

/-- Where the thread that runs the commands is: in none, in `com_start` before `pthread_create`, or
in `com_stop` before `kill_current`. -/
inductive Command where
  | ready
  | starting
  | stopping
  deriving DecidableEq

structure Players where
  flags : Flags
  command : Command
  threads : List PlayerThread

namespace Players

def main (PLAYER_START : Bool) : Players :=
  ⟨⟨false, false⟩, .ready, if PLAYER_START then [.init] else []⟩

inductive Act where
  | com_start
  /-- `pthread_create`, and whether it makes a thread. -/
  | pthread_create (works : Bool)
  | com_stop
  | kill_current
  | com_next
  | thread (i : Nat) (a : Answer)

def step (s : Players) : Act → Option Players
  | .com_start =>
    if s.command = .ready then
      some { s with flags := { s.flags with stop_player := false }, command := .starting }
    else none
  | .pthread_create works =>
    if s.command = .starting then
      some { s with
        command := .ready, threads := if works then s.threads ++ [.init] else s.threads }
    else none
  | .com_stop =>
    if s.command = .ready then
      some { s with flags := { s.flags with stop_player := true }, command := .stopping }
    else none
  | .kill_current =>
    if s.command = .stopping then
      some { s with flags := { s.flags with next_song := true }, command := .ready }
    else none
  | .com_next =>
    if s.command = .ready then some { s with flags := { s.flags with next_song := true } }
    else none
  | .thread i a =>
    (s.threads[i]?).bind fun t => (t.step s.flags a).map fun (f, t) =>
      { s with flags := f, threads := s.threads.set i t }

def alive (s : Players) : Nat := s.threads.countP PlayerThread.Alive

/-! ## At most one player -/

theorem step_thread {s s' : Players} {i : Nat} {a : Answer} (h : s.step (.thread i a) = some s') :
    ∃ t f t', s.threads[i]? = some t ∧ t.step s.flags a = some (f, t') ∧
      s' = { s with flags := f, threads := s.threads.set i t' } := by
  obtain ⟨t, ht, h⟩ := Option.bind_eq_some_iff.mp h
  obtain ⟨⟨f, t'⟩, hstep, he⟩ := Option.map_eq_some_iff.mp h
  exact ⟨t, f, t', ht, hstep, he.symm⟩

theorem step_alive {s s' : Players} {act : Act} (h : s.step act = some s') :
    (act = .pthread_create true ∧ s'.alive = s.alive + 1) ∨
      (act ≠ .pthread_create true ∧ s'.alive ≤ s.alive) := by
  cases act with
  | com_start | com_stop | kill_current | com_next =>
    obtain ⟨-, he⟩ := Option.ite_none_right_eq_some.mp h
    cases he
    exact .inr ⟨nofun, le_refl _⟩
  | pthread_create works =>
    obtain ⟨-, he⟩ := Option.ite_none_right_eq_some.mp h
    cases he
    cases works with
    | true =>
      refine .inl ⟨rfl, ?_⟩
      show List.countP _ (s.threads ++ [_]) = _
      rw [List.countP_append]
      rfl
    | false => exact .inr ⟨nofun, le_refl _⟩
  | thread i a =>
    obtain ⟨t, f, t', ht, hstep, rfl⟩ := step_thread h
    obtain ⟨hi, rfl⟩ := List.getElem?_eq_some_iff.mp ht
    have halive := PlayerThread.alive_of_step hstep
    have hpos : 0 < s.threads.countP PlayerThread.Alive :=
      List.countP_pos_iff.mpr ⟨_, List.getElem_mem hi, halive⟩
    refine .inr ⟨nofun, ?_⟩
    show List.countP _ (s.threads.set i t') ≤ List.countP _ s.threads
    rw [List.countP_set hi, if_pos halive]
    split <;> omega

theorem main_alive (PLAYER_START : Bool) : (main PLAYER_START).alive ≤ 1 := by
  cases PLAYER_START <;> decide

/-- **There is at most one live player thread in every state of a run exactly if no thread is live
whenever another is created.** -/
theorem one_player_iff {PLAYER_START : Bool} {s : Players} {acts : List Act}
    (hrun : Machine.run step (main PLAYER_START) acts = some s) :
    (∀ t, Machine.Reaches step (main PLAYER_START) acts t → t.alive ≤ 1) ↔
      ∀ t, Machine.Takes step (main PLAYER_START) acts t (.pthread_create true) → t.alive = 0 := by
  refine Machine.forall_reaches_iff_takes (I := fun t => t.alive ≤ 1) (main_alive PLAYER_START)
    (fun _ ht => ht) ?_ ?_ hrun
  · intro t act t' ht hnone hstep
    rcases step_alive hstep with ⟨rfl, ht'⟩ | ⟨-, ht'⟩
    · have hzero := hnone rfl
      show t'.alive ≤ 1
      omega
    · exact le_trans ht' ht
  · intro t t' ht hsome hstep
    rcases step_alive hstep with ⟨-, ht'⟩ | ⟨hact, -⟩
    · show ¬ t'.alive ≤ 1
      omega
    · exact absurd rfl hact

/-- A second `com_start` makes a second player. -/
theorem two_players : ¬ ∀ PLAYER_START acts s,
    Machine.run step (main PLAYER_START) acts = some s → s.alive ≤ 1 := by
  intro h
  have htwo := h false [.com_start, .pthread_create true, .com_start, .pthread_create true]
    _ rfl
  exact absurd htwo (by decide)

def unconnected : Answer := ⟨true, false, false, false, .noFiles, false, 0, false⟩

/-- A start, a thread that runs to its end, and a second start. -/
def twoStarts : List Act :=
  .com_start :: .pthread_create true :: List.replicate 7 (.thread 0 unconnected) ++
    [.com_start, .pthread_create true]

theorem one_player_twoStarts : ∃ s, Machine.run step (main false) twoStarts = some s ∧
    ∀ t, Machine.Reaches step (main false) twoStarts t → t.alive ≤ 1 := by
  have hcreated : ∀ t act, Machine.Takes step (main false) twoStarts t act →
      act = .pthread_create true → t.alive = 0 := by
    refine Machine.forall_takes_cons rfl nofun (Machine.forall_takes_cons rfl (fun _ => rfl) ?_)
    iterate 8 refine Machine.forall_takes_cons rfl nofun ?_
    exact Machine.forall_takes_cons rfl (fun _ => rfl) Machine.forall_takes_nil
  exact ⟨_, rfl, (one_player_iff rfl).mpr fun t ht => hcreated t _ ht rfl⟩

/-! ## No stop is lost -/

/-- A stop holds: the flag is set, and nothing that is under way would take it back. -/
structure Held (s : Players) : Prop where
  stop_player : s.flags.stop_player = true
  threads : ∀ t ∈ s.threads, t.pc ≠ .resetStop
  command : s.command ≠ .starting

theorem Held.step {s s' : Players} {act : Act} (hs : Held s) (hact : act ≠ .com_start)
    (h : s.step act = some s') : Held s' := by
  cases act with
  | com_start => exact absurd rfl hact
  | pthread_create works =>
    obtain ⟨hc, -⟩ := Option.ite_none_right_eq_some.mp h
    exact absurd hc hs.command
  | com_stop =>
    obtain ⟨-, he⟩ := Option.ite_none_right_eq_some.mp h
    cases he
    exact ⟨rfl, hs.threads, nofun⟩
  | kill_current =>
    obtain ⟨-, he⟩ := Option.ite_none_right_eq_some.mp h
    cases he
    exact ⟨hs.stop_player, hs.threads, nofun⟩
  | com_next =>
    obtain ⟨-, he⟩ := Option.ite_none_right_eq_some.mp h
    cases he
    exact ⟨hs.stop_player, hs.threads, hs.command⟩
  | thread i a =>
    obtain ⟨t, f, t', ht, hstep, rfl⟩ := step_thread h
    obtain ⟨hf, hpc⟩ := PlayerThread.step_stopped (hs.threads t (List.mem_of_getElem? ht))
      hs.stop_player hstep
    refine ⟨hf, fun u hu => ?_, hs.command⟩
    rcases List.mem_or_eq_of_mem_set hu with hu | rfl
    · exact hs.threads u hu
    · exact hpc

theorem held_of_run {s s' : Players} {acts : List Act} (hs : Held s) (hacts : .com_start ∉ acts)
    (h : Machine.run step s acts = some s') : Held s' :=
  Machine.run_invariant (C := (· ≠ .com_start)) (fun _ _ _ hact ht hstep => ht.step hact hstep)
    (fun _ ha => ne_of_mem_of_not_mem ha hacts) hs h

/-- Thread `i` is where it streams nothing as long as the stop holds, and has let out `out`. -/
def Silent (i : Nat) (out : List Streamed) (s : Players) : Prop :=
  ∃ t, s.threads[i]? = some t ∧ t.pc.Leaving ∧ t.streamed = out

theorem Silent.step {i : Nat} {out : List Streamed} {s s' : Players} {act : Act}
    (hs : Silent i out s) (hheld : Held s) (hact : act ≠ .com_start) (h : s.step act = some s') :
    Silent i out s' := by
  obtain ⟨t, ht, hpc, hout⟩ := hs
  cases act with
  | com_start => exact absurd rfl hact
  | pthread_create works =>
    obtain ⟨hc, -⟩ := Option.ite_none_right_eq_some.mp h
    exact absurd hc hheld.command
  | com_stop | kill_current | com_next =>
    obtain ⟨-, he⟩ := Option.ite_none_right_eq_some.mp h
    cases he
    exact ⟨t, ht, hpc, hout⟩
  | thread j a =>
    obtain ⟨u, f, u', hu, hstep, rfl⟩ := step_thread h
    by_cases hij : j = i
    · subst hij
      rw [ht] at hu
      cases hu
      obtain ⟨hpc', hout'⟩ := PlayerThread.step_leaving hpc hheld.stop_player hstep
      obtain ⟨hi, -⟩ := List.getElem?_eq_some_iff.mp ht
      exact ⟨u', List.getElem?_set_self hi, hpc', hout'.trans hout⟩
    · exact ⟨t, (List.getElem?_set_ne hij).trans ht, hpc, hout⟩

theorem silent_of_run {i : Nat} {out : List Streamed} {s s' : Players} {acts : List Act}
    (hs : Silent i out s) (hheld : Held s) (hacts : .com_start ∉ acts)
    (h : Machine.run step s acts = some s') : Silent i out s' :=
  (Machine.run_invariant (I := fun s => Held s ∧ Silent i out s) (C := (· ≠ .com_start))
    (fun _ _ _ hact ht hstep => ⟨ht.1.step hact hstep, ht.2.step ht.1 hact hstep⟩)
    (fun _ ha => ne_of_mem_of_not_mem ha hacts) ⟨hheld, hs⟩ h).2

/-- The stop of a `com_stop` that is called now is kept: when it has run, and as long as no
`com_start` runs, the flag is true, and a thread that tests it streams nothing from then on. -/
structure StopKept (s : Players) : Prop where
  stop_player : ∀ acts s', .com_start ∉ acts → .kill_current ∈ acts →
    Machine.run step s (.com_stop :: acts) = some s' → s'.flags.stop_player = true
  streamed : ∀ acts acts' i a s' s'' t, .com_start ∉ acts → .kill_current ∈ acts →
    Machine.run step s (.com_stop :: acts) = some s' → s'.threads[i]? = some t → t.pc.TestsStop →
    .com_start ∉ acts' → Machine.run step s' (.thread i a :: acts') = some s'' →
    ∃ t', s''.threads[i]? = some t' ∧ t'.streamed = t.streamed

theorem step_com_stop {s : Players} (hready : s.command = .ready) : s.step .com_stop =
    some ⟨{ s.flags with stop_player := true }, .stopping, s.threads⟩ := by
  rw [step, if_pos hready]

/-- A thread that takes its first step when `com_stop` has returned takes the stop back. -/
theorem stop_undone {s : Players} (hready : s.command = .ready) {t : PlayerThread}
    (ht : t ∈ s.threads) (hpc : t.pc = .resetStop) : ¬ StopKept s := by
  intro h
  obtain ⟨i, hi, rfl⟩ := List.getElem_of_mem ht
  have hrun : Machine.run step s [.com_stop, .kill_current, .thread i unconnected] =
      some ⟨⟨false, true⟩, .ready, s.threads.set i (s.threads[i].goto .resetNext)⟩ := by
    rw [Machine.run_cons, step_com_stop hready]
    simp only [Option.bind_some, Machine.run_cons, step, if_pos, List.getElem?_eq_getElem hi,
      PlayerThread.step, hpc, Option.map_some, Machine.run_nil]
  have hflag := h.stop_player [.kill_current, .thread i unconnected] _ (by simp) (by simp) hrun
  cases hflag

/-- **A stop is kept exactly if no thread is still at its first statement.** -/
theorem stop_kept_iff {s : Players} (hready : s.command = .ready) :
    StopKept s ↔ ∀ t ∈ s.threads, t.pc ≠ .resetStop := by
  constructor
  · intro h t ht hpc
    exact stop_undone hready ht hpc h
  · intro h
    have hstop : Held ⟨{ s.flags with stop_player := true }, .stopping, s.threads⟩ :=
      ⟨rfl, h, nofun⟩
    have hheld : ∀ acts s', .com_start ∉ acts →
        Machine.run step s (.com_stop :: acts) = some s' → Held s' := by
      intro acts s' hacts hrun
      rw [Machine.run_cons, step_com_stop hready] at hrun
      exact held_of_run hstop hacts hrun
    refine ⟨fun acts s' hacts _ hrun => (hheld acts s' hacts hrun).stop_player, ?_⟩
    intro acts acts' i a s' s'' t hacts _ hrun ht htests hacts' hrun'
    have hnone : .com_start ∉ Act.thread i a :: acts' :=
      List.not_mem_cons_of_ne_of_not_mem Act.noConfusion hacts'
    obtain ⟨t', ht', -, hout⟩ :=
      silent_of_run ⟨t, ht, htests.leaving, rfl⟩ (hheld acts s' hacts hrun) hnone hrun'
    exact ⟨t', ht', hout⟩

/-- A stop that runs before the thread's first step. -/
theorem stop_before_thread : ¬ ∀ PLAYER_START acts s,
    Machine.run step (main PLAYER_START) acts = some s → s.command = .ready → StopKept s := by
  intro h
  exact stop_undone rfl List.mem_cons_self rfl (h false [.com_start, .pthread_create true] _ rfl rfl)

/-- A stop of a thread that waits for `shout_open`. -/
theorem stop_kept_opening : ∃ s, Machine.run step (main true)
      (List.replicate 4 (.thread 0 unconnected)) = some s ∧ StopKept s :=
  ⟨_, rfl, (stop_kept_iff rfl).mpr (List.forall_mem_singleton.mpr nofun)⟩

end Players

end NetDJ.Daemon
