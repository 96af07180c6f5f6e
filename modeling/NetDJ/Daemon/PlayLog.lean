import NetDJ.Lib.Lists
import NetDJ.Lib.Traces
import NetDJ.Daemon.Players

/-!
# `main.cc`: what the log of the played songs tells

A thread whose log file is open writes a line behind each song, with a flag that says whether the
song was cut. The thread reads `stop_player` and `next_song` again for it, when the song has ended.

* `LogItem`, `PlayerThread.logItems` : the songs that a thread begins, cuts and writes down;
* `Play` : a song with its line, which tells of the cut if there was one;
* `PlayerThread.Logged` : what stands in the file against what the thread has done;
* `Players.Kept`, `Players.Kept.step` : while there is one player, nobody takes back the flag that
  has cut its song;
* `Players.log_tells` : the log of a run.
-/

namespace NetDJ.Daemon

inductive LogItem where
  | song (fobj : File)
  | cut (fobj : File)
  | line (fobj : File) (flag : Bool)

/-- A song that has been played, whether the inner loop has been left because of a flag, and the
flag of its line. -/
structure Play where
  fobj : File
  cut : Bool
  flag : Bool
  told : cut = true → flag = true

/-- A song that the thread has begun. -/
def begun (fobj : File) (cut : Bool) : List LogItem :=
  if cut then [.song fobj, .cut fobj] else [.song fobj]

def Play.items (p : Play) : List LogItem := begun p.fobj p.cut ++ [.line p.fobj p.flag]

def pending (song : Option (File × Bool)) : List LogItem :=
  song.elim [] fun (fobj, cut) => begun fobj cut

namespace PlayerThread

def logItems (f : Flags) (t : PlayerThread) (a : Answer) : List LogItem :=
  match t.pc with
  | .getSong =>
    match a.outcome with
    | .noFiles | .passed => []
    | .opens fobj _ => [.song fobj]
  | .testStop fobj => if f.stop_player then [.cut fobj] else []
  | .testNext fobj => if f.next_song then [.cut fobj] else []
  | .logStop fobj => if f.stop_player then [.line fobj true] else []
  | .logNext fobj => [.line fobj f.next_song]
  | _ => []

end PlayerThread

/-- The thread has not reached its main loop. -/
def Pc.Early : Pc → Prop
  | resetStop | resetNext | shoutNew | testOpen | shoutOpen | testLog => True
  | _ => False

/-- The song that a thread in its main loop is at. If it has been cut, a flag that the thread is to
read for the line still says so. -/
inductive Pc.At (f : Flags) : Pc → Option (File × Bool) → Prop
  | testLoop : At f .testLoop none
  | clearNext : At f .clearNext none
  | getSong : At f .getSong none
  | done : At f .done none
  | testStop (fobj : File) : At f (.testStop fobj) (some (fobj, false))
  | testNext (fobj : File) : At f (.testNext fobj) (some (fobj, false))
  | send (fobj : File) : At f (.send fobj) (some (fobj, false))
  | logStop (fobj : File) (cut : Bool)
      (h : cut = true → f.stop_player = true ∨ f.next_song = true) :
      At f (.logStop fobj) (some (fobj, cut))
  | logNext (fobj : File) (cut : Bool) (h : cut = true → f.next_song = true) :
      At f (.logNext fobj) (some (fobj, cut))

theorem Pc.At.raise {f f' : Flags} {pc : Pc} {song : Option (File × Bool)} (h : pc.At f song)
    (hstop : f.stop_player = true → f'.stop_player = true)
    (hnext : f.next_song = true → f'.next_song = true) : pc.At f' song := by
  cases h with
  | testLoop => exact .testLoop
  | clearNext => exact .clearNext
  | getSong => exact .getSong
  | done => exact .done
  | testStop fobj => exact .testStop fobj
  | testNext fobj => exact .testNext fobj
  | send fobj => exact .send fobj
  | logStop fobj cut h => exact .logStop fobj cut fun hcut => (h hcut).imp hstop hnext
  | logNext fobj cut h => exact .logNext fobj cut fun hcut => hnext (h hcut)

theorem Pc.At.not_early {f : Flags} {pc : Pc} {song : Option (File × Bool)} (h : pc.At f song) :
    ¬ pc.Early := by
  cases h <;> exact id

theorem Pc.At.of_done {f f' : Flags} {song : Option (File × Bool)} (h : Pc.At f .done song) :
    Pc.At f' .done song := by
  cases h
  exact .done

namespace PlayerThread

/-- The thread has done `items`, and its log file tells it. -/
structure Logged (f : Flags) (items : List LogItem) (t : PlayerThread) : Prop where
  early : t.pc.Early → items = [] ∧ t.logged = [] ∧ t.logfile = false
  loop : t.logfile = true → ∃ (plays : List Play) (song : Option (File × Bool)), t.pc.At f song ∧
    items = plays.flatMap Play.items ++ pending song ∧
    t.logged = plays.map fun p => (p.fobj, p.flag)

theorem Logged.within {f : Flags} {items : List LogItem} {t : PlayerThread} (plays : List Play)
    {song : Option (File × Bool)} (hpc : t.pc.At f song)
    (hitems : items = plays.flatMap Play.items ++ pending song)
    (hlogged : t.logged = plays.map fun p => (p.fobj, p.flag)) : Logged f items t := by
  exact ⟨fun h => absurd h hpc.not_early, fun _ => ⟨plays, song, hpc, hitems, hlogged⟩⟩

theorem Logged.unlogged {f : Flags} {items : List LogItem} {t : PlayerThread}
    (hpc : ¬ t.pc.Early) (h : t.logfile = false) : Logged f items t := by
  refine ⟨fun hearly => absurd hearly hpc, fun hopen => ?_⟩
  rw [h] at hopen
  cases hopen

theorem Logged.before {f : Flags} {t : PlayerThread} (hlogged : t.logged = [])
    (h : t.logfile = false) : Logged f [] t := by
  refine ⟨fun _ => ⟨rfl, hlogged, h⟩, fun hopen => ?_⟩
  rw [h] at hopen
  cases hopen

theorem logLine_open {t : PlayerThread} (h : t.logfile = true) (fobj : File) :
    t.logLine fobj = .logStop fobj :=
  if_pos h

theorem logLine_not_early (t : PlayerThread) (fobj : File) : ¬ (t.logLine fobj).Early := by
  unfold logLine
  split <;> exact id

/-- The main loop neither opens nor closes the log file. -/
theorem step_logfile {f f' : Flags} {t t' : PlayerThread} {a : Answer} (hpc : ¬ t.pc.Early)
    (h : step f t a = some (f', t')) : t'.logfile = t.logfile ∧ ¬ t'.pc.Early := by
  unfold step at h
  cases ht : t.pc <;> rw [ht] at h hpc <;> dsimp only at h
  case resetStop | resetNext | shoutNew | testOpen | shoutOpen | testLog => exact absurd trivial hpc
  case clearNext | logNext =>
    cases h
    exact ⟨rfl, id⟩
  case testLoop | logStop =>
    split at h
    · cases h
      exact ⟨rfl, id⟩
    · cases h
      exact ⟨rfl, id⟩
  case getSong =>
    split at h
    · cases h
      exact ⟨rfl, id⟩
    · cases h
      exact ⟨rfl, id⟩
    · split at h
      · cases h
        exact ⟨rfl, id⟩
      · cases h
        exact ⟨rfl, logLine_not_early t _⟩
  case testStop fobj | testNext fobj =>
    split at h
    · cases h
      exact ⟨rfl, logLine_not_early t fobj⟩
    · cases h
      exact ⟨rfl, id⟩
  case send fobj =>
    split at h
    · split at h
      · cases h
        exact ⟨rfl, id⟩
      · cases h
        exact ⟨rfl, logLine_not_early t fobj⟩
    · cases h
      exact ⟨rfl, logLine_not_early t fobj⟩
  case done => cases h

theorem Logged.step_early {f f' : Flags} {items : List LogItem} {t t' : PlayerThread} {a : Answer}
    (hs : Logged f items t) (hpc : t.pc.Early) (h : step f t a = some (f', t')) :
    Logged f' (items ++ logItems f t a) t' := by
  obtain ⟨rfl, hlogged, hfile⟩ := hs.early hpc
  have hnone : logItems f t a = [] := by
    unfold logItems
    cases ht : t.pc <;> rw [ht] at hpc
    all_goals first | rfl | exact hpc.elim
  rw [hnone, List.append_nil]
  unfold step at h
  cases ht : t.pc <;> rw [ht] at h hpc <;> dsimp only at h
  case resetStop | resetNext =>
    cases h
    exact .before hlogged hfile
  case shoutNew | testOpen | shoutOpen =>
    split at h
    · cases h
      exact .before hlogged hfile
    · cases h
      exact .before hlogged hfile
  case testLog =>
    -- The loop begins, and no song has been played.
    split at h
    · cases h
      exact .within [] .testLoop rfl hlogged
    · cases h
      exact .within [] .testLoop rfl hlogged
  all_goals exact hpc.elim

theorem Logged.step_loop {f f' : Flags} {items : List LogItem} {t t' : PlayerThread} {a : Answer}
    (hs : Logged f items t) (hfile : t.logfile = true) (h : step f t a = some (f', t')) :
    Logged f' (items ++ logItems f t a) t' := by
  obtain ⟨plays, song, hat, rfl, hlogged⟩ := hs.loop hfile
  unfold step at h
  unfold logItems
  cases ht : t.pc <;> rw [ht] at h hat <;> dsimp only at h ⊢
  case resetStop | resetNext | shoutNew | testOpen | shoutOpen | testLog =>
    exact absurd trivial hat.not_early
  case testLoop =>
    obtain ⟨⟩ := hat
    rw [List.append_nil]
    split at h
    · cases h
      exact .within plays .done rfl hlogged
    · cases h
      exact .within plays .clearNext rfl hlogged
  case clearNext =>
    obtain ⟨⟩ := hat
    rw [List.append_nil]
    cases h
    exact .within plays .getSong rfl hlogged
  case getSong =>
    obtain ⟨⟩ := hat
    cases ho : a.outcome with
    | noFiles | passed =>
      rw [ho] at h
      cases h
      rw [List.append_nil]
      exact .within plays .testLoop rfl hlogged
    | opens fobj stat =>
      rw [ho] at h
      dsimp only at h ⊢
      rw [pending, Option.elim_none, List.append_nil]
      split at h
      · cases h
        exact .within plays (.testStop fobj) rfl hlogged
      · rw [logLine_open hfile] at h
        cases h
        exact .within plays (.logStop fobj false nofun) rfl hlogged
  case testStop fobj =>
    obtain ⟨⟩ := hat
    rw [logLine_open hfile] at h
    split at h
    · next hf =>
      cases h
      rw [if_pos hf, List.append_assoc]
      exact .within plays (.logStop fobj true fun _ => .inl hf) rfl hlogged
    · next hf =>
      cases h
      rw [if_neg hf, List.append_nil]
      exact .within plays (.testNext fobj) rfl hlogged
  case testNext fobj =>
    obtain ⟨⟩ := hat
    rw [logLine_open hfile] at h
    split at h
    · next hf =>
      cases h
      rw [if_pos hf, List.append_assoc]
      exact .within plays (.logStop fobj true fun _ => .inr hf) rfl hlogged
    · next hf =>
      cases h
      rw [if_neg hf, List.append_nil]
      exact .within plays (.send fobj) rfl hlogged
  case send fobj =>
    obtain ⟨⟩ := hat
    rw [logLine_open hfile] at h
    rw [List.append_nil]
    split at h
    · split at h
      · cases h
        exact .within plays (.testStop fobj) rfl hlogged
      · cases h
        exact .within plays (.logStop fobj false nofun) rfl hlogged
    · cases h
      exact .within plays (.logStop fobj false nofun) rfl hlogged
  case logStop fobj =>
    obtain ⟨⟩ := hat
    next cut hcut =>
    split at h
    · next hf =>
      cases h
      rw [if_pos hf]
      exact .within (plays ++ [⟨fobj, cut, true, fun _ => rfl⟩]) .testLoop
        (by simp [Play.items, pending]) (by simp [hlogged, goto])
    · next hf =>
      cases h
      rw [if_neg hf, List.append_nil]
      exact .within plays (.logNext fobj cut fun h => (hcut h).resolve_left hf) rfl hlogged
  case logNext fobj =>
    obtain ⟨⟩ := hat
    next cut hcut =>
    cases h
    exact .within (plays ++ [⟨fobj, cut, f.next_song, hcut⟩]) .testLoop
      (by simp [Play.items, pending]) (by simp [hlogged, goto])
  case done => cases h

theorem Logged.step {f f' : Flags} {items : List LogItem} {t t' : PlayerThread} {a : Answer}
    (hs : Logged f items t) (h : step f t a = some (f', t')) :
    Logged f' (items ++ logItems f t a) t' := by
  by_cases hpc : t.pc.Early
  · exact hs.step_early hpc h
  · cases hfile : t.logfile with
    | true => exact hs.step_loop hfile h
    | false =>
      obtain ⟨hkept, hpc'⟩ := step_logfile hpc h
      exact .unlogged hpc' (hkept.trans hfile)

end PlayerThread

namespace Players

def logItems (i : Nat) (s : Players) (act : Act) (_ : Players) : List LogItem :=
  match act with
  | .thread j a =>
    if j = i then (s.threads[i]?).elim [] fun t => t.logItems s.flags a else []
  | _ => []

/-- There is one player, and thread `i` has its log. -/
structure Kept (i : Nat) (items : List LogItem) (s : Players) : Prop where
  one : s.alive ≤ 1
  starting : s.command = .starting → s.alive = 0
  logged : ∀ t, s.threads[i]? = some t → t.Logged s.flags items
  absent : s.threads[i]? = none → items = []

theorem kept_main (PLAYER_START : Bool) (i : Nat) : Kept i [] (main PLAYER_START) := by
  refine ⟨main_alive PLAYER_START, nofun, fun t ht => ?_, fun _ => rfl⟩
  cases PLAYER_START with
  | false => cases ht
  | true =>
    obtain rfl := List.mem_singleton.mp (List.mem_of_getElem? ht)
    exact .before rfl rfl

theorem Kept.raise {i : Nat} {items : List LogItem} {s : Players} (hs : Kept i items s) {f : Flags}
    {c : Command} (hc : c ≠ .starting) (hstop : s.flags.stop_player = true → f.stop_player = true)
    (hnext : s.flags.next_song = true → f.next_song = true) :
    Kept i items { s with flags := f, command := c } := by
  refine ⟨hs.one, fun h => absurd h hc, fun t ht => ?_, hs.absent⟩
  have hlogged := hs.logged t ht
  refine ⟨hlogged.early, fun hfile => ?_⟩
  obtain ⟨plays, song, hat, hrest⟩ := hlogged.loop hfile
  exact ⟨plays, song, hat.raise hstop hnext, hrest⟩

/-- The log of a thread that has ended says the same under all flags. -/
theorem logged_of_done {f f' : Flags} {items : List LogItem} {t : PlayerThread}
    (h : t.Logged f items) (hdone : t.Alive = false) : t.Logged f' items := by
  have hpc : t.pc = .done := by
    unfold PlayerThread.Alive at hdone
    split at hdone
    · assumption
    · cases hdone
  refine ⟨h.early, fun hfile => ?_⟩
  obtain ⟨plays, song, hat, hrest⟩ := h.loop hfile
  rw [hpc] at hat
  exact ⟨plays, song, hpc ▸ hat.of_done, hrest⟩

theorem not_alive {s : Players} (h : s.alive = 0) {i : Nat} {t : PlayerThread}
    (ht : s.threads[i]? = some t) : t.Alive = false := by
  have hnone := List.countP_eq_zero.mp h t (List.mem_of_getElem? ht)
  simpa using hnone

theorem Kept.step {i : Nat} {items : List LogItem} {s s' : Players} {act : Act}
    (hs : Kept i items s) (hact : act = .com_start → s.alive = 0) (h : s.step act = some s') :
    Kept i (items ++ logItems i s act s') s' := by
  cases act with
  | com_start =>
    obtain ⟨-, he⟩ := Option.ite_none_right_eq_some.mp h
    cases he
    have hzero := hact rfl
    show Kept i (items ++ []) _
    rw [List.append_nil]
    exact ⟨hs.one, fun _ => hzero,
      fun t ht => logged_of_done (hs.logged t ht) (not_alive hzero ht), hs.absent⟩
  | pthread_create works =>
    obtain ⟨hc, he⟩ := Option.ite_none_right_eq_some.mp h
    have hzero := hs.starting hc
    cases he
    show Kept i (items ++ []) _
    rw [List.append_nil]
    cases works with
    | false => exact ⟨hs.one, nofun, hs.logged, hs.absent⟩
    | true =>
      refine ⟨?_, nofun, fun t ht => ?_, fun hnone => ?_⟩
      · change (s.threads ++ [PlayerThread.init]).countP _ ≤ 1
        rw [List.countP_append]
        change s.alive + 1 ≤ 1
        omega
      · change (s.threads ++ [PlayerThread.init])[i]? = some t at ht
        rcases Nat.lt_or_ge i s.threads.length with hi | hi
        · rw [List.getElem?_append_left hi] at ht
          exact hs.logged t ht
        · rw [List.getElem?_append_right hi] at ht
          obtain rfl := List.mem_singleton.mp (List.mem_of_getElem? ht)
          rw [hs.absent (List.getElem?_eq_none hi)]
          exact .before rfl rfl
      · refine hs.absent (List.getElem?_eq_none ?_)
        have hlen := List.getElem?_eq_none_iff.mp hnone
        change (s.threads ++ [PlayerThread.init]).length ≤ i at hlen
        rw [List.length_append] at hlen
        omega
  | com_stop =>
    obtain ⟨-, he⟩ := Option.ite_none_right_eq_some.mp h
    cases he
    show Kept i (items ++ []) _
    rw [List.append_nil]
    exact hs.raise nofun (fun _ => rfl) id
  | kill_current =>
    obtain ⟨-, he⟩ := Option.ite_none_right_eq_some.mp h
    cases he
    show Kept i (items ++ []) _
    rw [List.append_nil]
    exact hs.raise nofun id fun _ => rfl
  | com_next =>
    obtain ⟨hc, he⟩ := Option.ite_none_right_eq_some.mp h
    cases he
    show Kept i (items ++ []) _
    rw [List.append_nil]
    refine hs.raise (c := s.command) (fun hstarting => ?_) id fun _ => rfl
    rw [hc] at hstarting
    cases hstarting
  | thread j a =>
    obtain ⟨u, f, u', hu, hstep, rfl⟩ := step_thread h
    have hone : Players.alive { s with flags := f, threads := s.threads.set j u' } ≤ 1 := by
      rcases step_alive h with ⟨hact, -⟩ | ⟨-, hle⟩
      · cases hact
      · exact le_trans hle hs.one
    have hrunning := PlayerThread.alive_of_step hstep
    have hstarting : s.command ≠ .starting := by
      intro hc
      rw [not_alive (hs.starting hc) hu] at hrunning
      cases hrunning
    obtain ⟨hj, -⟩ := List.getElem?_eq_some_iff.mp hu
    by_cases hij : j = i
    · subst hij
      refine ⟨hone, fun hc => absurd hc hstarting, fun t ht => ?_, fun hnone => ?_⟩
      · rw [List.getElem?_set_self hj] at ht
        obtain rfl := Option.some.inj ht
        rw [logItems, if_pos rfl, hu]
        exact (hs.logged u hu).step hstep
      · rw [List.getElem?_set_self hj] at hnone
        cases hnone
    · -- The thread that takes the step is the one player, so thread `i` has ended.
      rw [logItems, if_neg hij, List.append_nil]
      refine ⟨hone, fun hc => absurd hc hstarting, fun t ht => ?_, fun hnone => ?_⟩
      · rw [List.getElem?_set_ne hij] at ht
        refine logged_of_done (hs.logged t ht) ?_
        by_contra halive'
        exact hij (eq_of_countP_le_one hs.one hu ht hrunning (by simpa using halive'))
      · rw [List.getElem?_set_ne hij] at hnone
        exact hs.absent hnone

/-- **In a run in which a player is started only when there is none, a thread that keeps a log
writes one line for each song that it plays, in the order in which it plays them, and the line of a
song that was cut says so.** Only the song that is being played has no line yet. -/
theorem log_tells {PLAYER_START : Bool} {acts : List Act} {s : Players} {i : Nat}
    {t : PlayerThread} (hrun : Machine.run step (main PLAYER_START) acts = some s)
    (hstart : ∀ u, Machine.Takes step (main PLAYER_START) acts u .com_start → u.alive = 0)
    (ht : s.threads[i]? = some t) (hfile : t.logfile = true) :
    ∃ (plays : List Play) (song : Option (File × Bool)),
      Machine.outputs step (logItems i) (main PLAYER_START) acts =
        plays.flatMap Play.items ++ pending song ∧
      (t.logged = plays.map fun p => (p.fobj, p.flag)) ∧ (t.Alive = false → song = none) := by
  have hkept := Machine.run_induction (P := fun acts s =>
    (∀ u, Machine.Takes step (main PLAYER_START) acts u .com_start → u.alive = 0) →
      Kept i (Machine.outputs step (logItems i) (main PLAYER_START) acts) s)
    (fun _ => kept_main PLAYER_START i) ?_ acts s hrun hstart
  · obtain ⟨plays, song, hat, hitems, hlogged⟩ := (hkept.logged t ht).loop hfile
    refine ⟨plays, song, hitems, hlogged, fun hdone => ?_⟩
    cases hat' : t.pc <;> simp only [PlayerThread.Alive, hat'] at hdone hat
    case done =>
      cases hat
      rfl
    all_goals cases hdone
  · intro before u act u' hu ih hstep htakes
    rw [Machine.outputs_snoc hu hstep]
    refine (ih fun v hv => htakes v (hv.append [act])).step (fun hact => ?_) hstep
    exact htakes u (Machine.takes_snoc.mpr (.inr ⟨hu, hact.symm⟩))

def songA : File := ⟨1, "/s/a.mp3".toList, .zero, true⟩

def playing : Answer := ⟨true, true, true, true, .opens songA fun _ => none, true, 4096, true⟩

/-- The first block of the song is sent, and a `next` comes before the second one. -/
def cutSong : List Act :=
  List.replicate 12 (.thread 0 playing) ++ .com_next :: List.replicate 4 (.thread 0 playing)

theorem log_tells_cutSong : ∃ s t, Machine.run step (main true) cutSong = some s ∧
    s.threads[0]? = some t ∧ t.logged = [(songA, true)] ∧
    ∃ (plays : List Play) (song : Option (File × Bool)),
      Machine.outputs step (logItems 0) (main true) cutSong =
        plays.flatMap Play.items ++ pending song ∧
      (t.logged = plays.map fun p => (p.fobj, p.flag)) ∧ (t.Alive = false → song = none) := by
  refine ⟨_, _, rfl, rfl, rfl, ?_⟩
  refine log_tells rfl (fun u hu => absurd hu.mem ?_) rfl rfl
  simp [cutSong]

end Players

end NetDJ.Daemon
