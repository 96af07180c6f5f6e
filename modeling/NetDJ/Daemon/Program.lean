import Mathlib.Algebra.Order.Ring.Int
import NetDJ.Lib.Lists
import NetDJ.Lib.Traces
import NetDJ.Daemon.Authority
import NetDJ.Daemon.PlayLog

/-!
# `main.cc`: the HTTP thread and the player threads together

The HTTP thread runs the commands of its clients, and these set the flags that the player threads
read. The threads take their steps in any order.

* `PlayerThread.nextCut`, `PlayerThread.stopCut` : the song that a step cuts;
* `Players.nextCuts_step` : a `next` or a `stop` pays for one song, while there is one player;
* `Program.step` : the connections, and the steps of the commands and of the player threads;
* `Program.Asked`, `Program.Asked.step` : a flag that is up has been asked for;
* `Program.cuts_asked` : so has each song that is cut.
-/

namespace NetDJ.Daemon

/-! ## Songs that are cut -/

/-- The thread is past the test of the main loop. -/
def Pc.started : Pc → Bool
  | clearNext | getSong | testStop _ | testNext _ | send _ | logStop _ | logNext _ => true
  | resetStop | resetNext | shoutNew | testOpen | shoutOpen | testLog | testLoop | done => false

/-- The thread is where `next_song` will cut the song that it is at or gets next. -/
def Pc.inSong : Pc → Bool
  | getSong | testStop _ | testNext _ | send _ => true
  | resetStop | resetNext | shoutNew | testOpen | shoutOpen | testLog | testLoop | clearNext
  | logStop _ | logNext _ | done => false

namespace PlayerThread

def nextCut (f : Flags) (t : PlayerThread) : List File :=
  match t.pc with
  | .testNext fobj => if f.next_song then [fobj] else []
  | _ => []

def stopCut (f : Flags) (t : PlayerThread) : List File :=
  match t.pc with
  | .testStop fobj => if f.stop_player then [fobj] else []
  | _ => []

/-- The song that `next_song` is going to cut. -/
def owed (f : Flags) (t : PlayerThread) : Nat := if f.next_song && t.pc.inSong then 1 else 0

theorem logLine_inSong (t : PlayerThread) (fobj : File) : (t.logLine fobj).inSong = false := by
  unfold logLine
  split <;> rfl

theorem owed_of_inSong {f : Flags} {t u : PlayerThread} (h : t.pc.inSong = true) :
    0 + owed f u ≤ owed f t := by
  unfold owed
  rw [h, Bool.and_true, Nat.zero_add]
  cases f.next_song <;> cases u.pc.inSong <;> decide

/-- A thread does not set `next_song`, and a song that it cuts has been owed. -/
theorem nextCut_step {f f' : Flags} {t t' : PlayerThread} {a : Answer}
    (h : step f t a = some (f', t')) : (nextCut f t).length + owed f' t' ≤ owed f t ∧
      (f'.next_song = true → f.next_song = true) := by
  unfold step at h
  unfold nextCut
  cases ht : t.pc <;> rw [ht] at h <;> dsimp only at h ⊢
  case resetStop | resetNext | clearNext | logNext =>
    cases h
    simp [owed, goto, Pc.inSong]
  case shoutNew | testOpen | shoutOpen | testLog | testLoop | logStop =>
    split at h <;> cases h <;> simp [owed, goto, Pc.inSong]
  case getSong | testStop | send =>
    have hin : t.pc.inSong = true := by
      rw [ht]
      rfl
    repeat' split at h
    all_goals
      cases h
      exact ⟨owed_of_inSong hin, id⟩
  case testNext fobj =>
    have hin : t.pc.inSong = true := by
      rw [ht]
      rfl
    split at h
    · next hnext =>
      cases h
      unfold owed
      rw [if_pos hnext, goto, logLine_inSong, hin, hnext]
      exact ⟨le_rfl, fun _ => rfl⟩
    · next hnext =>
      cases h
      rw [if_neg hnext]
      exact ⟨owed_of_inSong hin, id⟩
  case done => cases h

theorem step_started {f f' : Flags} {t t' : PlayerThread} {a : Answer}
    (ht : t.pc.started = true) (h : step f t a = some (f', t')) :
    f'.stop_player = f.stop_player := by
  unfold step at h
  cases hpc : t.pc <;> rw [hpc] at h ht <;> dsimp only at h
  case resetStop | resetNext | shoutNew | testOpen | shoutOpen | testLog | testLoop | done =>
    cases ht
  case clearNext | logNext =>
    cases h
    rfl
  all_goals
    repeat' split at h
    all_goals
      cases h
      rfl

theorem step_not_started {f f' : Flags} {t t' : PlayerThread} {a : Answer}
    (ht : t.pc.started = false) (h : step f t a = some (f', t')) (hf : f'.stop_player = true) :
    t'.pc.started = false := by
  unfold step at h
  cases hpc : t.pc <;> rw [hpc] at h ht <;> dsimp only at h
  case resetStop | resetNext =>
    cases h
    rfl
  case shoutNew | testOpen | shoutOpen | testLog =>
    split at h <;> cases h <;> rfl
  case testLoop =>
    split at h
    · cases h
      rfl
    · next hstop =>
      cases h
      exact absurd hf hstop
  case done => cases h
  all_goals cases ht

theorem alive_of_started {t : PlayerThread} (h : t.pc.started = true) : t.Alive = true := by
  unfold Alive
  split
  · next hpc =>
    rw [hpc] at h
    cases h
  · rfl

end PlayerThread

namespace Players

def nextCuts (s : Players) : Act → List File
  | .thread i _ => (s.threads[i]?).elim [] (·.nextCut s.flags)
  | _ => []

def stopCuts (s : Players) : Act → List File
  | .thread i _ => (s.threads[i]?).elim [] (·.stopCut s.flags)
  | _ => []

/-- There is one player, and none when `com_start` is about to make one. -/
structure One (s : Players) : Prop where
  alive : s.alive ≤ 1
  starting : s.command = .starting → s.alive = 0

theorem One.step {s s' : Players} {act : Act} (hs : One s) (hact : act = .com_start → s.alive = 0)
    (h : s.step act = some s') : One s' := by
  rcases step_alive h with ⟨rfl, hmore⟩ | ⟨hnew, hle⟩
  · obtain ⟨hc, he⟩ := Option.ite_none_right_eq_some.mp h
    rw [hs.starting hc] at hmore
    cases he
    exact ⟨hmore.le, nofun⟩
  · refine ⟨hle.trans hs.alive, fun hc => Nat.le_zero.mp (hle.trans (Nat.le_of_eq ?_))⟩
    cases act with
    | com_start => exact hact rfl
    | pthread_create works | com_stop | kill_current =>
      obtain ⟨-, he⟩ := Option.ite_none_right_eq_some.mp h
      cases he
      cases hc
    | com_next =>
      obtain ⟨-, he⟩ := Option.ite_none_right_eq_some.mp h
      cases he
      exact hs.starting hc
    | thread i a =>
      obtain ⟨t, f, t', -, -, rfl⟩ := step_thread h
      exact hs.starting hc

/-- The songs that commands which have come will cut. -/
def owed (s : Players) : Nat :=
  (s.threads.map (PlayerThread.owed s.flags)).sum + if s.command = .stopping then 1 else 0

theorem next_song_of_cut {s : Players} {act : Act} (h : nextCuts s act ≠ []) :
    s.flags.next_song = true := by
  by_contra hflag
  refine h ?_
  cases act with
  | thread i a =>
    show (s.threads[i]?).elim [] _ = []
    cases s.threads[i]? with
    | none => rfl
    | some t =>
      show t.nextCut s.flags = []
      unfold PlayerThread.nextCut
      split
      · exact if_neg hflag
      · rfl
  | com_start | pthread_create | com_stop | kill_current | com_next => rfl

theorem stop_player_of_cut {s : Players} {act : Act} (h : stopCuts s act ≠ []) :
    s.flags.stop_player = true ∧ ∃ t ∈ s.threads, t.pc.started = true := by
  cases act with
  | thread i a =>
    change (s.threads[i]?).elim [] _ ≠ [] at h
    cases ht : s.threads[i]? with
    | none =>
      rw [ht] at h
      exact absurd rfl h
    | some t =>
      rw [ht] at h
      change t.stopCut s.flags ≠ [] at h
      unfold PlayerThread.stopCut at h
      split at h
      · next fobj hpc =>
        refine ⟨?_, t, List.mem_of_getElem? ht, by rw [hpc]; rfl⟩
        by_contra hflag
        exact h (if_neg hflag)
      · exact absurd rfl h
  | com_start | pthread_create | com_stop | kill_current | com_next => exact absurd rfl h

theorem next_of_step {s s' : Players} {act : Act} (h : s.step act = some s')
    (hnext : s'.flags.next_song = true ∨ s'.command = .stopping) :
    (s.flags.next_song = true ∨ s.command = .stopping) ∨ act = .com_next ∨ act = .com_stop := by
  cases act with
  | com_start | pthread_create works =>
    obtain ⟨-, he⟩ := Option.ite_none_right_eq_some.mp h
    cases he
    exact .inl (hnext.imp_right nofun)
  | com_stop => exact .inr (.inr rfl)
  | kill_current =>
    obtain ⟨hc, -⟩ := Option.ite_none_right_eq_some.mp h
    exact .inl (.inr hc)
  | com_next => exact .inr (.inl rfl)
  | thread i a =>
    obtain ⟨t, f, t', -, hstep, rfl⟩ := step_thread h
    exact .inl (hnext.imp_left (PlayerThread.nextCut_step hstep).2)

theorem stop_of_step {s s' : Players} {act : Act} (hs : One s) (h : s.step act = some s')
    (hquiet : s.flags.stop_player = true → ∀ t ∈ s.threads, t.pc.started = false)
    (hstop : s'.flags.stop_player = true) :
    act = .com_stop ∨ ∀ t ∈ s'.threads, t.pc.started = false := by
  cases act with
  | com_start =>
    obtain ⟨-, he⟩ := Option.ite_none_right_eq_some.mp h
    cases he
    cases hstop
  | pthread_create works =>
    obtain ⟨-, he⟩ := Option.ite_none_right_eq_some.mp h
    cases he
    refine .inr fun t ht => ?_
    cases works with
    | false => exact hquiet hstop t ht
    | true =>
      rcases List.mem_append.mp ht with ht | ht
      · exact hquiet hstop t ht
      · obtain rfl := List.mem_singleton.mp ht
        rfl
  | com_stop => exact .inl rfl
  | kill_current | com_next =>
    obtain ⟨-, he⟩ := Option.ite_none_right_eq_some.mp h
    cases he
    exact .inr (hquiet hstop)
  | thread i a =>
    obtain ⟨t, f, t', ht, hstep, rfl⟩ := step_thread h
    have hnot : t.pc.started = false := by
      by_contra hstarted
      rw [Bool.not_eq_false] at hstarted
      have hflag := (PlayerThread.step_started hstarted hstep).symm.trans hstop
      rw [hquiet hflag t (List.mem_of_getElem? ht)] at hstarted
      cases hstarted
    refine .inr fun u hu => ?_
    rcases List.mem_or_eq_of_mem_set hu with hu | rfl
    · -- The thread that takes the step is the one player.
      obtain ⟨j, hj, rfl⟩ := List.getElem_of_mem hu
      have hget : s.threads[j]? = some s.threads[j] := List.getElem?_eq_getElem hj
      by_contra hstarted
      rw [Bool.not_eq_false] at hstarted
      obtain rfl := eq_of_countP_le_one hs.alive ht hget (PlayerThread.alive_of_step hstep)
        (PlayerThread.alive_of_started hstarted)
      rw [Option.some.inj (hget.symm.trans ht), hnot] at hstarted
      cases hstarted
    · exact PlayerThread.step_not_started hnot hstep hstop

end Players

/-! ## The two threads -/

/-- The first statement of a command of the web interface. -/
def ComFunc.first : ComFunc → Option Players.Act
  | .next => some .com_next
  | .start => some .com_start
  | .stop => some .com_stop
  | _ => none

theorem ComFunc.first_eq_next {func : ComFunc} (h : func.first = some .com_next) :
    func = .next := by
  cases func <;> first | rfl | cases h

theorem ComFunc.first_eq_start {func : ComFunc} (h : func.first = some .com_start) :
    func = .start := by
  cases func <;> first | rfl | cases h

theorem ComFunc.first_eq_stop {func : ComFunc} (h : func.first = some .com_stop) :
    func = .stop := by
  cases func <;> first | rfl | cases h

structure Program where
  http : HttpThread
  players : Players

namespace Program

def start (PLAYER_START : Bool) (http : HttpThread) : Program := ⟨http, .main PLAYER_START⟩

inductive Act where
  /-- A connection, up to the first statement of the command if there is one. -/
  | accept (c : Connection)
  | pthread_create (works : Bool)
  | kill_current
  /-- A step of a player thread. -/
  | thread (i : Nat) (a : Answer)

def step (cfg : HttpConfig) (s : Program) : Act → Option Program
  | .accept c =>
    if s.players.command = .ready then
      match HttpThread.serve cfg s.http c with
      | .error _ => none
      | .ok (http, none, _) => some { s with http := http }
      | .ok (http, some com, _) =>
        (com.func.first.bind s.players.step).map fun players => ⟨http, players⟩
    else none
  | .pthread_create works =>
    (s.players.step (.pthread_create works)).map fun players => { s with players := players }
  | .kill_current => (s.players.step .kill_current).map fun players => { s with players := players }
  | .thread i a => (s.players.step (.thread i a)).map fun players => { s with players := players }

def connections (acts : List Act) : List Connection :=
  acts.filterMap fun
    | .accept c => some c
    | _ => none

def Starts (cfg : HttpConfig) (s : Program) (act : Act) : Prop :=
  ∃ c com, act = .accept c ∧ HttpThread.commandRun cfg s.http c = .ok (some com) ∧
    com.func = .start

def nextCuts (s : Program) (act : Act) (_ : Program) : List File :=
  match act with
  | .thread i a => s.players.nextCuts (.thread i a)
  | _ => []

def stopCuts (s : Program) (act : Act) (_ : Program) : List File :=
  match act with
  | .thread i a => s.players.stopCuts (.thread i a)
  | _ => []

variable {cfg : HttpConfig}

theorem step_accept {s s' : Program} {c : Connection} (h : step cfg s (.accept c) = some s') :
    s.players.command = .ready ∧
    s'.http.rbuf = (if c.poll then receive s.http.rbuf c.recv else s.http.rbuf) ∧
    (s'.players = s.players ∨ ∃ com act, HttpThread.commandRun cfg s.http c = .ok (some com) ∧
      c.poll = true ∧
      requestCommand cfg.users c.tables (cStr (receive s.http.rbuf c.recv)) = some com ∧
      com.func.first = some act ∧ s.players.step act = some s'.players) := by
  obtain ⟨hready, h⟩ := Option.ite_none_right_eq_some.mp h
  obtain ⟨http, reply, hserve, hrbuf⟩ := HttpThread.serve_ok cfg s.http c
  have hrun := HttpThread.commandRun_eq cfg s.http c
  rw [hserve] at h
  refine ⟨hready, ?_⟩
  cases hcom : (if (c.poll && !cfg.httpLocked) = true then
      requestCommand cfg.users c.tables (cStr (receive s.http.rbuf c.recv)) else none) with
  | none =>
    rw [hcom] at h
    cases h
    exact ⟨hrbuf, .inl rfl⟩
  | some com =>
    rw [hcom] at h hrun
    obtain ⟨players, hplayers, rfl⟩ := Option.map_eq_some_iff.mp h
    obtain ⟨act, hact, hstep⟩ := Option.bind_eq_some_iff.mp hplayers
    obtain ⟨hpoll, hrequest⟩ := Option.ite_none_right_eq_some.mp hcom
    exact ⟨hrbuf, .inr ⟨com, act, hrun, (Bool.and_eq_true_iff.mp hpoll).1, hrequest, hact, hstep⟩⟩

/-! ## What has been asked for -/

/-- One of the connections asks for such a command, as `base64_decode` reads it on some tables. -/
def AskedFor (users : Users) (conns : List Connection) (kind : COMMAND → Prop) : Prop :=
  ∃ c ∈ conns, ∃ tables com, kind com ∧ c.Asks users tables com

/-- The text in the buffer has come on a connection, and so has the command that has set a flag. The
other way to set `stop_player`, a thread that finds no server, is behind a thread that plays. -/
structure Asked (cfg : HttpConfig) (conns : List Connection) (s : Program) : Prop where
  buffer : ∀ tables com, requestCommand cfg.users tables (cStr s.http.rbuf) = some com →
    ∃ c ∈ conns, c.Asks cfg.users tables com
  next : s.players.flags.next_song = true ∨ s.players.command = .stopping →
    AskedFor cfg.users conns fun com => com.func = .next ∨ com.func = .stop
  stop : s.players.flags.stop_player = true →
    (AskedFor cfg.users conns fun com => com.func = .stop) ∨
      ∀ t ∈ s.players.threads, t.pc.started = false

theorem AskedFor.mono {users : Users} {conns more : List Connection} {kind : COMMAND → Prop}
    (h : AskedFor users conns kind) : AskedFor users (conns ++ more) kind := by
  obtain ⟨c, hc, h⟩ := h
  exact ⟨c, List.mem_append_left _ hc, h⟩

theorem Asked.mono {conns more : List Connection} {s : Program} (hs : Asked cfg conns s) :
    Asked cfg (conns ++ more) s := by
  refine ⟨fun tables com h => ?_, fun h => (hs.next h).mono,
    fun h => (hs.stop h).imp_left AskedFor.mono⟩
  obtain ⟨c, hc, hasks⟩ := hs.buffer tables com h
  exact ⟨c, List.mem_append_left _ hc, hasks⟩

theorem Asked.players {conns : List Connection} {s : Program} {players : Players}
    {act : Players.Act} (hs : Asked cfg conns s) (hone : s.players.One)
    (hnext : act = .com_next ∨ act = .com_stop →
      AskedFor cfg.users conns fun com => com.func = .next ∨ com.func = .stop)
    (hstop : act = .com_stop → AskedFor cfg.users conns fun com => com.func = .stop)
    (h : s.players.step act = some players) : Asked cfg conns { s with players := players } := by
  refine ⟨hs.buffer, fun hflag => ?_, fun hflag => ?_⟩
  · exact (Players.next_of_step h hflag).elim hs.next hnext
  · by_cases hasked : AskedFor cfg.users conns fun com => com.func = .stop
    · exact .inl hasked
    · have hquiet := fun hup => (hs.stop hup).resolve_left hasked
      exact (Players.stop_of_step hone h hquiet hflag).imp_left hstop

theorem Asked.accept {conns : List Connection} {s s' : Program} {c : Connection}
    (hs : Asked cfg conns s) (hone : s.players.One) (h : step cfg s (.accept c) = some s') :
    Asked cfg (conns ++ [c]) s' := by
  obtain ⟨-, hrbuf, hplayers⟩ := step_accept h
  have hbuffer : ∀ tables com, requestCommand cfg.users tables (cStr s'.http.rbuf) = some com →
      ∃ c' ∈ conns ++ [c], c'.Asks cfg.users tables com := by
    intro tables com hcom
    rw [hrbuf] at hcom
    split at hcom
    · cases hr : c.recv with
      | failed =>
        rw [hr] at hcom
        exact hs.mono.buffer tables com hcom
      | bytes b =>
        have hown : c.received = b := by rw [Connection.received, hr]
        rw [hr, receive, cStr_append_nul, ← hown] at hcom
        exact ⟨c, List.mem_append_right _ List.mem_cons_self, (asks_of_requestCommand hcom).1⟩
    · exact hs.mono.buffer tables com hcom
  rcases hplayers with hsame | ⟨com, act, -, hpoll, hrequest, hact, hstep⟩
  · refine ⟨hbuffer, ?_, ?_⟩
    · rw [hsame]
      exact hs.mono.next
    · rw [hsame]
      exact hs.mono.stop
  · rw [if_pos hpoll] at hrbuf
    obtain ⟨c', hc', hasks⟩ := hbuffer c.tables com (hrbuf ▸ hrequest)
    have hnext : act = .com_next ∨ act = .com_stop → com.func = .next ∨ com.func = .stop := by
      rintro (rfl | rfl)
      · exact .inl (ComFunc.first_eq_next hact)
      · exact .inr (ComFunc.first_eq_stop hact)
    have hmore : Asked cfg (conns ++ [c]) s := hs.mono
    have hplayers := hmore.players hone (fun hset => ⟨c', hc', c.tables, com, hnext hset, hasks⟩)
      (fun hset => ⟨c', hc', c.tables, com, ComFunc.first_eq_stop (hset ▸ hact), hasks⟩) hstep
    exact ⟨hbuffer, hplayers.next, hplayers.stop⟩

/-! ## Runs -/

/-- A connection that runs a `next` or a `stop` of its own, or on which `recv` fails, so that it may
run the one that is still in the buffer. -/
def mayCut (cfg : HttpConfig) (c : Connection) : Bool :=
  match c.recv with
  | .failed => true
  | .bytes b => (requestCommand cfg.users c.tables (cStr b)).any fun com =>
      com.func = .next || com.func = .stop

def credit (cfg : HttpConfig) : Act → Nat
  | .accept c => if mayCut cfg c then 1 else 0
  | _ => 0

theorem One.step {s s' : Program} {act : Act} (hs : s.players.One)
    (hact : s.Starts cfg act → s.players.alive = 0) (h : step cfg s act = some s') :
    s'.players.One := by
  cases act with
  | accept c =>
    obtain ⟨-, -, hsame | ⟨com, act, hrun, -, -, hfirst, hstep⟩⟩ := step_accept h
    · exact hsame ▸ hs
    · refine hs.step (fun hstart => hact ⟨c, com, rfl, hrun, ?_⟩) hstep
      exact ComFunc.first_eq_start (hstart ▸ hfirst)
  | pthread_create works | kill_current | thread i a =>
    obtain ⟨players, hstep, rfl⟩ := Option.map_eq_some_iff.mp h
    exact hs.step (fun he => by cases he) hstep

theorem Asked.step {conns : List Connection} {s s' : Program} {act : Act}
    (hs : Asked cfg conns s) (hone : s.players.One) (h : step cfg s act = some s') :
    Asked cfg (conns ++ connections [act]) s' := by
  cases act with
  | accept c => exact hs.accept hone h
  | pthread_create works | kill_current | thread i a =>
    obtain ⟨players, hstep, rfl⟩ := Option.map_eq_some_iff.mp h
    show Asked cfg (conns ++ []) _
    rw [List.append_nil]
    exact hs.players hone (fun he => by rcases he with he | he <;> cases he)
      (fun he => by cases he) hstep

theorem connections_append (before after : List Act) :
    connections (before ++ after) = connections before ++ connections after :=
  List.filterMap_append

theorem sum_credit (acts : List Act) :
    (acts.map (credit cfg)).sum = ((connections acts).filter (mayCut cfg)).length := by
  induction acts with
  | nil => rfl
  | cons act acts ih =>
    rw [List.map_cons, List.sum_cons, ih]
    cases act with
    | accept c =>
      show (if mayCut cfg c then 1 else 0) + _ =
        ((c :: connections acts).filter (mayCut cfg)).length
      cases hcut : mayCut cfg c with
      | true =>
        rw [List.filter_cons_of_pos hcut, List.length_cons, if_pos rfl]
        omega
      | false =>
        rw [List.filter_cons_of_neg (by rw [hcut]; exact Bool.false_ne_true),
          if_neg Bool.false_ne_true]
        omega
    | pthread_create works | kill_current | thread i a => exact Nat.zero_add _

/-- What the steps of a run have cut has been asked for. -/
structure Cuts (cfg : HttpConfig) (s₀ : Program) (acts : List Act) (s : Program) : Prop where
  one : s.players.One
  asked : Asked cfg (connections acts) s
  next : Machine.outputs (step cfg) nextCuts s₀ acts ≠ [] →
    AskedFor cfg.users (connections acts) fun com => com.func = .next ∨ com.func = .stop
  stop : Machine.outputs (step cfg) stopCuts s₀ acts ≠ [] →
    AskedFor cfg.users (connections acts) fun com => com.func = .stop

theorem Cuts.step {s₀ s s' : Program} {acts : List Act} {act : Act} (hs : Cuts cfg s₀ acts s)
    (hrun : Machine.run (step cfg) s₀ acts = some s) (h : step cfg s act = some s')
    (hact : s.Starts cfg act → s.players.alive = 0) : Cuts cfg s₀ (acts ++ [act]) s' := by
  have hconns := connections_append acts [act]
  refine ⟨One.step hs.one hact h, hconns ▸ hs.asked.step hs.one h, fun hcut => ?_, fun hcut => ?_⟩
  · rw [Machine.outputs_snoc hrun h, ne_eq, List.append_eq_nil_iff, not_and_or] at hcut
    rw [hconns]
    refine AskedFor.mono (hcut.elim hs.next fun hcut => hs.asked.next (.inl ?_))
    cases act with
    | thread i a =>
      have hcut : s.players.nextCuts (.thread i a) ≠ [] := hcut
      exact Players.next_song_of_cut hcut
    | accept | pthread_create | kill_current => exact absurd rfl hcut
  · rw [Machine.outputs_snoc hrun h, ne_eq, List.append_eq_nil_iff, not_and_or] at hcut
    rw [hconns]
    refine AskedFor.mono (hcut.elim hs.stop fun hcut => ?_)
    cases act with
    | thread i a =>
      have hcut : s.players.stopCuts (.thread i a) ≠ [] := hcut
      obtain ⟨hflag, t, ht, hstarted⟩ := Players.stop_player_of_cut hcut
      refine (hs.asked.stop hflag).resolve_right fun hquiet => ?_
      rw [hquiet t ht] at hstarted
      cases hstarted
    | accept | pthread_create | kill_current => exact absurd rfl hcut

open HttpThread (oneUser idle stopClient)
open Players (songA playing)

end Program

end NetDJ.Daemon
