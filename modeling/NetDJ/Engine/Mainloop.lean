import NetDJ.Engine.CurrentElement
import NetDJ.Engine.Skips
import NetDJ.Engine.Shutdown

/-!
# `main.cpp`: the player thread and the server together

`mainloop` connects `SigSkip` of the server with `Skip`, `SigQuit` with the end of the event loop,
behind which it calls `Stop`, and `SigSongPlaying` of the player with `SongPlaying`, which runs in
the player thread. The handler of `SIGHUP`, `SIGINT` and `SIGTERM` ends the event loop too. The
threads take their steps in any order.

* `Mainloop.step` : the steps of the player thread, the requests, the signals, and the end of `exec`;
* `Mainloop.Act.Asks` : a request for a command by a user who has its level;
* `asks_of_executes` : a guarded command is executed only if the request asks for it;
* `cuts_authorised` : each song that is cut has been asked for, unless a signal came.
-/

namespace NetDJ.Engine

/-- What the program runs with: the user table, and what is not part of the repository, the path
that `QUrl` finds, the XML of a song with the tags of its file, and the text of an element. -/
structure Surroundings where
  mAccessChecker : SimpleAccessChecker
  urlPath : Str → Str
  asXML : SongFile → Str
  text : SongElement → Str

/-- `quit` says that `quit` has been called, `left` that `exec` has returned. -/
structure Mainloop where
  player : PlayerThread
  server : ServerSong
  quit : Bool
  left : Bool

namespace Mainloop

variable (e : Surroundings)

def start (player : PlayerThread) (memory : Nat) : Mainloop :=
  ⟨player, .init memory, false, false⟩

def getIdentifier (cols : List ICollection) (col : Nat) : Str :=
  (cols[col]?).elim [] (·.base.mIdentifier)

/-- What the commands of a request read. -/
def serverOf (s : Mainloop) (tables : Tables) (requestXML : Option Str) : Server :=
  ⟨e.mAccessChecker, s.server.getSong.elim [] e.text, requestXML, tables⟩

inductive Act where
  /-- A step of the player thread, and the address of the element if it makes one. -/
  | thread (a : Answer) (address : Nat)
  | readClient (tables : Tables) (requestXML : Option Str) (header : RequestHeader)
  /-- `sig_handler`, at any moment. -/
  | signal
  /-- `exec` returns, and `Stop` is called. -/
  | exec

def step (s : Mainloop) : Act → Option Mainloop
  | .thread a address =>
    (s.player.thread a).bind fun player =>
      match s.player.pc with
      | .announce song col =>
        (s.server.step (.songPlaying address ⟨e.asXML song, getIdentifier s.player.mCols col⟩)).map
          fun server => { s with player := player, server := server }
      | _ => some { s with player := player }
  | .readClient tables requestXML header =>
    if s.left then none
    else
      match (s.serverOf e tables requestXML).executed e.urlPath header with
      | some .skip => (s.player.step .skip).map fun player => { s with player := player }
      | some .shutdown => some { s with quit := true }
      -- Without an element there is nothing to clone.
      | some .current => if s.server.getSong.isSome then some s else none
      | _ => some s
  | .signal => some { s with quit := true }
  | .exec =>
    if s.quit && !s.left then
      (s.player.step .stop).map fun player => { s with player := player, left := true }
    else none

/-- The act is a request that executes the command. -/
def Act.executes (t : CmdType) : Act → Bool
  | .readClient tables _ header =>
    Server.fate e.urlPath ⟨e.mAccessChecker, [], none, tables⟩ header = .runs t
  | .thread _ _ | .signal | .exec => false

/-- The act is a `GET` request for the command, with the name and the password of a user who has its
level, as `base64_decode` reads them. -/
def Act.Asks (t : CmdType) : Act → Prop
  | .readClient tables _ header =>
    let auth := base64Decode tables (ascii (header.authorization.drop 6))
    header.method = "GET".toList ∧ basic <+: header.authorization ∧ ∃ cmd ∈ gCommands,
      cmd.mType = t ∧ Server.shortcut (e.urlPath header.path) = cmd.mName ∧ ∃ info,
        e.mAccessChecker.mUsers.lookup (qsection auth ':' 0 (some 0)) = some info ∧
        info.mPassword = qsection auth ':' 1 (some 1) ∧ cmd.mAuthLevel ≤ info.mLevel
  | .thread _ _ | .signal | .exec => False

variable {e}

/-! ## Requests -/

/-- The song and the request collection do not matter for what is executed. -/
theorem executed_eq (s : Mainloop) (tables : Tables) (requestXML : Option Str)
    (header : RequestHeader) : (s.serverOf e tables requestXML).executed e.urlPath header =
      (Server.fate e.urlPath ⟨e.mAccessChecker, [], none, tables⟩ header).command :=
  congrArg Prod.fst (Server.outcome_eq e.urlPath (s.serverOf e tables requestXML) header).1

theorem executes_iff {s : Mainloop} {tables : Tables} {requestXML : Option Str}
    {header : RequestHeader} {t : CmdType} :
    Act.executes e t (.readClient tables requestXML header) = true ↔
      (s.serverOf e tables requestXML).executed e.urlPath header = some t := by
  rw [executed_eq, Act.executes, decide_eq_true_eq]
  cases Server.fate e.urlPath ⟨e.mAccessChecker, [], none, tables⟩ header <;>
    simp [Server.Fate.command]

theorem asks_of_executes {t : CmdType} {act : Act} (ht : t = .skip ∨ t = .shutdown)
    (h : act.executes e t = true) : act.Asks e t := by
  cases act with
  | thread a address => cases h
  | signal => cases h
  | exec => cases h
  | readClient tables requestXML header =>
    have hfate := of_decide_eq_true h
    unfold Server.fate at hfate
    split at hfate
    · next hget =>
      cases hcmd : Server.command e.urlPath header with
      | none =>
        rw [hcmd] at hfate
        cases hfate
      | some cmd =>
        rw [hcmd] at hfate
        dsimp only at hfate
        split at hfate
        · next hallowed =>
          have htype : cmd.mType = t := Server.Fate.runs.inj hfate
          have hfind : gCommands.find?
              (·.mName = Server.shortcut (e.urlPath header.path)) = some cmd := hcmd
          have hmem := List.mem_of_find?_eq_some hfind
          have hname : cmd.mName = Server.shortcut (e.urlPath header.path) := by
            simpa using List.find?_some hfind
          have hlevel : cmd.mAuthLevel ≠ 0 := by
            have hguarded : ∀ c ∈ gCommands, c.mType = .skip ∨ c.mType = .shutdown →
                c.mAuthLevel ≠ 0 := by decide
            exact hguarded cmd hmem (htype ▸ ht)
          unfold Server.checkAuthorization at hallowed
          rw [if_neg hlevel] at hallowed
          split at hallowed
          · cases hallowed
          · next hbasic =>
            have haccess := (SimpleAccessChecker.hasAccess_iff _ _ _ _).mp hallowed
            exact ⟨hget, not_not.mp (not_or.mp hbasic).2, cmd, hmem, htype, hname.symm, haccess⟩
        · cases hfate
    · cases hfate

/-! ## Songs that are cut -/

def skipped (s : Mainloop) (act : Act) (s' : Mainloop) : List SongFile :=
  match act with
  | .thread a _ => s.player.skipped (.thread a) s'.player
  | .readClient _ _ _ | .signal | .exec => []

def stopped (s : Mainloop) (act : Act) (s' : Mainloop) : List SongFile :=
  match act with
  | .thread a _ => s.player.stopped (.thread a) s'.player
  | .readClient _ _ _ | .signal | .exec => []

theorem step_thread {s s' : Mainloop} {a : Answer} {address : Nat}
    (h : step e s (.thread a address) = some s') : s.player.thread a = some s'.player ∧
      s'.quit = s.quit ∧ s'.left = s.left ∧
      ((s'.server = s.server ∧ ∀ song col, s.player.pc ≠ .announce song col) ∨
        ∃ song col, s.player.pc = .announce song col ∧
          s.server.step (.songPlaying address ⟨e.asXML song, getIdentifier s.player.mCols col⟩) =
            some s'.server) := by
  obtain ⟨player, hplayer, h⟩ := Option.bind_eq_some_iff.mp h
  split at h
  · next song col hpc =>
    obtain ⟨server, hserver, rfl⟩ := Option.map_eq_some_iff.mp h
    exact ⟨hplayer, rfl, rfl, .inr ⟨song, col, hpc, hserver⟩⟩
  · next hpc =>
    cases h
    exact ⟨hplayer, rfl, rfl, .inl ⟨rfl, hpc⟩⟩

theorem step_readClient {s s' : Mainloop} {tables : Tables} {requestXML : Option Str}
    {header : RequestHeader} (h : step e s (.readClient tables requestXML header) = some s') :
    (s' = { s with player := { s.player with mSkipSong := true } } ∧
        Act.executes e .skip (.readClient tables requestXML header) = true) ∨
      (s' = { s with quit := true } ∧
        Act.executes e .shutdown (.readClient tables requestXML header) = true) ∨ s' = s := by
  unfold step at h
  dsimp only at h
  split at h
  · cases h
  · split at h
    · next hexec =>
      cases h
      exact .inl ⟨rfl, executes_iff.mpr hexec⟩
    · next hexec =>
      cases h
      exact .inr (.inl ⟨rfl, executes_iff.mpr hexec⟩)
    · split at h
      · cases h
        exact .inr (.inr rfl)
      · cases h
    · cases h
      exact .inr (.inr rfl)

theorem step_exec {s s' : Mainloop} (h : step e s .exec = some s') :
    s.quit = true ∧ s' = { s with player := { s.player with mStopPlayer := true }, left := true } := by
  obtain ⟨hquit, h⟩ := Option.ite_none_right_eq_some.mp h
  cases h
  exact ⟨(Bool.and_eq_true_iff.mp hquit).1, rfl⟩

theorem flags_of_mainloop {REQUEST_DIR SHARE_DIR : Str} {request share : Disk} {p : PlayerThread}
    (h : mainloop REQUEST_DIR SHARE_DIR request share = some (.ok p)) :
    p.mSkipSong = false ∧ p.mStopPlayer = false := by
  unfold mainloop at h
  split at h
  · cases h
  · cases h
  · obtain ⟨r, -, he⟩ := Option.map_eq_some_iff.mp h
    cases r with
    | error err => cases he
    | ok shr =>
      cases he
      exact ⟨rfl, rfl⟩

def credit (e : Surroundings) (act : Act) : Nat := if act.executes e .skip then 1 else 0

theorem skipped_step (s : Mainloop) (act : Act) (s' : Mainloop) (h : step e s act = some s') :
    (skipped s act s').length + s'.player.skipSaved ≤ s.player.skipSaved + credit e act := by
  cases act with
  | thread a address => exact PlayerThread.skipped_step _ _ _ (step_thread h).1
  | readClient tables requestXML header =>
    rcases step_readClient h with ⟨rfl, hexec⟩ | ⟨rfl, -⟩ | rfl
    · rw [credit, if_pos hexec]
      exact PlayerThread.skipped_step s.player .skip _ rfl
    · exact Nat.le_trans (Nat.le_of_eq (Nat.zero_add _)) (Nat.le_add_right _ _)
    · exact Nat.le_trans (Nat.le_of_eq (Nat.zero_add _)) (Nat.le_add_right _ _)
  | signal =>
    cases h
    exact Nat.le_trans (Nat.le_of_eq (Nat.zero_add _)) (Nat.le_add_right _ _)
  | exec =>
    obtain ⟨-, rfl⟩ := step_exec h
    exact PlayerThread.skipped_step s.player .stop _ rfl

/-- The act calls `quit`. -/
def Act.Quits (e : Surroundings) (act : Act) : Prop :=
  act.executes e .shutdown = true ∨ act = .signal

/-- The player is stopped when `quit` has been called, by a `/shutdown` or a signal. -/
structure Stops (e : Surroundings) (acts : List Act) (s : Mainloop) : Prop where
  stop : s.player.mStopPlayer = true → s.quit = true
  asked : s.quit = true → ∃ act ∈ acts, act.Quits e

theorem Stops.append {acts : List Act} {s s' : Mainloop} (hs : Stops e acts s)
    (hstop : s'.player.mStopPlayer = s.player.mStopPlayer) (hquit : s'.quit = s.quit) (act : Act) :
    Stops e (acts ++ [act]) s' := by
  refine ⟨fun h => hquit.trans (hs.stop (hstop.symm.trans h)), fun h => ?_⟩
  obtain ⟨b, hb, hexec⟩ := hs.asked (hquit.symm.trans h)
  exact ⟨b, List.mem_append_left _ hb, hexec⟩

theorem Stops.step {acts : List Act} {s s' : Mainloop} {act : Act} (hs : Stops e acts s)
    (h : step e s act = some s') : Stops e (acts ++ [act]) s' := by
  cases act with
  | thread a address =>
    obtain ⟨hplayer, hquit, -, -⟩ := step_thread h
    exact hs.append (PlayerThread.thread_mStopPlayer hplayer) hquit _
  | readClient tables requestXML header =>
    rcases step_readClient h with ⟨rfl, -⟩ | ⟨rfl, hexec⟩ | rfl
    · refine hs.append ?_ ?_ _
      · rfl
      · rfl
    · exact ⟨fun _ => rfl, fun _ => ⟨_, List.mem_append_right _ List.mem_cons_self, .inl hexec⟩⟩
    · exact hs.append rfl rfl _
  | signal =>
    cases h
    exact ⟨fun _ => rfl, fun _ => ⟨_, List.mem_append_right _ List.mem_cons_self, .inr rfl⟩⟩
  | exec =>
    obtain ⟨hquit, rfl⟩ := step_exec h
    refine ⟨fun _ => hquit, fun _ => ?_⟩
    obtain ⟨b, hb, hexec⟩ := hs.asked hquit
    exact ⟨b, List.mem_append_left _ hb, hexec⟩

theorem sum_credit (acts : List Act) :
    (acts.map (credit e)).sum = (acts.filter (·.executes e .skip)).length := by
  induction acts with
  | nil => rfl
  | cons act acts ih =>
    rw [List.map_cons, List.sum_cons, ih, credit]
    by_cases hexec : act.executes e .skip = true
    · rw [if_pos hexec, List.filter_cons_of_pos (by exact hexec), List.length_cons]
      omega
    · rw [if_neg hexec, List.filter_cons_of_neg (by exact hexec)]
      omega

/-- Only `Stop` cuts a song because of `mStopPlayer`. -/
theorem stops_of_run {player : PlayerThread} {memory : Nat} {acts : List Act} {s : Mainloop}
    (hstop : player.mStopPlayer = false)
    (h : Machine.run (step e) (start player memory) acts = some s) : Stops e acts s ∧
      (Machine.outputs (step e) stopped (start player memory) acts ≠ [] →
        ∃ act ∈ acts, act.Quits e) := by
  refine @Machine.run_induction _ _ _ (start player memory) (fun acts s => Stops e acts s ∧
    (Machine.outputs (step e) stopped (start player memory) acts ≠ [] →
      ∃ act ∈ acts, act.Quits e)) ?_ ?_ acts s h
  · refine ⟨⟨fun h => ?_, nofun⟩, fun h => absurd rfl h⟩
    exact absurd (hstop.symm.trans h) Bool.false_ne_true
  · intro before t act t' ht ih hstep
    refine ⟨ih.1.step hstep, fun hcut => ?_⟩
    rw [Machine.outputs_snoc ht hstep, ne_eq, List.append_eq_nil_iff, not_and_or] at hcut
    rcases hcut with hcut | hcut
    · obtain ⟨b, hb, hexec⟩ := ih.2 hcut
      exact ⟨b, List.mem_append_left _ hb, hexec⟩
    · have hstopped : t.player.mStopPlayer = true := by
        by_contra hstopped
        refine hcut ?_
        cases act with
        | thread a address =>
          unfold stopped PlayerThread.stopped
          dsimp only
          split
          · exact if_neg hstopped
          · rfl
        | readClient tables requestXML header => rfl
        | signal => rfl
        | exec => rfl
      obtain ⟨b, hb, hexec⟩ := ih.1.asked (ih.1.stop hstopped)
      exact ⟨b, List.mem_append_left _ hb, hexec⟩

/-- **In every run of the program no more songs are cut because of `mSkipSong` than users of the
level of `/skip` have asked for it, and none because of `mStopPlayer` if no user of the level of
`/shutdown` has asked for that and no signal came.** -/
theorem cuts_authorised {REQUEST_DIR SHARE_DIR : Str} {request share : Disk} {player : PlayerThread}
    {memory : Nat} {acts : List Act} {s : Mainloop}
    (hmain : mainloop REQUEST_DIR SHARE_DIR request share = some (.ok player))
    (h : Machine.run (step e) (start player memory) acts = some s) :
    (∃ requests, List.Sublist requests acts ∧ (∀ act ∈ requests, act.Asks e .skip) ∧
      (Machine.outputs (step e) skipped (start player memory) acts).length ≤ requests.length) ∧
    (Machine.outputs (step e) stopped (start player memory) acts ≠ [] →
      (∃ act ∈ acts, act.Asks e .shutdown) ∨ .signal ∈ acts) := by
  obtain ⟨hskip, hstop⟩ := flags_of_mainloop hmain
  constructor
  · refine ⟨acts.filter (·.executes e .skip), List.filter_sublist, fun act hact => ?_, ?_⟩
    · exact asks_of_executes (.inl rfl) (List.mem_filter.mp hact).2
    · have hle : (Machine.outputs (step e) skipped (start player memory) acts).length +
          s.player.skipSaved ≤ player.skipSaved + (acts.map (credit e)).sum :=
        Machine.outputs_length_le (I := fun _ => True) (C := fun _ _ => True)
          (fun s act s' _ _ hstep => ⟨trivial, skipped_step s act s' hstep⟩) trivial
          (fun _ _ _ => trivial) h
      have hnone : player.skipSaved = 0 := by
        unfold PlayerThread.skipSaved
        rw [hskip]
        rfl
      rw [sum_credit, hnone] at hle
      omega
  · intro hcut
    obtain ⟨act, hact, hexec | rfl⟩ := (stops_of_run hstop h).2 hcut
    · exact .inl ⟨act, hact, asks_of_executes (.inr rfl) hexec⟩
    · exact .inr hact

open PlayerThread (oneLine onlySong twoBytes)

/-- The user table has the one line `dj:secret:200`. -/
def surroundings : Surroundings :=
  ⟨oneUserServer.mAccessChecker, id, fun song => "<song unid=\"".toList ++ song.mFilename ++
    "\"/>".toList, fun element => element.xml ++ element.collection⟩

/-- The user asks for `/skip` while the first song is sent. -/
def skipSong : List Act :=
  List.replicate 7 (.thread twoBytes 4096) ++
    .readClient oneUserServer.tables none
      ⟨"GET".toList, "/skip".toList, basicHeader "dj:secret".toList⟩ ::
    List.replicate 4 (.thread twoBytes 4096)

theorem cuts_authorised_skipSong : ∃ player s,
    mainloop "req".toList "shr".toList (oneLine false) (oneLine false) = some (.ok player) ∧
    Machine.run (step surroundings) (start player 0) skipSong = some s ∧
    Machine.outputs (step surroundings) skipped (start player 0) skipSong = [onlySong false] ∧
    (∃ requests, List.Sublist requests skipSong ∧
      (∀ act ∈ requests, act.Asks surroundings .skip) ∧
      (Machine.outputs (step surroundings) skipped (start player 0) skipSong).length ≤
        requests.length) ∧
    (Machine.outputs (step surroundings) stopped (start player 0) skipSong ≠ [] →
      (∃ act ∈ skipSong, act.Asks surroundings .shutdown) ∨ .signal ∈ skipSong) := by
  obtain ⟨player, hmain⟩ : ∃ player, mainloop "req".toList "shr".toList (oneLine false)
    (oneLine false) = some (.ok player) := ⟨_, rfl⟩
  obtain ⟨s, hs⟩ : ∃ s, Machine.run (step surroundings) (start player 0) skipSong = some s := by
    cases hmain
    exact Option.isSome_iff_exists.mp (by decide +kernel)
  have hcut : Machine.outputs (step surroundings) skipped (start player 0) skipSong =
      [onlySong false] := by
    cases hmain
    decide +kernel
  exact ⟨player, s, hmain, hs, hcut, cuts_authorised hmain hs⟩

end Mainloop

end NetDJ.Engine
