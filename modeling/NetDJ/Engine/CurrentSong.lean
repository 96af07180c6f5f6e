import NetDJ.Engine.Mainloop

/-!
# `Server.cpp`, `main.cpp`: the song that clients are shown

`SongPlaying` runs in the player thread, between two of its steps, and `CmdCurrent` in the event
loop at any time.

* `getNextSong_mIdentifier` : the collections keep their identifiers;
* `Pc.playing` : the song that is played, which has been announced;
* `Mainloop.Shows`, `Mainloop.Shows.step` : `mSongElement` is that of the song that is played;
* `Mainloop.current_song` : so a client is told what is played.
-/

namespace NetDJ.Engine

theorem CollectionSonglist.getNextSong_mIdentifier (c : CollectionSonglist) (rand : Nat) :
    (c.getNextSong rand).1.mIdentifier = c.mIdentifier := by
  unfold getNextSong
  split
  · rfl
  · split
    · rfl
    · split <;> rfl

theorem ICollection.update_mIdentifier {c c' : ICollection} {disk : Disk} {r : Except Failure Unit}
    (h : c.update disk = some (c', r)) : c'.base.mIdentifier = c.base.mIdentifier := by
  cases c with
  | dir c =>
    obtain ⟨⟨d, r'⟩, hd, he⟩ := Option.map_eq_some_iff.mp h
    cases he
    rcases CollectionSonglistDir.update_cases hd with ⟨-, rfl, -⟩ | ⟨l, s, -, hs, rfl, -⟩
    · rfl
    · have hscan : s.col.mIdentifier = c.mIdentifier := by
        apply scanLoop_keeps (I := fun s => s.col.mIdentifier = c.mIdentifier) _ rfl hs
        intro s fi date memory hid
        unfold Scan.add
        dsimp only
        split <;> exact hid
      show (CollectionSonglistDir.finish s).mIdentifier = c.mIdentifier
      unfold CollectionSonglistDir.finish
      dsimp only
      split <;> exact hscan
  | file c =>
    cases h
    show (c.update disk.file).1.mIdentifier = c.mIdentifier
    have hline : ∀ (lines : List (Str × Option Bool)) (s : CollectionSonglistFile × List SongFile),
        (lines.foldl CollectionSonglistFile.readLine s).1.mIdentifier = s.1.mIdentifier := by
      intro lines
      induction lines with
      | nil => exact fun s => rfl
      | cons line lines ih =>
        intro s
        rw [List.foldl_cons, ih]
        unfold CollectionSonglistFile.readLine
        dsimp only
        split
        · rfl
        · split <;> rfl
    unfold CollectionSonglistFile.update
    split
    · rfl
    · dsimp only
      split
      · rfl
      · exact hline _ _

theorem ICollection.nextSong_mIdentifier {c c' : ICollection} {disk : Disk}
    {r : Except Failure SongFile} (h : c.nextSong disk = some (c', r)) :
    c'.base.mIdentifier = c.base.mIdentifier := by
  obtain ⟨⟨d, u⟩, hd, he⟩ := Option.map_eq_some_iff.mp h
  rw [← ICollection.update_mIdentifier hd]
  cases u with
  | error err =>
    cases he
    rfl
  | ok u =>
    have hnext : d.getNextSong disk.rand = (c', r) := he
    rw [show c' = (d.getNextSong disk.rand).1 by rw [hnext]]
    cases d with
    | dir d => exact d.getNextSong_mIdentifier disk.rand
    | file d => exact d.getNextSong_mIdentifier disk.rand

theorem getNextSong_mIdentifier {cols cols' : List ICollection} {disks : List Disk}
    {r : Except Failure (Option (SongFile × Nat))}
    (h : getNextSong cols disks = some (cols', r)) :
    cols'.map (·.base.mIdentifier) = cols.map (·.base.mIdentifier) := by
  induction cols generalizing disks cols' r with
  | nil =>
    cases h
    rfl
  | cons c cols ih =>
    cases disks with
    | nil => cases h
    | cons disk disks =>
      unfold getNextSong at h
      split at h
      · cases h
      · next c' song hn =>
        cases h
        rw [List.map_cons, List.map_cons, ICollection.nextSong_mIdentifier hn]
      · next c' what hn =>
        obtain ⟨⟨cs, r'⟩, hr, he⟩ := Option.map_eq_some_iff.mp h
        cases he
        rw [List.map_cons, List.map_cons, ICollection.nextSong_mIdentifier hn, ih hr]
      · next c' err hother hn =>
        cases h
        rw [List.map_cons, List.map_cons, ICollection.nextSong_mIdentifier hn]

/-- The song that has been announced and not closed. -/
def Pc.playing : Pc → Option (SongFile × Nat)
  | read s c | testStop s c _ | testSkip s c _ | send s c _ | close s c => some (s, c)
  | connect | fetch | sleep | opening _ _ | announce _ _ | afterStop | afterSkip | clearSkip
  | done => none

namespace PlayerThread

theorem thread_playing {s s' : PlayerThread} {a : Answer} (h : s.thread a = some s') {song : SongFile}
    {col : Nat} (hplay : s'.pc.playing = some (song, col)) :
    s.pc = .announce song col ∨ s.pc.playing = some (song, col) ∧ ∀ x c, s.pc ≠ .announce x c := by
  unfold thread at h
  cases hpc : s.pc <;> rw [hpc] at h <;> dsimp only at h
  case fetch =>
    split at h <;> cases h <;> cases hplay
  case announce x c =>
    split at h <;> cases h <;> cases hplay
    exact .inl rfl
  case sleep | close | clearSkip =>
    cases h
    cases hplay
  case done => cases h
  case read | testStop | testSkip =>
    split at h <;> cases h
    · exact .inr ⟨hplay, nofun⟩
    · exact .inr ⟨hplay, nofun⟩
  case send =>
    split at h <;> cases h
    · cases hplay
    · exact .inr ⟨hplay, nofun⟩
  all_goals split at h <;> cases h <;> cases hplay

theorem thread_identifiers {s s' : PlayerThread} {a : Answer} (h : s.thread a = some s') :
    s'.mCols.map (·.base.mIdentifier) = s.mCols.map (·.base.mIdentifier) := by
  rcases thread_cases h with ⟨hcols, -, -⟩ | ⟨r, hcols, -, -⟩ | ⟨song, col, -, hcols, -, -⟩
  · rw [hcols]
  · exact getNextSong_mIdentifier hcols
  · rw [hcols]

theorem identifiers_of_mainloop {REQUEST_DIR SHARE_DIR : Str} {request share : Disk}
    {p : PlayerThread} (h : mainloop REQUEST_DIR SHARE_DIR request share = some (.ok p)) :
    p.mCols.map (·.base.mIdentifier) = ["request".toList, "share".toList] := by
  have hkept : ∀ {c c' : ICollection} {disk : Disk}, construct c disk = some (.ok c') →
      c'.base.mIdentifier = c.base.mIdentifier := by
    intro c c' disk h
    obtain ⟨⟨d, r⟩, hd, he⟩ := Option.map_eq_some_iff.mp h
    cases r with
    | error err => cases he
    | ok u =>
      cases he
      exact ICollection.update_mIdentifier hd
  unfold mainloop at h
  split at h
  · cases h
  · cases h
  · next req hreq =>
    obtain ⟨r, hshr, he⟩ := Option.map_eq_some_iff.mp h
    cases r with
    | error err => cases he
    | ok shr =>
      cases he
      rw [List.map_cons, List.map_singleton, hkept hreq, hkept hshr]
      rfl

end PlayerThread

namespace Mainloop

variable {e : Surroundings}

theorem songPlaying_created {s s' : ServerSong} {address : Nat} {element : SongElement}
    (h : s.step (.songPlaying address element) = some s') :
    s'.created.getLast? = some element ∧ s'.destroyed = s.destroyed := by
  obtain ⟨-, he⟩ := Option.ite_none_right_eq_some.mp h
  cases he
  constructor
  · exact List.getLast?_concat
  · show s.deleteElement.destroyed = s.destroyed
    unfold ServerSong.deleteElement
    split <;> rfl

/-- `mSongElement` is that of the song that is played. -/
structure Shows (e : Surroundings) (memory : Nat) (s : Mainloop) : Prop where
  tracked : s.player.Tracked
  identifiers : s.player.mCols.map (·.base.mIdentifier) = ["request".toList, "share".toList]
  server : ∃ acts, Machine.run ServerSong.step (.init memory) acts = some s.server
  alive : s.server.destroyed = false
  shown : ∀ song col, s.player.pc.playing = some (song, col) →
    ∃ id, ["request".toList, "share".toList][col]? = some id ∧
      s.server.created.getLast? = some ⟨e.asXML song, id⟩

theorem shows_start {REQUEST_DIR SHARE_DIR : Str} {request share : Disk} {player : PlayerThread}
    (hmain : mainloop REQUEST_DIR SHARE_DIR request share = some (.ok player)) (memory : Nat) :
    Shows e memory (start player memory) := by
  refine ⟨PlayerThread.tracked_of_mainloop hmain, PlayerThread.identifiers_of_mainloop hmain,
    ⟨[], rfl⟩, rfl, fun song col hplay => ?_⟩
  change player.pc.playing = _ at hplay
  rw [PlayerThread.pc_of_mainloop hmain] at hplay
  cases hplay

theorem Shows.step {memory : Nat} {s s' : Mainloop} {act : Act} (hs : Shows e memory s)
    (h : Mainloop.step e s act = some s') : Shows e memory s' := by
  cases act with
  | signal =>
    cases h
    exact ⟨hs.tracked, hs.identifiers, hs.server, hs.alive, hs.shown⟩
  | exec =>
    obtain ⟨-, rfl⟩ := step_exec h
    have htracked := @PlayerThread.Tracked.step s.player _ .stop hs.tracked rfl
    exact ⟨htracked, hs.identifiers, hs.server, hs.alive, hs.shown⟩
  | readClient tables requestXML header =>
    rcases step_readClient h with ⟨rfl, -⟩ | ⟨rfl, -⟩ | rfl
    · have htracked := @PlayerThread.Tracked.step s.player _ .skip hs.tracked rfl
      exact ⟨htracked, hs.identifiers, hs.server, hs.alive, hs.shown⟩
    · exact ⟨hs.tracked, hs.identifiers, hs.server, hs.alive, hs.shown⟩
    · exact hs
  | thread a address =>
    obtain ⟨hplayer, -, -, hserver⟩ := step_thread h
    have htracked := hs.tracked.thread hplayer
    have hids := (PlayerThread.thread_identifiers hplayer).trans hs.identifiers
    rcases hserver with ⟨hserver, hpc⟩ | ⟨song, col, hpc, hserver⟩
    · refine ⟨htracked, hids, by rw [hserver]; exact hs.server, by rw [hserver]; exact hs.alive, ?_⟩
      intro song col hplay
      rcases PlayerThread.thread_playing hplayer hplay with hannounce | ⟨hold, -⟩
      · exact absurd hannounce (hpc song col)
      · rw [hserver]
        exact hs.shown song col hold
    · obtain ⟨hlast, halive⟩ := songPlaying_created hserver
      obtain ⟨sacts, hsacts⟩ := hs.server
      refine ⟨htracked, hids, ⟨sacts ++ [.songPlaying address
        ⟨e.asXML song, getIdentifier s.player.mCols col⟩], ?_⟩, halive.trans hs.alive, ?_⟩
      · rw [Machine.run_snoc, hsacts]
        exact hserver
      · intro song' col' hplay
        rcases PlayerThread.thread_playing hplayer hplay with hannounce | ⟨-, hno⟩
        · rw [hpc] at hannounce
          cases hannounce
          -- The position is that of one of the two collections.
          obtain ⟨flag, hflag, -⟩ := hs.tracked.current song col (by rw [hpc]; rfl)
          obtain ⟨aCol, hcol⟩ : ∃ aCol, s.player.mCols[col]? = some aCol := by
            rw [← hs.tracked.assigned, List.getElem?_map] at hflag
            obtain ⟨aCol, hcol, -⟩ := Option.map_eq_some_iff.mp hflag
            exact ⟨aCol, hcol⟩
          rw [getIdentifier, hcol] at hlast
          refine ⟨aCol.base.mIdentifier, ?_, hlast⟩
          rw [← hs.identifiers, List.getElem?_map, hcol]
          rfl
        · exact absurd hpc (hno song col)

/-- **While a song is played, a request for `/current.xml` is answered with the element of this song
and the identifier of its collection**, however the two threads take their steps. -/
theorem current_song {REQUEST_DIR SHARE_DIR : Str} {request share : Disk} {player : PlayerThread}
    {memory : Nat} {acts : List Act} {s : Mainloop} {song : SongFile} {col : Nat} {tables : Tables}
    {requestXML : Option Str} {header : RequestHeader}
    (hmain : mainloop REQUEST_DIR SHARE_DIR request share = some (.ok player))
    (h : Machine.run (step e) (start player memory) acts = some s)
    (hplay : s.player.pc.playing = some (song, col))
    (hcurrent : (s.serverOf e tables requestXML).executed e.urlPath header = some .current) :
    ∃ id aMsg, ["request".toList, "share".toList][col]? = some id ∧
      (s.serverOf e tables requestXML).answer e.urlPath header =
        (.sigMessage aMsg 150 .info :: Server.outs [.HTTP_200, .HTTP_XML, .HTTP_DATASTART,
          .text (e.text ⟨e.asXML song, id⟩), .text "\n".toList], true) := by
  have hs : Shows e memory s :=
    Machine.run_keeps (fun _ _ _ hu hstep => hu.step hstep) (shows_start hmain memory) h
  obtain ⟨id, hid, hlast⟩ := hs.shown song col hplay
  obtain ⟨sacts, hsacts⟩ := hs.server
  have hsong : s.server.getSong = some ⟨e.asXML song, id⟩ := by
    rw [ServerSong.getSong_eq hsacts hs.alive, hlast]
  rcases Server.answer_cases e.urlPath (s.serverOf e tables requestXML) header with
    ⟨-, hnone, -⟩ | ⟨-, hnone, -⟩ | ⟨-, hnone, -⟩ | ⟨t, aMsg, uName, -, hsome, hanswer⟩
  · rw [hcurrent] at hnone
    cases hnone
  · rw [hcurrent] at hnone
    cases hnone
  · rw [hcurrent] at hnone
    cases hnone
  · rw [hcurrent] at hsome
    obtain rfl := Option.some.inj hsome
    refine ⟨id, aMsg, hid, ?_⟩
    rw [hanswer]
    unfold Server.runCommand Server.cmdCurrent serverOf
    rw [hsong]
    rfl

open PlayerThread (oneLine onlySong twoBytes)

/-- The first song is read, and a client asks what is played. -/
theorem current_song_first : ∃ player s id aMsg,
    mainloop "req".toList "shr".toList (oneLine false) (oneLine false) = some (.ok player) ∧
    Machine.run (step surroundings) (start player 0)
      (List.replicate 5 (.thread twoBytes 4096)) = some s ∧
    ["request".toList, "share".toList][1]? = some id ∧
    (s.serverOf surroundings oneUserServer.tables none).answer surroundings.urlPath
        ⟨"GET".toList, "/current.xml".toList, []⟩ =
      (.sigMessage aMsg 150 .info :: Server.outs [.HTTP_200, .HTTP_XML, .HTTP_DATASTART,
        .text (surroundings.text ⟨surroundings.asXML (onlySong false), id⟩),
        .text "\n".toList], true) := by
  obtain ⟨player, hmain⟩ : ∃ player, mainloop "req".toList "shr".toList (oneLine false)
    (oneLine false) = some (.ok player) := ⟨_, rfl⟩
  obtain ⟨s, hs, hplay⟩ : ∃ s, Machine.run (step surroundings) (start player 0)
      (List.replicate 5 (.thread twoBytes 4096)) = some s ∧
      s.player.pc.playing = some (onlySong false, 1) := by
    cases hmain
    exact ⟨_, rfl, rfl⟩
  obtain ⟨id, aMsg, hid, hanswer⟩ := @current_song surroundings _ _ _ _ _ _ _ _ _ _
    oneUserServer.tables none ⟨"GET".toList, "/current.xml".toList, []⟩ hmain hs hplay
    (by rw [executed_eq]; decide)
  exact ⟨player, s, id, aMsg, hmain, hs, hid, hanswer⟩

end Mainloop

end NetDJ.Engine
