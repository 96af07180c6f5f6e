import NetDJ.Daemon.Playlist

/-!
# `main.cc`: saving and loading the state

* `savestate`, `loadstate` : the time in the state file;
* `firstUpdate` : a new process, up to its first call of `Update`;
* `Known` : what the entries of a run say about their files, if ctimes are fixed;
* `queued_restarted`, `taken_restarted` : which songs the new process lists;
* `restart_keeps` : the new list has the songs that were queued, and of the others that were taken
  only those as old as the oldest queued one.
-/

namespace NetDJ.Daemon

/-- The time that is written to the state file. -/
def savestate (cache : Directory) (stat : Str → Option Stat) : Except Abort Int :=
  cache.getNextTimestamp stat

/-- `loadstate`, with the time in the state file if it opens. -/
def loadstate (cache : Directory) (file : Option Int) : Directory :=
  match file with
  | some upd => cache.setLastupdate (upd - 1)
  | none => cache

/-- The cache directory of a process. `mem` is what the memory held for `fromfile`. -/
def newCache (mem : Bool) : Directory := .new "cache".toList "Cache-dir".toList true mem

/-- The start of a process, up to the first call of `Update` on the cache. -/
def firstUpdate (file : Option Int) (CACHE_DIR : Str) (mem : Bool) (os : Os) :
    Except Abort Directory :=
  match (loadstate (newCache mem) file).setDirname CACHE_DIR false with
  | .error a => .error a
  | .ok cache => cache.update os

/-- The cache of a process, before its first `Update`. -/
def openedCache (CACHE_DIR : Str) (lastupdate : Int) : Directory :=
  { newCache false with dirname := Directory.slashed CACHE_DIR, lastupdate := lastupdate }

theorem setDirname_newCache {CACHE_DIR : Str} (hdir : CACHE_DIR ≠ []) (mem : Bool) (u : Int) :
    ((newCache mem).setLastupdate u).setDirname CACHE_DIR false =
      .ok (openedCache CACHE_DIR u) := by
  unfold Directory.setDirname
  dsimp only
  rw [if_neg Bool.false_ne_true, if_neg hdir]
  rfl

theorem reads_openedCache {CACHE_DIR : Str} (hdir : CACHE_DIR ≠ []) (u : Int) :
    Playlist.Reads (Directory.slashed CACHE_DIR) (openedCache CACHE_DIR u) := by
  refine ⟨rfl, rfl, rfl, ?_⟩
  unfold Directory.slashed
  split
  · exact List.append_ne_nil_of_right_ne_nil _ (List.cons_ne_nil _ _)
  · exact hdir

/-! ## Fixed ctimes -/

section Fixed
variable {dirname : Str}

/-- The files of the directory have these ctimes. -/
def Snapshot.Fixed (o : Snapshot dirname) (ctime : Str → Int) : Prop :=
  ∀ n ∈ o.names, ∀ st, o.stat (dirname ++ n) = some st → st.st_ctime = ctime (dirname ++ n)

/-- The path is that of a file in the directory. -/
def Snapshot.Holds (o : Snapshot dirname) (path : Str) : Prop :=
  ∃ n ∈ o.names, path = dirname ++ n ∧ (regular o.stat path).isSome

namespace Playlist

/-- All entries are songs and have the ctimes of their files. -/
def Known (ctimes : Str → Int) (s : Playlist) : Prop :=
  ∀ f ∈ s.entries, hasMp3Ending f.name = true ∧ ctime f = ctimes f.name

theorem mem_numbered_found {s : Playlist} (hs : Reads dirname s.dir) {o : Snapshot dirname}
    {ctimes : Str → Int} (ho : o.Fixed ctimes) {f : File}
    (hf : f ∈ numbered s.dir.nextfileid (s.dir.found o.stat o.names)) :
    hasMp3Ending f.name = true ∧ ctime f = ctimes f.name ∧ s.dir.lastupdate < ctime f := by
  have hmem : (f.name, f.stat_buf) ∈ s.dir.found o.stat o.names :=
    map_numbered s.dir.nextfileid (s.dir.found o.stat o.names) ▸ List.mem_map_of_mem hf
  obtain ⟨n, hn, hname, hreg, hlt, hmp3⟩ := mem_found hs hmem
  have hc := ho n hn _ (hname ▸ stat_of_regular hreg)
  exact ⟨hmp3, hc.trans (congrArg ctimes hname.symm), hlt⟩

theorem Known.step {s s' : Playlist} {op : Op dirname} {ctimes : Str → Int}
    (hs : Reads dirname s.dir) (hk : Known ctimes s)
    (ho : ∀ o, op.snapshot = some o → o.Fixed ctimes) (h : s.step op = some s') :
    Known ctimes s' := by
  have hscan : ∀ o, op.snapshot = some o → Known ctimes (s.scan o) := by
    intro o hop f hf
    rcases List.mem_append.mp ((entries_scan s o).mem_iff.mp hf) with hf | hf
    · exact hk f hf
    · obtain ⟨hmp3, hc, -⟩ := mem_numbered_found hs (ho o hop) hf
      exact ⟨hmp3, hc⟩
  obtain rfl | ⟨o, hop, -, song, rest, hl, rfl⟩ := step_cases hs h
  · exact hk
  · unfold Known
    rw [entries_take hl]
    exact hscan o hop

theorem known_of_run {s s' : Playlist} {ops : List (Op dirname)} {ctimes : Str → Int}
    (hs : Good dirname s) (hk : Known ctimes s)
    (ho : ∀ op ∈ ops, ∀ o, op.snapshot = some o → o.Fixed ctimes)
    (h : Machine.run step s ops = some s') : Known ctimes s' := by
  refine (Machine.run_invariant (I := fun t => Good dirname t ∧ Known ctimes t) ?_ ho ⟨hs, hk⟩ h).2
  intro t op t' hop ht hstep
  exact ⟨ht.1.step hstep, ht.2.step ht.1.reads hop hstep⟩

end Playlist

end Fixed

/-! ## The restart -/

open Playlist

section Restart
variable {CACHE_DIR : Str} {s : Playlist} {now : Snapshot (Directory.slashed CACHE_DIR)}
  {ctimes : Str → Int} {front : File} {rest : List File}

/-- The new process after its first scan, when `front` was the oldest queued song. -/
def restarted (now : Snapshot (Directory.slashed CACHE_DIR)) (front : File) : Playlist :=
  (start (openedCache CACHE_DIR (ctime front - 1)) now.time).scan now

/-- A queued song is not older than the front, so it lies above the time that is loaded. -/
theorem queued_restarted (hgood : Good (Directory.slashed CACHE_DIR) s) (hknown : Known ctimes s)
    (hnow : now.Fixed ctimes) (hl : s.dir.list = front :: rest) {f : File} (hf : f ∈ s.dir.list)
    (hholds : now.Holds f.name) : f.name ∈ (restarted now front).dir.list.map File.name := by
  obtain ⟨n, hn, hname, hreg⟩ := hholds
  obtain ⟨st, hst⟩ := Option.isSome_iff_exists.mp hreg
  obtain ⟨hmp3, hctime⟩ := hknown f (List.mem_append_right _ hf)
  have hc : st.st_ctime = ctime f := by
    rw [hctime, hname]
    exact hnow n hn st (hname ▸ stat_of_regular hst)
  have hnew : newSong now.stat (ctime front - 1) f.name = some (f.name, st) := by
    refine newSong_eq_some.mpr ⟨rfl, hst, ?_, hmp3⟩
    have := hgood.front_le hl f hf
    show ctime front - 1 < st.st_ctime
    omega
  refine Directory.path_mem_scanned.mpr (.inr ⟨n, hn, hname, ?_⟩)
  show (newSong now.stat (ctime front - 1) f.name).isSome
  rw [hnew]
  rfl

/-- A song that had been taken is not newer than the front, and a song on the new list not older. -/
theorem taken_restarted (hdir : CACHE_DIR ≠ []) (hgood : Good (Directory.slashed CACHE_DIR) s)
    (hknown : Known ctimes s) (hnow : now.Fixed ctimes) (hl : s.dir.list = front :: rest) {g : File}
    (hg : g ∈ (restarted now front).dir.list) (htaken : g.name ∈ s.returned.map File.name) :
    ctime g = ctime front := by
  obtain ⟨f, hf, hname⟩ := List.mem_map.mp htaken
  have hfront : front ∈ s.dir.list := hl ▸ List.mem_cons_self
  have hfound := (mem_list_scan.mp hg).resolve_left List.not_mem_nil
  obtain ⟨-, hc, hge⟩ := mem_numbered_found (reads_openedCache hdir _) hnow hfound
  have hfg : ctime f = ctime g := by
    rw [(hknown f (List.mem_append_left _ hf)).2, hname, hc]
  have hle : ctime f ≤ ctime front := hgood.ordered.taken_le_queue hf hfront
  change ctime front - 1 < ctime g at hge
  omega

end Restart

/-- **What a restart keeps.** After `savestate`, `loadstate` and the first `Update`, every queued
song that the directory holds is on the new list, the list is sorted by ctime, and every other song
on it that had been taken is as old as the oldest queued one. -/
theorem restart_keeps {CACHE_DIR : Str} (hdir : CACHE_DIR ≠ []) {u clock : Int} {s : Playlist}
    {ops : List (Op (Directory.slashed CACHE_DIR))}
    (hrun : Machine.run step (start (openedCache CACHE_DIR u) clock) ops = some s)
    {ctimes : Str → Int} (hfixed : ∀ op ∈ ops, ∀ o, op.snapshot = some o → o.Fixed ctimes)
    {now : Snapshot (Directory.slashed CACHE_DIR)} (hnow : now.Fixed ctimes)
    (hqueued : s.dir.list ≠ []) (mem : Bool) :
    ∃ upd d', savestate s.dir now.stat = .ok upd ∧
      firstUpdate (some upd) CACHE_DIR mem now.os = .ok d' ∧
      (∃ f ∈ s.dir.list, f.stat_buf.st_ctime = upd) ∧
      (∀ f ∈ s.dir.list, upd ≤ f.stat_buf.st_ctime) ∧
      (∀ f ∈ s.dir.list, now.Holds f.name → f.name ∈ d'.list.map File.name) ∧
      d'.list.Pairwise (fun f g => f.stat_buf.st_ctime ≤ g.stat_buf.st_ctime) ∧
      ∀ g ∈ d'.list, g.name ∈ s.returned.map File.name → g.stat_buf.st_ctime = upd := by
  have hstart := good_start (reads_openedCache hdir u) clock
  have hgood := good_of_run hstart hrun
  have hknown := known_of_run hstart nofun hfixed hrun
  obtain ⟨front, rest, hl⟩ := List.exists_cons_of_ne_nil hqueued
  have hfront : front ∈ s.dir.list := hl ▸ List.mem_cons_self
  have hnew := good_start (reads_openedCache hdir (ctime front - 1)) now.time
  refine ⟨ctime front, (restarted now front).dir, ?_, ?_, ⟨front, hfront, rfl⟩, hgood.front_le hl,
    fun f hf hholds => queued_restarted hgood hknown hnow hl hf hholds,
    (hnew.scan le_rfl).ordered.queue_sorted,
    fun g hg htaken => taken_restarted hdir hgood hknown hnow hl hg htaken⟩
  · rw [savestate, Directory.getNextTimestamp, hl]
    exact congrArg Except.ok (File.getCtime_of_valid (hgood.valid front hfront))
  · rw [firstUpdate, loadstate, setDirname_newCache hdir]
    exact update_eq hnew.reads now

def twoCtimes (path : Str) : Int := if path = "/q/b.mp3".toList then 5 else 3

theorem twoSongs_fixed : twoSongs.Fixed twoCtimes := by
  intro n _ st h
  unfold twoCtimes
  change (if "/q/".toList ++ n = "/q/b.mp3".toList then some (Stat.mk false 5)
    else some (Stat.mk false 3)) = some st at h
  split at h <;> cases h
  · next he => rw [if_pos he]
  · next he => rw [if_neg he]

/-- One of two songs is taken before the restart, the other is on the new list. -/
theorem restart_keeps_twoSongs : ∃ s upd d',
    Machine.run step (start (openedCache "/q/".toList 0) 0) [.call (.getSong 0) twoSongs] = some s ∧
      savestate s.dir twoSongs.stat = .ok upd ∧
      firstUpdate (some upd) "/q/".toList false twoSongs.os = .ok d' ∧
      "/q/b.mp3".toList ∈ d'.list.map File.name := by
  obtain ⟨upd, d', hsave, hfirst, -, -, hqueued, -⟩ :=
    @restart_keeps "/q/".toList (by decide) 0 0 _ [.call (.getSong 0) twoSongs] rfl twoCtimes
      (by
        intro op hop o ho
        cases List.mem_singleton.mp hop
        cases ho
        exact twoSongs_fixed)
      twoSongs twoSongs_fixed (by decide) false
  refine ⟨_, upd, d', rfl, hsave, hfirst, hqueued ⟨0, "/q/b.mp3".toList, ⟨false, 5⟩, true⟩
    (by decide) ⟨"b.mp3".toList, by decide, rfl, rfl⟩⟩

end NetDJ.Daemon
