import NetDJ.Daemon.Pages

/-!
# `main.cc`: what the player removes

The player calls `Delete` on the files of songs that it has taken from the request list, or from the
cache list while `DELETE_PLAYED` was set.

* `firstSong_keeps` : what each list keeps, the loop over the lists keeps;
* `Player.Event`, `Player.next` : rounds and moves, and players that end and are started again;
* `Player.Listed` : a round has found a song in the directory of a list;
* `Player.Handed` : a round has taken a song from a list;
* `Player.Known.next`, `Player.known_of_run` : each song on a list has been listed, and each turn
  that is to be deleted is one of these songs, taken from the first list or the second;
* `Player.deleted_listed` : so is each file on which `Delete` is called.
-/

namespace NetDJ.Daemon

theorem Directory.update_dirname {d d' : Directory} {os : Os} (h : d.update os = .ok d')
    (hmode : d.fromfile = false) : d'.dirname = d.dirname ∧ d'.fromfile = false := by
  by_cases hdir : d.dirname = []
  · obtain rfl := Except.ok.inj ((update_no_dir hmode hdir).symm.trans h)
    exact ⟨rfl, hmode⟩
  · obtain ⟨names, -, -, rfl⟩ := (update_dir_iff hmode hdir).mp h
    unfold endScan push
    split
    · exact ⟨rfl, hmode⟩
    · exact ⟨rfl, hmode⟩

/-- What `GetSong` keeps of each list, and gives of the songs it hands out, the loop over the lists
keeps and gives. -/
theorem firstSong_keeps {oss : Nat → Os × Nat} {I : Nat → Directory → Prop} {P : Nat → File → Prop}
    (hsong : ∀ k d e song, I k d → d.getSong (oss k).1 (oss k).2 = .ok (e, song) →
      I k e ∧ ∀ f ∈ song, P k f) {i : Nat} {lists lists' : List Directory}
    {res : Option (File × Nat)} (hl : ∀ k d, lists[k]? = some d → I (i + k) d)
    (h : firstSong oss i lists = .ok (lists', res)) :
    (∀ k d, lists'[k]? = some d → I (i + k) d) ∧ ∀ f j, res = some (f, j) → P j f := by
  induction lists generalizing i lists' res with
  | nil =>
    cases h
    exact ⟨hl, nofun⟩
  | cons d lists ih =>
    have hrest : ∀ k d, lists[k]? = some d → I (i + 1 + k) d := by
      intro k d hd
      rw [Nat.add_assoc, Nat.add_comm 1]
      exact hl (k + 1) d hd
    have hcons : ∀ e (ls : List Directory), I i e →
        (∀ k d, ls[k]? = some d → I (i + 1 + k) d) →
        ∀ k d, (e :: ls)[k]? = some d → I (i + k) d := by
      intro e ls he hls k d hd
      cases k with
      | zero =>
        obtain rfl := Option.some.inj hd
        exact he
      | succ k =>
        have := hls k d hd
        rwa [Nat.add_assoc, Nat.add_comm 1] at this
    cases hg : d.getSong (oss i).1 (oss i).2 with
    | error a =>
      rw [firstSong, hg] at h
      cases h
    | ok r =>
      obtain ⟨e, song⟩ := r
      obtain ⟨he, hP⟩ := hsong i d e song (hl 0 d rfl) hg
      cases song with
      | some f =>
        rw [firstSong_song hg] at h
        cases h
        refine ⟨hcons e lists he hrest, fun g j hg => ?_⟩
        cases hg
        exact hP f rfl
      | none =>
        rw [firstSong, hg] at h
        obtain ⟨⟨lists₁, res₁⟩, hfirst, he'⟩ := map_eq_ok.mp h
        obtain ⟨rfl, rfl⟩ := Prod.mk.inj he'
        obtain ⟨hlists, hres⟩ := ih hrest hfirst
        exact ⟨hcons e lists₁ he hlists, hres⟩

namespace Player

/-- Rounds and renames, and the end of the thread; the next one goes on with the same lists. -/
inductive Event where
  | act (a : Act)
  /-- `currentsong.Clear()` behind the main loop. -/
  | leave (memory : File)

def next (s : Player) : Event → Option Player
  | .act a => s.step a
  | .leave memory => some (s.call (.clear memory))

/-- A round has found the song `path` in the directory of list `k`. -/
def Listed (events : List Event) (k : Nat) (dirname path : Str) : Prop :=
  ∃ r, .act (.round r) ∈ events ∧ ∃ names, (r.lists k).1.readdir = some names ∧
    ∃ n ∈ names, path = dirname ++ n ∧ (regular (r.lists k).1.stat path).isSome ∧
      hasMp3Ending path = true

/-- The round `r` of the run from `s₀` has taken a song with this path from list `k`. -/
def Handed (s₀ : Player) (events : List Event) (r : Round) (k : Nat) (path : Str) : Prop :=
  ∃ s, Machine.Takes next s₀ events s (.act (.round r)) ∧ ∃ lists song,
    firstSong r.lists 0 s.lists = .ok (lists, some (song, k)) ∧ song.name = path

/-- What may be deleted: a song that a round has taken from the request list, or from the cache list
with `DELETE_PLAYED` set, and that has been found in the directory of the list. -/
def Deletable (s₀ : Player) (events : List Event) (request cache path : Str) : Prop :=
  ∃ r, Handed s₀ events r 0 path ∧ Listed events 0 request path ∨
    Handed s₀ events r 1 path ∧ r.DELETE_PLAYED = true ∧ Listed events 1 cache path

section Known
variable {s₀ : Player} {events : List Event} {request cache : Str}

theorem Listed.append {k : Nat} {dirname path : Str} (h : Listed events k dirname path)
    (e : Event) : Listed (events ++ [e]) k dirname path := by
  obtain ⟨r, hr, names, hnames⟩ := h
  exact ⟨r, List.mem_append_left _ hr, names, hnames⟩

theorem Handed.append {r : Round} {k : Nat} {path : Str} (h : Handed s₀ events r k path)
    (e : Event) : Handed s₀ (events ++ [e]) r k path := by
  obtain ⟨s, hs, hfirst⟩ := h
  exact ⟨s, hs.append [e], hfirst⟩

theorem Deletable.append {path : Str} (h : Deletable s₀ events request cache path) (e : Event) :
    Deletable s₀ (events ++ [e]) request cache path := by
  obtain ⟨r, ⟨hr, h⟩ | ⟨hr, hplayed, h⟩⟩ := h
  · exact ⟨r, .inl ⟨hr.append e, h.append e⟩⟩
  · exact ⟨r, .inr ⟨hr.append e, hplayed, h.append e⟩⟩

/-- The song has been listed by list `k`, if that is the request list or the cache. -/
def Origin (events : List Event) (request cache : Str) (k : Nat) (f : File) : Prop :=
  ∀ dirname, [request, cache][k]? = some dirname → Listed events k dirname f.name

/-- List `k` reads its directory, if it is the request list or the cache, and its songs have been
listed. -/
structure Source (events : List Event) (request cache : Str) (k : Nat) (d : Directory) : Prop where
  dirname : ∀ dirname, [request, cache][k]? = some dirname →
    d.dirname = dirname ∧ d.fromfile = false
  list : ∀ f ∈ d.list, Origin events request cache k f

theorem Origin.append {k : Nat} {f : File} (h : Origin events request cache k f) (e : Event) :
    Origin (events ++ [e]) request cache k f :=
  fun dirname hdir => (h dirname hdir).append e

theorem listed_of_fresh {r : Round} (hr : .act (.round r) ∈ events) {k : Nat} {d : Directory}
    (hmode : d.fromfile = false) {x : Str × Stat} (hx : x ∈ d.fresh (r.lists k).1) :
    Listed events k d.dirname x.1 := by
  unfold Directory.fresh at hx
  rw [hmode, if_neg Bool.false_ne_true] at hx
  split at hx
  · cases hx
  · obtain ⟨n, hn, hnew⟩ := List.mem_filterMap.mp hx
    obtain ⟨hpath, hreg, -, hmp3⟩ := newSong_eq_some.mp hnew
    cases hopen : (r.lists k).1.readdir with
    | none =>
      rw [hopen] at hn
      cases hn
    | some names =>
      rw [hopen] at hn
      rw [← hpath] at hreg hmp3
      exact ⟨r, hr, names, hopen, n, hn, hpath, by rw [hreg]; rfl, hmp3⟩

/-- A call of `GetSong` in a round keeps the source of a list, and so has the song that it
returns. -/
theorem Source.getSong {r : Round} (hr : .act (.round r) ∈ events) {k : Nat} {d e : Directory}
    {song : Option File} (hd : Source events request cache k d)
    (h : d.getSong (r.lists k).1 (r.lists k).2 = .ok (e, song)) :
    Source events request cache k e ∧ ∀ f ∈ song, Origin events request cache k f := by
  obtain ⟨d', hupd, hres⟩ := Directory.of_getSong h
  have hd' : Source events request cache k d' := by
    refine ⟨fun dirname hdir => ?_, fun f hf dirname hdir => ?_⟩
    · obtain ⟨hname, hmode⟩ := hd.dirname dirname hdir
      rw [← hname]
      exact Directory.update_dirname hupd hmode
    · obtain ⟨hname, hmode⟩ := hd.dirname dirname hdir
      obtain ⟨-, -, hlist, -⟩ := Directory.of_update hupd
      rw [hlist] at hf
      rcases Directory.mem_listed hf with hf | hf
      · exact hd.list f hf dirname hdir
      · have hfresh : (f.name, f.stat_buf) ∈ d.fresh (r.lists k).1 := by
          rw [← map_numbered d.nextfileid (d.fresh (r.lists k).1)]
          exact List.mem_map_of_mem hf
        rw [← hname]
        exact listed_of_fresh hr hmode hfresh
  obtain ⟨-, rfl, rfl⟩ | ⟨song, rfl, ⟨-, rest, hl, rfl⟩ | ⟨-, hpick, rfl⟩⟩ := hres
  · exact ⟨hd', nofun⟩
  · refine ⟨⟨hd'.dirname, fun f hf => hd'.list f ?_⟩, fun f hf => hd'.list f ?_⟩
    · rw [hl]
      exact List.mem_cons_of_mem song hf
    · obtain rfl := Option.some.inj hf
      rw [hl]
      exact List.mem_cons_self
  · refine ⟨hd', fun f hf => ?_⟩
    obtain rfl := Option.some.inj hf
    exact hd'.list song (List.mem_of_getElem? hpick)

/-- The lists have their sources, and each turn that is to be deleted may be. -/
structure Known (s₀ : Player) (events : List Event) (request cache : Str) (s : Player) : Prop where
  lists : ∀ k d, s.lists[k]? = some d → Source events request cache k d
  flagged : ∀ t ∈ turns s.calls, t.flag = true → Deletable s₀ events request cache t.name

theorem Known.append {s : Player} (hs : Known s₀ events request cache s) (e : Event) :
    Known s₀ (events ++ [e]) request cache s := by
  refine ⟨fun k d hd => ?_, fun t ht hflag => (hs.flagged t ht hflag).append e⟩
  have hsource := hs.lists k d hd
  exact ⟨hsource.dirname, fun f hf => (hsource.list f hf).append e⟩

theorem turns_call (s : Player) (c : SongCall) : turns (s.call c).calls = turn (turns s.calls) c :=
  List.foldl_append

/-- A call whose new turn may be deleted if its flag says so. -/
theorem Known.call {s : Player} (hs : Known s₀ events request cache s) {c : SongCall}
    (hset : ∀ fil, c = .set fil true → Deletable s₀ events request cache fil.name)
    (hrename : ∀ newpath renamed, c ≠ .renameCurrent newpath true renamed) :
    Known s₀ events request cache (s.call c) := by
  refine ⟨hs.lists, fun t ht hflag => ?_⟩
  rw [turns_call] at ht
  cases c with
  | set fil del =>
    rcases List.mem_cons.mp ht with rfl | ht
    · obtain rfl : del = true := hflag
      exact hset fil rfl
    · exact hs.flagged t ht hflag
  | clear memory =>
    rcases List.mem_cons.mp ht with rfl | ht
    · cases hflag
    · exact hs.flagged t ht hflag
  | renameCurrent newpath del renamed =>
    cases hts : turns s.calls with
    | nil =>
      rw [hts] at ht
      cases ht
    | cons u rest =>
      have hrest : ∀ v ∈ u :: rest, v.flag = true → Deletable s₀ events request cache v.name := by
        rw [← hts]
        exact hs.flagged
      rw [hts] at ht
      unfold turn at ht
      dsimp only at ht
      split at ht
      · rcases List.mem_cons.mp ht with rfl | ht
        · obtain rfl : del = true := hflag
          exact absurd rfl (hrename newpath renamed)
        · exact hrest t (List.mem_cons_of_mem u ht) hflag
      · exact hrest t ht hflag

/-- The `switch` sets the flag of a request, and of a song of the cache if `DELETE_PLAYED` does. -/
theorem deletable_of_deleteIt {r : Round} {k : Nat} {f : File}
    (hr : Handed s₀ events r k f.name) (hf : Origin events request cache k f)
    (h : deleteIt r.DELETE_PLAYED k = true) : Deletable s₀ events request cache f.name := by
  unfold deleteIt at h
  split at h
  · exact ⟨r, .inl ⟨hr, hf request rfl⟩⟩
  · exact ⟨r, .inr ⟨hr, h, hf cache rfl⟩⟩
  · cases h

theorem Known.round {s s' : Player} {r : Round} {out : Outcome}
    (hr : Machine.Takes next s₀ events s (.act (.round r)))
    (hs : Known s₀ events request cache s) (h : s.round r = .ok (s', out)) :
    Known s₀ events request cache s' := by
  have hfirst : ∀ lists res, firstSong r.lists 0 s.lists = .ok (lists, res) →
      Known s₀ events request cache { s with lists := lists } ∧
        ∀ f j, res = some (f, j) → Origin events request cache j f := by
    intro lists res hfirst
    obtain ⟨hlists, hres⟩ := firstSong_keeps (I := Source events request cache)
      (fun k d e song hd hg => hd.getSong hr.mem hg)
      (fun k d hd => by rw [Nat.zero_add]; exact hs.lists k d hd) hfirst
    refine ⟨⟨fun k d hd => ?_, hs.flagged⟩, hres⟩
    have := hlists k d hd
    rwa [Nat.zero_add] at this
  unfold Player.round at h
  split at h
  · cases h
  · next lists hlists =>
    cases h
    exact (hfirst lists none hlists).1.call nofun nofun
  · next lists song k hlists =>
    obtain ⟨hknown, hsong⟩ := hfirst lists _ hlists
    dsimp only at h
    split at h
    · cases h
      refine hknown.call (fun fil hfil => ?_) nofun
      obtain ⟨hfile, hdel⟩ := SongCall.set.inj hfil
      rw [← hfile, File.exists_, (File.updateStat_eq song).1]
      exact deletable_of_deleteIt ⟨s, hr, _, song, hlists, rfl⟩ (hsong song k rfl) hdel
    · cases h
      exact hknown

theorem Known.next {s s' : Player} {e : Event} (hrun : Machine.run next s₀ events = some s)
    (hs : Known s₀ events request cache s)
    (hmove : ∀ newpath renamed, e ≠ .act (.rename newpath true renamed))
    (h : s.next e = some s') : Known s₀ (events ++ [e]) request cache s' := by
  have hs := hs.append e
  cases e with
  | leave memory =>
    cases h
    exact hs.call nofun nofun
  | act a =>
    cases a with
    | rename newpath del renamed =>
      cases h
      refine hs.call nofun fun newpath' renamed' he => ?_
      cases he
      exact hmove newpath renamed rfl
    | round r =>
      obtain ⟨⟨t, out⟩, hr, rfl⟩ := Option.map_eq_some_iff.mp h
      exact hs.round (Machine.takes_snoc.mpr (.inr ⟨hrun, rfl⟩)) (toOption_eq_some.mp hr)

theorem known_of_run {s' : Player} (hs : Known s₀ [] request cache s₀)
    (hmove : ∀ newpath renamed, .act (.rename newpath true renamed) ∉ events)
    (h : Machine.run next s₀ events = some s') : Known s₀ events request cache s' := by
  refine Machine.run_induction (P := fun events s => (∀ newpath renamed,
    Event.act (.rename newpath true renamed) ∉ events) → Known s₀ events request cache s)
      (fun _ => hs) ?_ events s' h hmove
  intro before t e t' hrun hknown hstep hnone
  have hbefore : ∀ newpath renamed, Event.act (.rename newpath true renamed) ∉ before :=
    fun newpath renamed hmem => hnone newpath renamed (List.mem_append_left _ hmem)
  refine (hknown hbefore).next hrun (fun newpath renamed he => ?_) hstep
  exact hnone newpath renamed (List.mem_append_right _ (List.mem_singleton.mpr he.symm))

end Known

theorem follows_next {memory : File} {s s' : Player} {e : Event} (hs : Follows memory s)
    (h : s.next e = some s') : Follows memory s' := by
  cases e with
  | act a => exact hs.step h
  | leave m =>
    cases h
    exact hs.call _

theorem source_setDirname {d d' : Directory} {dirname request cache : Str} {k : Nat}
    (hdirname : [request, cache][k]? = some (Directory.slashed dirname)) (hlist : d.list = [])
    (h : d.setDirname dirname false = .ok d') : Source [] request cache k d' := by
  unfold Directory.setDirname at h
  dsimp only at h
  rw [if_neg Bool.false_ne_true] at h
  split at h
  · cases h
  · cases h
    refine ⟨fun name hname => ?_, fun f hf => ?_⟩
    · rw [hdirname] at hname
      exact ⟨Option.some.inj hname, rfl⟩
    · change f ∈ d.list at hf
      rw [hlist] at hf
      cases hf

theorem known_start {c : Setup} {mem : Bool} {memory : File} {request cache share : Directory}
    (h : Web.openLists c mem = .ok [request, cache, share]) :
    Known (start request cache share memory) [] (Directory.slashed c.REQUEST_DIR)
      (Directory.slashed c.CACHE_DIR) (start request cache share memory) := by
  obtain ⟨q, hq, h⟩ := bind_eq_ok.mp h
  obtain ⟨d, hd, h⟩ := bind_eq_ok.mp h
  obtain ⟨e, -, h⟩ := bind_eq_ok.mp h
  obtain ⟨rfl, rfl, rfl⟩ : q = request ∧ d = cache ∧ e = share := by
    simpa using Except.ok.inj h
  refine ⟨fun k dir hdir => ?_, nofun⟩
  have hcache := (@Web.loadstate_empty (newCache mem) c.state).2
  match k with
  | 0 =>
    obtain rfl := Option.some.inj hdir
    exact source_setDirname rfl rfl hq
  | 1 =>
    obtain rfl := Option.some.inj hdir
    exact source_setDirname rfl hcache hd
  | k + 2 => exact ⟨nofun, fun f _ => nofun⟩

/-- **The player calls `Delete` on none but the files of songs that it has found in the request
directory and taken from that list, or in the cache directory and taken from that list in a round
with `DELETE_PLAYED` set.** `com_move` renames with a false flag. -/
theorem deleted_listed {c : Setup} {mem : Bool} {memory : File} {request cache share : Directory}
    {events : List Event} {s : Player}
    (hlists : Web.openLists c mem = .ok [request, cache, share])
    (hmove : ∀ newpath renamed, .act (.rename newpath true renamed) ∉ events)
    (h : Machine.run next (start request cache share memory) events = some s) :
    ∀ f ∈ s.current.deleted, Deletable (start request cache share memory) events
      (Directory.slashed c.REQUEST_DIR) (Directory.slashed c.CACHE_DIR) f.name := by
  intro f hf
  have hknown := known_of_run (known_start hlists) hmove h
  have hfollows : Follows memory s := Machine.run_keeps
    (fun t e t' ht hstep => follows_next ht hstep) (rfl : Follows memory (start _ _ _ _)) h
  have hdeleted := (tracks_runCalls memory s.calls).deleted
  rw [← hfollows] at hdeleted
  have hname : f.name ∈ s.current.deleted.map File.name := List.mem_map_of_mem hf
  rw [hdeleted] at hname
  obtain ⟨t, ht, hname⟩ := List.mem_map.mp hname
  obtain ⟨hturn, hflag⟩ := List.mem_filter.mp (List.mem_reverse.mp ht)
  rw [← hname]
  exact hknown.flagged t (List.mem_of_mem_drop hturn) hflag

def twoSongs : List Event :=
  [.act (.round (requests ["a.mp3".toList] 1 2 1)),
    .act (.round (requests ["a.mp3".toList, "b.mp3".toList] 1 2 2)),
    .act (.round (requests [] 1 2 3))]

/-- The first song is deleted when the second one has been played. -/
theorem deleted_listed_twoSongs : ∃ request cache share s,
    Web.openLists Web.quiet false = .ok [request, cache, share] ∧
    Machine.run next (start request cache share (Web.holding 0)) twoSongs = some s ∧
    s.current.deleted.map File.name = ["/q/a.mp3".toList] ∧
    ∀ f ∈ s.current.deleted, Deletable (start request cache share (Web.holding 0)) twoSongs
      "/q/".toList "/c/".toList f.name :=
  ⟨_, _, _, _, rfl, rfl, rfl,
    @deleted_listed Web.quiet false _ _ _ _ _ _ rfl (by simp [twoSongs]) rfl⟩

end Player

end NetDJ.Daemon
