import NetDJ.Lib.Lists
import NetDJ.Daemon.Playlist

/-!
# Files that arrive in a playlist directory

Time passes and files arrive at any moment, also while a scan is under way: a call looks at the
directory when it begins, and reads the clock when it ends.

* `Arrivals.step` : the clock, arrivals, and the two ends of a call;
* `Arrivals.Ok`, `Arrivals.ok_of_run` : what no scan has looked at has no entry;
* `Arrivals.listed_iff` : when the next call puts a file on the list.
-/

namespace NetDJ.Daemon

structure Entry where
  d_name : Str
  stat : Stat
  deriving DecidableEq

/-- `stat` on the entries of a directory. -/
def lookup (dirname : Str) (entries : List Entry) (path : Str) : Option Stat :=
  (entries.find? fun e => dirname ++ e.d_name = path).map (·.stat)

/-- What a call under way has looked at: the entries in the order in which `readdir` lists them, and
those among them that arrived since the scan before. -/
structure Look where
  order : List Entry
  arrived : List Entry

structure Arrivals where
  dir : Directory
  clock : Int
  files : List Entry
  /-- What arrived since the last scan began. -/
  pending : List Entry
  scanning : Option Look
  returned : List File

namespace Arrivals

inductive Act where
  | tick (secs : Nat)
  | arrive (e : Entry)
  | beginScan (order : List Entry)
  | endScan (c : Call) (sort : Sorter) (memory : File)

def os (s : Arrivals) (look : Look) (sort : Sorter) (memory : File) : Os :=
  ⟨some (look.order.map (·.d_name)), lookup s.dir.dirname look.order, none, s.clock, sort, memory⟩

def step (s : Arrivals) : Act → Option Arrivals
  | .tick secs => some { s with clock := s.clock + secs }
  | .arrive e =>
    if e.stat.st_ctime = s.clock ∧ e.d_name ∉ s.files.map (·.d_name) then
      some { s with files := e :: s.files, pending := e :: s.pending }
    else none
  | .beginScan order =>
    if s.scanning.isNone ∧ order.Perm s.files then
      some { s with pending := [], scanning := some ⟨order, s.pending⟩ }
    else none
  | .endScan c sort memory =>
    match s.scanning with
    | none => none
    | some look =>
      match c.run s.dir (s.os look sort memory) with
      | .ok (d, song) =>
        some { s with dir := d, scanning := none, returned := s.returned ++ song.toList }
      | .error _ => none

def start (d : Directory) (clock : Int) : Arrivals :=
  ⟨{ d with list := [], nextfileid := 0 }, clock, [], [], none, []⟩

def paths (s : Arrivals) : List Str := (s.returned ++ s.dir.list).map File.name

/-- What arrived since the last scan that has ended. -/
def waiting (s : Arrivals) : List Entry :=
  s.pending ++ (s.scanning.map (·.arrived)).getD []

/-! ## What arrived has no entry yet -/

/-- The call under way has looked at files, and not at what arrived after it began. -/
structure LookOk (s : Arrivals) (look : Look) : Prop where
  order : look.order ⊆ s.files
  once : (look.order.map (·.d_name)).Nodup
  arrived : look.arrived ⊆ look.order
  later : ∀ e ∈ s.pending, e.d_name ∉ look.order.map (·.d_name)

structure Ok (dirname : Str) (s : Arrivals) : Prop where
  reads : Playlist.Reads dirname s.dir
  once : (s.files.map (·.d_name)).Nodup
  waiting : s.waiting ⊆ s.files
  look : ∀ look, s.scanning = some look → LookOk s look
  known : ∀ path ∈ s.paths, ∃ e ∈ s.files, path = dirname ++ e.d_name
  fresh : ∀ e ∈ s.waiting, dirname ++ e.d_name ∉ s.paths

variable {dirname : Str}

theorem ok_start {d : Directory} (hd : Playlist.Reads dirname d) (clock : Int) :
    Ok dirname (start d clock) :=
  ⟨hd.changed _ _ _, List.nodup_nil, nofun, nofun, nofun,
    nofun⟩

/-- A call that ends adds the new songs to the entries, and leaves the mode of the directory. -/
theorem Ok.endScan {s t : Arrivals} (hs : Ok dirname s) {look : Look}
    (hl : s.scanning = some look) {c : Call} {sort : Sorter} {memory : File}
    (h : s.step (.endScan c sort memory) = some t) :
    Playlist.Reads dirname t.dir ∧ t.files = s.files ∧ t.pending = s.pending ∧
      t.scanning = none ∧ ∀ path, path ∈ t.paths ↔ path ∈ s.paths ∨
        ∃ e ∈ look.order, path = dirname ++ e.d_name ∧
          (newSong (lookup dirname look.order) s.dir.lastupdate path).isSome := by
  have hdir := hs.reads.dirname_eq
  have hne : s.dir.dirname ≠ [] := hdir ▸ hs.reads.dirname_ne
  rw [step, hl] at h
  dsimp only at h
  cases hrun : c.run s.dir (s.os look sort memory) with
  | error a =>
    rw [hrun] at h
    cases h
  | ok r =>
    rw [hrun] at h
    cases h
    obtain ⟨d', hu⟩ := Call.update_of_run hrun
    have hlong := Directory.long_of_update hs.reads.fromfile hne rfl hu
    have hup := Directory.update_playlist hs.reads.playlist hs.reads.fromfile hne rfl hlong
    obtain ⟨song, rest, hrest, hr⟩ := c.run_eq (hs.reads.scanned _ _).playlist hup
    rw [hrun] at hr
    cases hr
    refine ⟨hs.reads.changed _ _ _, rfl, rfl, rfl, ?_⟩
    intro path
    show path ∈ ((s.returned ++ song.toList) ++ rest).map File.name ↔ _
    rw [List.append_assoc, hrest, List.map_append, List.mem_append, Directory.path_mem_scanned,
      ← or_assoc, ← List.mem_append, ← List.map_append]
    refine or_congr_right ?_
    rw [← hdir]
    constructor
    · rintro ⟨n, hn, hpath, hnew⟩
      obtain ⟨e, he, rfl⟩ := List.mem_map.mp hn
      exact ⟨e, he, hpath, hnew⟩
    · rintro ⟨e, he, hpath, hnew⟩
      exact ⟨e.d_name, List.mem_map_of_mem he, hpath, hnew⟩

theorem waiting_of_none {s : Arrivals} (h : s.scanning = none) : s.waiting = s.pending := by
  unfold waiting
  rw [h]
  exact List.append_nil _

theorem Ok.arrive {s : Arrivals} (hs : Ok dirname s) {e : Entry}
    (he : e.d_name ∉ s.files.map (·.d_name)) :
    Ok dirname { s with files := e :: s.files, pending := e :: s.pending } := by
  refine ⟨hs.reads, List.nodup_cons.mpr ⟨he, hs.once⟩, List.cons_subset_cons e hs.waiting,
    fun look hl => ?_, fun path hp => ?_, fun x hx hp => ?_⟩
  · have hlook := hs.look look hl
    refine ⟨List.subset_cons_of_subset e hlook.order, hlook.once, hlook.arrived, ?_⟩
    exact List.forall_mem_cons.mpr
      ⟨fun hx => he (List.map_subset _ hlook.order hx), hlook.later⟩
  · obtain ⟨x, hx, hpath⟩ := hs.known path hp
    exact ⟨x, List.mem_cons_of_mem e hx, hpath⟩
  · rcases List.mem_cons.mp hx with rfl | hx
    · obtain ⟨y, hy, hpath⟩ := hs.known _ hp
      exact he (List.mem_map.mpr ⟨y, hy, (List.append_cancel_left hpath).symm⟩)
    · exact hs.fresh x hx hp

theorem Ok.beginScan {s : Arrivals} (hs : Ok dirname s) {order : List Entry}
    (hnone : s.scanning = none) (ho : order.Perm s.files) :
    Ok dirname { s with pending := [], scanning := some ⟨order, s.pending⟩ } := by
  have hwait := waiting_of_none hnone
  refine ⟨hs.reads, hs.once, hwait ▸ hs.waiting, ?_, hs.known, hwait ▸ hs.fresh⟩
  rintro look ⟨⟩
  refine ⟨ho.subset, (ho.map _).nodup_iff.mpr hs.once, fun e he => ?_, nofun⟩
  exact ho.mem_iff.mpr (hs.waiting (hwait ▸ he))

/-- What a call that ends leaves waiting is what arrived after it began. -/
theorem Ok.endScan_ok {s t : Arrivals} (hs : Ok dirname s) {look : Look}
    (hl : s.scanning = some look) {c : Call} {sort : Sorter} {memory : File}
    (h : s.step (.endScan c sort memory) = some t) : Ok dirname t := by
  obtain ⟨hreads, hfiles, hpending, hnone, hpaths⟩ := hs.endScan hl h
  have hlook := hs.look look hl
  have hwait : t.waiting = s.pending := (waiting_of_none hnone).trans hpending
  have hsub : s.pending ⊆ s.waiting := List.subset_append_left _ _
  refine ⟨hreads, hfiles ▸ hs.once, ?_, fun _ hl' => ?_, fun path hp => ?_, fun e he hp => ?_⟩
  · rw [hwait, hfiles]
    exact List.Subset.trans hsub hs.waiting
  · rw [hnone] at hl'
    cases hl'
  · rw [hfiles]
    rcases (hpaths path).mp hp with hp | ⟨e, he, hpath, -⟩
    · exact hs.known path hp
    · exact ⟨e, hlook.order he, hpath⟩
  · rw [hwait] at he
    rcases (hpaths _).mp hp with hp | ⟨x, hx, hpath, -⟩
    · exact hs.fresh e (hsub he) hp
    · refine hlook.later e he (List.mem_map.mpr ⟨x, hx, ?_⟩)
      exact (List.append_cancel_left hpath).symm

theorem Ok.step {s t : Arrivals} {a : Act} (hs : Ok dirname s) (h : s.step a = some t) :
    Ok dirname t := by
  cases a with
  | tick secs =>
    cases h
    refine ⟨hs.reads, hs.once, hs.waiting, fun look hl => ?_, hs.known, hs.fresh⟩
    obtain ⟨h₁, h₂, h₃, h₄⟩ := hs.look look hl
    exact ⟨h₁, h₂, h₃, h₄⟩
  | arrive e =>
    rw [Arrivals.step] at h
    split at h
    · next he =>
      cases h
      exact hs.arrive he.2
    · cases h
  | beginScan order =>
    rw [Arrivals.step] at h
    split at h
    · next ho =>
      cases h
      exact hs.beginScan (Option.isNone_iff_eq_none.mp ho.1) ho.2
    · cases h
  | endScan c sort memory =>
    cases hl : s.scanning with
    | none =>
      rw [Arrivals.step, hl] at h
      cases h
    | some look => exact hs.endScan_ok hl h

theorem ok_of_run {s t : Arrivals} {acts : List Act} (hs : Ok dirname s)
    (h : Machine.run step s acts = some t) : Ok dirname t :=
  Machine.run_keeps (fun _ _ _ ht hstep => ht.step hstep) hs h

/-! ## What the next call lists -/

theorem LookOk.lookup_eq {s : Arrivals} {look : Look} (hl : LookOk s look) {e : Entry}
    (he : e ∈ look.order) : lookup dirname look.order (dirname ++ e.d_name) = some e.stat := by
  have once : (look.order.map fun e => dirname ++ e.d_name).Nodup := by
    have h := hl.once.map (List.append_right_injective dirname)
    rwa [List.map_map] at h
  rw [lookup, find?_key once he]
  rfl

theorem regular_lookup (hne : dirname ≠ []) {s : Arrivals} {look : Look} (hl : LookOk s look)
    {e : Entry} (he : e ∈ look.order) {st : Stat} :
    regular (lookup dirname look.order) (dirname ++ e.d_name) = some st ↔
      e.stat.isDir = false ∧ st = e.stat := by
  unfold regular
  rw [if_neg (List.append_ne_nil_of_left_ne_nil hne _), hl.lookup_eq he,
    Option.filter_eq_some_iff]
  constructor
  · rintro ⟨⟨⟩, hd⟩
    exact ⟨by simpa using hd, rfl⟩
  · rintro ⟨hd, rfl⟩
    exact ⟨rfl, by simpa using hd⟩

/-- No new file has a path too short for the test of its ending. -/
def LongPaths (s : Arrivals) (look : Look) : Prop :=
  ∀ e ∈ look.order, e.stat.isDir = false → s.dir.lastupdate < e.stat.st_ctime →
    4 ≤ (s.dir.dirname ++ e.d_name).length

/-- A call under way returns exactly if no new path is too short. -/
theorem Ok.endScan_returns {s : Arrivals} (hs : Ok dirname s) {look : Look}
    (hl : s.scanning = some look) (c : Call) (sort : Sorter) (memory : File) :
    (∃ t, s.step (.endScan c sort memory) = some t) ↔ s.LongPaths look := by
  have hlook := hs.look look hl
  have hne : s.dir.dirname ≠ [] := hs.reads.dirname_eq ▸ hs.reads.dirname_ne
  have hlong : s.LongPaths look ↔ ∀ n ∈ look.order.map (·.d_name),
      s.dir.Long (lookup s.dir.dirname look.order) (s.dir.dirname ++ n) := by
    rw [List.forall_mem_map]
    refine forall₂_congr fun e he => ?_
    unfold Directory.Long
    simp only [regular_lookup hne hlook he, and_imp, forall_eq_apply_imp_iff]
  rw [hlong]
  constructor
  · rintro ⟨t, ht⟩
    rw [Arrivals.step, hl] at ht
    dsimp only at ht
    cases hrun : c.run s.dir (s.os look sort memory) with
    | error a =>
      rw [hrun] at ht
      cases ht
    | ok r =>
      obtain ⟨d', hu⟩ := Call.update_of_run hrun
      exact Directory.long_of_update hs.reads.fromfile hne rfl hu
  · intro h
    have hup : s.dir.update (s.os look sort memory) = _ :=
      Directory.update_playlist hs.reads.playlist hs.reads.fromfile hne rfl h
    obtain ⟨song, rest, -, hr⟩ := c.run_eq (hs.reads.scanned _ _).playlist hup
    rw [Arrivals.step, hl]
    dsimp only
    rw [hr]
    exact ⟨_, rfl⟩

/-- **A song that arrived after a scan has begun, and before the next one begins, has an entry when
the next one has ended exactly if its ctime is after the time that the call before read at its
end.** The call must return, so no new file may have a path too short for the test of its ending. -/
theorem listed_iff {d : Directory} (hd : Playlist.Reads dirname d) {clock : Int}
    {acts : List Act} {s : Arrivals} (h : Machine.run step (start d clock) acts = some s)
    {look : Look} (hl : s.scanning = some look) {e : Entry} (he : e ∈ look.arrived)
    (hfile : e.stat.isDir = false) (hmp3 : hasMp3Ending (dirname ++ e.d_name) = true) (c : Call)
    (sort : Sorter) (memory : File) :
    (∃ t, s.step (.endScan c sort memory) = some t ∧
        dirname ++ e.d_name ∈ (t.returned ++ t.dir.list).map File.name) ↔
      s.dir.lastupdate < e.stat.st_ctime ∧ s.LongPaths look := by
  have hs := ok_of_run (ok_start hd clock) h
  have hlook := hs.look look hl
  have hdir := hs.reads.dirname_eq
  have hfresh : dirname ++ e.d_name ∉ s.paths := by
    refine hs.fresh e (List.mem_append_right _ ?_)
    rw [hl]
    exact he
  have hnew : (∃ x ∈ look.order, dirname ++ e.d_name = dirname ++ x.d_name ∧
      (newSong (lookup dirname look.order) s.dir.lastupdate (dirname ++ e.d_name)).isSome) ↔
      s.dir.lastupdate < e.stat.st_ctime := by
    rw [Option.isSome_iff_exists]
    constructor
    · rintro ⟨x, -, -, y, hy⟩
      obtain ⟨-, hreg, hlt, -⟩ := newSong_eq_some.mp hy
      rw [((regular_lookup hs.reads.dirname_ne hlook (hlook.arrived he)).mp hreg).2] at hlt
      exact hlt
    · intro hlt
      refine ⟨e, hlook.arrived he, rfl, (dirname ++ e.d_name, e.stat), ?_⟩
      refine newSong_eq_some.mpr ⟨rfl, ?_, hlt, hmp3⟩
      exact (regular_lookup hs.reads.dirname_ne hlook (hlook.arrived he)).mpr ⟨hfile, rfl⟩
  rw [← hs.endScan_returns hl c sort memory]
  constructor
  · rintro ⟨t, ht, hmem⟩
    obtain ⟨-, -, -, -, hpaths⟩ := hs.endScan hl ht
    exact ⟨hnew.mp (((hpaths _).mp hmem).resolve_left hfresh), t, ht⟩
  · rintro ⟨hlt, t, ht⟩
    obtain ⟨-, -, -, -, hpaths⟩ := hs.endScan hl ht
    exact ⟨t, ht, (hpaths _).mpr (.inr (hnew.mpr hlt))⟩

def oneArrival (secs : Nat) : List Act :=
  let song : Entry := ⟨"a.mp3".toList, ⟨false, 7 + secs⟩⟩
  [.beginScan [], .endScan .update .insertion ⟨0, [], .zero, false⟩, .tick secs, .arrive song,
    .beginScan [song]]

theorem listed_iff_nextSecond : ∃ s t,
    Machine.run step (start Playlist.queue 7) (oneArrival 1) = some s ∧
      s.step (.endScan (.getSong 0) .insertion ⟨0, [], .zero, false⟩) = some t ∧
      "/q/a.mp3".toList ∈ (t.returned ++ t.dir.list).map File.name := by
  have hd : Playlist.Reads "/q/".toList Playlist.queue := ⟨rfl, rfl, rfl, by decide⟩
  have h := @listed_iff "/q/".toList Playlist.queue hd 7 (oneArrival 1) _ rfl _ rfl
    ⟨"a.mp3".toList, ⟨false, 8⟩⟩ (by decide) rfl (by decide) (.getSong 0) .insertion
    ⟨0, [], .zero, false⟩
  obtain ⟨t, ht, hmem⟩ := h.mpr ⟨by decide, by
    intro e he
    cases List.mem_singleton.mp he
    decide⟩
  exact ⟨_, t, rfl, ht, hmem⟩

/-- A song that arrives in the second in which the call before ended is lost. -/
theorem song_lost : ∃ s look t,
    Machine.run step (start Playlist.queue 7) (oneArrival 0) = some s ∧
      s.scanning = some look ∧ (⟨"a.mp3".toList, ⟨false, 7⟩⟩ : Entry) ∈ look.arrived ∧
      s.step (.endScan .update .insertion ⟨0, [], .zero, false⟩) = some t ∧
      "/q/a.mp3".toList ∉ (t.returned ++ t.dir.list).map File.name :=
  ⟨_, _, _, rfl, rfl, by decide, rfl, by decide⟩

end Arrivals

end NetDJ.Daemon
