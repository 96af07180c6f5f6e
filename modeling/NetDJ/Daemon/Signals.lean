import NetDJ.Daemon.State

/-!
# Saving the state at a signal

The handler interrupts any thread at any moment, and `GetNextTimestamp` takes no lock: it meets the
list between any two passes of a scan.

* `Signals.step` : the parts of a call, and signals between them;
* `run_call` : the parts in a row are the call of the coarse model;
* `Tally` : how many songs wait, by what the calls met and took;
* `Counts.saves_iff` : a signal finds a song on the list exactly if one waits;
* `saved_iff` : all signals of a run.
-/

namespace NetDJ.Daemon

/-- What a call does after its `Update`, on a playlist. -/
def Call.rest (c : Call) (d : Directory) : Directory :=
  match c with
  | getSong _ => { d with list := d.list.tail }
  | _ => d

theorem Call.run_rest {d d' : Directory} {os : Os} (c : Call) (hplay : d'.playlist = true)
    (h : d.update os = .ok d') : (c.run d os).map (·.1) = .ok (c.rest d') := by
  cases c with
  | update | empty | getSize =>
    simp [run, Directory.empty, Directory.getSize, h, Except.map, rest]
  | getSong rand =>
    rw [run, Directory.getSong, h]
    dsimp only
    cases hl : d'.list with
    | nil =>
      show Except.ok d' = _
      rw [rest, hl, List.tail_nil, ← hl]
    | cons front rest' =>
      dsimp only
      rw [if_pos hplay, rest, hl]
      rfl

/-- Where the thread that holds the lock of the directory is. -/
inductive Phase where
  | unlocked
  | scanning (fobj : File)
  | scanned

/-- The cache directory while calls are under way. -/
structure Signals where
  dir : Directory
  phase : Phase

namespace Signals

open Playlist

/-- Each part of a call has its own answers of the operating system. -/
inductive Act where
  | lock (os : Os)
  | entry (os : Os) (d_name : Str)
  | endScan (os : Os)
  | unlock (c : Call)
  | signal (os : Os)

/-- The handler exits only at its end: until then the other threads go on, and another signal may
come. A scan that cannot open the directory ends the process. -/
def step (s : Signals) : Act → Option Signals
  | .lock os =>
    match s.phase, os.readdir with
    | .unlocked, some _ => some { s with phase := .scanning (File.new os.memory []) }
    | _, _ => none
  | .entry os d_name =>
    match s.phase with
    | .scanning fobj =>
      match Directory.readEntry os (s.dir, fobj) d_name with
      | .ok (d, fobj) => some ⟨d, .scanning fobj⟩
      | .error _ => none
    | _ => none
  | .endScan os =>
    match s.phase with
    | .scanning _ => some ⟨s.dir.endScan os, .scanned⟩
    | _ => none
  | .unlock c =>
    match s.phase with
    | .scanned => some ⟨c.rest s.dir, .unlocked⟩
    | _ => none
  | .signal _ => some s

/-- The cache before its first scan. -/
def start (d : Directory) : Signals := ⟨d, .unlocked⟩

/-- The state file gets the ctime of a song on the list. -/
def Saves (s : Signals) (stat : Str → Option Stat) : Prop :=
  ∃ f ∈ s.dir.list, savestate s.dir stat = .ok f.stat_buf.st_ctime

/-! ## The parts of a call -/

def parts (c : Call) (os : Os) (names : List Str) : List Act :=
  .lock os :: (names.map (.entry os) ++ [.endScan os, .unlock c])

theorem run_entries {os : Os} {d d' : Directory} {fobj fobj' : File} {names : List Str}
    (h : names.foldlM (Directory.readEntry os) (d, fobj) = .ok (d', fobj')) :
    Machine.run step ⟨d, .scanning fobj⟩ (names.map (.entry os)) =
      some ⟨d', .scanning fobj'⟩ := by
  induction names generalizing d fobj with
  | nil =>
    cases h
    rfl
  | cons n names ih =>
    rw [List.foldlM_cons] at h
    rw [List.map_cons, Machine.run_cons, step]
    dsimp only
    cases hn : Directory.readEntry os (d, fobj) n with
    | error a =>
      rw [hn] at h
      cases h
    | ok r =>
      rw [hn] at h
      exact ih h

/-- The parts of a call in a row are the call. -/
theorem run_call {dirname : Str} {d : Directory} (hd : Reads dirname d) {os : Os}
    {names : List Str} (hopen : os.readdir = some names) (c : Call) {d' : Directory}
    {song : Option File} (h : c.run d os = .ok (d', song)) :
    Machine.run step (start d) (parts c os names) = some (start d') := by
  obtain ⟨d₁, hu⟩ := Call.update_of_run h
  have hne : d.dirname ≠ [] := hd.dirname_eq ▸ hd.dirname_ne
  have hlong := Directory.long_of_update hd.fromfile hne hopen hu
  have hup := Directory.update_playlist hd.playlist hd.fromfile hne hopen hlong
  have hrest := c.run_rest (hd.scanned os names).playlist hup
  rw [h] at hrest
  obtain rfl : d' = c.rest (d.scanned os names) := Except.ok.inj hrest
  obtain ⟨fobj', hscan⟩ := Directory.scan_eq (File.new os.memory []) hlong
  rw [parts, Machine.run_cons, step, start]
  dsimp only
  rw [hopen]
  dsimp only [Option.bind_some]
  rw [Machine.run_append, run_entries hscan]
  show some (start (c.rest ((d.push (d.found os.stat names)).endScan os))) = _
  rw [Directory.endScan, if_pos (show (d.push _).playlist = true from hd.playlist)]
  rfl

/-! ## The songs that wait -/

/-- The time of the last scan that has ended, and how many songs wait. -/
structure Tally where
  lastupdate : Int
  waiting : Nat

/-- An entry that is a new song waits, and `GetSong` takes one if one waits. -/
def Tally.count (dirname : Str) (y : Tally) : Act → Tally
  | .entry os d_name =>
    if (newSong os.stat y.lastupdate (dirname ++ d_name)).isSome then
      { y with waiting := y.waiting + 1 }
    else y
  | .endScan os => { y with lastupdate := os.time }
  | .unlock (.getSong _) => { y with waiting := y.waiting - 1 }
  | _ => y

/-- The tally after the actions `acts`, for a directory that was last updated at `lastupdate`. -/
def tally (dirname : Str) (lastupdate : Int) (acts : List Act) : Tally :=
  acts.foldl (Tally.count dirname) ⟨lastupdate, 0⟩

/-- The list has as many songs as the tally says. -/
structure Counts (dirname : Str) (y : Tally) (d : Directory) : Prop where
  reads : Reads dirname d
  lastupdate : d.lastupdate = y.lastupdate
  waiting : d.list.length = y.waiting
  valid : ∀ f ∈ d.list, f.stat_valid = true

section Runs
variable {dirname : Str} {y : Tally} {s s' : Signals}

theorem Counts.entry (hs : Counts dirname y s.dir) {os : Os} {n : Str}
    (h : s.step (.entry os n) = some s') : Counts dirname (y.count dirname (.entry os n)) s'.dir := by
  obtain ⟨d, _ | fobj | _⟩ := s
  case unlocked | scanned => cases h
  case scanning =>
    rw [step] at h
    dsimp only at h
    cases hn : Directory.readEntry os (d, fobj) n with
    | error a =>
      rw [hn] at h
      cases h
    | ok r =>
      obtain ⟨fobj', heq⟩ := Directory.readEntry_eq fobj (Directory.long_of_readEntry hn)
      rw [heq] at h
      cases h
      obtain ⟨hreads, hlast, hlen, hvalid⟩ := hs
      dsimp only at hreads hlast hlen hvalid
      rw [hlast, hreads.dirname_eq, Tally.count]
      cases newSong os.stat y.lastupdate (dirname ++ n) with
      | none =>
        rw [Option.toList_none, Directory.push_nil]
        exact ⟨hreads, hlast, hlen, hvalid⟩
      | some x =>
        refine ⟨hreads.changed _ _ _, hlast, ?_, fun f hf => ?_⟩
        · show (d.list ++ numbered d.nextfileid [x]).length = y.waiting + 1
          rw [List.length_append, hlen, length_numbered, List.length_singleton]
        · rcases List.mem_append.mp hf with hf | hf
          · exact hvalid f hf
          · exact valid_of_mem_numbered hf

theorem Counts.step (hs : Counts dirname y s.dir) {a : Act} (h : s.step a = some s') :
    Counts dirname (y.count dirname a) s'.dir := by
  cases a with
  | lock os =>
    rw [Signals.step] at h
    split at h <;> cases h
    exact hs
  | entry os n => exact hs.entry h
  | endScan os =>
    rw [Signals.step] at h
    split at h <;> cases h
    dsimp only
    rw [Directory.endScan, if_pos hs.reads.playlist]
    refine ⟨hs.reads.changed _ _ _, rfl, (os.sort.perm _).length_eq.trans hs.waiting,
      fun f hf => ?_⟩
    exact hs.valid f ((os.sort.perm _).mem_iff.mp hf)
  | unlock c =>
    rw [Signals.step] at h
    split at h <;> cases h
    cases c with
    | update | empty | getSize => exact hs
    | getSong rand =>
      refine ⟨hs.reads.changed _ _ _, hs.lastupdate, ?_,
        fun f hf => hs.valid f (List.mem_of_mem_tail hf)⟩
      exact List.length_tail.trans (congrArg (· - 1) hs.waiting)
  | signal os =>
    cases h
    exact hs

theorem counts_of_run {acts : List Act} (hs : Counts dirname ⟨s.dir.lastupdate, 0⟩ s.dir)
    (h : Machine.run Signals.step s acts = some s') :
    Counts dirname (tally dirname s.dir.lastupdate acts) s'.dir := by
  refine Machine.run_induction
    (P := fun as (t : Signals) => Counts dirname (tally dirname s.dir.lastupdate as) t.dir)
    hs ?_ acts s' h
  intro as t a t' _ ht hstep
  rw [tally, List.foldl_append]
  exact ht.step hstep

/-- A signal finds a song on the list exactly if one waits. -/
theorem Counts.saves_iff (hs : Counts dirname y s.dir) (stat : Str → Option Stat) :
    s.Saves stat ↔ 0 < y.waiting := by
  rw [← hs.waiting, List.length_pos_iff]
  constructor
  · rintro ⟨f, hf, -⟩
    exact List.ne_nil_of_mem hf
  · intro hne
    obtain ⟨front, rest, hl⟩ := List.exists_cons_of_ne_nil hne
    have hfront : front ∈ s.dir.list := hl ▸ List.mem_cons_self
    refine ⟨front, hfront, ?_⟩
    rw [savestate, Directory.getNextTimestamp, hl]
    exact congrArg Except.ok (File.getCtime_of_valid (hs.valid front hfront))

end Runs

/-- **In a run of the daemon every signal saves the ctime of a queued song exactly if a song waits
whenever a signal arrives.** -/
theorem saved_iff {file : Option Int} {CACHE_DIR : Str} {mem : Bool} {cache : Directory}
    (hdir : (loadstate (newCache mem) file).setDirname CACHE_DIR false = .ok cache)
    {acts : List Act} {s : Signals} (h : Machine.run Signals.step (start cache) acts = some s) :
    (∀ t os, Machine.Takes Signals.step (start cache) acts t (.signal os) → t.Saves os.stat) ↔
      ∀ before os, before ++ [.signal os] <+: acts →
        0 < (tally cache.dirname cache.lastupdate before).waiting := by
  obtain ⟨u, hu⟩ : ∃ u, loadstate (newCache mem) file = (newCache mem).setLastupdate u := by
    cases file with
    | none => exact ⟨0, rfl⟩
    | some upd => exact ⟨upd - 1, rfl⟩
  have hne : CACHE_DIR ≠ [] := by
    rintro rfl
    rw [hu] at hdir
    cases hdir
  rw [hu, setDirname_newCache hne] at hdir
  obtain rfl := Except.ok.inj hdir
  have hstart : Counts (Directory.slashed CACHE_DIR) ⟨u, 0⟩ (start (openedCache CACHE_DIR u)).dir :=
    ⟨reads_openedCache hne u, rfl, rfl, nofun⟩
  constructor
  · rintro hsaves before os ⟨after, rfl⟩
    rw [List.append_assoc, Machine.run_append] at h
    obtain ⟨t, ht, -⟩ := Option.bind_eq_some_iff.mp h
    exact ((counts_of_run hstart ht).saves_iff os.stat).mp
      (hsaves t os ⟨before, after, List.append_assoc _ _ _, ht⟩)
  · rintro hwaiting t os ⟨before, after, rfl, ht⟩
    exact ((counts_of_run hstart ht).saves_iff os.stat).mpr
      (hwaiting before os ⟨after, List.append_assoc _ _ _⟩)

/-- A signal after a call that found two songs. -/
theorem saved_twoSongs : ∃ t, Machine.Takes Signals.step (start (openedCache "/q/".toList 0))
    (parts .getSize twoSongs.os twoSongs.names ++ [.signal twoSongs.os]) t (.signal twoSongs.os) ∧
      t.Saves twoSongs.os.stat := by
  obtain ⟨t, ht⟩ : ∃ t, Machine.run Signals.step (start (openedCache "/q/".toList 0))
      (parts .getSize twoSongs.os twoSongs.names) = some t := ⟨_, rfl⟩
  have htakes : Machine.Takes Signals.step (start (openedCache "/q/".toList 0))
      (parts .getSize twoSongs.os twoSongs.names ++ [.signal twoSongs.os]) t
      (.signal twoSongs.os) := ⟨_, [], rfl, ht⟩
  refine ⟨t, htakes, (@saved_iff none "/q/".toList false _ rfl _ _ rfl).mpr ?_ t _ htakes⟩
  rintro before os ⟨after, h⟩
  rcases List.eq_nil_or_concat after with rfl | ⟨after, a, rfl⟩
  · rw [List.append_nil] at h
    obtain rfl := (List.append_inj' h rfl).1
    decide
  · rw [List.concat_eq_append, ← List.append_assoc] at h
    have hmem : Act.signal os ∈ parts .getSize twoSongs.os twoSongs.names := by
      rw [← (List.append_inj' h rfl).1]
      simp
    simp [parts] at hmem

/-- A signal before the first scan. -/
theorem unscanned_not_saved : ¬ ∀ t os,
    Machine.Takes Signals.step (start (openedCache "/q/".toList 0)) [.signal twoSongs.os] t
      (.signal os) → t.Saves os.stat := by
  intro h
  obtain ⟨f, hf, -⟩ := h _ _ ⟨[], [], rfl, rfl⟩
  cases hf

end Signals

end NetDJ.Daemon
