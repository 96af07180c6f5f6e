import NetDJ.Daemon.Playlist

/-!
# `main.cc`: songs that are added at the console

`com_add` links a song into the request directory. `stat` follows the link, so the ctime that a scan
compares with `lastupdate` is that of the song, and not of the link.

* `comAdd` : the command;
* `Adding.step` : the console, the calls on the request list, and all else that happens to the
  directory and to the songs;
* `Adding.Good`, `Adding.good_of_run` : names have no slash in them, and no ctime is in the future;
* `Adding.step_cases` : what a step does to the list;
* `Adding.Stays` : the link is there and its song is as it was;
* `Adding.Takes` : the scan that ends next takes the song;
* `Adding.added_iff` : that it does so shows when the command is given, and no later scan does.
-/

namespace NetDJ.Daemon

/-! ## The command -/

/-- `tmp`, the path of the song. -/
def songPath (PWD : Option Str) (arg : Str) : Except Abort Str :=
  if arg.head? ≠ some '/' then
    match PWD with
    | none => .error .undefined -- a string from a null pointer
    | some tmp =>
      if tmp = [] then .error .undefined -- `tmp[tmp.size() - 1]`
      else .ok (Directory.slashed tmp ++ arg)
  else .ok arg

/-- `com_add`: what `symlink` is called with, unless the usage is printed. -/
def comAdd (PWD : Option Str) (arg : Str) (request : Directory) :
    Except Abort (Option (Str × Str)) :=
  if arg ≠ [] then (songPath PWD arg).map fun tmp => some (tmp, request.dirname ++ arg)
  else .ok none

/-! ## The request directory -/

/-- What a call under way has found: the entries, and what `stat` said at that time. -/
structure Glance where
  names : List Str
  stat : Str → Option Stat

/-- The request list, the clock, the entries of its directory, and those among them that are links
with what they lead to; what `stat` says of all other paths; and the songs that `GetSong` has
returned. -/
structure Adding where
  dir : Directory
  clock : Int
  names : List Str
  links : List (Str × Str)
  files : Str → Option Stat
  scanning : Option Glance
  returned : List File

theorem count_scanned (d : Directory) (os : Os) (names : List Str) (path : Str) :
    ((d.scanned os names).list.map File.name).count path =
      (d.list.map File.name).count path + ((d.found os.stat names).map Prod.fst).count path := by
  have hfound : (numbered d.nextfileid (d.found os.stat names)).map File.name =
      (d.found os.stat names).map Prod.fst := by
    conv_rhs => rw [← map_numbered d.nextfileid (d.found os.stat names), List.map_map]
    rfl
  have hperm : (d.scanned os names).list.Perm
      (d.list ++ numbered d.nextfileid (d.found os.stat names)) := os.sort.perm _
  rw [(hperm.map File.name).count_eq, List.map_append, List.count_append, hfound]

namespace Adding

/-- How many links `stat` follows before it fails. -/
def maxLinks : Nat := 40

def follow (s : Adding) : Nat → Str → Option Stat
  | 0, path => if s.links.any (fun l => s.dir.dirname ++ l.1 = path) then none else s.files path
  | n + 1, path =>
    match s.links.find? fun l => s.dir.dirname ++ l.1 = path with
    | some l => s.follow n l.2
    | none => s.files path

def stat (s : Adding) : Str → Option Stat := s.follow maxLinks

inductive Act where
  | tick (secs : Nat)
  /-- The command. `made` says whether `symlink` works. -/
  | add (PWD : Option Str) (arg : Str) (made : Bool)
  /-- An entry appears, which is a link if it leads to a path. -/
  | create (name : Str) (path : Option Str)
  | remove (name : Str)
  /-- A file is made, changed or removed. -/
  | change (path : Str) (st : Option Stat)
  | beginScan (order : List Str)
  | endScan (c : Call) (sort : Sorter) (memory : File)

def os (s : Adding) (look : Glance) (sort : Sorter) (memory : File) : Os :=
  ⟨some look.names, look.stat, none, s.clock, sort, memory⟩

def step (s : Adding) : Act → Option Adding
  | .tick secs => some { s with clock := s.clock + secs }
  | .add PWD arg made =>
    match comAdd PWD arg s.dir with
    | .error _ => none
    | .ok none => some s
    | .ok (some (tmp, _)) =>
      -- With a slash the link is in another directory, or has another name: a `create`.
      if !made || '/' ∈ arg then some s
      else if arg ∈ s.names then none
      else some { s with names := arg :: s.names, links := (arg, tmp) :: s.links }
  | .create name path =>
    if '/' ∉ name ∧ name ∉ s.names then
      some { s with names := name :: s.names, links := (path.map (name, ·)).toList ++ s.links }
    else none
  | .remove name => some { s with
      names := s.names.filter (· ≠ name), links := s.links.filter (·.1 ≠ name) }
  | .change path st =>
    if st.all (·.st_ctime = s.clock) then some { s with files := Function.update s.files path st }
    else none
  | .beginScan order =>
    if s.scanning.isNone ∧ order.Perm s.names then
      some { s with scanning := some ⟨order, s.stat⟩ }
    else none
  | .endScan c sort memory =>
    match s.scanning with
    | none => none
    | some look =>
      match c.run s.dir (s.os look sort memory) with
      | .ok (d, song) =>
        some { s with dir := d, scanning := none, returned := s.returned ++ song.toList }
      | .error _ => none

/-- The daemon starts with a list and a directory of files. -/
def start (d : Directory) (clock : Int) (names : List Str) (files : Str → Option Stat) : Adding :=
  ⟨d, clock, names, [], files, none, []⟩

def count (s : Adding) (path : Str) : Nat := ((s.returned ++ s.dir.list).map File.name).count path

/-! ## What a step does -/

/-- Names have no slash in them, and no ctime is in the future. -/
structure Good (dirname : Str) (s : Adding) : Prop where
  reads : Playlist.Reads dirname s.dir
  names : ∀ n ∈ s.names, '/' ∉ n
  links : ∀ l ∈ s.links, '/' ∉ l.1
  look : ∀ look, s.scanning = some look → ∀ n ∈ look.names, '/' ∉ n
  past : ∀ path st, s.files path = some st → st.st_ctime ≤ s.clock

variable {dirname : Str}

/-- What a call that ends has put on the list. -/
def taken (s : Adding) (look : Glance) (path : Str) : Nat :=
  ((s.dir.found look.stat look.names).map Prod.fst).count path

/-- A call that ends takes the time, and puts on the list what is new. -/
structure Ended (s : Adding) (look : Glance) (t : Adding) : Prop where
  reads : Playlist.Reads dirname s.dir → Playlist.Reads dirname t.dir
  lastupdate : t.dir.lastupdate = s.clock
  clock : t.clock = s.clock
  names : t.names = s.names
  links : t.links = s.links
  files : t.files = s.files
  scanning : t.scanning = none
  count : ∀ path, t.count path = s.count path + s.taken look path

theorem ended_of_step {s t : Adding} (hs : Good dirname s) {c : Call} {sort : Sorter}
    {memory : File} (h : s.step (.endScan c sort memory) = some t) :
    ∃ look, s.scanning = some look ∧ @Ended dirname s look t := by
  have hdir := hs.reads.dirname_eq
  have hne : s.dir.dirname ≠ [] := hdir ▸ hs.reads.dirname_ne
  cases hl : s.scanning with
  | none =>
    rw [step, hl] at h
    cases h
  | some look =>
    rw [step, hl] at h
    dsimp only at h
    cases hrun : c.run s.dir (s.os look sort memory) with
    | error a =>
      rw [hrun] at h
      cases h
    | ok r =>
      rw [hrun] at h
      cases h
      obtain ⟨d', hu⟩ := Call.update_of_run hrun
      have hlong := Directory.long_of_update hs.reads.fromfile hne rfl hu
      have hup := Directory.update_playlist hs.reads.playlist hs.reads.fromfile hne rfl hlong
      obtain ⟨song, rest, hrest, hr⟩ := c.run_eq (hs.reads.scanned _ _).playlist hup
      rw [hrun] at hr
      cases hr
      refine ⟨look, rfl, fun hd => hd.changed _ _ _, rfl, rfl, rfl, rfl, rfl, rfl, fun path => ?_⟩
      show (((s.returned ++ song.toList) ++ rest).map File.name).count path = _
      rw [List.append_assoc, hrest, List.map_append, List.count_append, count_scanned]
      unfold count taken
      rw [List.map_append, List.count_append, Nat.add_assoc]
      rfl

/-- Anything else leaves the list, and may begin a scan. -/
structure Quiet (s t : Adding) : Prop where
  dir : t.dir = s.dir
  returned : t.returned = s.returned
  clock : s.clock ≤ t.clock
  scanning : t.scanning = s.scanning ∨
    s.scanning = none ∧ ∃ order, order.Perm s.names ∧ t.scanning = some ⟨order, s.stat⟩

def linked (s : Adding) (arg tmp : Str) : Adding :=
  { s with names := arg :: s.names, links := (arg, tmp) :: s.links }

/-- The command makes an entry, or one in another directory, or none. -/
theorem step_add {s t : Adding} {PWD : Option Str} {arg : Str} {made : Bool}
    (h : s.step (.add PWD arg made) = some t) : t = s ∨
      ∃ tmp, songPath PWD arg = .ok tmp ∧ '/' ∉ arg ∧ arg ∉ s.names ∧ t = s.linked arg tmp := by
  unfold step comAdd at h
  dsimp only at h
  by_cases harg : arg ≠ []
  · rw [if_pos harg] at h
    cases hpath : songPath PWD arg with
    | error a =>
      rw [hpath] at h
      cases h
    | ok tmp =>
      rw [hpath] at h
      change (if _ then _ else _) = some t at h
      split at h
      · exact .inl (Option.some.inj h).symm
      · next hmade =>
        rw [Bool.or_eq_true, decide_eq_true_eq, not_or] at hmade
        split at h
        · cases h
        · next hnew => exact .inr ⟨tmp, rfl, hmade.2, hnew, (Option.some.inj h).symm⟩
  · rw [if_neg harg] at h
    exact .inl (Option.some.inj h).symm

/-- The end of a scan. -/
def Act.Ends (a : Act) : Prop := ∃ c sort memory, a = .endScan c sort memory

theorem step_cases {s t : Adding} {a : Act} (hs : Good dirname s) (h : s.step a = some t) :
    (a.Ends ∧ ∃ look, s.scanning = some look ∧ @Ended dirname s look t) ∨
      (¬ a.Ends ∧ Quiet s t) := by
  cases a with
  | endScan c sort memory => exact .inl ⟨⟨c, sort, memory, rfl⟩, ended_of_step hs h⟩
  | tick secs =>
    cases h
    exact .inr ⟨by rintro ⟨_, _, _, ⟨⟩⟩, rfl, rfl, by simp, .inl rfl⟩
  | add PWD arg made =>
    refine .inr ⟨by rintro ⟨_, _, _, ⟨⟩⟩, ?_⟩
    rcases step_add h with rfl | ⟨tmp, -, -, -, rfl⟩
    · exact ⟨rfl, rfl, le_refl _, .inl rfl⟩
    · exact ⟨rfl, rfl, le_refl _, .inl rfl⟩
  | create name path =>
    obtain ⟨-, he⟩ := Option.ite_none_right_eq_some.mp h
    cases he
    exact .inr ⟨by rintro ⟨_, _, _, ⟨⟩⟩, rfl, rfl, le_refl _, .inl rfl⟩
  | remove name =>
    cases h
    exact .inr ⟨by rintro ⟨_, _, _, ⟨⟩⟩, rfl, rfl, le_refl _, .inl rfl⟩
  | change path st =>
    obtain ⟨-, he⟩ := Option.ite_none_right_eq_some.mp h
    cases he
    exact .inr ⟨by rintro ⟨_, _, _, ⟨⟩⟩, rfl, rfl, le_refl _, .inl rfl⟩
  | beginScan order =>
    obtain ⟨hbegin, he⟩ := Option.ite_none_right_eq_some.mp h
    cases he
    exact .inr ⟨by rintro ⟨_, _, _, ⟨⟩⟩, rfl, rfl, le_refl _,
      .inr ⟨Option.isNone_iff_eq_none.mp hbegin.1, order, hbegin.2, rfl⟩⟩

theorem Good.step {s t : Adding} {a : Act} (hs : Good dirname s) (h : s.step a = some t) :
    Good dirname t := by
  cases a with
  | tick secs =>
    cases h
    refine ⟨hs.reads, hs.names, hs.links, hs.look, fun path st hst => ?_⟩
    exact (hs.past path st hst).trans (by simp)
  | add PWD arg made =>
    rcases step_add h with rfl | ⟨tmp, -, harg, -, rfl⟩
    · exact hs
    · exact ⟨hs.reads, List.forall_mem_cons.mpr ⟨harg, hs.names⟩,
        List.forall_mem_cons.mpr ⟨harg, hs.links⟩, hs.look, hs.past⟩
  | create name path =>
    obtain ⟨hname, he⟩ := Option.ite_none_right_eq_some.mp h
    cases he
    refine ⟨hs.reads, List.forall_mem_cons.mpr ⟨hname.1, hs.names⟩, ?_, hs.look, hs.past⟩
    intro l hl
    rcases List.mem_append.mp hl with hnew | hold
    · obtain ⟨target, -, rfl⟩ := Option.map_eq_some_iff.mp (Option.mem_toList.mp hnew)
      exact hname.1
    · exact hs.links l hold
  | remove name =>
    cases h
    exact ⟨hs.reads, fun n hn => hs.names n (List.mem_of_mem_filter hn),
      fun l hl => hs.links l (List.mem_of_mem_filter hl), hs.look, hs.past⟩
  | change path st =>
    obtain ⟨hst, he⟩ := Option.ite_none_right_eq_some.mp h
    cases he
    refine ⟨hs.reads, hs.names, hs.links, hs.look, fun path' st' hst' => ?_⟩
    by_cases hpath : path' = path
    · subst hpath
      have hnow : st = some st' := (Function.update_self path' st s.files).symm.trans hst'
      rw [hnow, Option.all_some, decide_eq_true_eq] at hst
      exact le_of_eq hst
    · have hfile : s.files path' = some st' :=
        (Function.update_of_ne hpath st s.files).symm.trans hst'
      exact hs.past path' st' hfile
  | beginScan order =>
    obtain ⟨hbegin, he⟩ := Option.ite_none_right_eq_some.mp h
    cases he
    refine ⟨hs.reads, hs.names, hs.links, ?_, hs.past⟩
    rintro look ⟨⟩ n hn
    exact hs.names n (hbegin.2.mem_iff.mp hn)
  | endScan c sort memory =>
    obtain ⟨look, -, hend⟩ := ended_of_step hs h
    refine ⟨hend.reads hs.reads, hend.names ▸ hs.names, hend.links ▸ hs.links, ?_, ?_⟩
    · intro look' hlook'
      rw [hend.scanning] at hlook'
      cases hlook'
    · rw [hend.files, hend.clock]
      exact hs.past

theorem good_of_run {s t : Adding} {acts : List Act} (hs : Good dirname s)
    (h : Machine.run Adding.step s acts = some t) : Good dirname t :=
  Machine.run_keeps (fun _ _ _ hu hstep => hu.step hstep) hs h

theorem good_start {d : Directory} (hd : Playlist.Reads dirname d) {clock : Int}
    {names : List Str} {files : Str → Option Stat} (hnames : ∀ n ∈ names, '/' ∉ n)
    (hpast : ∀ path st, files path = some st → st.st_ctime ≤ clock) :
    Good dirname (start d clock names files) :=
  ⟨hd, hnames, nofun, nofun, hpast⟩

/-! ## The link and its song -/

/-- The path has the ending of a song, and its file a ctime after `w`. -/
def Fresh (path : Str) (st : Option Stat) (w : Int) : Prop :=
  hasMp3Ending path = true ∧ ∃ x, st = some x ∧ x.isDir = false ∧ w < x.st_ctime

/-- A call puts a path on the list if its entry is there and the file is fresh. -/
theorem taken_pos_iff {s : Adding} (hs : Good dirname s) {look : Glance} {arg : Str} :
    0 < s.taken look (dirname ++ arg) ↔ arg ∈ look.names ∧
      Fresh (dirname ++ arg) (look.stat (dirname ++ arg)) s.dir.lastupdate := by
  have hne : dirname ++ arg ≠ [] := List.append_ne_nil_of_left_ne_nil hs.reads.dirname_ne _
  unfold taken Directory.found Fresh
  rw [List.count_pos_iff, hs.reads.dirname_eq]
  constructor
  · intro hmem
    obtain ⟨x, hx, hpath⟩ := List.mem_map.mp hmem
    obtain ⟨n, hn, hnew⟩ := List.mem_filterMap.mp hx
    obtain ⟨hx1, hreg, hlt, hmp3⟩ := newSong_eq_some.mp hnew
    obtain rfl := List.append_cancel_left (hx1.symm.trans hpath)
    unfold regular at hreg
    rw [if_neg hne, Option.filter_eq_some_iff] at hreg
    exact ⟨hn, hmp3, x.2, hreg.1, by simpa using hreg.2, hlt⟩
  · rintro ⟨hn, hmp3, st, hst, hfile, hlt⟩
    refine List.mem_map.mpr ⟨(dirname ++ arg, st), List.mem_filterMap.mpr ⟨arg, hn, ?_⟩, rfl⟩
    refine newSong_eq_some.mpr ⟨rfl, ?_, hlt, hmp3⟩
    unfold regular
    rw [if_neg hne, Option.filter_eq_some_iff]
    exact ⟨hst, by simpa using hfile⟩

/-- The entry `arg` is a link to `tmp`, of which `stat` says `st`. -/
structure Stays (arg tmp : Str) (st : Option Stat) (s : Adding) : Prop where
  entry : arg ∈ s.names
  link : s.links.find? (fun l => l.1 = arg) = some (arg, tmp)
  file : s.files tmp = st

/-- The act leaves the link and its song. -/
def Act.Leaves (arg tmp : Str) (a : Act) : Prop := a ≠ .remove arg ∧ ∀ st, a ≠ .change tmp st

variable {arg tmp : Str} {st : Option Stat}

theorem Stays.step {s t : Adding} {a : Act} (hs : Good dirname s) (h : Stays arg tmp st s)
    (ha : a.Leaves arg tmp) (hstep : s.step a = some t) : Stays arg tmp st t := by
  cases a with
  | tick secs =>
    cases hstep
    exact ⟨h.entry, h.link, h.file⟩
  | add PWD arg' made =>
    rcases step_add hstep with rfl | ⟨tmp', -, -, hnew, rfl⟩
    · exact h
    · refine ⟨List.mem_cons_of_mem _ h.entry, ?_, h.file⟩
      have hne : arg' ≠ arg := fun he => hnew (he ▸ h.entry)
      exact (List.find?_cons_of_neg (by simpa using hne)).trans h.link
  | create name path =>
    obtain ⟨hname, he⟩ := Option.ite_none_right_eq_some.mp hstep
    cases he
    refine ⟨List.mem_cons_of_mem _ h.entry, ?_, h.file⟩
    have hne : name ≠ arg := fun he => hname.2 (he ▸ h.entry)
    cases path with
    | none => exact h.link
    | some target => exact (List.find?_cons_of_neg (by simpa using hne)).trans h.link
  | remove name =>
    cases hstep
    have hne : arg ≠ name := fun he => ha.1 (he ▸ rfl)
    refine ⟨List.mem_filter.mpr ⟨h.entry, by simpa using hne⟩, ?_, h.file⟩
    rw [List.find?_filter, ← h.link]
    congr 1
    funext l
    by_cases hl : l.1 = arg
    · simp [hl, hne]
    · simp [hl]
  | change path x =>
    obtain ⟨-, he⟩ := Option.ite_none_right_eq_some.mp hstep
    cases he
    have hne : tmp ≠ path := fun he => ha.2 x (he ▸ rfl)
    exact ⟨h.entry, h.link, (Function.update_of_ne hne x s.files).trans h.file⟩
  | beginScan order =>
    obtain ⟨-, he⟩ := Option.ite_none_right_eq_some.mp hstep
    cases he
    exact ⟨h.entry, h.link, h.file⟩
  | endScan c sort memory =>
    obtain ⟨look, -, hend⟩ := ended_of_step hs hstep
    exact ⟨hend.names ▸ h.entry, hend.links ▸ h.link, hend.files ▸ h.file⟩

/-- `stat` follows the link to the song, which is in another directory. -/
theorem Stays.stat_eq {s : Adding} (hs : Good dirname s) (h : Stays arg tmp st s)
    (hout : ∀ n, '/' ∉ n → tmp ≠ dirname ++ n) : s.stat (dirname ++ arg) = st := by
  have hdir := hs.reads.dirname_eq
  have hlink :
      s.links.find? (fun l => s.dir.dirname ++ l.1 = dirname ++ arg) = some (arg, tmp) := by
    rw [hdir, ← h.link]
    congr 1
    funext l
    exact decide_eq_decide.mpr (List.append_right_inj dirname)
  have hsong : s.links.find? (fun l => s.dir.dirname ++ l.1 = tmp) = none := by
    rw [hdir, List.find?_eq_none]
    intro l hl
    simpa using Ne.symm (hout l.1 (hs.links l hl))
  show s.follow (38 + 1 + 1) (dirname ++ arg) = st
  rw [follow, hlink]
  dsimp only
  rw [follow, hsong]
  exact h.file

/-! ## What the next scan does -/

theorem count_le {s t : Adding} (hs : Good dirname s) {acts : List Act}
    (h : Machine.run Adding.step s acts = some t) (path : Str) : s.count path ≤ t.count path := by
  induction acts generalizing s with
  | nil =>
    cases h
    exact le_refl _
  | cons a acts ih =>
    obtain ⟨u, hstep, hrun⟩ := Option.bind_eq_some_iff.mp h
    refine le_trans ?_ (ih (hs.step hstep) hrun)
    rcases step_cases hs hstep with ⟨-, look, -, hend⟩ | ⟨-, hquiet⟩
    · rw [hend.count]
      exact Nat.le_add_right _ _
    · unfold count
      rw [hquiet.dir, hquiet.returned]

/-- The scan under way, or else one that begins now, takes the entry `arg`, of which `stat` says
`st` from now on. -/
def Takes (path arg : Str) (st : Option Stat) (s : Adding) : Prop :=
  match s.scanning with
  | none => Fresh path st s.dir.lastupdate
  | some look => arg ∈ look.names ∧ Fresh path (look.stat path) s.dir.lastupdate

section Link
variable (hout : ∀ n, '/' ∉ n → tmp ≠ dirname ++ n)
include hout

/-- A scan that begins takes what one that begins now would take. -/
theorem takes_quiet {s t : Adding} (hs : Good dirname s) (hstays : Stays arg tmp st s)
    (hquiet : Quiet s t) :
    Takes (dirname ++ arg) arg st t ↔ Takes (dirname ++ arg) arg st s := by
  unfold Takes
  rw [hquiet.dir]
  rcases hquiet.scanning with hsame | ⟨hnone, order, horder, hbegin⟩
  · rw [hsame]
  · rw [hnone, hbegin]
    dsimp only
    rw [hstays.stat_eq hs hout]
    exact and_iff_right (horder.mem_iff.mpr hstays.entry)

omit hout in
theorem not_takes_ended {s t : Adding} (hs : Good dirname s) (hstays : Stays arg tmp st s)
    {look : Glance} (hend : @Ended dirname s look t) : ¬ Takes (dirname ++ arg) arg st t := by
  unfold Takes
  rw [hend.scanning, hend.lastupdate]
  rintro ⟨-, x, hx, -, hlt⟩
  exact absurd (hs.past tmp x (hstays.file.trans hx)) (not_le.mpr hlt)

/-- The song is put on the list by the next scan to end, or by none. -/
theorem takes_run {s t : Adding} (hs : Good dirname s) (hstays : Stays arg tmp st s)
    {acts : List Act} (hkeep : ∀ a ∈ acts, a.Leaves arg tmp)
    (h : Machine.run Adding.step s acts = some t) :
    s.count (dirname ++ arg) < t.count (dirname ++ arg) ↔
      Takes (dirname ++ arg) arg st s ∧ ∃ a ∈ acts, a.Ends := by
  induction acts generalizing s with
  | nil =>
    cases h
    exact iff_of_false (lt_irrefl _) (by simp)
  | cons a acts ih =>
    obtain ⟨u, hstep, hrun⟩ := Option.bind_eq_some_iff.mp h
    rw [List.forall_mem_cons] at hkeep
    have ih := ih (hs.step hstep) (hstays.step hs hkeep.1 hstep) hkeep.2 hrun
    rcases step_cases hs hstep with ⟨hends, look, hlook, hend⟩ | ⟨hends, hquiet⟩
    · -- Nothing is added after this scan, so the two sides say what it has taken.
      have hlater : t.count (dirname ++ arg) = u.count (dirname ++ arg) := by
        refine le_antisymm (not_lt.mp fun hlt => ?_) (count_le (hs.step hstep) hrun _)
        exact not_takes_ended hs hstays hend (ih.mp hlt).1
      have htakes : Takes (dirname ++ arg) arg st s ↔ 0 < s.taken look (dirname ++ arg) := by
        unfold Takes
        rw [hlook]
        exact (taken_pos_iff hs).symm
      rw [hlater, hend.count, htakes, Nat.lt_add_right_iff_pos]
      exact (and_iff_left ⟨a, List.mem_cons_self, hends⟩).symm
    · have hcount : u.count (dirname ++ arg) = s.count (dirname ++ arg) := by
        unfold count
        rw [hquiet.dir, hquiet.returned]
      rw [← hcount, ih, takes_quiet hout hs hstays hquiet]
      simp [hends]

end Link

/-! ## The song that is added -/

theorem step_made {s t : Adding} {PWD : Str} (harg : arg ≠ []) (hslash : '/' ∉ arg)
    (h : s.step (.add (some PWD) arg true) = some t) :
    t = s.linked arg (Directory.slashed PWD ++ arg) := by
  have hrel : arg.head? ≠ some '/' := fun he => hslash (List.mem_of_head? he)
  unfold step comAdd songPath at h
  dsimp only at h
  rw [if_pos harg, if_pos hrel] at h
  by_cases hpwd : PWD = []
  · rw [if_pos hpwd] at h
    cases h
  · rw [if_neg hpwd] at h
    change (if _ then _ else if _ then _ else _) = some t at h
    rw [if_neg (by simpa using hslash)] at h
    obtain ⟨-, he⟩ := Option.ite_none_left_eq_some.mp h
    exact (Option.some.inj he).symm

theorem getLast?_slashed (x : Str) : (Directory.slashed x).getLast? = some '/' := by
  unfold Directory.slashed
  split
  · exact List.getLast?_concat
  · next h => exact not_not.mp h

theorem eq_nil_of_slash {x y : Str} (hx : '/' ∉ x) (h : (y ++ x).getLast? = some '/') :
    x = [] := by
  by_contra hne
  rw [List.getLast?_append_of_ne_nil _ hne] at h
  exact hx (List.mem_of_getLast? h)

theorem slashed_inj {x y n m : Str} (hn : '/' ∉ n) (hm : '/' ∉ m)
    (h : Directory.slashed x ++ n = Directory.slashed y ++ m) :
    Directory.slashed x = Directory.slashed y := by
  rcases List.append_eq_append_iff.mp h with ⟨c, hy, hc⟩ | ⟨c, hx, hc⟩
  · have hnil : c = [] := eq_nil_of_slash (fun hmem => hn (hc ▸ List.mem_append_left m hmem))
      (hy ▸ getLast?_slashed y)
    rw [hy, hnil, List.append_nil]
  · have hnil : c = [] := eq_nil_of_slash (fun hmem => hm (hc ▸ List.mem_append_left n hmem))
      (hx ▸ getLast?_slashed x)
    rw [hx, hnil, List.append_nil]

/-- A song in the working directory that is added is put on the list if and only if the scan that
ends next takes it, and one ends: the one under way has to have found the name and a new file, and
otherwise the ctime of the song has to be after the last scan. -/
theorem added_iff {DIR PWD arg : Str} {d : Directory}
    (hd : Playlist.Reads (Directory.slashed DIR) d) {clock : Int} {names : List Str}
    {files : Str → Option Stat} (hnames : ∀ n ∈ names, '/' ∉ n)
    (hpast : ∀ path st, files path = some st → st.st_ctime ≤ clock) {before after : List Act}
    {s s' t : Adding}
    (hbefore : Machine.run Adding.step (start d clock names files) before = some s)
    (hadd : s.step (.add (some PWD) arg true) = some s')
    (hafter : Machine.run Adding.step s' after = some t) (harg : arg ≠ []) (hslash : '/' ∉ arg)
    (hpwd : Directory.slashed PWD ≠ Directory.slashed DIR)
    (hleaves : ∀ a ∈ after, a.Leaves arg (Directory.slashed PWD ++ arg)) :
    s.count (Directory.slashed DIR ++ arg) < t.count (Directory.slashed DIR ++ arg) ↔
      Takes (Directory.slashed DIR ++ arg) arg (s.files (Directory.slashed PWD ++ arg)) s ∧
        ∃ a ∈ after, a.Ends := by
  have hs : Good (Directory.slashed DIR) s := good_of_run (good_start hd hnames hpast) hbefore
  have hs' : Good (Directory.slashed DIR) s' := hs.step hadd
  obtain rfl : s' = s.linked arg (Directory.slashed PWD ++ arg) := step_made harg hslash hadd
  have hout : ∀ n, '/' ∉ n → Directory.slashed PWD ++ arg ≠ Directory.slashed DIR ++ n :=
    fun n hn he => hpwd (slashed_inj hslash hn he)
  have hstays : Stays arg (Directory.slashed PWD ++ arg) (s.files (Directory.slashed PWD ++ arg))
      (s.linked arg (Directory.slashed PWD ++ arg)) :=
    ⟨List.mem_cons_self, List.find?_cons_of_pos (decide_eq_true rfl), rfl⟩
  exact takes_run hout hs' hstays hleaves hafter

def newSongMade : List Act :=
  [.beginScan [], .endScan .getSize .insertion ⟨0, [], .zero, false⟩, .tick 1,
    .change "/mp3/a.mp3".toList (some ⟨false, 8⟩)]

/-- The song is added, and the next scan takes it. -/
theorem added_iff_newSong : ∃ s s' t,
    Machine.run Adding.step (start Playlist.queue 7 [] fun _ => none) newSongMade = some s ∧
    s.step (.add (some "/mp3".toList) "a.mp3".toList true) = some s' ∧
    Machine.run Adding.step s' [.beginScan ["a.mp3".toList],
      .endScan .getSize .insertion ⟨0, [], .zero, false⟩] = some t ∧
    s.count "/q/a.mp3".toList < t.count "/q/a.mp3".toList := by
  have hq : Playlist.Reads (Directory.slashed "/q".toList) Playlist.queue :=
    ⟨rfl, rfl, rfl, by decide⟩
  refine ⟨_, _, _, rfl, rfl, rfl, ?_⟩
  refine (@added_iff "/q".toList "/mp3".toList "a.mp3".toList Playlist.queue hq 7 [] (fun _ => none)
    (fun n hn => absurd hn List.not_mem_nil) (fun _ _ h => absurd h (Option.some_ne_none _).symm)
    newSongMade [.beginScan ["a.mp3".toList], .endScan .getSize .insertion ⟨0, [], .zero, false⟩]
    _ _ _ rfl rfl rfl (by decide) (by decide) (by decide) ?_).mpr ?_
  · simp [Act.Leaves]
  · exact ⟨⟨by decide, _, rfl, rfl, by decide⟩, _, List.mem_cons_of_mem _ List.mem_cons_self,
      .getSize, .insertion, ⟨0, [], .zero, false⟩, rfl⟩

end Adding

end NetDJ.Daemon
