import Mathlib.Algebra.Order.Ring.Int
import Mathlib.Data.List.Sort
import NetDJ.Daemon.File

/-!
# `Directory.cc`: lists of songs

* `Directory.update` : the call, on what the operating system answers (`Os`);
* `Directory.scan_eq` : the loop over a directory appends the new songs, numbered, if no new file
  has a path too short for the test of its ending;
* `Directory.update_playlist` : so a call on a playlist sorts them in and takes the time;
* `Call.run_eq` : `Update`, `Empty`, `GetSong` and `GetSize` in one form.
-/

namespace NetDJ.Daemon

/-- `std::sort` with `operator<` of `File`: any sorted rearrangement. -/
structure Sorter where
  apply : List File → List File
  perm : ∀ l, (apply l).Perm l
  sorted : ∀ l, (∀ f ∈ l, f.stat_valid = true) →
    (apply l).Pairwise fun x y => x.stat_buf.st_ctime ≤ y.stat_buf.st_ctime

/-- A sort that keeps equal files in their order. -/
def Sorter.insertion : Sorter where
  apply := List.insertionSort fun x y => x.stat_buf.st_ctime ≤ y.stat_buf.st_ctime
  perm := List.perm_insertionSort _
  sorted l _ := by
    have : Std.Total fun x y : File => x.stat_buf.st_ctime ≤ y.stat_buf.st_ctime :=
      ⟨fun x y => le_total _ _⟩
    have : IsTrans File fun x y => x.stat_buf.st_ctime ≤ y.stat_buf.st_ctime :=
      ⟨fun _ _ _ => le_trans⟩
    exact List.pairwise_insertionSort _ l

/-- What a call meets: the names `readdir` gives, unless `opendir` fails; `stat`; the lines of the
list file, unless it does not open; the time; how equal files are sorted; and what the memory of a
`File` on the stack held. -/
structure Os where
  readdir : Option (List Str)
  stat : Str → Option Stat
  lines : Option (List Str)
  time : Int
  sort : Sorter
  memory : File

structure Directory where
  shname : Str
  descr : Str
  dirname : Str
  nextfileid : BitVec 32
  lastupdate : Int
  list : List File
  playlist : Bool
  fromfile : Bool

/-- `fname.size()-4`, an unsigned number. -/
def endingStart (fname : Str) : Nat :=
  if 4 ≤ fname.length then fname.length - 4 else fname.length + 2 ^ 64 - 4

def isMp3 (fname : Str) : Except Abort Bool :=
  (substr fname (endingStart fname)).map fun s =>
    let ending := ((cStr s).modify 1 Char.toLower).modify 2 Char.toLower
    strstr ending ".mp3".toList

namespace Directory

/-- The constructor. `mem` is what the memory held for `fromfile`. -/
def new (_shname _descr : Str) (_playlist mem : Bool) : Directory :=
  ⟨_shname, _descr, [], 0, 0, [], _playlist, mem⟩

/-- Add slash to end of directory name. -/
def slashed (dirname : Str) : Str :=
  if dirname.getLast? ≠ some '/' then dirname ++ ['/'] else dirname

def setDirname (d : Directory) (_dirname : Str) (_fromfile : Bool) : Except Abort Directory :=
  let d := { d with dirname := _dirname, fromfile := _fromfile }
  if d.fromfile then .ok d
  else if d.dirname = [] then .error .undefined -- `dirname[dirname.size() - 1]`
  else .ok { d with dirname := slashed d.dirname }

def setLastupdate (d : Directory) (_lastupdate : Int) : Directory :=
  { d with lastupdate := _lastupdate }

/-- `fobj.SetId(nextfileid++); list.push_back(fobj)`, for an mp3 file. -/
def pushMp3 (d : Directory) (fobj : File) (fname : Str) : Except Abort (Directory × File) :=
  (isMp3 fname).map fun mp3 =>
    if mp3 then
      let fobj := fobj.setId d.nextfileid
      ({ d with nextfileid := d.nextfileid + 1, list := d.list ++ [fobj] }, fobj)
    else (d, fobj)

def readEntry (os : Os) (s : Directory × File) (d_name : Str) : Except Abort (Directory × File) :=
  let (d, fobj) := s
  let fname := d.dirname ++ d_name
  let (found, ok) := fobj.setName os.stat fname
  if ok && decide (d.lastupdate < found.getCtime os.stat) then d.pushMp3 found fname
  else .ok (d, found)

def readLine (os : Os) (s : Directory × File) (line : Str) : Except Abort (Directory × File) :=
  let (d, fobj) := s
  let (found, ok) := fobj.setName os.stat line
  if ok then d.pushMp3 found line else .ok (d, found)

def endScan (d : Directory) (os : Os) : Directory :=
  let d := if d.playlist then { d with list := os.sort.apply d.list } else d
  { d with lastupdate := os.time }

def loadDirectory (d : Directory) (os : Os) : Except Abort Directory :=
  match os.readdir with
  | none => .error (.exit 100)
  | some names =>
    (names.foldlM (readEntry os) (d, File.new os.memory [])).map fun s => s.1.endScan os

def loadFile (d : Directory) (os : Os) : Except Abort Directory :=
  let (fobj, _) := (File.new os.memory []).setName os.stat d.dirname
  if d.lastupdate = 0 ∨ d.lastupdate < fobj.getCtime os.stat then
    let d := { d with lastupdate := fobj.getCtime os.stat, list := [] }
    match os.lines with
    | none => .ok d
    | some lines => (lines.foldlM (readLine os) (d, fobj)).map (·.1)
  else .ok d

def update (d : Directory) (os : Os) : Except Abort Directory :=
  if d.fromfile then d.loadFile os
  else if d.dirname ≠ [] then d.loadDirectory os
  else .ok d

/-- `list.front().GetCtime()`. -/
def getNextTimestamp (d : Directory) (stat : Str → Option Stat) : Except Abort Int :=
  match d.list with
  | [] => .error .undefined
  | f :: _ => .ok (f.getCtime stat)

def empty (d : Directory) (os : Os) : Except Abort (Directory × Bool) :=
  (d.update os).map fun d => (d, d.list.isEmpty)

/-- `GetSong`: `none` where it returns false. `rand` is what `get_rand` gives. -/
def getSong (d : Directory) (os : Os) (rand : Nat) : Except Abort (Directory × Option File) :=
  match d.update os with
  | .error a => .error a
  | .ok d =>
    match d.list with
    | [] => .ok (d, none)
    | front :: rest =>
      if d.playlist then .ok ({ d with list := rest }, some front)
      else
        match d.list[rand]? with
        | some f => .ok (d, some f)
        | none => .error .undefined

def getSize (d : Directory) (os : Os) : Except Abort (Directory × Nat) :=
  (d.update os).map fun d => (d, d.list.length)

/-- The files that `GetEntries` appends to `vect`. -/
def getEntries (d : Directory) (max : Nat) : List File :=
  if d.playlist then d.list.take max else []

end Directory

inductive Call where
  | update | empty | getSong (rand : Nat) | getSize

def Call.run (c : Call) (d : Directory) (os : Os) : Except Abort (Directory × Option File) :=
  match c with
  | update => (d.update os).map fun d => (d, none)
  | empty => (d.empty os).map fun r => (r.1, none)
  | getSong rand => d.getSong os rand
  | getSize => (d.getSize os).map fun r => (r.1, none)

/-! ## The loop over a directory -/

def hasMp3Ending (fname : Str) : Bool :=
  match isMp3 fname with
  | .ok b => b
  | .error _ => false

theorem isMp3_of_long {fname : Str} (h : 4 ≤ fname.length) :
    isMp3 fname = .ok (hasMp3Ending fname) := by
  unfold hasMp3Ending isMp3
  rw [endingStart, if_pos h, substr, if_pos (Nat.sub_le _ _)]
  rfl

theorem isMp3_of_short {fname : Str} (h : fname.length < 4) :
    isMp3 fname = .error .outOfRange := by
  unfold isMp3
  rw [endingStart, if_neg (by omega), substr, if_neg (by omega)]
  rfl

/-- The entry is a new song: a file with the ending of a song, changed after `lastupdate`. -/
def newSong (stat : Str → Option Stat) (lastupdate : Int) (path : Str) : Option (Str × Stat) :=
  match regular stat path with
  | some st => if lastupdate < st.st_ctime ∧ hasMp3Ending path then some (path, st) else none
  | none => none

/-- Files with consecutive ids. -/
def numbered (id : BitVec 32) : List (Str × Stat) → List File
  | [] => []
  | (path, st) :: rest => ⟨id, path, st, true⟩ :: numbered (id + 1) rest

theorem newSong_eq_some {stat : Str → Option Stat} {lastupdate : Int} {path : Str}
    {x : Str × Stat} : newSong stat lastupdate path = some x ↔ x.1 = path ∧
      regular stat path = some x.2 ∧ lastupdate < x.2.st_ctime ∧ hasMp3Ending path = true := by
  obtain ⟨p, st⟩ := x
  unfold newSong
  cases h : regular stat path with
  | none => simp
  | some st' =>
    dsimp only
    split
    · next hnew =>
      constructor
      · intro he
        cases he
        exact ⟨rfl, rfl, hnew⟩
      · rintro ⟨rfl, he, -⟩
        cases he
        rfl
    · next hnew =>
      refine iff_of_false nofun ?_
      rintro ⟨rfl, he, hnew'⟩
      cases he
      exact hnew hnew'

theorem length_numbered (id : BitVec 32) (l : List (Str × Stat)) :
    (numbered id l).length = l.length := by
  induction l generalizing id with
  | nil => rfl
  | cons x l ih => exact congrArg (· + 1) (ih (id + 1))

theorem map_numbered (id : BitVec 32) (l : List (Str × Stat)) :
    (numbered id l).map (fun f => (f.name, f.stat_buf)) = l := by
  induction l generalizing id with
  | nil => rfl
  | cons x l ih => exact congrArg (x :: ·) (ih (id + 1))

theorem valid_of_mem_numbered {id : BitVec 32} {l : List (Str × Stat)} {f : File}
    (h : f ∈ numbered id l) : f.stat_valid = true := by
  induction l generalizing id with
  | nil => cases h
  | cons x l ih =>
    rcases List.mem_cons.mp h with rfl | h
    · rfl
    · exact ih h

theorem ids_numbered (id : BitVec 32) (l : List (Str × Stat)) :
    (numbered id l).map (·.id) = (List.range l.length).map fun k => id + BitVec.ofNat 32 k := by
  induction l generalizing id with
  | nil => rfl
  | cons x l ih =>
    show id :: (numbered (id + 1) l).map (·.id) = _
    rw [ih, List.length_cons, List.range_succ_eq_map, List.map_cons, List.map_map]
    congr 1
    · exact (BitVec.add_zero id).symm
    · refine List.map_congr_left fun k _ => ?_
      show id + 1 + BitVec.ofNat 32 k = id + BitVec.ofNat 32 (k + 1)
      rw [BitVec.ofNat_add, BitVec.add_assoc, BitVec.add_comm 1]
      rfl

namespace Directory

def found (d : Directory) (stat : Str → Option Stat) (names : List Str) : List (Str × Stat) :=
  names.filterMap fun n => newSong stat d.lastupdate (d.dirname ++ n)

theorem nodup_found (d : Directory) (stat : Str → Option Stat) {names : List Str}
    (once : names.Nodup) : ((d.found stat names).map (·.1)).Nodup := by
  unfold found
  rw [List.map_filterMap]
  refine once.filterMap fun m n path hm hn => ?_
  obtain ⟨x, hx, rfl⟩ := Option.map_eq_some_iff.mp hm
  obtain ⟨y, hy, he⟩ := Option.map_eq_some_iff.mp hn
  have hpath : d.dirname ++ m = d.dirname ++ n := by
    rw [← (newSong_eq_some.mp hx).1, ← (newSong_eq_some.mp hy).1, he]
  exact List.append_cancel_left hpath

def push (d : Directory) (l : List (Str × Stat)) : Directory :=
  { d with
    nextfileid := d.nextfileid + BitVec.ofNat 32 l.length
    list := d.list ++ numbered d.nextfileid l }

theorem push_nil (d : Directory) : d.push [] = d := by
  unfold push
  rw [numbered, List.append_nil]
  congr 1
  exact BitVec.add_zero _

theorem push_cons (d : Directory) (x : Str × Stat) (l : List (Str × Stat)) :
    (d.push [x]).push l = d.push (x :: l) := by
  unfold push
  congr 1
  · show d.nextfileid + 1 + BitVec.ofNat 32 l.length = _
    rw [List.length_cons, BitVec.ofNat_add, BitVec.add_assoc, BitVec.add_comm (BitVec.ofNat 32 _)]
    rfl
  · exact (List.append_assoc _ _ _)

/-- No new file has a path too short for the test of its ending. -/
def Long (d : Directory) (stat : Str → Option Stat) (path : Str) : Prop :=
  ∀ st, regular stat path = some st → d.lastupdate < st.st_ctime → 4 ≤ path.length

theorem readEntry_eq {os : Os} {d : Directory} (fobj : File) {n : Str}
    (hlong : d.Long os.stat (d.dirname ++ n)) : ∃ fobj', readEntry os (d, fobj) n =
      .ok (d.push (newSong os.stat d.lastupdate (d.dirname ++ n)).toList, fobj') := by
  unfold readEntry newSong
  dsimp only
  cases h : regular os.stat (d.dirname ++ n) with
  | none =>
    rw [File.setName_of_not_regular h]
    exact ⟨_, congrArg (fun d' => Except.ok (d', _)) (push_nil d).symm⟩
  | some st =>
    rw [File.setName_of_regular h]
    dsimp only
    rw [File.getCtime_of_valid rfl]
    by_cases hnew : d.lastupdate < st.st_ctime
    · rw [if_pos (by simpa using hnew), pushMp3, isMp3_of_long (hlong st h hnew)]
      cases hmp3 : hasMp3Ending (d.dirname ++ n) with
      | false =>
        rw [if_neg (by simp)]
        exact ⟨⟨fobj.id, d.dirname ++ n, st, true⟩,
          congrArg (fun d' => Except.ok (d', _)) (push_nil d).symm⟩
      | true =>
        rw [if_pos ⟨hnew, rfl⟩]
        exact ⟨⟨d.nextfileid, d.dirname ++ n, st, true⟩, rfl⟩
    · rw [if_neg (by simpa using hnew), if_neg (fun h => hnew h.1)]
      exact ⟨_, congrArg (fun d' => Except.ok (d', _)) (push_nil d).symm⟩

theorem long_of_readEntry {os : Os} {d : Directory} {fobj : File} {n : Str} {r : Directory × File}
    (h : readEntry os (d, fobj) n = .ok r) : d.Long os.stat (d.dirname ++ n) := by
  intro st hst hnew
  by_contra hshort
  unfold readEntry at h
  dsimp only at h
  rw [File.setName_of_regular hst] at h
  dsimp only at h
  rw [File.getCtime_of_valid rfl, if_pos (by simpa using hnew), pushMp3,
    isMp3_of_short (not_le.mp hshort)] at h
  cases h

theorem scan_eq {os : Os} {d : Directory} (fobj : File) {names : List Str}
    (hlong : ∀ n ∈ names, d.Long os.stat (d.dirname ++ n)) : ∃ fobj',
      names.foldlM (readEntry os) (d, fobj) = .ok (d.push (d.found os.stat names), fobj') := by
  induction names generalizing d fobj with
  | nil => exact ⟨fobj, congrArg (fun d' => Except.ok (d', fobj)) (push_nil d).symm⟩
  | cons n names ih =>
    obtain ⟨hn, hrest⟩ := List.forall_mem_cons.mp hlong
    obtain ⟨f₁, h₁⟩ := readEntry_eq fobj hn
    obtain ⟨f₂, h₂⟩ :=
      ih (d := d.push (newSong os.stat d.lastupdate (d.dirname ++ n)).toList) f₁ hrest
    refine ⟨f₂, ?_⟩
    rw [List.foldlM_cons, h₁]
    refine h₂.trans (congrArg (fun d' => Except.ok (d', f₂)) ?_)
    show (d.push _).push (d.found os.stat names) = _
    unfold found
    rw [List.filterMap_cons]
    cases newSong os.stat d.lastupdate (d.dirname ++ n) with
    | none => rw [Option.toList_none, push_nil]
    | some x => rw [Option.toList_some, push_cons]

theorem long_of_scan {os : Os} {d : Directory} {fobj : File} {names : List Str}
    {r : Directory × File} (h : names.foldlM (readEntry os) (d, fobj) = .ok r) :
    ∀ n ∈ names, d.Long os.stat (d.dirname ++ n) := by
  induction names generalizing d fobj with
  | nil => exact nofun
  | cons n names ih =>
    rw [List.foldlM_cons] at h
    cases hn : readEntry os (d, fobj) n with
    | error a =>
      rw [hn] at h
      cases h
    | ok s =>
      have hlong := long_of_readEntry hn
      obtain ⟨f₁, h₁⟩ := readEntry_eq fobj hlong
      rw [h₁] at h
      change names.foldlM (readEntry os) (d.push _, f₁) = .ok r at h
      have hrest := ih (d := d.push _) h
      exact List.forall_mem_cons.mpr ⟨hlong, hrest⟩

def scanned (d : Directory) (os : Os) (names : List Str) : Directory :=
  { d.push (d.found os.stat names) with
    list := os.sort.apply (d.list ++ numbered d.nextfileid (d.found os.stat names))
    lastupdate := os.time }

theorem mem_list_scanned {d : Directory} {os : Os} {names : List Str} {f : File} :
    f ∈ (d.scanned os names).list ↔
      f ∈ d.list ∨ f ∈ numbered d.nextfileid (d.found os.stat names) :=
  (os.sort.perm _).mem_iff.trans List.mem_append

theorem path_mem_scanned {d : Directory} {os : Os} {names : List Str} {path : Str} :
    path ∈ (d.scanned os names).list.map File.name ↔ path ∈ d.list.map File.name ∨
      ∃ n ∈ names, path = d.dirname ++ n ∧ (newSong os.stat d.lastupdate path).isSome := by
  have hnames : (numbered d.nextfileid (d.found os.stat names)).map File.name =
      (d.found os.stat names).map (·.1) := by
    conv_rhs => rw [← map_numbered d.nextfileid (d.found os.stat names), List.map_map]
    rfl
  refine ((os.sort.perm _).map File.name).mem_iff.trans ?_
  rw [List.map_append, List.mem_append, hnames]
  refine or_congr_right ?_
  constructor
  · intro h
    obtain ⟨x, hx, rfl⟩ := List.mem_map.mp h
    obtain ⟨n, hn, hnew⟩ := List.mem_filterMap.mp hx
    have hpath := (newSong_eq_some.mp hnew).1
    exact ⟨n, hn, hpath, by rw [hpath, hnew]; rfl⟩
  · rintro ⟨n, hn, rfl, hnew⟩
    obtain ⟨x, hx⟩ := Option.isSome_iff_exists.mp hnew
    exact List.mem_map.mpr ⟨x, List.mem_filterMap.mpr ⟨n, hn, hx⟩, (newSong_eq_some.mp hx).1⟩

section Playlist
variable {d : Directory} {os : Os} {names : List Str} (hplay : d.playlist = true)
  (hmode : d.fromfile = false) (hdir : d.dirname ≠ []) (hopen : os.readdir = some names)
include hmode hdir hopen

theorem update_eq : d.update os =
    (names.foldlM (readEntry os) (d, File.new os.memory [])).map fun s => s.1.endScan os := by
  rw [update, hmode, if_neg Bool.false_ne_true, if_pos hdir, loadDirectory, hopen]

include hplay

/-- **A call of `Update` on a playlist in directory mode.** -/
theorem update_playlist (hlong : ∀ n ∈ names, d.Long os.stat (d.dirname ++ n)) :
    d.update os = .ok (d.scanned os names) := by
  obtain ⟨fobj', h⟩ := scan_eq (File.new os.memory []) hlong
  rw [update_eq hmode hdir hopen, h]
  show Except.ok ((d.push _).endScan os) = _
  rw [endScan, if_pos (show (d.push _).playlist = true from hplay)]
  rfl

omit hplay in
/-- A call that returns has found no new file with a path that is too short. -/
theorem long_of_update {d' : Directory} (h : d.update os = .ok d') :
    ∀ n ∈ names, d.Long os.stat (d.dirname ++ n) := by
  rw [update_eq hmode hdir hopen] at h
  obtain ⟨r, hscan, -⟩ := map_eq_ok.mp h
  exact long_of_scan hscan

end Playlist

end Directory

namespace Call

/-- A call on a playlist hands out the front of the list, or nothing. -/
theorem run_eq {d d' : Directory} {os : Os} (c : Call) (hplay : d'.playlist = true)
    (h : d.update os = .ok d') : ∃ song rest, song.toList ++ rest = d'.list ∧
      c.run d os = .ok ({ d' with list := rest }, song) := by
  cases c with
  | update => exact ⟨none, d'.list, rfl, by rw [run, h]; rfl⟩
  | empty => exact ⟨none, d'.list, rfl, by rw [run, Directory.empty, h]; rfl⟩
  | getSize => exact ⟨none, d'.list, rfl, by rw [run, Directory.getSize, h]; rfl⟩
  | getSong rand =>
    rw [run, Directory.getSong, h]
    dsimp only
    cases hl : d'.list with
    | nil =>
      refine ⟨none, [], rfl, ?_⟩
      show Except.ok (d', none) = _
      rw [← hl]
    | cons front rest => exact ⟨some front, rest, rfl, if_pos hplay⟩

theorem update_of_run {d : Directory} {os : Os} {c : Call} {r : Directory × Option File}
    (h : c.run d os = .ok r) : ∃ d', d.update os = .ok d' := by
  cases hu : d.update os with
  | ok d' => exact ⟨d', rfl⟩
  | error a =>
    cases c <;>
      simp [run, Directory.empty, Directory.getSong, Directory.getSize, hu, Except.map] at h

end Call

end NetDJ.Daemon
