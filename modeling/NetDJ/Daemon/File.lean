import NetDJ.Text

/-!
# `File.cc`: a file and what `stat` said about it

* `File.updateStat`, `File.setName`, `File.getCtime` : the calls of `stat`, passed as the function
  `stat`;
* `regular` : what `update_stat` accepts;
* `File.getFilename`, `File.getFilenameNoType` : parts of the path.
-/

namespace NetDJ.Daemon

/-- The part of `struct stat` that a `Directory` reads. -/
structure Stat where
  isDir : Bool
  st_ctime : Int
  deriving DecidableEq

/-- `memset(&stat_buf, 0, sizeof(stat_buf))`. -/
def Stat.zero : Stat := ⟨false, 0⟩

structure File where
  id : BitVec 32
  name : Str
  stat_buf : Stat
  stat_valid : Bool
  deriving DecidableEq

/-- What `stat` says about a path that is there and no directory. -/
def regular (stat : Str → Option Stat) (path : Str) : Option Stat :=
  if path = [] then none else (stat path).filter (!·.isDir)

theorem stat_of_regular {stat : Str → Option Stat} {path : Str} {st : Stat}
    (h : regular stat path = some st) : stat path = some st := by
  unfold regular at h
  split at h
  · cases h
  · exact (Option.filter_eq_some_iff.mp h).1

namespace File

variable (stat : Str → Option Stat)

/-- The constructors, on an object whose memory held `memory`. -/
def new (memory : File) (_name : Str) : File := { memory with name := _name }

def updateStat (f : File) : File × Bool :=
  match regular stat f.name with
  | some st => ({ f with stat_buf := st, stat_valid := true }, true)
  | none => ({ f with stat_buf := .zero, stat_valid := false }, false)

def checkStat (f : File) : File := if f.stat_valid then f else (f.updateStat stat).1

def setId (f : File) (_id : BitVec 32) : File := { f with id := _id }

def exists_ (f : File) : File × Bool := f.updateStat stat

def getCtime (f : File) : Int := (f.checkStat stat).stat_buf.st_ctime

def setName (f : File) (_name : Str) : File × Bool := { f with name := _name }.updateStat stat

def rename (sys : Str → Str → Bool) (f : File) (newpath : Str) : File × Bool :=
  if sys f.name newpath then ({ f with name := newpath }, true) else (f, false)

/-- What stands behind the last slash. -/
def getFilename (f : File) : Str := (f.name.reverse.takeWhile (· ≠ '/')).reverse

/-- The file name up to its last dot. -/
def getFilenameNoType (f : File) : Str :=
  let tmpstr := f.getFilename
  if '.' ∈ tmpstr then (tmpstr.reverse.dropWhile (· ≠ '.')).tail.reverse else tmpstr

variable {stat}

theorem setName_of_regular {f : File} {path : Str} {st : Stat} (h : regular stat path = some st) :
    f.setName stat path = (⟨f.id, path, st, true⟩, true) := by
  unfold setName updateStat
  dsimp only
  rw [h]

theorem setName_of_not_regular {f : File} {path : Str} (h : regular stat path = none) :
    f.setName stat path = (⟨f.id, path, .zero, false⟩, false) := by
  unfold setName updateStat
  dsimp only
  rw [h]

theorem updateStat_eq (f : File) :
    (f.updateStat stat).1.name = f.name ∧ (f.updateStat stat).2 = (regular stat f.name).isSome := by
  unfold updateStat
  cases regular stat f.name with
  | none => exact ⟨rfl, rfl⟩
  | some st => exact ⟨rfl, rfl⟩

theorem getCtime_of_valid {f : File} (h : f.stat_valid = true) :
    f.getCtime stat = f.stat_buf.st_ctime := by
  unfold getCtime checkStat
  rw [if_pos h]

end File

end NetDJ.Daemon
