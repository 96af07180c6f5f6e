import Mathlib.Data.List.Induction
import NetDJ.Daemon.File

/-!
# `main.cc`: the current song

A song is deleted two songs later, so that nobody deletes what is being played.

* `TCurrentSong.internalSet`, `TCurrentSong.renameCurrent` : the calls;
* `Turn`, `turns` : the songs in the order of their calls, with their last names and flags;
* `Tracks`, `tracks_runCalls` : the two slots hold the last two turns, and what came before has been
  deleted if its flag said so;
* `deleted_eq` : the deletion protocol.
-/

namespace NetDJ.Daemon

structure TCurrentSong where
  currdelete : Bool
  currfile : File
  prevfile : File
  prevdelete : Bool

namespace TCurrentSong

/-- `InternalSet`, with the file on which it calls `Delete`. -/
def internalSet (s : TCurrentSong) (fil : File) (del : Bool) : TCurrentSong × Option File :=
  (⟨del, fil, s.currfile, s.currdelete⟩, if s.prevdelete then some s.prevfile else none)

def renameCurrent (s : TCurrentSong) (sys : Str → Str → Bool) (newpath : Str) (del : Bool) :
    TCurrentSong × Bool :=
  let (currfile, res) := s.currfile.rename sys newpath
  if res then ({ s with currfile := currfile, currdelete := del }, res) else (s, res)

theorem renameCurrent_works {s : TCurrentSong} {sys : Str → Str → Bool} {newpath : Str}
    (h : sys s.currfile.name newpath = true) (del : Bool) : s.renameCurrent sys newpath del =
      ({ s with currfile := { s.currfile with name := newpath }, currdelete := del }, true) := by
  unfold renameCurrent File.rename
  rw [if_pos h]
  rfl

theorem renameCurrent_fails {s : TCurrentSong} {sys : Str → Str → Bool} {newpath : Str}
    (h : sys s.currfile.name newpath = false) (del : Bool) :
    s.renameCurrent sys newpath del = (s, false) := by
  unfold renameCurrent File.rename
  rw [if_neg (by rw [h]; exact Bool.false_ne_true)]
  rfl

/-- The object at the start of the program, with what the memory held for its files. -/
def init (memory : File) : TCurrentSong :=
  ⟨false, File.new memory [], File.new memory [], false⟩

end TCurrentSong

/-- The calls from outside. `renamed` says whether `rename` works; on the empty name it does not. -/
inductive SongCall where
  | set (fil : File) (del : Bool)
  | clear (memory : File)
  | renameCurrent (newpath : Str) (del renamed : Bool)

/-- The object, and the files on which `Delete` has been called. -/
structure SongRun where
  song : TCurrentSong
  deleted : List File

namespace SongRun

def init (memory : File) : SongRun := ⟨.init memory, []⟩

def ofSet (s : SongRun) (r : TCurrentSong × Option File) : SongRun :=
  ⟨r.1, s.deleted ++ r.2.toList⟩

def call (s : SongRun) : SongCall → SongRun
  | .set fil del => s.ofSet (s.song.internalSet fil del)
  | .clear memory => s.ofSet (s.song.internalSet (File.new memory []) false)
  | .renameCurrent newpath del renamed =>
    { s with song := (s.song.renameCurrent (fun name _ => renamed && name ≠ []) newpath del).1 }

def runCalls (memory : File) (calls : List SongCall) : SongRun := calls.foldl call (init memory)

end SongRun

/-! ## What the calls mean -/

/-- A song from its `Set` on: its name and whether it is to be deleted. `Clear` begins a turn of no
song. -/
structure Turn where
  name : Str
  flag : Bool
  deriving DecidableEq

/-- The turns after one more call, the current one in front. A rename that works changes the current
turn, unless there is no song. -/
def turn (ts : List Turn) : SongCall → List Turn
  | .set fil del => ⟨fil.name, del⟩ :: ts
  | .clear _ => ⟨[], false⟩ :: ts
  | .renameCurrent newpath del renamed =>
    match ts with
    | t :: rest => if renamed ∧ t.name ≠ [] then ⟨newpath, del⟩ :: rest else ts
    | [] => []

def turns (calls : List SongCall) : List Turn := calls.foldl turn []

def Turn.none : Turn := ⟨[], false⟩

/-! ## The two slots -/

/-- The slots hold the last two turns; those before have been deleted if their flags said so. -/
structure Tracks (s : SongRun) (ts : List Turn) : Prop where
  curr : (⟨s.song.currfile.name, s.song.currdelete⟩ : Turn) = ts.head?.getD .none
  prev : (⟨s.song.prevfile.name, s.song.prevdelete⟩ : Turn) = (ts.drop 1).head?.getD .none
  deleted : s.deleted.map File.name = ((ts.drop 2).filter (·.flag)).reverse.map (·.name)

theorem Tracks.init (memory : File) : Tracks (SongRun.init memory) [] := ⟨rfl, rfl, rfl⟩

/-- The file that the next call of `InternalSet` deletes is the turn before the current one, if its
flag says so. -/
theorem Tracks.next {s : SongRun} {ts : List Turn} (hs : Tracks s ts) (fil : File) (del : Bool) :
    (s.song.internalSet fil del).2.toList.map File.name =
      ((ts.drop 1).head?.toList.filter (·.flag)).map (·.name) := by
  have hname := congrArg Turn.name hs.prev
  have hflag := congrArg Turn.flag hs.prev
  unfold TCurrentSong.internalSet
  dsimp only at hname hflag ⊢
  rw [hflag]
  cases hd : (ts.drop 1).head? with
  | none => rfl
  | some t =>
    rw [hd] at hname
    cases hf : t.flag with
    | false => simp [hf]
    | true => simp [hf, hname]

theorem Tracks.internalSet {s : SongRun} {ts : List Turn} (hs : Tracks s ts) (fil : File)
    (del : Bool) : Tracks (s.ofSet (s.song.internalSet fil del)) (⟨fil.name, del⟩ :: ts) := by
  refine ⟨rfl, hs.curr, ?_⟩
  have hdrop : ts.drop 1 = (ts.drop 1).head?.toList ++ ts.drop 2 := by
    match ts with
    | [] => rfl
    | [_] => rfl
    | _ :: _ :: _ => rfl
  rw [List.drop_succ_cons, hdrop, List.filter_append, List.reverse_append, List.map_append,
    ← hs.deleted]
  show (s.deleted ++ _).map File.name = _
  rw [List.map_append, hs.next]
  congr 1
  cases (ts.drop 1).head? with
  | none => rfl
  | some t =>
    cases hflag : t.flag <;> simp [hflag]

theorem SongRun.rename_fails (s : SongRun) {newpath : Str} {del renamed : Bool}
    (h : ¬ (renamed = true ∧ s.song.currfile.name ≠ [])) :
    s.call (.renameCurrent newpath del renamed) = s := by
  rw [call, TCurrentSong.renameCurrent_fails (by simpa using h)]

theorem Tracks.call {s : SongRun} {ts : List Turn} (hs : Tracks s ts) (c : SongCall) :
    Tracks (s.call c) (turn ts c) := by
  cases c with
  | set fil del => exact hs.internalSet fil del
  | clear memory => exact hs.internalSet (File.new memory []) false
  | renameCurrent newpath del renamed =>
    have hname := congrArg Turn.name hs.curr
    by_cases h : renamed = true ∧ s.song.currfile.name ≠ []
    · cases ts with
      | nil => exact absurd hname h.2
      | cons t rest =>
        rw [turn, if_pos ⟨h.1, fun he => h.2 (hname.trans he)⟩, SongRun.call,
          TCurrentSong.renameCurrent_works (by simpa using h)]
        exact ⟨rfl, hs.prev, hs.deleted⟩
    · rw [s.rename_fails h]
      cases ts with
      | nil => exact hs
      | cons t rest =>
        rw [turn, if_neg fun ht => h ⟨ht.1, fun he => ht.2 (hname.symm.trans he)⟩]
        exact hs

theorem tracks_runCalls (memory : File) (calls : List SongCall) :
    Tracks (SongRun.runCalls memory calls) (turns calls) := by
  induction calls using List.reverseRecOn with
  | nil => exact Tracks.init memory
  | append_singleton calls c ih =>
    unfold SongRun.runCalls turns
    rw [List.foldl_append, List.foldl_append]
    exact ih.call c

/-- **The deletion protocol.** `Delete` has been called on the turns before the last two whose flags
say so, in their order and under their last names. A call of `Set` or `Clear` deletes the turn
before the current one if its flag says so, and a rename that fails changes nothing. -/
theorem deleted_eq (memory : File) (calls : List SongCall) :
    let s := SongRun.runCalls memory calls
    s.deleted.map File.name =
        (((turns calls).drop 2).reverse.filter (·.flag)).map (·.name) ∧
      (∀ fil del, (s.song.internalSet fil del).2.toList.map File.name =
        (((turns calls).drop 1).head?.toList.filter (·.flag)).map (·.name)) ∧
      ∀ newpath del renamed, ¬ (renamed = true ∧ s.song.currfile.name ≠ []) →
        s.call (.renameCurrent newpath del renamed) = s := by
  have hs := tracks_runCalls memory calls
  refine ⟨?_, hs.next, fun newpath del renamed h => SongRun.rename_fails _ h⟩
  rw [List.filter_reverse]
  exact hs.deleted

end NetDJ.Daemon
