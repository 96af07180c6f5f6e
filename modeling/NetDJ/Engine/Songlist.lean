import Mathlib.Algebra.Order.Ring.Int
import Mathlib.Order.WithBot
import NetDJ.Engine.Report

/-!
# `SongFile.cpp`, `CollectionBase.cpp`, `Collection_Songlist.cpp`: songs and lists of songs

* `QDateTime` : whole seconds, with the null date below every date;
* `SongFile.new` : the constructor, which leaves `mDeleteAfterPlay` as the memory had it;
* `CollectionSonglist.getNextSong` : the front of a queue, or a random song of a list.
-/

namespace NetDJ.Engine

/-! ## Dates -/

/-- A date in whole seconds, or the null date, which lies below every date. -/
def QDateTime := WithBot Int

namespace QDateTime

instance : LinearOrder QDateTime := @WithBot.linearOrder Int Int.instLinearOrder

def null : QDateTime := (⊥ : WithBot Int)

def setTime_t (secs : Int) : QDateTime := WithBot.some secs

instance : Coe Int QDateTime := ⟨setTime_t⟩

/-- `addSecs`: a null date stays null. -/
def addSecs (d : QDateTime) (nsecs : Int) : QDateTime := WithBot.map (· + nsecs) d

theorem null_le (d : QDateTime) : null ≤ d := @bot_le (WithBot Int) _ _ d

theorem setTime_t_le {a b : Int} : setTime_t a ≤ setTime_t b ↔ a ≤ b := WithBot.coe_le_coe

theorem setTime_t_lt {a b : Int} : setTime_t a < setTime_t b ↔ a < b := WithBot.coe_lt_coe

theorem le_addSecs (d : QDateTime) : d ≤ d.addSecs 1 := by
  induction d using WithBot.recBotCoe with
  | bot => exact le_refl null
  | coe a =>
    show setTime_t a ≤ setTime_t (a + 1)
    rw [setTime_t_le]
    omega

theorem lt_addSecs_of_le {secs : Int} {d : QDateTime} (h : setTime_t secs ≤ d) :
    setTime_t secs < d.addSecs 1 := by
  induction d using WithBot.recBotCoe with
  | bot => exact absurd h (WithBot.not_coe_le_bot secs)
  | coe a =>
    show setTime_t secs < setTime_t (a + 1)
    rw [setTime_t_lt]
    have : secs ≤ a := setTime_t_le.mp h
    omega

end QDateTime

def dateOf {α : Type} (x : α × Int) : QDateTime := x.2

/-! ## Songs -/

/-- A song. `memory` is what the object's memory held where `mDeleteAfterPlay` is, before the
constructor ran; no code reads it. -/
structure SongFile where
  mFilename : Str
  mUNID : BitVec 32
  mDeleteAfterPlay : Bool
  memory : Bool
  deriving DecidableEq

namespace SongFile

/-- The constructor does not assign `mDeleteAfterPlay`. -/
def new (memory : Bool) (aName : Str) (aUNID : BitVec 32) : SongFile :=
  ⟨aName, aUNID, memory, memory⟩

def setDeleteAfterPlay (s : SongFile) (aVal : Bool) : SongFile :=
  { s with mDeleteAfterPlay := aVal }

end SongFile

/-! ## Lists of songs -/

structure CollectionSonglist where
  mIdentifier : Str
  mDescription : Str
  mNextUNID : BitVec 32
  mSonglist : List SongFile
  mIsQueue : Bool
  deriving DecidableEq

namespace CollectionSonglist

def new (aId aDescr : Str) (aIsQ : Bool) : CollectionSonglist := ⟨aId, aDescr, 0, [], aIsQ⟩

def getNewUNID (c : CollectionSonglist) : CollectionSonglist × BitVec 32 :=
  ({ c with mNextUNID := c.mNextUNID + 1 }, c.mNextUNID + 1)

/-- `GetNextSong`. `rand` is what `get_rand` gives. -/
def getNextSong (c : CollectionSonglist) (rand : Nat) :
    CollectionSonglist × Except Failure SongFile :=
  match c.mSonglist with
  | [] => (c, .error (.thrown (.emptyCollection "Cannot get a song, collection is empty".toList)))
  | sng :: rest =>
    if c.mIsQueue then ({ c with mSonglist := rest }, .ok sng)
    else
      match c.mSonglist[rand]? with
      | some sng => (c, .ok sng)
      | none => (c, .error .undefined)

theorem getNextSong_nil {c : CollectionSonglist} (h : c.mSonglist = []) (rand : Nat) :
    c.getNextSong rand =
      (c, .error (.thrown (.emptyCollection "Cannot get a song, collection is empty".toList))) := by
  unfold getNextSong
  rw [h]

theorem getNextSong_front {c : CollectionSonglist} {sng : SongFile} {rest : List SongFile}
    (hq : c.mIsQueue = true) (h : c.mSonglist = sng :: rest) (rand : Nat) :
    c.getNextSong rand = ({ c with mSonglist := rest }, .ok sng) := by
  unfold getNextSong
  rw [h]
  exact if_pos hq

theorem getNextSong_random {c : CollectionSonglist} (hq : c.mIsQueue = false) (rand : Nat) :
    (c.getNextSong rand).1 = c := by
  unfold getNextSong
  split
  · rfl
  · rw [if_neg (by rw [hq]; exact Bool.false_ne_true)]
    split <;> rfl

/-- A song is handed out if the list is not empty and, where it is no queue, the place that `get_rand`
gives is on it. -/
theorem getNextSong_ok_iff (c : CollectionSonglist) (rand : Nat) :
    (∃ sng, (c.getNextSong rand).2 = .ok sng) ↔
      c.mSonglist ≠ [] ∧ (c.mIsQueue = true ∨ rand < c.mSonglist.length) := by
  unfold getNextSong
  cases hl : c.mSonglist with
  | nil => simp
  | cons front rest =>
    by_cases hq : c.mIsQueue = true
    · simp [hq]
    · have hplace : (∃ sng, (front :: rest)[rand]? = some sng) ↔ rand < (front :: rest).length := by
        rw [← Option.isSome_iff_exists, isSome_getElem?]
      dsimp only
      rw [if_neg hq, and_iff_right (List.cons_ne_nil front rest), or_iff_right hq, ← hplace]
      cases (front :: rest)[rand]? <;> simp

theorem getNextSong_ne_emptyCollection {c : CollectionSonglist} (h : c.mSonglist ≠ []) (rand : Nat)
    (d : Str) : (c.getNextSong rand).2 ≠ .error (.thrown (.emptyCollection d)) := by
  unfold getNextSong
  split
  · next hl => exact absurd hl h
  · split
    · rintro ⟨⟩
    · split <;> rintro ⟨⟩

theorem mem_of_getNextSong {c c' : CollectionSonglist} {rand : Nat} {sng : SongFile}
    (h : c.getNextSong rand = (c', .ok sng)) : sng ∈ c.mSonglist := by
  unfold getNextSong at h
  split at h
  · cases h
  · next front rest hl =>
    split at h
    · cases h
      rw [hl]
      exact List.mem_cons_self
    · split at h
      · next hr =>
        cases h
        exact List.mem_of_getElem? hr
      · cases h

theorem getNextSong_mIsQueue (c : CollectionSonglist) (rand : Nat) :
    (c.getNextSong rand).1.mIsQueue = c.mIsQueue := by
  unfold getNextSong
  split
  · rfl
  · split
    · rfl
    · split <;> rfl

theorem getNextSong_subset (c : CollectionSonglist) (rand : Nat) :
    (c.getNextSong rand).1.mSonglist ⊆ c.mSonglist := by
  by_cases hq : c.mIsQueue = true
  · cases h : c.mSonglist with
    | nil =>
      rw [getNextSong_nil h, h]
      exact List.Subset.refl _
    | cons sng rest =>
      rw [getNextSong_front hq h]
      exact List.subset_cons_self sng rest
  · rw [getNextSong_random (Bool.eq_false_of_not_eq_true hq)]
    exact List.Subset.refl _

end CollectionSonglist

end NetDJ.Engine
