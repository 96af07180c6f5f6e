import NetDJ.Lib.Machine
import NetDJ.Engine.Collections

/-!
# `CollectionBase.cpp`: a collection is listed while it is played

`AsXML` asks for `Size()` and `GetSong(i)` under the mutex, each call for itself, and the player may
add, take and swap songs between them.

* `CollectionSonglist.locked`, `update_locked` : the sections of `Update` and `GetNextSong` that hold
  the mutex;
* `XmlListing.step` : the calls of `AsXML` between such sections;
* `Safe` : no song outside the list is asked for, and the size that is written is the number of
  entries;
* `Steady` : what the player does to the length of the list behind the `size` element;
* `ok_of_run` : a listing whose steps are steady keeps to the size that it has written;
* `Off`, `off_of_run` : a section that is not steady cannot be made good by `AsXML`;
* `safe_of_steady` : a listing is safe if its steps are steady, and not if one section is not and
  no other changes the length.
-/

namespace NetDJ.Engine

inductive Locked where
  /-- `mSonglist.push_back(newsong)` in the `Update` of a queue. -/
  | push_back (newsong : SongFile)
  /-- `mSonglist.swap(newlist)` at the end of the `Update` of another list. -/
  | swap (newlist : List SongFile)
  | getNextSong (rand : Nat)

namespace CollectionSonglist

def locked (c : CollectionSonglist) : Locked → Option CollectionSonglist
  | .push_back newsong =>
    if c.mIsQueue then some { c with mSonglist := c.mSonglist ++ [newsong] } else none
  | .swap newlist => if c.mIsQueue then none else some { c with mSonglist := newlist }
  | .getNextSong rand => some (c.getNextSong rand).1

def size (c : CollectionSonglist) : Int := (BitVec.ofNat 32 c.mSonglist.length).toInt

/-- `GetSong`; outside the list the standard says nothing. -/
def getSong (c : CollectionSonglist) (aPos : Nat) : Option SongFile := c.mSonglist[aPos]?

theorem run_push_back {c : CollectionSonglist} (hq : c.mIsQueue = true) (songs : List SongFile) :
    Machine.run locked c (songs.map .push_back) =
      some { c with mSonglist := c.mSonglist ++ songs } := by
  induction songs generalizing c with
  | nil =>
    rw [List.append_nil]
    rfl
  | cons song songs ih =>
    rw [List.map_cons, Machine.run_cons, locked, if_pos hq, Option.bind_some,
      ih (c := { c with mSonglist := c.mSonglist ++ [song] }) hq, List.append_assoc]
    rfl

/-- What `Update` makes of the list of a directory is the work of locked sections. -/
theorem update_locked {c c' : CollectionSonglistDir} {list : Option (List FileInfo)}
    {passes : List Pass} {new : List (SongFile × Int)}
    (h : c.update list passes = some (c', .ok new)) :
    ∃ ls base, Machine.run locked c.toCollectionSonglist ls = some base ∧
      base.mSonglist = c'.mSonglist := by
  cases hq : c.mIsQueue with
  | true =>
    obtain ⟨dated, -, hup⟩ := CollectionSonglistDir.update_queue hq h
    exact ⟨_, _, run_push_back hq (new.map (·.1)), hup.songs.symm⟩
  | false =>
    refine ⟨[.swap c'.mSonglist], { c.toCollectionSonglist with mSonglist := c'.mSonglist }, ?_, rfl⟩
    rw [Machine.run_cons, locked, if_neg (by rw [hq]; exact Bool.false_ne_true)]
    rfl

end CollectionSonglist

/-- Where `AsXML` is: in its own `Update`, before the `Size()` that is written, before the test or
the `GetSong` of position `i`, or at one of its ends. -/
inductive ListPc where
  | update
  | size
  | test (i : Nat)
  | get (i : Nat)
  | done
  | thrown
  | undefined
  deriving DecidableEq

/-- A collection and a call of `AsXML` on it: the number in the `size` element and the `entry`
elements, with the positions of their songs. `got` holds the positions `GetSong` was called with and
the lengths of the list at these moments. -/
structure XmlListing where
  col : CollectionSonglist
  pc : ListPc
  size : Int
  entries : List (Nat × SongFile)
  got : List (Nat × Nat)

namespace XmlListing

def start (UPDATE_BEFORE_TRANSMIT : Bool) (col : CollectionSonglist) : XmlListing :=
  ⟨col, if UPDATE_BEFORE_TRANSMIT then .update else .size, 0, [], []⟩

inductive Act where
  /-- A section of the player thread, or of the `Update` at the start of `AsXML`. -/
  | locked (l : Locked)
  /-- The end of that `Update`. -/
  | updated (throws : Bool)
  | size
  | test
  | get

def step (s : XmlListing) : Act → Option XmlListing
  | .locked l => (s.col.locked l).map fun col => { s with col := col }
  | .updated throws =>
    if s.pc = .update then some { s with pc := if throws then .thrown else .size } else none
  | .size => if s.pc = .size then some { s with size := s.col.size, pc := .test 0 } else none
  | .test =>
    match s.pc with
    | .test i => some { s with pc := if (i : Int) < s.col.size then .get i else .done }
    | _ => none
  | .get =>
    match s.pc with
    | .get i =>
      let got := s.got ++ [(i, s.col.mSonglist.length)]
      match s.col.getSong i with
      | some song =>
        some { s with got := got, entries := s.entries ++ [(i, song)], pc := .test (i + 1) }
      | none => some { s with got := got, pc := .undefined }
    | _ => none

theorem step_test {s s' : XmlListing} (h : s.step .test = some s') : ∃ i, s.pc = .test i ∧
    (((i : Int) < s.col.size ∧ s' = { s with pc := .get i }) ∨
      (¬ (i : Int) < s.col.size ∧ s' = { s with pc := .done })) := by
  unfold step at h
  dsimp only at h
  split at h
  · next i hi =>
    cases h
    refine ⟨i, hi, ?_⟩
    by_cases hlt : (i : Int) < s.col.size
    · exact .inl ⟨hlt, by rw [if_pos hlt]⟩
    · exact .inr ⟨hlt, by rw [if_neg hlt]⟩
  · cases h

theorem step_get {s s' : XmlListing} (h : s.step .get = some s') : ∃ i, s.pc = .get i ∧
    ((∃ song, i < s.col.mSonglist.length ∧ s' = { s with
        got := s.got ++ [(i, s.col.mSonglist.length)],
        entries := s.entries ++ [(i, song)], pc := .test (i + 1) }) ∨
      (¬ i < s.col.mSonglist.length ∧
        s' = { s with got := s.got ++ [(i, s.col.mSonglist.length)], pc := .undefined })) := by
  unfold step at h
  dsimp only at h
  split at h
  · next i hi =>
    refine ⟨i, hi, ?_⟩
    split at h
    · next song hsong =>
      cases h
      exact .inl ⟨song, (List.getElem?_eq_some_iff.mp hsong).1, rfl⟩
    · next hsong =>
      cases h
      exact .inr ⟨not_lt.mpr (List.getElem?_eq_none_iff.mp hsong), rfl⟩
  · cases h

def Ended (s : XmlListing) : Prop := s.pc = .done ∨ s.pc = .thrown ∨ s.pc = .undefined

/-- Each song asked for was on the list, and the size written is the number of entries. -/
structure Safe (s : XmlListing) : Prop where
  got : ∀ x ∈ s.got, x.1 < x.2
  size : s.pc = .done → s.size = s.entries.length

/-- What a section of the player does to the length of the list: from the `size` element on it keeps
it as long as there is a song to be listed, and behind the last one it does not put another one on
the list. When the size is written, the length fits an `int`. -/
def Steady (s : XmlListing) : Act → Prop
  | .size => s.col.mSonglist.length < 2 ^ 31
  | .locked l => ∀ col, s.col.locked l = some col →
    match s.pc with
    | .test i | .get i =>
      if i < s.col.mSonglist.length then col.mSonglist.length = s.col.mSonglist.length
      else col.mSonglist.length ≤ i
    | _ => True
  | _ => True

theorem size_of_lt {c : CollectionSonglist} (h : c.mSonglist.length < 2 ^ 31) :
    c.size = c.mSonglist.length := by
  have hlt : c.mSonglist.length < 2 ^ 32 := by omega
  unfold CollectionSonglist.size
  rw [BitVec.toInt_eq_toNat_cond, BitVec.toNat_ofNat, Nat.mod_eq_of_lt hlt, if_pos (by omega)]

/-! ## Steady steps -/

/-- A listing whose steps have been steady: `n` is the number of songs when the size was written. -/
structure Ok (s : XmlListing) : Prop where
  got : ∀ x ∈ s.got, x.1 < x.2
  pc : match s.pc with
    | .update | .size => s.entries = []
    | .test i => s.entries.length = i ∧ ∃ n : Nat, s.size = n ∧ n < 2 ^ 31 ∧
      (i < n ∧ s.col.mSonglist.length = n ∨ i = n ∧ s.col.mSonglist.length ≤ n)
    | .get i => s.entries.length = i ∧ ∃ n : Nat, s.size = n ∧ n < 2 ^ 31 ∧
      i < n ∧ s.col.mSonglist.length = n
    | .done => s.size = s.entries.length
    | .thrown => True
    | .undefined => False

theorem Ok.safe {s : XmlListing} (hs : Ok s) : Safe s := by
  refine ⟨hs.got, fun hpc => ?_⟩
  have h := hs.pc
  rwa [hpc] at h

theorem ok_start (UPDATE_BEFORE_TRANSMIT : Bool) (col : CollectionSonglist) :
    Ok (start UPDATE_BEFORE_TRANSMIT col) := by
  refine ⟨fun _ h => absurd h List.not_mem_nil, ?_⟩
  cases UPDATE_BEFORE_TRANSMIT <;> exact rfl

theorem Ok.locked {s s' : XmlListing} {l : Locked} (hs : Ok s) (hsteady : s.Steady (.locked l))
    (h : s.step (.locked l) = some s') : Ok s' := by
  have hpc := hs.pc
  obtain ⟨col, hcol, rfl⟩ := Option.map_eq_some_iff.mp h
  have hlen := hsteady col hcol
  refine ⟨hs.got, ?_⟩
  dsimp only
  cases hp : s.pc <;> rw [hp] at hpc hlen <;> dsimp only at hpc hlen ⊢
  case test i =>
    obtain ⟨hentries, n, hsize, hn, ⟨hi, hl⟩ | ⟨hi, hl⟩⟩ := hpc
    · rw [if_pos (by omega)] at hlen
      exact ⟨hentries, n, hsize, hn, .inl ⟨hi, hlen.trans hl⟩⟩
    · rw [if_neg (by omega)] at hlen
      exact ⟨hentries, n, hsize, hn, .inr ⟨hi, hi ▸ hlen⟩⟩
  case get i =>
    obtain ⟨hentries, n, hsize, hn, hi, hl⟩ := hpc
    rw [if_pos (by omega)] at hlen
    exact ⟨hentries, n, hsize, hn, hi, hlen.trans hl⟩
  all_goals exact hpc

theorem Ok.step {s s' : XmlListing} {act : Act} (hs : Ok s) (hsteady : s.Steady act)
    (h : s.step act = some s') : Ok s' := by
  have hpc := hs.pc
  cases act with
  | locked l => exact hs.locked hsteady h
  | updated throws =>
    obtain ⟨hup, he⟩ := Option.ite_none_right_eq_some.mp h
    cases he
    rw [hup] at hpc
    refine ⟨hs.got, ?_⟩
    cases throws
    · exact hpc
    · trivial
  | size =>
    obtain ⟨hsize, he⟩ := Option.ite_none_right_eq_some.mp h
    cases he
    rw [hsize] at hpc
    refine ⟨hs.got, by rw [hpc]; rfl, s.col.mSonglist.length, size_of_lt hsteady, hsteady, ?_⟩
    rcases Nat.eq_zero_or_pos s.col.mSonglist.length with hzero | hpos
    · exact .inr ⟨hzero.symm, le_rfl⟩
    · exact .inl ⟨hpos, rfl⟩
  | test =>
    obtain ⟨i, hi, ⟨hlt, rfl⟩ | ⟨hlt, rfl⟩⟩ := step_test h
    · rw [hi] at hpc
      obtain ⟨hentries, n, hsize, hn, hlist⟩ := hpc
      rw [size_of_lt (by omega)] at hlt
      have hlisted : i < n ∧ s.col.mSonglist.length = n := by omega
      exact ⟨hs.got, hentries, n, hsize, hn, hlisted⟩
    · rw [hi] at hpc
      obtain ⟨hentries, n, hsize, hn, hlist⟩ := hpc
      rw [size_of_lt (by omega)] at hlt
      refine ⟨hs.got, ?_⟩
      show s.size = s.entries.length
      omega
  | get =>
    obtain ⟨i, hi, ⟨song, hlt, rfl⟩ | ⟨hlt, rfl⟩⟩ := step_get h
    · rw [hi] at hpc
      obtain ⟨hentries, n, hsize, hn, hin, hlist⟩ := hpc
      have hgot : ∀ x ∈ s.got ++ [(i, s.col.mSonglist.length)], x.1 < x.2 :=
        List.forall_mem_append.mpr ⟨hs.got, List.forall_mem_singleton.mpr hlt⟩
      refine ⟨hgot, ?_, n, hsize, hn, ?_⟩
      · show (s.entries ++ [_]).length = i + 1
        rw [List.length_append, hentries]
        rfl
      · show i + 1 < n ∧ s.col.mSonglist.length = n ∨ i + 1 = n ∧ s.col.mSonglist.length ≤ n
        omega
    · rw [hi] at hpc
      obtain ⟨-, n, -, -, hin, hlist⟩ := hpc
      omega

/-- The run goes through steady steps only. -/
def SteadyRun (s₀ : XmlListing) (acts : List Act) : Prop :=
  ∀ t act, Machine.Takes step s₀ acts t act → t.Steady act

theorem ok_of_run {s₀ s : XmlListing} (h₀ : Ok s₀) {acts : List Act}
    (hsteady : SteadyRun s₀ acts) (hrun : Machine.run step s₀ acts = some s) : Ok s :=
  Machine.run_invariant_under (fun _ _ _ ht hact hstep => Ok.step ht hact hstep) h₀ hsteady hrun

/-! ## A section that is not steady -/

/-- The list has another length than the size says, and `AsXML` will not come to write as many
entries. -/
structure Off (s : XmlListing) : Prop where
  short : s.col.mSonglist.length < 2 ^ 31
  pc : match s.pc with
    | .test i | .get i => s.entries.length = i ∧ s.size ≠ s.col.mSonglist.length ∧
      ((i : Int) < s.size ∨ s.size < s.col.mSonglist.length)
    | .done => s.size ≠ s.entries.length
    | .undefined => ∃ x ∈ s.got, ¬ x.1 < x.2
    | .update | .size | .thrown => False

theorem Off.not_safe {s : XmlListing} (hs : Off s) (hended : s.Ended) : ¬ Safe s := by
  intro hsafe
  have hpc := hs.pc
  rcases hended with hend | hend | hend
  · rw [hend] at hpc
    exact hpc (hsafe.size hend)
  · rw [hend] at hpc
    exact hpc
  · rw [hend] at hpc
    obtain ⟨x, hx, hlt⟩ := hpc
    exact hlt (hsafe.got x hx)

/-- A section that is not steady brings the listing there. -/
theorem Ok.off {s s' : XmlListing} {l : Locked} (hs : Ok s) (hsteady : ¬ s.Steady (.locked l))
    (h : s.step (.locked l) = some s') (hshort : s'.col.mSonglist.length < 2 ^ 31) : Off s' := by
  have hpc := hs.pc
  obtain ⟨col, hcol, rfl⟩ := Option.map_eq_some_iff.mp h
  simp only [Steady, not_forall] at hsteady
  obtain ⟨col', hcol', hlen⟩ := hsteady
  obtain rfl := Option.some.inj (hcol.symm.trans hcol')
  refine ⟨hshort, ?_⟩
  dsimp only
  cases hp : s.pc <;> rw [hp] at hpc hlen <;> dsimp only at hpc hlen ⊢
  case test i =>
    obtain ⟨hentries, n, hsize, hn, ⟨hi, hl⟩ | ⟨hi, hl⟩⟩ := hpc
    · rw [if_pos (by omega)] at hlen
      exact ⟨hentries, by omega, .inl (by omega)⟩
    · rw [if_neg (by omega)] at hlen
      exact ⟨hentries, by omega, .inr (by omega)⟩
  case get i =>
    obtain ⟨hentries, n, hsize, hn, hi, hl⟩ := hpc
    rw [if_pos (by omega)] at hlen
    exact ⟨hentries, by omega, .inl (by omega)⟩
  all_goals exact absurd trivial hlen

theorem Off.step {s s' : XmlListing} {act : Act} (hs : Off s)
    (hkeep : ∀ l, act = .locked l → s'.col.mSonglist.length = s.col.mSonglist.length)
    (h : s.step act = some s') : Off s' := by
  have hpc := hs.pc
  cases act with
  | locked l =>
    have hlen := hkeep l rfl
    obtain ⟨col, -, rfl⟩ := Option.map_eq_some_iff.mp h
    refine ⟨hlen.trans_lt hs.short, ?_⟩
    dsimp only at hlen ⊢
    rw [hlen]
    exact hpc
  | updated throws =>
    obtain ⟨hup, -⟩ := Option.ite_none_right_eq_some.mp h
    rw [hup] at hpc
    exact hpc.elim
  | size =>
    obtain ⟨hsize, -⟩ := Option.ite_none_right_eq_some.mp h
    rw [hsize] at hpc
    exact hpc.elim
  | test =>
    obtain ⟨i, hi, ⟨hlt, rfl⟩ | ⟨hlt, rfl⟩⟩ := step_test h
    · rw [hi] at hpc
      exact ⟨hs.short, hpc⟩
    · rw [hi] at hpc
      rw [size_of_lt hs.short] at hlt
      refine ⟨hs.short, ?_⟩
      show s.size ≠ s.entries.length
      omega
  | get =>
    obtain ⟨i, hi, ⟨song, hlt, rfl⟩ | ⟨hlt, rfl⟩⟩ := step_get h
    · rw [hi] at hpc
      obtain ⟨hentries, hne, hor⟩ := hpc
      refine ⟨hs.short, ?_, hne, ?_⟩
      · show (s.entries ++ [_]).length = i + 1
        rw [List.length_append, hentries]
        rfl
      · show ((i + 1 : Nat) : Int) < s.size ∨ s.size < s.col.mSonglist.length
        omega
    · exact ⟨hs.short, _, List.mem_append_right _ (List.mem_singleton_self _), hlt⟩

/-- No section changes the length of the list. -/
def Keeps (s : XmlListing) (acts : List Act) : Prop :=
  ∀ t l t', Machine.Takes step s acts t (.locked l) → t.step (.locked l) = some t' →
    t'.col.mSonglist.length = t.col.mSonglist.length

theorem off_of_run {s s' : XmlListing} {acts : List Act} (hs : Off s) (hkeeps : Keeps s acts)
    (hrun : Machine.run step s acts = some s') : Off s' := by
  refine Machine.run_invariant_under (C := fun t act => ∀ l t', act = .locked l →
    t.step act = some t' → t'.col.mSonglist.length = t.col.mSonglist.length) ?_ hs ?_ hrun
  · exact fun t act t' ht hact hstep => ht.step (fun l he => hact l t' he hstep) hstep
  · rintro t act ht l t' rfl hstep
    exact hkeeps t l t' ht hstep

/-! ## The listing -/

/-- **A listing whose steps are all steady is safe in every state; and one with a section that is
not, the first one, is not safe at its end if no later section changes the length again.** -/
theorem safe_of_steady {UPDATE_BEFORE_TRANSMIT : Bool} {col : CollectionSonglist} {acts : List Act}
    {s : XmlListing} (hrun : Machine.run step (start UPDATE_BEFORE_TRANSMIT col) acts = some s) :
    (SteadyRun (start UPDATE_BEFORE_TRANSMIT col) acts →
        ∀ t, Machine.Reaches step (start UPDATE_BEFORE_TRANSMIT col) acts t → Safe t) ∧
      (∀ before l after t t', acts = before ++ .locked l :: after →
        Machine.run step (start UPDATE_BEFORE_TRANSMIT col) before = some t →
        SteadyRun (start UPDATE_BEFORE_TRANSMIT col) before → ¬ t.Steady (.locked l) →
        t.step (.locked l) = some t' → t'.col.mSonglist.length < 2 ^ 31 → Keeps t' after →
        s.Ended → ¬ Safe s) := by
  have h₀ := ok_start UPDATE_BEFORE_TRANSMIT col
  constructor
  · rintro hsteady t ⟨before, after, rfl, ht⟩
    exact (ok_of_run h₀ (fun u b hu => hsteady u b (hu.append after)) ht).safe
  · rintro before l after t t' rfl ht hsteady hnot hstep hshort hkeeps hended
    rw [Machine.run_append, ht, Option.bind_some, Machine.run_cons, hstep] at hrun
    have hoff := (ok_of_run h₀ hsteady ht).off hnot hstep hshort
    exact (off_of_run hoff hkeeps hrun).not_safe hended

def oneSong : CollectionSonglist :=
  { CollectionSonglist.new "request".toList "Requests".toList true with
    mSonglist := [SongFile.new false "/req/a.mp3".toList 1] }

/-- The player takes the song between the test and `GetSong`. -/
theorem listing_unsafe : ¬ ∀ UPDATE_BEFORE_TRANSMIT col acts s,
    Machine.run step (start UPDATE_BEFORE_TRANSMIT col) acts = some s → Safe s := by
  intro h
  have hempty : ∃ s, Machine.run step (start false oneSong)
      [.size, .test, .locked (.getNextSong 0), .get] = some s ∧ (0, 0) ∈ s.got := ⟨_, rfl, by decide⟩
  obtain ⟨s, hs, hgot⟩ := hempty
  exact absurd ((h _ _ _ s hs).got _ hgot) (by decide)

/-- The player takes the song when it has been listed. -/
def takenLast : List Act := [.size, .test, .get, .locked (.getNextSong 0), .test]

/-- The player takes the song before it is asked for. -/
def takenFirst : List Act := [.size, .test, .locked (.getNextSong 0), .get]

theorem steadyRun_cons {s t : XmlListing} {act : Act} {acts : List Act} (hact : s.Steady act)
    (hstep : s.step act = some t) (h : SteadyRun t acts) : SteadyRun s (act :: acts) := by
  intro u b hu
  rcases Machine.takes_cons.mp hu with ⟨rfl, rfl⟩ | ⟨v, hv, hrest⟩
  · exact hact
  · obtain rfl := Option.some.inj (hstep.symm.trans hv)
    exact h u b hrest

theorem steadyRun_nil (s : XmlListing) : SteadyRun s [] :=
  fun _ _ hu => absurd hu Machine.not_takes_nil

/-- The first listing is safe, the second one is not. -/
theorem listing_oneSong :
    (∃ s, Machine.run step (start false oneSong) takenLast = some s ∧ s.entries.length = 1 ∧ Safe s) ∧
    ∃ s, Machine.run step (start false oneSong) takenFirst = some s ∧ s.Ended ∧ ¬ Safe s := by
  have hfirst : ∀ acts, (∀ t, (start false oneSong).step .size = some t → SteadyRun t acts) →
      SteadyRun (start false oneSong) (.size :: acts) :=
    fun acts h => steadyRun_cons (by decide : 1 < 2 ^ 31) rfl (h _ rfl)
  constructor
  · have hsteady : SteadyRun (start false oneSong) takenLast := by
      refine hfirst _ ?_
      rintro t ⟨⟩
      refine steadyRun_cons trivial rfl (steadyRun_cons trivial rfl (steadyRun_cons ?_ rfl
        (steadyRun_cons trivial rfl (steadyRun_nil _))))
      rintro col ⟨⟩
      exact Nat.zero_le 1
    exact ⟨_, rfl, rfl, (safe_of_steady rfl).1 hsteady _ ⟨takenLast, [], rfl, rfl⟩⟩
  · have hsteady : SteadyRun (start false oneSong) [.size, .test] := by
      refine hfirst _ ?_
      rintro t ⟨⟩
      exact steadyRun_cons trivial rfl (steadyRun_nil _)
    refine ⟨_, rfl, .inr (.inr rfl), (safe_of_steady rfl).2 [.size, .test] (.getNextSong 0) [.get] _ _
      rfl rfl hsteady ?_ rfl (by decide) ?_ (.inr (.inr rfl))⟩
    · intro h
      have hlen : (0 : Nat) = 1 := h _ rfl
      cases hlen
    · intro t l t' ht
      have hmem := ht.mem
      simp at hmem

end XmlListing

end NetDJ.Engine
