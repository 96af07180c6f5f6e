import NetDJ.Engine.SonglistDir
import NetDJ.Engine.SonglistFile

/-!
# `Collections.cpp`: the prioritized list of collections

A song comes from the first collection that is not empty. The two collections of `mainloop` keep
what their songs say about deletion.

* `Collections.getNextSong` : the song and the position of its collection;
* `Holds`, `found_iff` : when there is a song for a call;
* `ICollection.Sound`, `getNextSong_sound` : songs of a directory carry its flag, songs of a list
  file what their memory held, and so does the song handed out.
-/

namespace NetDJ.Engine

inductive ICollection where
  | dir (c : CollectionSonglistDir)
  | file (c : CollectionSonglistFile)

/-- What a collection meets when it is asked for a song: its directory or its file, and the number
that `get_rand` gives. -/
structure Disk where
  entries : Option (List FileInfo)
  passes : List Pass
  file : ListFile
  rand : Nat

namespace ICollection

def base : ICollection → CollectionSonglist
  | dir c => c.toCollectionSonglist
  | file c => c.toCollectionSonglist

def update (c : ICollection) (disk : Disk) : Option (ICollection × Except Failure Unit) :=
  match c with
  | dir c => (c.update disk.entries disk.passes).map fun (c, r) => (dir c, r.map fun _ => ())
  | file c => let (c, r) := c.update disk.file; some (file c, r)

def getNextSong (c : ICollection) (rand : Nat) : ICollection × Except Failure SongFile :=
  match c with
  | dir c =>
    let (base, r) := c.toCollectionSonglist.getNextSong rand
    (dir { c with toCollectionSonglist := base }, r)
  | file c =>
    let (base, r) := c.toCollectionSonglist.getNextSong rand
    (file { c with toCollectionSonglist := base }, r)

/-- The body of the `try` block: `Update`, then `GetNextSong`. -/
def nextSong (c : ICollection) (disk : Disk) : Option (ICollection × Except Failure SongFile) :=
  (c.update disk).map fun (c, r) =>
    match r with
    | .ok () => c.getNextSong disk.rand
    | .error e => (c, .error e)

end ICollection

/-- `Collections::GetNextSong`: the song with the position of its collection, or `none` if every
collection is empty. -/
def getNextSong : List ICollection → List Disk →
    Option (List ICollection × Except Failure (Option (SongFile × Nat)))
  | [], _ => some ([], .ok none)
  | _ :: _, [] => none
  | c :: cols, disk :: disks =>
    match c.nextSong disk with
    | none => none
    | some (c', .ok song) => some (c' :: cols, .ok (some (song, 0)))
    | some (c', .error (.thrown (.emptyCollection _))) =>
      (getNextSong cols disks).map fun (cols', r) =>
        (c' :: cols', r.map (Option.map fun x => (x.1, x.2 + 1)))
    | some (c', .error e) => some (c' :: cols, .error e)

/-! ## Whether there is a song -/

/-- Behind its `Update` one of the collections has a song, all before it are empty, and where it is no
queue `get_rand` gives a place on its list. -/
def Holds : List ICollection → List Disk → Prop
  | [], _ => False
  | _ :: _, [] => False
  | c :: cols, disk :: disks =>
    match c.update disk with
    | some (c', .ok ()) =>
      if c'.base.mSonglist = [] then Holds cols disks
      else c'.base.mIsQueue = true ∨ disk.rand < c'.base.mSonglist.length
    | some (_, .error (.thrown (.emptyCollection _))) => Holds cols disks
    | _ => False

theorem ICollection.getNextSong_snd (c : ICollection) (rand : Nat) :
    (c.getNextSong rand).2 = (c.base.getNextSong rand).2 := by
  cases c <;> rfl

def Found (r : Option (List ICollection × Except Failure (Option (SongFile × Nat)))) : Prop :=
  ∃ cols song col, r = some (cols, .ok (some (song, col)))

theorem found_passed {c c' : ICollection} {disk : Disk} {d : Str} (cols : List ICollection)
    (disks : List Disk) (h : c.nextSong disk = some (c', .error (.thrown (.emptyCollection d)))) :
    Found (getNextSong (c :: cols) (disk :: disks)) ↔ Found (getNextSong cols disks) := by
  rw [getNextSong, h]
  dsimp only
  constructor
  · rintro ⟨cols₁, song, col, he⟩
    obtain ⟨⟨cols', r⟩, hr, he⟩ := Option.map_eq_some_iff.mp he
    match r with
    | .error e => cases he
    | .ok none => cases he
    | .ok (some (song', col')) => exact ⟨cols', song', col', hr⟩
  · rintro ⟨cols', song, col, he⟩
    rw [he]
    exact ⟨c' :: cols', song, col + 1, rfl⟩

theorem found_ended {c c' : ICollection} {disk : Disk} {r : Except Failure SongFile}
    (cols : List ICollection) (disks : List Disk) (h : c.nextSong disk = some (c', r))
    (hr : ∀ d, r ≠ .error (.thrown (.emptyCollection d))) :
    Found (getNextSong (c :: cols) (disk :: disks)) ↔ ∃ song, r = .ok song := by
  rw [getNextSong, h]
  match r with
  | .ok song => exact iff_of_true ⟨_, _, _, rfl⟩ ⟨song, rfl⟩
  | .error e =>
    refine iff_of_false ?_ (by rintro ⟨_, ⟨⟩⟩)
    rintro ⟨cols', song, col, he⟩
    split at he
    · next h' => cases h'
    · next h' => cases h'
    · next h' =>
      cases h'
      exact hr _ rfl
    · cases he

/-- The call returns with a song exactly if the collections hold one. -/
theorem found_iff (cols : List ICollection) (disks : List Disk) :
    Found (getNextSong cols disks) ↔ Holds cols disks := by
  induction cols generalizing disks with
  | nil => exact iff_of_false (by rintro ⟨_, _, _, ⟨⟩⟩) id
  | cons c cols ih =>
    cases disks with
    | nil => exact iff_of_false (by rintro ⟨_, _, _, ⟨⟩⟩) id
    | cons disk disks =>
      rw [Holds]
      cases hup : c.update disk with
      | none =>
        have hnext : c.nextSong disk = none := by rw [ICollection.nextSong, hup]; rfl
        refine iff_of_false ?_ id
        rintro ⟨_, _, _, he⟩
        rw [getNextSong, hnext] at he
        cases he
      | some x =>
        obtain ⟨c', r⟩ := x
        match r with
        | .error e =>
          have hnext : c.nextSong disk = some (c', .error e) := by
            rw [ICollection.nextSong, hup]
            rfl
          match e with
          | .thrown (.emptyCollection d) =>
            rw [found_passed cols disks hnext]
            exact ih disks
          | .thrown (.std _) | .thrown (.shoutException _) | .undefined =>
            rw [found_ended cols disks hnext (by rintro d ⟨⟩)]
            exact iff_of_false (by rintro ⟨_, ⟨⟩⟩) id
        | .ok () =>
          have hnext : c.nextSong disk = some (c'.getNextSong disk.rand) := by
            rw [ICollection.nextSong, hup]
            rfl
          have hsnd := c'.getNextSong_snd disk.rand
          rcases hg : c'.getNextSong disk.rand with ⟨c₁, r₁⟩
          rw [hg] at hnext hsnd
          obtain rfl : r₁ = (c'.base.getNextSong disk.rand).2 := hsnd
          dsimp only
          split
          · next hl =>
            rw [CollectionSonglist.getNextSong_nil hl] at hnext
            rw [found_passed cols disks hnext]
            exact ih disks
          · next hl =>
            rw [found_ended cols disks hnext
              (CollectionSonglist.getNextSong_ne_emptyCollection hl disk.rand),
              CollectionSonglist.getNextSong_ok_iff, and_iff_right hl]

/-! ## The flags of the songs -/

namespace ICollection

/-- What the collection assigns to the flag of its songs, if it does. -/
def assigned : ICollection → Option Bool
  | dir c => some c.mDeleteAfterPlay
  | file _ => none

def songs : ICollection → List SongFile
  | dir c => c.mSonglist
  | file c => c.mSonglist

/-- Every song has the flag that the collection assigns, or what its memory held. -/
def Sound (c : ICollection) : Prop :=
  ∀ song ∈ c.songs, song.mDeleteAfterPlay = c.assigned.getD song.memory

theorem update_sound {c c' : ICollection} {disk : Disk} {r : Except Failure Unit} (hc : c.Sound)
    (h : c.update disk = some (c', r)) : c'.assigned = c.assigned ∧ c'.Sound := by
  cases c with
  | dir c =>
    obtain ⟨⟨d, r'⟩, hd, he⟩ := Option.map_eq_some_iff.mp h
    cases he
    obtain ⟨hflag, hsongs⟩ := CollectionSonglistDir.update_flagged hc hd
    exact ⟨congrArg some hflag, hsongs⟩
  | file c =>
    cases h
    exact ⟨rfl, CollectionSonglistFile.update_unassigned disk.file hc⟩

theorem getNextSong_sound {c : ICollection} (rand : Nat) (hc : c.Sound) :
    (c.getNextSong rand).1.assigned = c.assigned ∧ (c.getNextSong rand).1.Sound ∧
      ∀ song, (c.getNextSong rand).2 = .ok song →
        song.mDeleteAfterPlay = c.assigned.getD song.memory := by
  cases c with
  | dir c =>
    exact ⟨rfl, fun song hs => hc song (c.getNextSong_subset rand hs),
      fun song hs => hc song (CollectionSonglist.mem_of_getNextSong (Prod.ext rfl hs))⟩
  | file c =>
    exact ⟨rfl, fun song hs => hc song (c.getNextSong_subset rand hs),
      fun song hs => hc song (CollectionSonglist.mem_of_getNextSong (Prod.ext rfl hs))⟩

theorem nextSong_sound {c c' : ICollection} {disk : Disk} {r : Except Failure SongFile}
    (hc : c.Sound) (h : c.nextSong disk = some (c', r)) :
    c'.assigned = c.assigned ∧ c'.Sound ∧
      ∀ song, r = .ok song → song.mDeleteAfterPlay = c.assigned.getD song.memory := by
  obtain ⟨⟨d, r'⟩, hd, he⟩ := Option.map_eq_some_iff.mp h
  obtain ⟨hassigned, hsound⟩ := update_sound hc hd
  cases r' with
  | ok u =>
    obtain ⟨ha, hs, hsong⟩ := getNextSong_sound disk.rand hsound
    rw [show d.getNextSong disk.rand = (c', r) from he] at ha hs hsong
    rw [hassigned] at ha hsong
    exact ⟨ha, hs, hsong⟩
  | error e =>
    cases he
    exact ⟨hassigned, hsound, nofun⟩

end ICollection

/-- A call of `GetNextSong` keeps what the collections assign, and hands out a song with the flag of
the collection it names. -/
theorem getNextSong_sound {cols cols' : List ICollection} {disks : List Disk}
    {r : Except Failure (Option (SongFile × Nat))} (hcols : ∀ c ∈ cols, c.Sound)
    (h : getNextSong cols disks = some (cols', r)) :
    cols'.map ICollection.assigned = cols.map ICollection.assigned ∧ (∀ c ∈ cols', c.Sound) ∧
      ∀ song k, r = .ok (some (song, k)) → ∃ flag,
        (cols.map ICollection.assigned)[k]? = some flag ∧
          song.mDeleteAfterPlay = flag.getD song.memory := by
  induction cols generalizing disks cols' r with
  | nil =>
    cases h
    exact ⟨rfl, hcols, nofun⟩
  | cons c cols ih =>
    obtain ⟨hc, hrest⟩ := List.forall_mem_cons.mp hcols
    cases disks with
    | nil => cases h
    | cons disk disks =>
      unfold getNextSong at h
      split at h
      · cases h
      · next c' song hn =>
        cases h
        obtain ⟨ha, hs, hsong⟩ := ICollection.nextSong_sound hc hn
        refine ⟨congrArg (· :: _) ha, List.forall_mem_cons.mpr ⟨hs, hrest⟩, fun song' k he => ?_⟩
        cases he
        exact ⟨c.assigned, rfl, hsong song rfl⟩
      · next c' e hn =>
        obtain ⟨⟨cs, r'⟩, hr, he⟩ := Option.map_eq_some_iff.mp h
        cases he
        obtain ⟨ha, hs, -⟩ := ICollection.nextSong_sound hc hn
        obtain ⟨ha', hs', hsong'⟩ := ih hrest hr
        refine ⟨congrArg₂ List.cons ha ha', List.forall_mem_cons.mpr ⟨hs, hs'⟩, fun song k he => ?_⟩
        cases r' with
        | error e => cases he
        | ok o =>
          cases o with
          | none => cases he
          | some x =>
            cases he
            exact hsong' x.1 x.2 rfl
      · next c' e _ hn =>
        cases h
        obtain ⟨ha, hs, -⟩ := ICollection.nextSong_sound hc hn
        exact ⟨congrArg (· :: _) ha, List.forall_mem_cons.mpr ⟨hs, hrest⟩, nofun⟩

end NetDJ.Engine
