import NetDJ.Engine.Songlist

/-!
# `Collection_Songlist_File.cpp`: songs read from a list in a file

* `CollectionSonglistFile.update` : the call;
* `Unassigned` : no song of the list has had its `mDeleteAfterPlay` assigned;
* `songLines`, `made` : the lines of a file that are songs, and those that become songs;
* `update_reads` : a call that reads the file makes the list of it;
* `failed_update_iff` : a call that throws has stored the date of the file by then.
-/

namespace NetDJ.Engine

structure CollectionSonglistFile extends CollectionSonglist where
  mFilename : Str
  mFiledate : QDateTime
  deriving DecidableEq

/-- The file as `Update` finds it, with the memory that `new` gives for each line, unless it
throws. -/
structure ListFile where
  lastModified : QDateTime
  isFile : Bool
  isReadable : Bool
  opens : Bool
  lines : List (Str × Option Bool)

def ListFile.Opens (file : ListFile) : Prop :=
  file.isFile = true ∧ file.isReadable = true ∧ file.opens = true

namespace CollectionSonglistFile

def init (aId aDescr aName : Str) : CollectionSonglistFile :=
  { CollectionSonglist.new aId aDescr false with mFilename := aName, mFiledate := .null }

def readLine (s : CollectionSonglistFile × List SongFile) (line : Str × Option Bool) :
    CollectionSonglistFile × List SongFile :=
  let (c, newlist) := s
  if line.1 = [] ∨ line.1.head? = some '#' then s
  else
    match line.2 with
    | none => s -- `catch (...)`
    | some memory =>
      let (base, unid) := c.getNewUNID
      ({ c with toCollectionSonglist := base }, newlist ++ [SongFile.new memory line.1 unid])

def update (c : CollectionSonglistFile) (file : ListFile) :
    CollectionSonglistFile × Except Failure Unit :=
  if file.lastModified ≤ c.mFiledate then (c, .ok ())
  else
    let c := { c with mFiledate := file.lastModified }
    if !file.isFile || !file.isReadable || !file.opens then
      (c, .error (.thrown (.std
        ("Could not open file '".toList ++ c.mFilename ++ "' for reading!".toList))))
    else
      let (c, newlist) := file.lines.foldl readLine (c, [])
      ({ c with mSonglist := newlist }, .ok ())

/-! ## The flag of the songs -/

/-- Every song on the list has the flag its memory held. -/
def Unassigned (c : CollectionSonglistFile) : Prop :=
  ∀ song ∈ c.mSonglist, song.mDeleteAfterPlay = song.memory

theorem init_unassigned (aId aDescr aName : Str) : (init aId aDescr aName).Unassigned :=
  fun _ h => absurd h List.not_mem_nil

theorem readLine_unassigned (s : CollectionSonglistFile × List SongFile)
    (line : Str × Option Bool) (hs : ∀ song ∈ s.2, song.mDeleteAfterPlay = song.memory) :
    ∀ song ∈ (readLine s line).2, song.mDeleteAfterPlay = song.memory := by
  unfold readLine
  dsimp only
  split
  · exact hs
  · split
    · exact hs
    · exact List.forall_mem_append.mpr ⟨hs, List.forall_mem_singleton.mpr rfl⟩

theorem lines_unassigned (lines : List (Str × Option Bool))
    (s : CollectionSonglistFile × List SongFile)
    (hs : ∀ song ∈ s.2, song.mDeleteAfterPlay = song.memory) :
    ∀ song ∈ (lines.foldl readLine s).2, song.mDeleteAfterPlay = song.memory := by
  induction lines generalizing s with
  | nil => exact hs
  | cons line lines ih => exact ih (readLine s line) (readLine_unassigned s line hs)

theorem update_unassigned {c : CollectionSonglistFile} (file : ListFile) (hc : c.Unassigned) :
    (c.update file).1.Unassigned := by
  unfold update
  split
  · exact hc
  · dsimp only
    split
    · exact hc
    · exact lines_unassigned file.lines _ fun _ h => absurd h List.not_mem_nil

/-! ## The lines of the file -/

/-- The line names a song. -/
def isSongLine (line : Str) : Bool := line ≠ [] && line.head? ≠ some '#'

def songLines (lines : List Str) : List Str := lines.filter isSongLine

/-- The lines that become songs: where `new` throws, the song is left out. -/
def made (lines : List (Str × Option Bool)) : List Str :=
  (lines.filter fun l => isSongLine l.1 && l.2.isSome).map (·.1)

theorem made_cons (line : Str × Option Bool) (lines : List (Str × Option Bool)) :
    made (line :: lines) = made [line] ++ made lines := by
  rw [← List.singleton_append, made, List.filter_append, List.map_append]
  rfl

theorem readLine_names (s : CollectionSonglistFile × List SongFile) (line : Str × Option Bool) :
    (readLine s line).1.mFiledate = s.1.mFiledate ∧
      (readLine s line).2.map (·.mFilename) = s.2.map (·.mFilename) ++ made [line] := by
  obtain ⟨name, new⟩ := line
  unfold readLine made
  by_cases hline : name = [] ∨ name.head? = some '#'
  · have hsong : isSongLine name = false := by
      rw [isSongLine]
      rcases hline with h | h <;> simp [h]
    simp [hline, hsong]
  · have hsong : isSongLine name = true := by
      rw [not_or] at hline
      simp [isSongLine, hline.1, hline.2]
    cases new with
    | none => simp [hline, hsong]
    | some memory => simp [hline, hsong, SongFile.new]

/-- The loop keeps the date and appends a song for each line that becomes one. -/
theorem lines_names (lines : List (Str × Option Bool))
    (s : CollectionSonglistFile × List SongFile) :
    (lines.foldl readLine s).1.mFiledate = s.1.mFiledate ∧
      (lines.foldl readLine s).2.map (·.mFilename) = s.2.map (·.mFilename) ++ made lines := by
  induction lines generalizing s with
  | nil => exact ⟨rfl, (List.append_nil _).symm⟩
  | cons line lines ih =>
    obtain ⟨hdate, hnames⟩ := ih (readLine s line)
    obtain ⟨hdate', hnames'⟩ := readLine_names s line
    refine ⟨hdate.trans hdate', hnames.trans ?_⟩
    rw [hnames', made_cons line lines, List.append_assoc]

/-! ## Calls that throw -/

theorem update_of_le {c : CollectionSonglistFile} {file : ListFile}
    (h : file.lastModified ≤ c.mFiledate) : c.update file = (c, .ok ()) := if_pos h

theorem update_throws {c : CollectionSonglistFile} {file : ListFile}
    (h : ¬ file.lastModified ≤ c.mFiledate) (hopens : ¬ file.Opens) : c.update file =
      ({ c with mFiledate := file.lastModified }, .error (.thrown (.std
        ("Could not open file '".toList ++ c.mFilename ++ "' for reading!".toList)))) := by
  have hcannot : (!file.isFile || !file.isReadable || !file.opens) = true := by
    by_contra hcan
    simp only [Bool.or_eq_true, Bool.not_eq_true', not_or, Bool.not_eq_false] at hcan
    exact hopens ⟨hcan.1.1, hcan.1.2, hcan.2⟩
  rw [update, if_neg h]
  exact if_pos hcannot

theorem update_reads {c : CollectionSonglistFile} {file : ListFile}
    (h : ¬ file.lastModified ≤ c.mFiledate) (hopens : file.Opens) :
    (c.update file).2 = .ok () ∧ (c.update file).1.mFiledate = file.lastModified ∧
      (c.update file).1.mSonglist.map (·.mFilename) = made file.lines := by
  obtain ⟨hdate, hnames⟩ := lines_names file.lines ({ c with mFiledate := file.lastModified }, [])
  have hcan : ¬ (!file.isFile || !file.isReadable || !file.opens) = true := by
    rw [hopens.1, hopens.2.1, hopens.2.2]
    exact Bool.false_ne_true
  rw [update, if_neg h]
  dsimp only
  rw [if_neg hcan]
  exact ⟨rfl, hdate, hnames⟩

/-- **A failed call leaves the collection as it was**, and the file to be loaded later, exactly if
it does not fail: the date is stored before the file is opened. -/
theorem failed_update_iff (c : CollectionSonglistFile) (file : ListFile) :
    ((∃ e, (c.update file).2 = .error e) →
      (c.update file).1.mFiledate = c.mFiledate ∧ (c.update file).1.mSonglist = c.mSonglist ∧
        ∀ later : ListFile, later.lastModified = file.lastModified → later.Opens →
          (∀ l ∈ later.lines, l.2.isSome = true) →
          ((c.update file).1.update later).1.mSonglist.map (·.mFilename) =
            songLines (later.lines.map (·.1))) ↔
    file.lastModified ≤ c.mFiledate ∨ file.Opens := by
  constructor
  · intro h
    by_contra hnot
    obtain ⟨hdate, hopens⟩ := not_or.mp hnot
    rw [update_throws hdate hopens] at h
    exact hdate (h ⟨_, rfl⟩).1.le
  · rintro hor ⟨e, he⟩
    by_cases hdate : file.lastModified ≤ c.mFiledate
    · rw [update_of_le hdate] at he
      cases he
    · rw [(update_reads hdate (hor.resolve_left hdate)).1] at he
      cases he

/-- What the file holds is not loaded once it can be read. -/
theorem failed_update_skips (c : CollectionSonglistFile) {file later : ListFile}
    (h : ¬ file.lastModified ≤ c.mFiledate) (hopens : ¬ file.Opens)
    (hsame : later.lastModified = file.lastModified) :
    (c.update file).1.update later = ((c.update file).1, .ok ()) := by
  refine update_of_le ?_
  rw [update_throws h hopens]
  exact hsame.le

def listFile (isReadable : Bool) : ListFile :=
  ⟨(100 : Int), true, isReadable, true, [("/a.mp3".toList, some false)]⟩

theorem failed_update_loses :
    let c := init "c".toList [] "/list".toList
    let failed := c.update (listFile false)
    (∃ e, failed.2 = .error e) ∧ failed.1.mFiledate ≠ c.mFiledate ∧
      (failed.1.update (listFile true)).1.mSonglist = [] ∧
        songLines ["/a.mp3".toList] = ["/a.mp3".toList] := by
  have hdate : ¬ (listFile false).lastModified ≤ (init "c".toList [] "/list".toList).mFiledate :=
    WithBot.not_coe_le_bot (100 : Int)
  have hopens : ¬ (listFile false).Opens := fun h => absurd h.2.1 Bool.false_ne_true
  have hsame : (listFile true).lastModified = (listFile false).lastModified := rfl
  dsimp only
  rw [failed_update_skips _ hdate hopens hsame, update_throws hdate hopens]
  exact ⟨⟨_, rfl⟩, fun h => hdate h.le, rfl, by decide⟩

end CollectionSonglistFile

end NetDJ.Engine
