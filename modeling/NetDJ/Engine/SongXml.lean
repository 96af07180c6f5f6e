import NetDJ.Lib.Elements
import NetDJ.Engine.Levels
import NetDJ.Engine.Listing

/-!
# `SongInfoBase.cpp`, `SongFile.cpp`, `CollectionBase.cpp`: songs as elements

A field that has its default value is left out. What is written is the tree of `QDomElement`s; the
text that Qt makes of it is not part of the repository.

* `SongInfo.createXML`, `SongFile.asXML`, `XmlListing.asXML` : the elements;
* `SongInfo.read`, `ReadListing.read` : what is read from them by their names;
* `read_createXML` : the fields are read back, a null string as an empty one;
* `read_asXML` : and so is all that a call of `AsXML` has found;
* `XmlListing.listing_read` : what a client reads while the player goes on.
-/

namespace NetDJ.Engine

open Elements (Node)
open Daemon (decimal)

/-! ## The information about a song -/

inductive MediaType where
  | unknown | mp3 | ogg
  deriving DecidableEq

/-- The texts may be null. -/
structure SongInfo where
  mDescription : Option Str
  mArtist : Option Str
  mAlbum : Option Str
  mTitle : Option Str
  mGenre : Option Str
  mOwner : Option Str
  mTrack : BitVec 32
  mYear : BitVec 32
  mSize : BitVec 32
  mLength : BitVec 32
  mMediaType : MediaType
  deriving DecidableEq

namespace SongInfo

/-- `*s_list[i] != ""`, which a null string is too, and the text of the element then. -/
def writtenText (s : Option Str) : Option Str := if s = some [] then none else some (s.getD [])

/-- `*i_list[i] != 0`, and the text of the element then. -/
def writtenNumber (n : BitVec 32) : Option Str := if n = 0 then none else some (decimal n.toNat)

def mediaStr : MediaType → Option Str
  | .mp3 => some "MP3".toList
  | .ogg => some "OGG".toList
  | .unknown => none

def fields (i : SongInfo) : List (Str × Option Str) :=
  [("mediatype".toList, mediaStr i.mMediaType),
    ("description".toList, writtenText i.mDescription),
    ("artist".toList, writtenText i.mArtist),
    ("album".toList, writtenText i.mAlbum),
    ("title".toList, writtenText i.mTitle),
    ("genre".toList, writtenText i.mGenre),
    ("owner".toList, writtenText i.mOwner),
    ("track".toList, writtenNumber i.mTrack),
    ("year".toList, writtenNumber i.mYear),
    ("size".toList, writtenNumber i.mSize),
    ("length".toList, writtenNumber i.mLength)]

def createXML (i : SongInfo) : Node :=
  .element "songinfo".toList [] (Node.fields i.fields)

end SongInfo

def SongFile.asXML (s : SongFile) (info : SongInfo) : Node :=
  .element "song".toList [("unid".toList, decimal s.mUNID.toNat)] [info.createXML]

/-- The element of a position. -/
def entryXML (info : SongFile → SongInfo) (e : Nat × SongFile) : Node :=
  .element "entry".toList [("position".toList, decimal e.1)] [e.2.asXML (info e.2)]

/-- The element that a call of `AsXML` has built, with the information about the songs. -/
def XmlListing.asXML (s : XmlListing) (info : SongFile → SongInfo) : Node :=
  .element "collection".toList [("id".toList, s.col.mIdentifier)]
    (.leaf "description".toList s.col.mDescription :: .leaf "size".toList (decimal s.size) ::
      s.entries.map (entryXML info))

/-! ## What is read from the elements -/

/-- A number without a sign; 0 if there is no text. -/
def readNat (s : Str) : Nat := s.foldl (fun n c => 10 * n + (c.toNat - 48)) 0

def readInt (s : Str) : Int :=
  if s.head? = some '-' then -(readNat s.tail : Int) else readNat s

theorem readNat_decimal (n : Nat) : readNat (decimal n) = n := foldl_toDigits n

theorem readInt_decimal (l : Int) : readInt (decimal l) = l := by
  cases l with
  | ofNat n =>
    have hhead : (decimal (.ofNat n)).head? ≠ some '-' := by
      intro he
      have := Nat.isDigit_of_mem_toDigits (by decide) (by decide) (List.mem_of_head? he)
      cases this
    rw [readInt, if_neg hhead]
    exact congrArg Int.ofNat (readNat_decimal n)
  | negSucc n =>
    show -(readNat (Nat.toDigits 10 (n + 1)) : Int) = Int.negSucc n
    rw [show readNat (Nat.toDigits 10 (n + 1)) = n + 1 from foldl_toDigits (n + 1)]
    rfl

namespace SongInfo

def readMedia (s : Str) : MediaType :=
  if s = "MP3".toList then .mp3 else if s = "OGG".toList then .ogg else .unknown

/-- The information in a `songinfo` element. -/
def read (n : Node) : SongInfo where
  mDescription := some (n.childText "description".toList)
  mArtist := some (n.childText "artist".toList)
  mAlbum := some (n.childText "album".toList)
  mTitle := some (n.childText "title".toList)
  mGenre := some (n.childText "genre".toList)
  mOwner := some (n.childText "owner".toList)
  mTrack := BitVec.ofNat 32 (readNat (n.childText "track".toList))
  mYear := BitVec.ofNat 32 (readNat (n.childText "year".toList))
  mSize := BitVec.ofNat 32 (readNat (n.childText "size".toList))
  mLength := BitVec.ofNat 32 (readNat (n.childText "length".toList))
  mMediaType := readMedia (n.childText "mediatype".toList)

/-- The information with empty strings for null strings. -/
def shown (i : SongInfo) : SongInfo :=
  { i with
    mDescription := some (i.mDescription.getD [])
    mArtist := some (i.mArtist.getD [])
    mAlbum := some (i.mAlbum.getD [])
    mTitle := some (i.mTitle.getD [])
    mGenre := some (i.mGenre.getD [])
    mOwner := some (i.mOwner.getD []) }

theorem childText_createXML {i : SongInfo} {f : Str × Option Str} (hf : f ∈ i.fields) :
    i.createXML.childText f.1 = f.2.getD [] := by
  refine Node.childText_fields ?_ hf _ _
  show (["mediatype".toList, "description".toList, "artist".toList, "album".toList, "title".toList,
    "genre".toList, "owner".toList, "track".toList, "year".toList, "size".toList,
    "length".toList] : List Str).Nodup
  decide

theorem getD_writtenText (s : Option Str) : (writtenText s).getD [] = s.getD [] := by
  unfold writtenText
  split
  · next h =>
    rw [h]
    rfl
  · rfl

theorem read_writtenNumber (n : BitVec 32) :
    BitVec.ofNat 32 (readNat ((writtenNumber n).getD [])) = n := by
  unfold writtenNumber
  split
  · next h =>
    rw [h]
    rfl
  · rw [Option.getD_some, readNat_decimal, BitVec.ofNat_toNat, BitVec.setWidth_eq]

theorem readMedia_mediaStr (m : MediaType) : readMedia ((mediaStr m).getD []) = m := by
  cases m <;> rfl

theorem read_createXML (i : SongInfo) : read i.createXML = i.shown := by
  have htext : ∀ {name : Str} {s : Option Str}, (name, writtenText s) ∈ i.fields →
      i.createXML.childText name = s.getD [] := by
    intro name s hf
    rw [childText_createXML hf, getD_writtenText]
  have hnumber : ∀ {name : Str} {n : BitVec 32}, (name, writtenNumber n) ∈ i.fields →
      BitVec.ofNat 32 (readNat (i.createXML.childText name)) = n := by
    intro name n hf
    rw [childText_createXML hf, read_writtenNumber]
  have hmedia : readMedia (i.createXML.childText "mediatype".toList) = i.mMediaType := by
    rw [childText_createXML (List.mem_of_getElem? (i := 0) rfl), readMedia_mediaStr]
  unfold read shown
  rw [htext (List.mem_of_getElem? (i := 1) rfl), htext (List.mem_of_getElem? (i := 2) rfl),
    htext (List.mem_of_getElem? (i := 3) rfl), htext (List.mem_of_getElem? (i := 4) rfl),
    htext (List.mem_of_getElem? (i := 5) rfl), htext (List.mem_of_getElem? (i := 6) rfl),
    hnumber (List.mem_of_getElem? (i := 7) rfl), hnumber (List.mem_of_getElem? (i := 8) rfl),
    hnumber (List.mem_of_getElem? (i := 9) rfl), hnumber (List.mem_of_getElem? (i := 10) rfl),
    hmedia]

end SongInfo

/-! ## A collection -/

/-- What is read from the element of a collection: the songs with their positions, ids and
information. -/
structure ReadListing where
  id : Str
  description : Str
  size : Int
  songs : List (Nat × BitVec 32 × SongInfo)

namespace ReadListing

def readEntry (n : Node) : Option (Nat × BitVec 32 × SongInfo) := do
  let position ← n.attr "position".toList
  let song ← n.child "song".toList
  let unid ← song.attr "unid".toList
  let info ← song.child "songinfo".toList
  pure (readNat position, BitVec.ofNat 32 (readNat unid), SongInfo.read info)

def read (n : Node) : Option ReadListing := do
  let id ← n.attr "id".toList
  let songs ← (n.named "entry".toList).mapM readEntry
  pure ⟨id, n.childText "description".toList, readInt (n.childText "size".toList), songs⟩

end ReadListing

def shownEntry (info : SongFile → SongInfo) (e : Nat × SongFile) : Nat × BitVec 32 × SongInfo :=
  (e.1, e.2.mUNID, (info e.2).shown)

theorem readEntry_entryXML (info : SongFile → SongInfo) (e : Nat × SongFile) :
    ReadListing.readEntry (entryXML info e) = some (shownEntry info e) := by
  show some (readNat (decimal e.1), BitVec.ofNat 32 (readNat (decimal e.2.mUNID.toNat)),
    SongInfo.read (info e.2).createXML) = some (shownEntry info e)
  rw [readNat_decimal, readNat_decimal, SongInfo.read_createXML, BitVec.ofNat_toNat,
    BitVec.setWidth_eq]
  rfl

/-- All that a call of `AsXML` has found is read back. -/
theorem read_asXML (s : XmlListing) (info : SongFile → SongInfo) :
    ReadListing.read (s.asXML info) = some
      ⟨s.col.mIdentifier, s.col.mDescription, s.size, s.entries.map (shownEntry info)⟩ := by
  have hentries : (s.asXML info).named "entry".toList = s.entries.map (entryXML info) := by
    show List.filter _ (_ :: _ :: s.entries.map (entryXML info)) = _
    rw [List.filter_cons_of_neg (fun h => absurd (Node.isNamed_leaf.mp h) (by decide)),
      List.filter_cons_of_neg (fun h => absurd (Node.isNamed_leaf.mp h) (by decide)),
      List.filter_eq_self]
    intro n hn
    obtain ⟨e, -, rfl⟩ := List.mem_map.mp hn
    rfl
  have hsongs : (s.entries.map (entryXML info)).mapM ReadListing.readEntry =
      some (s.entries.map (shownEntry info)) := by
    rw [List.mapM_map, show ReadListing.readEntry ∘ entryXML info = fun e => some (shownEntry info e)
      from funext (readEntry_entryXML info)]
    exact List.mapM_pure
  have hdescription : (s.asXML info).childText "description".toList = s.col.mDescription :=
    Node.content_leaf "description".toList s.col.mDescription
  have hsize : (s.asXML info).childText "size".toList = decimal s.size :=
    Node.content_leaf "size".toList (decimal s.size)
  unfold ReadListing.read
  rw [hentries, hsongs, hdescription, hsize, readInt_decimal]
  rfl

/-! ## A call while the player goes on -/

namespace XmlListing

theorem locked_names {c c' : CollectionSonglist} {l : Locked} (h : c.locked l = some c') :
    c'.mIdentifier = c.mIdentifier ∧ c'.mDescription = c.mDescription := by
  cases l with
  | push_back newsong =>
    obtain ⟨-, he⟩ := Option.ite_none_right_eq_some.mp h
    cases he
    exact ⟨rfl, rfl⟩
  | swap newlist =>
    obtain ⟨-, he⟩ := Option.ite_none_left_eq_some.mp h
    cases he
    exact ⟨rfl, rfl⟩
  | getNextSong rand =>
    cases h
    unfold CollectionSonglist.getNextSong
    split
    · exact ⟨rfl, rfl⟩
    · split
      · exact ⟨rfl, rfl⟩
      · split <;> exact ⟨rfl, rfl⟩

/-- Each entry has been on the list at its position, and the size has been that of the list. -/
structure Seen (aCol : CollectionSonglist) (s₀ : XmlListing) (acts : List Act) (s : XmlListing) :
    Prop where
  names : s.col.mIdentifier = aCol.mIdentifier ∧ s.col.mDescription = aCol.mDescription
  positions : s.entries.map Prod.fst = List.range s.entries.length
  songs : ∀ e ∈ s.entries, ∃ t, Machine.Reaches step s₀ acts t ∧
    t.col.mSonglist[e.1]? = some e.2
  count : match s.pc with
    | .update | .size => s.entries = []
    | .test i | .get i => s.entries.length = i
    | .done | .thrown | .undefined => True
  size : s.pc ≠ .update → s.pc ≠ .size → s.pc ≠ .thrown →
    ∃ t, Machine.Reaches step s₀ acts t ∧ s.size = t.col.size

theorem seen_start (UPDATE_BEFORE_TRANSMIT : Bool) (aCol : CollectionSonglist) :
    Seen aCol (start UPDATE_BEFORE_TRANSMIT aCol) [] (start UPDATE_BEFORE_TRANSMIT aCol) := by
  refine ⟨⟨rfl, rfl⟩, rfl, fun e he => absurd he List.not_mem_nil, ?_, ?_⟩
  · cases UPDATE_BEFORE_TRANSMIT <;> exact rfl
  · cases UPDATE_BEFORE_TRANSMIT with
    | true => exact fun h => absurd rfl h
    | false => exact fun _ h => absurd rfl h

theorem Seen.step {aCol : CollectionSonglist} {s₀ s s' : XmlListing} {acts : List Act} {act : Act}
    (hs : Seen aCol s₀ acts s) (hrun : Machine.run XmlListing.step s₀ acts = some s)
    (h : XmlListing.step s act = some s') : Seen aCol s₀ (acts ++ [act]) s' := by
  -- A longer run comes by the same states.
  have hold : ∀ {t}, Machine.Reaches XmlListing.step s₀ acts t →
      Machine.Reaches XmlListing.step s₀ (acts ++ [act]) t :=
    fun ht => Machine.reaches_snoc.mpr (.inl ht)
  have hnow : Machine.Reaches XmlListing.step s₀ (acts ++ [act]) s :=
    hold ⟨acts, [], (List.append_nil _).symm, hrun⟩
  have hsongs : ∀ e ∈ s.entries, ∃ t, Machine.Reaches XmlListing.step s₀ (acts ++ [act]) t ∧
      t.col.mSonglist[e.1]? = some e.2 := by
    intro e he
    obtain ⟨t, ht, hsong⟩ := hs.songs e he
    exact ⟨t, hold ht, hsong⟩
  have hsize : s.pc ≠ .update → s.pc ≠ .size → s.pc ≠ .thrown →
      ∃ t, Machine.Reaches XmlListing.step s₀ (acts ++ [act]) t ∧ s.size = t.col.size := by
    intro hupdate hsize hthrown
    obtain ⟨t, ht, hsize⟩ := hs.size hupdate hsize hthrown
    exact ⟨t, hold ht, hsize⟩
  have hcount := hs.count
  cases act with
  | locked l =>
    obtain ⟨col, hcol, rfl⟩ := Option.map_eq_some_iff.mp h
    obtain ⟨hid, hdescription⟩ := locked_names hcol
    exact ⟨⟨hid.trans hs.names.1, hdescription.trans hs.names.2⟩, hs.positions, hsongs, hcount,
      hsize⟩
  | updated throws =>
    obtain ⟨hup, he⟩ := Option.ite_none_right_eq_some.mp h
    cases he
    rw [hup] at hcount
    cases throws with
    | false => exact ⟨hs.names, hs.positions, hsongs, hcount, fun _ h => absurd rfl h⟩
    | true => exact ⟨hs.names, hs.positions, hsongs, trivial, fun _ _ h => absurd rfl h⟩
  | size =>
    obtain ⟨hpc, he⟩ := Option.ite_none_right_eq_some.mp h
    cases he
    rw [hpc] at hcount
    refine ⟨hs.names, hs.positions, hsongs, ?_, fun _ _ _ => ⟨s, hnow, rfl⟩⟩
    show s.entries.length = 0
    rw [hcount]
    rfl
  | test =>
    obtain ⟨i, hi, ⟨-, rfl⟩ | ⟨-, rfl⟩⟩ := step_test h
    · rw [hi] at hcount hsize
      exact ⟨hs.names, hs.positions, hsongs, hcount, fun _ _ _ => hsize nofun nofun nofun⟩
    · rw [hi] at hsize
      exact ⟨hs.names, hs.positions, hsongs, trivial, fun _ _ _ => hsize nofun nofun nofun⟩
  | get =>
    unfold XmlListing.step at h
    dsimp only at h
    split at h
    · next i hi =>
      rw [hi] at hcount hsize
      split at h
      · next song hsong =>
        cases h
        refine ⟨hs.names, ?_, ?_, ?_, fun _ _ _ => hsize nofun nofun nofun⟩
        · show (s.entries ++ [(i, song)]).map Prod.fst = List.range (s.entries ++ [_]).length
          rw [List.map_append, hs.positions, List.length_append, List.length_singleton,
            List.range_succ, hcount]
          rfl
        · refine List.forall_mem_append.mpr ⟨hsongs, List.forall_mem_singleton.mpr ?_⟩
          exact ⟨s, hnow, hsong⟩
        · show (s.entries ++ [_]).length = i + 1
          rw [List.length_append, hcount]
          rfl
      · cases h
        exact ⟨hs.names, hs.positions, hsongs, trivial, fun _ _ _ => hsize nofun nofun nofun⟩
    · cases h

/-- **What a client reads from the element of a collection**, whatever the player does to the list
during the call: the positions from 0 on without a gap, at each of them the id and the information
of a song that has been on the list there during the call, and at the end a size that the list has
had. -/
theorem listing_read {UPDATE_BEFORE_TRANSMIT : Bool} {aCol : CollectionSonglist} {acts : List Act}
    {s : XmlListing} (info : SongFile → SongInfo)
    (hrun : Machine.run step (start UPDATE_BEFORE_TRANSMIT aCol) acts = some s) :
    ∃ r, ReadListing.read (s.asXML info) = some r ∧ r.id = aCol.mIdentifier ∧
      r.description = aCol.mDescription ∧ (r.songs.map fun e => e.1) = List.range r.songs.length ∧
      (∀ e ∈ r.songs, ∃ t song,
        Machine.Reaches step (start UPDATE_BEFORE_TRANSMIT aCol) acts t ∧
        t.col.mSonglist[e.1]? = some song ∧ e.2 = (song.mUNID, (info song).shown)) ∧
      (s.pc = .done → ∃ t, Machine.Reaches step (start UPDATE_BEFORE_TRANSMIT aCol) acts t ∧
        r.size = t.col.size) := by
  have hs : Seen aCol (start UPDATE_BEFORE_TRANSMIT aCol) acts s := by
    refine @Machine.run_induction _ _ _ (start UPDATE_BEFORE_TRANSMIT aCol)
      (Seen aCol (start UPDATE_BEFORE_TRANSMIT aCol)) (seen_start _ _) ?_ acts s hrun
    intro before t act t' ht ih hstep
    exact ih.step ht hstep
  refine ⟨_, read_asXML s info, hs.names.1, hs.names.2, ?_, ?_, ?_⟩
  · show (s.entries.map (shownEntry info)).map _ = List.range (s.entries.map _).length
    rw [List.map_map, List.length_map, ← hs.positions]
    rfl
  · intro e he
    obtain ⟨x, hx, rfl⟩ := List.mem_map.mp he
    obtain ⟨t, ht, hsong⟩ := hs.songs x hx
    exact ⟨t, x.2, ht, hsong, rfl⟩
  · intro hdone
    exact hs.size (by rw [hdone]; exact nofun) (by rw [hdone]; exact nofun)
      (by rw [hdone]; exact nofun)

/-- What is known of a song in a listing. -/
def tagged (song : SongFile) : SongInfo :=
  ⟨some song.mFilename, some "A".toList, none, some [], none, none, 3, 0, 4096, 0, .mp3⟩

/-- The player takes the song that has been listed. -/
theorem listing_read_oneSong : ∃ s r, Machine.run step (start false oneSong)
      [.size, .test, .get, .locked (.getNextSong 0), .test] = some s ∧
    ReadListing.read (s.asXML tagged) = some r ∧ r.id = "request".toList ∧
    (r.songs.map fun e => e.1) = List.range r.songs.length ∧ r.songs.length = 1 := by
  obtain ⟨r, hr, hid, -, hpositions, -, -⟩ := @listing_read false oneSong
    [.size, .test, .get, .locked (.getNextSong 0), .test] _ tagged rfl
  refine ⟨_, r, rfl, hr, hid, hpositions, ?_⟩
  rw [read_asXML] at hr
  obtain rfl := Option.some.inj hr
  rfl

end XmlListing

end NetDJ.Engine
