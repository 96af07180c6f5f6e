import NetDJ.Lib.Markup
import NetDJ.Daemon.File
import NetDJ.Daemon.ID3Tag
import NetDJ.Daemon.Sprintf

/-!
# `main.cc`: `/index.xml`

The document is put together from the current song, the entries of the playlists and the lists
themselves, and then one loop replaces characters all over it.

* `Record`, `indexXml` : the text as it is sent;
* `readRecords` : the text read back by its tags;
* `records` : what the document is about;
* `Kept` : nothing that is inserted has markup in it, and reading gives the records back;
* `Fits`, `Plain` : the numbers fit their buffers, and the data have no `<` and no `>` in them;
* `replaceIllegal_xbufText` : the loop leaves the program's own markup as it is;
* `readRecords_xbufText` : what has no `<` in it is read back;
* `structure_kept_iff` : the document keeps its structure exactly if both conditions hold.
-/

namespace NetDJ.Daemon

open Markup

/-! ## The data -/

/-- A file with what the thread asks it for: the size, the owner if there is one, and what is in it
when its tag is read. -/
structure PageFile where
  file : File
  size : Int
  pw_name : Option Str
  content : Option Str

namespace PageFile

def getOwner (f : PageFile) : Str := f.pw_name.getD []

def id3tag (f : PageFile) : ID3Tag := (ID3Tag.new.initFromFile f.content).1

end PageFile

/-- A directory with its entries, and what `GetSize` returns after its `Update`. -/
structure PageList where
  shname : Str
  descr : Str
  playlist : Bool
  list : List PageFile
  size : Int

/-- The current song, and the entries and the size of each of the three lists. -/
structure Page where
  songfile : PageFile
  request : List PageFile × Int
  cache : List PageFile × Int
  share : List PageFile × Int

def Page.lists (p : Page) : List PageList :=
  [⟨"request".toList, "Requested songs".toList, true, p.request.1, p.request.2⟩,
    ⟨"cache".toList, "Cache-dir".toList, true, p.cache.1, p.cache.2⟩,
    ⟨"share".toList, "Share-dir".toList, false, p.share.1, p.share.2⟩]

/-! ## The text -/

/-- The sizes of `tmpint` and `tmplint`. -/
def tmpint : Nat := 10
def tmplint : Nat := 20

/-- An element of the document: its tag, and its fields with their texts. -/
structure Record where
  tag : Str
  fields : List (Str × Str)
  deriving DecidableEq

/-- `"    <name>" + text + "</name>\n"`. -/
def fieldText (f : Str × Str) : Str :=
  "    <".toList ++ f.1 ++ ">".toList ++ f.2 ++ "</".toList ++ f.1 ++ ">\n".toList

def Record.text (r : Record) : Str :=
  "  <".toList ++ r.tag ++ ">\n".toList ++ r.fields.flatMap fieldText ++ "  </".toList ++
    tagName r.tag ++ ">\n".toList

/-- The fields from the tag of a file. -/
def tagFields (t : ID3Tag) : List (Str × Str) :=
  [("artist".toList, t.getArtist), ("album".toList, t.getAlbum), ("title".toList, t.getTitle),
    ("comment".toList, t.getNote), ("year".toList, t.getYear), ("style".toList, t.getStyle)]

def currentsong (f : PageFile) (size : Str) : Record :=
  ⟨"currentsong".toList,
    [("unid".toList, "0".toList), ("listid".toList, "current".toList), ("size".toList, size),
      ("description".toList, f.file.getFilenameNoType)] ++ tagFields f.id3tag⟩

def song (shname : Str) (f : PageFile) (songno id size : Str) : Record :=
  ⟨"song id=\"".toList ++ songno ++ "\"".toList,
    [("unid".toList, id), ("listid".toList, shname), ("size".toList, size),
      ("owner".toList, f.getOwner), ("description".toList, f.file.getFilenameNoType)] ++
      tagFields f.id3tag⟩

def list (dir : PageList) (size : Str) : Record :=
  ⟨"list".toList,
    [("size".toList, size), ("id".toList, dir.shname), ("description".toList, dir.descr)]⟩

def PageList.getEntries (dir : PageList) (max : Nat) : List PageFile :=
  if dir.playlist then dir.list.take max else []

/-- The loop over the entries of a list, behind song `songno`. -/
def songs (shname : Str) : Nat → List PageFile → Except Abort (List Record)
  | _, [] => .ok []
  | songno, it :: rest => do
    let no ← sprintf tmpint (songno + 1 : Nat)
    let id ← sprintf tmpint it.file.id.toInt
    let size ← sprintf tmplint it.size
    let rs ← songs shname (songno + 1) rest
    .ok (song shname it no id size :: rs)

/-- The loop over the lists, which ends when ten songs have been got. -/
def listSongs : List PageList → Nat → Nat → Except Abort (List Record)
  | [], _, _ => .ok []
  | dir :: rest, songsgot, songno => do
    let entries := dir.getEntries (10 - songsgot)
    let rs ← songs dir.shname songno entries
    if 10 ≤ songsgot + entries.length then .ok rs
    else
      let rs' ← listSongs rest (songsgot + entries.length) (songno + entries.length)
      .ok (rs ++ rs')

/-- The last loop over the lists. -/
def listRecords : List PageList → Except Abort (List Record)
  | [] => .ok []
  | dir :: rest => do
    let size ← sprintf tmpint dir.size
    let rs ← listRecords rest
    .ok (list dir size :: rs)

/-- The elements in the order of the document. -/
def indexRecords (p : Page) : Except Abort (List Record) := do
  let size ← sprintf tmplint p.songfile.size
  let rs ← listSongs p.lists 0 0
  let rs' ← listRecords p.lists
  .ok (currentsong p.songfile size :: (rs ++ rs'))

def xmlTag : Str := "?xml version=\"1.0\"?".toList

def netdjTag : Str :=
  "netdj id=\"netdj\" xmlns:html=\"http://www.w3.org/1999/xhtml\"\n".toList ++
    "                  xmlns:xlink=\"http://www.w3.org/1999/xlink\"".toList

def xbufText (rs : List Record) : Str :=
  "<".toList ++ xmlTag ++ ">\n<".toList ++ netdjTag ++ ">\n".toList ++ rs.flatMap Record.text ++
    "</netdj>\n".toList

/-- The test of the loop over `xbuf`; character 96 is the backquote. -/
def illegal (ch : Char) : Bool :=
  (ch = '&' || ch = Char.ofNat 96 || 127 < ch.toNat || ch.toNat < 32) && ch ≠ '\n' && ch ≠ '\r'

def replaceIllegal (xbuf : Str) : Str := xbuf.map fun ch => if illegal ch then ' ' else ch

/-- `xbuf` as it is sent. -/
def indexXml (p : Page) : Except Abort Str :=
  (indexRecords p).map fun rs => replaceIllegal (xbufText rs)

/-! ## What the document is about -/

/-- A text by its tags: the elements in `netdj`, with their fields. -/
def readRecords (text : Str) : Option (List Record) :=
  match read text with
  | none => none
  | some d =>
    match d.elements with
    | [(_, inner)] => some (inner.elements.map fun e =>
        ⟨e.1, e.2.elements.map fun f => (f.1, f.2.content)⟩)
    | _ => none

/-- The listed entries: the first ten of the playlists, each with the name of its list. -/
def listed (lists : List PageList) (max : Nat) : List (Str × PageFile) :=
  ((lists.filter (·.playlist)).flatMap fun dir => dir.list.map fun f => (dir.shname, f)).take max

def Page.listed (p : Page) : List (Str × PageFile) := Daemon.listed p.lists 10

/-- The record of entry `e`, with its place among the listed ones. -/
def songRecord (e : (Str × PageFile) × Nat) : Record :=
  song e.1.1 e.1.2 (decimal e.2) (decimal e.1.2.file.id.toInt) (decimal e.1.2.size)

/-- The current song, a record for each listed entry, and one for each list. -/
def records (p : Page) : List Record :=
  currentsong p.songfile (decimal p.songfile.size) ::
    ((p.listed.zipIdx 1).map songRecord ++ p.lists.map fun dir => list dir (decimal dir.size))

/-- The record with its texts as the loop over `xbuf` leaves them. -/
def Record.sanitised (r : Record) : Record :=
  ⟨r.tag, r.fields.map fun f => (f.1, replaceIllegal f.2)⟩

/-- No text that is inserted has markup in it, and the text that is sent reads as one element for
the current song, one for each listed entry and one for each list, with their texts. -/
structure Kept (p : Page) : Prop where
  clean : ∀ r ∈ records p, ∀ f ∈ r.fields, ∀ ch ∈ replaceIllegal f.2, ch ≠ '<' ∧ ch ≠ '>' ∧ ch ≠ '&'
  reads : ∃ xbuf, indexXml p = .ok xbuf ∧
    readRecords xbuf = some ((records p).map Record.sanitised)

/-- The numbers fit their buffers. -/
structure Fits (p : Page) : Prop where
  songfile : (decimal p.songfile.size).length < tmplint
  listed : ∀ e ∈ p.listed,
    (decimal e.2.file.id.toInt).length < tmpint ∧ (decimal e.2.size).length < tmplint
  lists : ∀ dir ∈ p.lists, (decimal dir.size).length < tmpint

def PlainText (s : Str) : Prop := '<' ∉ s ∧ '>' ∉ s

/-- The name of the file, and the fields of its tag but for the style. -/
def PageFile.texts (f : PageFile) : List Str :=
  [f.file.getFilenameNoType, f.id3tag.getArtist, f.id3tag.getAlbum, f.id3tag.getTitle,
    f.id3tag.getNote, f.id3tag.getYear]

/-- The data have no `<` and no `>` in them. -/
structure Plain (p : Page) : Prop where
  songfile : ∀ s ∈ p.songfile.texts, PlainText s
  listed : ∀ e ∈ p.listed, PlainText e.2.getOwner ∧ ∀ s ∈ e.2.texts, PlainText s

/-! ## The numbers -/

theorem decimal_songno {n : Nat} (h : n ≤ 10) : (decimal n).length < tmpint := by
  have hall : ∀ n < 11, (decimal (n : Nat)).length < tmpint := by decide
  exact hall n (Nat.lt_succ_of_le h)

def FitsEntry (f : PageFile) : Prop :=
  (decimal f.file.id.toInt).length < tmpint ∧ (decimal f.size).length < tmplint

theorem songs_eq_ok (shname : Str) (songno : Nat) (es : List PageFile) (rs : List Record)
    (h : songno + es.length ≤ 10) :
    songs shname songno es = .ok rs ↔ (∀ f ∈ es, FitsEntry f) ∧
      rs = ((es.map fun f => (shname, f)).zipIdx (songno + 1)).map songRecord := by
  induction es generalizing songno rs with
  | nil => exact ⟨fun h => ⟨nofun, (Except.ok.inj h).symm⟩, fun h => congrArg _ h.2.symm⟩
  | cons f es ih =>
    rw [List.length_cons] at h
    have hno := decimal_songno (show songno + 1 ≤ 10 by omega)
    have ih' := fun rs => ih (songno + 1) rs (by omega)
    simp only [songs, bind_eq_ok, sprintf_eq_ok, ih', List.forall_mem_cons, List.map_cons,
      List.zipIdx_cons, FitsEntry]
    constructor
    · rintro ⟨_, ⟨-, rfl⟩, _, ⟨hid, rfl⟩, _, ⟨hsize, rfl⟩, _, ⟨hes, rfl⟩, hrs⟩
      exact ⟨⟨⟨hid, hsize⟩, hes⟩, (Except.ok.inj hrs).symm⟩
    · rintro ⟨⟨⟨hid, hsize⟩, hes⟩, rfl⟩
      exact ⟨_, ⟨hno, rfl⟩, _, ⟨hid, rfl⟩, _, ⟨hsize, rfl⟩, _, ⟨hes, rfl⟩, rfl⟩

theorem listed_cons (dir : PageList) (rest : List PageList) (max : Nat) :
    listed (dir :: rest) max = (dir.getEntries max).map (fun f => (dir.shname, f)) ++
      listed rest (max - (dir.getEntries max).length) := by
  unfold listed PageList.getEntries
  cases hp : dir.playlist with
  | false => simp [hp]
  | true =>
    rw [List.filter_cons_of_pos hp, List.flatMap_cons, List.take_append, List.length_map,
      if_pos rfl, List.map_take, List.length_take]
    congr 2
    omega

theorem listed_zero (lists : List PageList) : listed lists 0 = [] := List.take_zero

theorem length_getEntries (dir : PageList) (max : Nat) : (dir.getEntries max).length ≤ max := by
  unfold PageList.getEntries
  split
  · rw [List.length_take]
    exact Nat.min_le_left _ _
  · exact Nat.zero_le _

theorem listSongs_eq_ok {lists : List PageList} (n : Nat) (rs : List Record) (hn : n ≤ 10) :
    listSongs lists n n = .ok rs ↔ (∀ e ∈ listed lists (10 - n), FitsEntry e.2) ∧
      rs = ((listed lists (10 - n)).zipIdx (n + 1)).map songRecord := by
  induction lists generalizing n rs with
  | nil =>
    have hnil : listed [] (10 - n) = [] := List.take_nil
    rw [hnil]
    exact ⟨fun h => ⟨nofun, (Except.ok.inj h).symm⟩, fun h => congrArg _ h.2.symm⟩
  | cons dir rest ih =>
    have hlen := length_getEntries dir (10 - n)
    have hsongs := fun rs => songs_eq_ok dir.shname n (dir.getEntries (10 - n)) rs (by omega)
    rw [listed_cons, Nat.sub_sub, listSongs, bind_eq_ok]
    simp only [hsongs, List.forall_mem_append, List.forall_mem_map]
    by_cases hfull : 10 ≤ n + (dir.getEntries (10 - n)).length
    · have hzero : 10 - (n + (dir.getEntries (10 - n)).length) = 0 := by omega
      simp only [if_pos hfull, hzero, listed_zero, List.append_nil]
      constructor
      · rintro ⟨_, ⟨hfits, rfl⟩, hrs⟩
        exact ⟨⟨hfits, nofun⟩, (Except.ok.inj hrs).symm⟩
      · rintro ⟨⟨hfits, -⟩, rfl⟩
        exact ⟨_, ⟨hfits, rfl⟩, rfl⟩
    · have ih' := fun rs => ih (n + (dir.getEntries (10 - n)).length) rs (by omega)
      simp only [if_neg hfull, bind_eq_ok, ih', List.zipIdx_append, List.map_append,
        List.length_map]
      constructor
      · rintro ⟨_, ⟨hfits, rfl⟩, _, ⟨hrest, rfl⟩, hrs⟩
        refine ⟨⟨hfits, hrest⟩, (Except.ok.inj hrs).symm.trans ?_⟩
        rw [Nat.add_right_comm]
      · rintro ⟨⟨hfits, hrest⟩, rfl⟩
        refine ⟨_, ⟨hfits, rfl⟩, _, ⟨hrest, rfl⟩, ?_⟩
        rw [Nat.add_right_comm]

theorem listRecords_eq_ok {lists : List PageList} {rs : List Record} :
    listRecords lists = .ok rs ↔ (∀ dir ∈ lists, (decimal dir.size).length < tmpint) ∧
      rs = lists.map fun dir => list dir (decimal dir.size) := by
  induction lists generalizing rs with
  | nil => exact ⟨fun h => ⟨nofun, (Except.ok.inj h).symm⟩, fun h => congrArg _ h.2.symm⟩
  | cons dir rest ih =>
    simp only [listRecords, bind_eq_ok, sprintf_eq_ok, ih, List.forall_mem_cons, List.map_cons]
    constructor
    · rintro ⟨_, ⟨hsize, rfl⟩, _, ⟨hrest, rfl⟩, hrs⟩
      exact ⟨⟨hsize, hrest⟩, (Except.ok.inj hrs).symm⟩
    · rintro ⟨⟨hsize, hrest⟩, rfl⟩
      exact ⟨_, ⟨hsize, rfl⟩, _, ⟨hrest, rfl⟩, rfl⟩

theorem indexRecords_eq_ok (p : Page) (rs : List Record) :
    indexRecords p = .ok rs ↔ Fits p ∧ rs = records p := by
  unfold indexRecords
  simp only [bind_eq_ok, sprintf_eq_ok, listSongs_eq_ok 0 _ (Nat.zero_le 10), listRecords_eq_ok]
  constructor
  · rintro ⟨_, ⟨hsong, rfl⟩, _, ⟨hlisted, rfl⟩, _, ⟨hlists, rfl⟩, hrs⟩
    exact ⟨⟨hsong, hlisted, hlists⟩, (Except.ok.inj hrs).symm⟩
  · rintro ⟨⟨hsong, hlisted, hlists⟩, rfl⟩
    exact ⟨_, ⟨hsong, rfl⟩, _, ⟨hlisted, rfl⟩, _, ⟨hlists, rfl⟩, rfl⟩

/-! ## The loop over the text -/

/-- The loop leaves the text as it is. -/
def Legal (s : Str) : Prop := ∀ ch ∈ s, illegal ch = false

instance (s : Str) : Decidable (Legal s) := List.decidableBAll (fun ch => illegal ch = false) s

theorem replaceIllegal_append (s t : Str) :
    replaceIllegal (s ++ t) = replaceIllegal s ++ replaceIllegal t := List.map_append

theorem replaceIllegal_of_legal {s : Str} (h : Legal s) : replaceIllegal s = s := by
  unfold replaceIllegal
  conv => rhs; rw [← List.map_id s]
  refine List.map_congr_left fun ch hch => ?_
  rw [h ch hch]
  rfl

theorem mem_replaceIllegal {s : Str} {ch : Char} (hlegal : illegal ch = false) (hch : ch ≠ ' ') :
    ch ∈ replaceIllegal s ↔ ch ∈ s := by
  unfold replaceIllegal
  rw [List.mem_map]
  constructor
  · rintro ⟨x, hx, rfl⟩
    split at hch
    · exact absurd rfl hch
    · next h =>
      rw [if_neg h]
      exact hx
  · intro h
    exact ⟨ch, h, if_neg (by rw [hlegal]; exact Bool.false_ne_true)⟩

theorem amp_notMem_replaceIllegal (s : Str) : '&' ∉ replaceIllegal s := by
  intro h
  obtain ⟨x, -, hx⟩ := List.mem_map.mp h
  split at hx
  · exact absurd hx (by decide)
  · next hlegal =>
    rw [hx] at hlegal
    exact hlegal (by decide)

theorem plainText_replaceIllegal {s : Str} : PlainText (replaceIllegal s) ↔ PlainText s := by
  unfold PlainText
  rw [mem_replaceIllegal (by decide) (by decide), mem_replaceIllegal (by decide) (by decide)]

/-- Only `<` and `>` can get through the loop. -/
theorem clean_iff {s : Str} :
    (∀ ch ∈ replaceIllegal s, ch ≠ '<' ∧ ch ≠ '>' ∧ ch ≠ '&') ↔ PlainText s := by
  rw [← plainText_replaceIllegal]
  constructor
  · exact fun h => ⟨fun hmem => (h _ hmem).1 rfl, fun hmem => (h _ hmem).2.1 rfl⟩
  · intro h ch hch
    refine ⟨?_, ?_, ?_⟩
    · rintro rfl
      exact h.1 hch
    · rintro rfl
      exact h.2 hch
    · rintro rfl
      exact amp_notMem_replaceIllegal s hch

theorem legal_decimal (n : Int) : Legal (decimal n) := fun ch hch =>
  (by decide : Legal "-0123456789".toList) ch (mem_decimal hch)

theorem plainText_decimal (n : Int) : PlainText (decimal n) :=
  ⟨fun h => absurd (mem_decimal h) (by decide), fun h => absurd (mem_decimal h) (by decide)⟩

/-! ## The document -/

/-- The tags of a record are names that the loop leaves alone. -/
structure Record.Framed (r : Record) : Prop where
  legal : Legal r.tag
  opens : Opens r.tag
  fields : ∀ f ∈ r.fields, Legal f.1 ∧ Opens f.1 ∧ tagName f.1 = f.1

theorem replaceIllegal_fieldText {f : Str × Str} (h : Legal f.1) :
    replaceIllegal (fieldText f) = fieldText (f.1, replaceIllegal f.2) := by
  unfold fieldText
  simp only [replaceIllegal_append, replaceIllegal_of_legal h]
  rfl

theorem legal_tagName {tag : Str} (h : Legal tag) : Legal (tagName tag) := fun ch hch =>
  h ch ((List.takeWhile_sublist _).subset hch)

theorem Record.Framed.replaceIllegal_text {r : Record} (hr : r.Framed) :
    replaceIllegal r.text = r.sanitised.text := by
  have hfields : replaceIllegal (r.fields.flatMap fieldText) =
      r.sanitised.fields.flatMap fieldText := by
    unfold replaceIllegal Record.sanitised
    rw [List.map_flatMap, List.flatMap_map]
    exact List.flatMap_congr fun f hf => replaceIllegal_fieldText (hr.fields f hf).1
  unfold Record.text
  simp only [replaceIllegal_append, hfields, replaceIllegal_of_legal hr.legal,
    replaceIllegal_of_legal (legal_tagName hr.legal)]
  rfl

/-- The loop over the text replaces in what has been inserted. -/
theorem replaceIllegal_xbufText {rs : List Record} (hrs : ∀ r ∈ rs, r.Framed) :
    replaceIllegal (xbufText rs) = xbufText (rs.map Record.sanitised) := by
  have htexts : replaceIllegal (rs.flatMap Record.text) =
      (rs.map Record.sanitised).flatMap Record.text := by
    unfold replaceIllegal
    rw [List.map_flatMap, List.flatMap_map]
    exact List.flatMap_congr fun r hr => (hrs r hr).replaceIllegal_text
  unfold xbufText
  simp only [replaceIllegal_append, htexts]
  rfl

/-- The document that the fields of a record make. -/
def fieldsDoc : List (Str × Str) → Doc
  | [] => .text ['\n', ' ', ' ']
  | f :: fs => .elem ['\n', ' ', ' ', ' ', ' '] f.1 (.text f.2) (fieldsDoc fs)

def recordsDoc : List Record → Doc
  | [] => .text ['\n']
  | r :: rs => .elem ['\n', ' ', ' '] r.tag (fieldsDoc r.fields) (recordsDoc rs)

def document (rs : List Record) : Doc :=
  .instr [] xmlTag (.elem ['\n'] netdjTag (recordsDoc rs) (.text ['\n']))

theorem fieldText_append (f : Str × Str) (t : Str) : fieldText f ++ t =
    ' ' :: ' ' :: ' ' :: ' ' :: '<' :: (f.1 ++ '>' :: (f.2 ++ '<' :: '/' ::
      (f.1 ++ '>' :: '\n' :: t))) := by
  unfold fieldText
  simp only [String.reduceToList, List.cons_append, List.nil_append, List.append_assoc]

theorem Record.text_append (r : Record) (t : Str) : r.text ++ t =
    ' ' :: ' ' :: '<' :: (r.tag ++ '>' :: '\n' :: (r.fields.flatMap fieldText ++
      ' ' :: ' ' :: '<' :: '/' :: (tagName r.tag ++ '>' :: '\n' :: t))) := by
  unfold Record.text
  simp only [String.reduceToList, List.cons_append, List.nil_append, List.append_assoc]

theorem render_fieldsDoc {fs : List (Str × Str)} (hfs : ∀ f ∈ fs, tagName f.1 = f.1) :
    (fieldsDoc fs).render = '\n' :: (fs.flatMap fieldText ++ [' ', ' ']) := by
  induction fs with
  | nil => rfl
  | cons f fs ih =>
    rw [List.forall_mem_cons] at hfs
    rw [fieldsDoc, Doc.render, ih hfs.2, List.flatMap_cons, List.append_assoc, fieldText_append,
      endTag, hfs.1, Doc.render]
    simp only [List.cons_append, List.nil_append, List.append_assoc]

theorem render_recordsDoc {rs : List Record}
    (hrs : ∀ r ∈ rs, ∀ f ∈ r.fields, tagName f.1 = f.1) :
    (recordsDoc rs).render = '\n' :: rs.flatMap Record.text := by
  induction rs with
  | nil => rfl
  | cons r rs ih =>
    rw [List.forall_mem_cons] at hrs
    rw [recordsDoc, Doc.render, ih hrs.2, render_fieldsDoc hrs.1, List.flatMap_cons,
      Record.text_append, endTag]
    simp only [List.cons_append, List.nil_append, List.append_assoc]

theorem render_document {rs : List Record}
    (hrs : ∀ r ∈ rs, ∀ f ∈ r.fields, tagName f.1 = f.1) :
    (document rs).render = xbufText rs := by
  have hname : tagName netdjTag = "netdj".toList := rfl
  unfold xbufText
  rw [document, Doc.render, Doc.render, render_recordsDoc hrs, endTag, hname, Doc.render]
  simp only [String.reduceToList, List.cons_append, List.nil_append, List.append_assoc]

theorem fieldsDoc_ok {fs : List (Str × Str)} (hfs : ∀ f ∈ fs, Opens f.1 ∧ '<' ∉ f.2) :
    (fieldsDoc fs).Ok := by
  induction fs with
  | nil => exact (by decide : '<' ∉ ['\n', ' ', ' '])
  | cons f fs ih =>
    rw [List.forall_mem_cons] at hfs
    exact ⟨by decide, hfs.1.1, hfs.1.2, ih hfs.2⟩

theorem recordsDoc_ok {rs : List Record}
    (hrs : ∀ r ∈ rs, Opens r.tag ∧ ∀ f ∈ r.fields, Opens f.1 ∧ '<' ∉ f.2) :
    (recordsDoc rs).Ok := by
  induction rs with
  | nil => exact (by decide : '<' ∉ ['\n'])
  | cons r rs ih =>
    rw [List.forall_mem_cons] at hrs
    exact ⟨by decide, hrs.1.1, fieldsDoc_ok hrs.1.2, ih hrs.2⟩

theorem elements_fieldsDoc (fs : List (Str × Str)) :
    (fieldsDoc fs).elements = fs.map fun f => (f.1, .text f.2) := by
  induction fs with
  | nil => rfl
  | cons f fs ih => rw [fieldsDoc, Doc.elements, ih, List.map_cons]

theorem elements_recordsDoc (rs : List Record) :
    (recordsDoc rs).elements = rs.map fun r => (r.tag, fieldsDoc r.fields) := by
  induction rs with
  | nil => rfl
  | cons r rs ih => rw [recordsDoc, Doc.elements, ih, List.map_cons]

/-- The text is the document, if no text in it has a `<`. -/
theorem read_xbufText {rs : List Record} (hrs : ∀ r ∈ rs, r.Framed)
    (htexts : ∀ r ∈ rs, ∀ f ∈ r.fields, '<' ∉ f.2) : read (xbufText rs) = some (document rs) := by
  have hok : (document rs).Ok := by
    refine ⟨List.not_mem_nil, by decide, by decide, by decide, by decide,
      recordsDoc_ok fun r hr => ⟨(hrs r hr).opens, fun f hf => ?_⟩, (by decide : '<' ∉ ['\n'])⟩
    exact ⟨((hrs r hr).fields f hf).2.1, htexts r hr f hf⟩
  rw [← render_document fun r hr f hf => ((hrs r hr).fields f hf).2.2, read_render hok]

theorem readRecords_xbufText {rs : List Record} (hrs : ∀ r ∈ rs, r.Framed)
    (htexts : ∀ r ∈ rs, ∀ f ∈ r.fields, '<' ∉ f.2) : readRecords (xbufText rs) = some rs := by
  have hfields : ∀ r : Record, (fieldsDoc r.fields).elements.map (fun f => (f.1, f.2.content)) =
      r.fields := by
    intro r
    rw [elements_fieldsDoc, List.map_map]
    exact List.map_id r.fields
  unfold readRecords
  rw [read_xbufText hrs htexts]
  show some ((recordsDoc rs).elements.map _) = some rs
  rw [elements_recordsDoc, List.map_map]
  conv => rhs; rw [← List.map_id rs]
  refine congrArg some (List.map_congr_left fun r hr => ?_)
  exact congrArg (Record.mk r.tag) (hfields r)

theorem Record.Framed.sanitised {r : Record} (hr : r.Framed) : r.sanitised.Framed := by
  refine ⟨hr.legal, hr.opens, fun f hf => ?_⟩
  obtain ⟨f, hmem, rfl⟩ := List.mem_map.mp hf
  exact hr.fields f hmem

/-! ## The records -/

def fieldNames : List Str :=
  ["unid".toList, "listid".toList, "size".toList, "owner".toList, "description".toList,
    "artist".toList, "album".toList, "title".toList, "comment".toList, "year".toList,
    "style".toList, "id".toList]

theorem fieldNames_framed : ∀ n ∈ fieldNames, Legal n ∧ Opens n ∧ tagName n = n := by decide

theorem framed_of_names {r : Record} (hlegal : Legal r.tag) (hopens : Opens r.tag)
    (hnames : ∀ n ∈ r.fields.map Prod.fst, n ∈ fieldNames) : r.Framed :=
  ⟨hlegal, hopens, fun f hf => fieldNames_framed f.1 (hnames f.1 (List.mem_map_of_mem hf))⟩

theorem currentsong_names (f : PageFile) (size : Str) :
    ∀ n ∈ (currentsong f size).fields.map Prod.fst, n ∈ fieldNames := by
  show ∀ n ∈ ["unid".toList, "listid".toList, "size".toList, "description".toList,
    "artist".toList, "album".toList, "title".toList, "comment".toList, "year".toList,
    "style".toList], n ∈ fieldNames
  decide

theorem list_names (dir : PageList) (size : Str) :
    ∀ n ∈ (list dir size).fields.map Prod.fst, n ∈ fieldNames := by
  show ∀ n ∈ ["size".toList, "id".toList, "description".toList], n ∈ fieldNames
  decide

theorem songRecord_names (e : (Str × PageFile) × Nat) :
    ∀ n ∈ (songRecord e).fields.map Prod.fst, n ∈ fieldNames := by
  show ∀ n ∈ ["unid".toList, "listid".toList, "size".toList, "owner".toList,
    "description".toList, "artist".toList, "album".toList, "title".toList, "comment".toList,
    "year".toList, "style".toList], n ∈ fieldNames
  decide

theorem currentsong_framed (f : PageFile) (size : Str) : (currentsong f size).Framed :=
  framed_of_names (by decide : Legal "currentsong".toList)
    (by decide : Opens "currentsong".toList) (currentsong_names f size)

theorem list_framed (dir : PageList) (size : Str) : (list dir size).Framed :=
  framed_of_names (by decide : Legal "list".toList) (by decide : Opens "list".toList)
    (list_names dir size)

theorem songRecord_framed (e : (Str × PageFile) × Nat) : (songRecord e).Framed := by
  refine framed_of_names ?_ ?_ (songRecord_names e)
  · intro ch hch
    rcases List.mem_append.mp hch with hch | hch
    · rcases List.mem_append.mp hch with hch | hch
      · exact (by decide : Legal "song id=\"".toList) ch hch
      · exact legal_decimal _ ch hch
    · exact (by decide : Legal "\"".toList) ch hch
  · refine ⟨fun hmem => ?_, nofun, nofun⟩
    rcases List.mem_append.mp hmem with hmem | hmem
    · rcases List.mem_append.mp hmem with hmem | hmem
      · exact absurd hmem (by decide)
      · exact (plainText_decimal _).2 hmem
    · exact absurd hmem (by decide)

theorem records_framed (p : Page) : ∀ r ∈ records p, r.Framed := by
  intro r hr
  rcases List.mem_cons.mp hr with rfl | hr
  · exact currentsong_framed _ _
  rcases List.mem_append.mp hr with hr | hr
  · obtain ⟨e, -, rfl⟩ := List.mem_map.mp hr
    exact songRecord_framed e
  · obtain ⟨dir, -, rfl⟩ := List.mem_map.mp hr
    exact list_framed dir _

/-! ## The texts -/

section Texts
variable {P : Str → Prop}

theorem forall_currentsong_fields (f : PageFile) (size : Str) :
    (∀ x ∈ (currentsong f size).fields, P x.2) ↔
      (P "0".toList ∧ P "current".toList ∧ P size) ∧ (∀ s ∈ f.texts, P s) ∧ P f.id3tag.getStyle := by
  unfold currentsong tagFields PageFile.texts
  simp only [List.cons_append, List.nil_append, List.forall_mem_cons, List.not_mem_nil,
    false_imp_iff, implies_true, and_true, and_assoc]

theorem forall_songRecord_fields (e : (Str × PageFile) × Nat) :
    (∀ x ∈ (songRecord e).fields, P x.2) ↔
      (P (decimal e.1.2.file.id.toInt) ∧ P e.1.1 ∧ P (decimal e.1.2.size)) ∧
        (P e.1.2.getOwner ∧ ∀ s ∈ e.1.2.texts, P s) ∧ P e.1.2.id3tag.getStyle := by
  unfold songRecord song tagFields PageFile.texts
  simp only [List.cons_append, List.nil_append, List.forall_mem_cons, List.not_mem_nil,
    false_imp_iff, implies_true, and_true, and_assoc]

theorem forall_list_fields (dir : PageList) (size : Str) :
    (∀ x ∈ (list dir size).fields, P x.2) ↔ P size ∧ P dir.shname ∧ P dir.descr := by
  simp only [list, List.forall_mem_cons, List.not_mem_nil, false_imp_iff, implies_true, and_true]

end Texts

theorem plainText_getStyle (f : PageFile) : PlainText f.id3tag.getStyle := by
  rcases ID3Tag.getStyle_initFromFile f.content with h | ⟨styleid, h⟩
  · rw [PageFile.id3tag, h]
    exact ⟨List.not_mem_nil, List.not_mem_nil⟩
  · rw [PageFile.id3tag, h]
    exact findStyle_plain styleid

theorem plainText_lists (p : Page) :
    ∀ dir ∈ p.lists, PlainText dir.shname ∧ PlainText dir.descr := by
  simp only [Page.lists, List.forall_mem_cons]
  refine ⟨?_, ?_, ?_, nofun⟩
  all_goals exact ⟨⟨by decide, by decide⟩, by decide, by decide⟩

theorem exists_list {p : Page} {e : Str × PageFile} (he : e ∈ p.listed) :
    ∃ dir ∈ p.lists, e.1 = dir.shname := by
  obtain ⟨dir, hdir, hmem⟩ := List.mem_flatMap.mp (List.mem_of_mem_take he)
  obtain ⟨f, -, rfl⟩ := List.mem_map.mp hmem
  exact ⟨dir, List.mem_of_mem_filter hdir, rfl⟩

/-- All that is inserted is plain exactly if the data are. -/
theorem plain_iff {p : Page} : Plain p ↔ ∀ r ∈ records p, ∀ f ∈ r.fields, PlainText f.2 := by
  have hconst : PlainText "0".toList ∧ PlainText "current".toList :=
    ⟨⟨by decide, by decide⟩, by decide, by decide⟩
  have hindex : ∀ {Q : Str × PageFile → Prop},
      (∀ e ∈ p.listed.zipIdx 1, Q e.1) ↔ ∀ e ∈ p.listed, Q e := by
    intro Q
    conv => rhs; rw [← List.zipIdx_map_fst 1 p.listed]
    rw [List.forall_mem_map]
  unfold records
  rw [List.forall_mem_cons, List.forall_mem_append, List.forall_mem_map, List.forall_mem_map]
  simp only [forall_currentsong_fields, forall_songRecord_fields, forall_list_fields, hconst,
    plainText_decimal, plainText_getStyle, true_and, and_true]
  rw [hindex (Q := fun e => PlainText e.1 ∧ PlainText e.2.getOwner ∧
    ∀ s ∈ e.2.texts, PlainText s)]
  constructor
  · intro h
    refine ⟨h.songfile, fun e he => ⟨?_, h.listed e he⟩, plainText_lists p⟩
    obtain ⟨dir, hdir, hname⟩ := exists_list he
    exact hname ▸ (plainText_lists p dir hdir).1
  · rintro ⟨hsong, hlisted, -⟩
    exact ⟨hsong, fun e he => (hlisted e he).2⟩

theorem clean_records_iff {p : Page} : Plain p ↔ ∀ r ∈ records p, ∀ f ∈ r.fields,
    ∀ ch ∈ replaceIllegal f.2, ch ≠ '<' ∧ ch ≠ '>' ∧ ch ≠ '&' := by
  rw [plain_iff]
  simp only [clean_iff]

theorem sanitised_framed (p : Page) : ∀ r ∈ (records p).map Record.sanitised, r.Framed := by
  intro r hr
  obtain ⟨r, hmem, rfl⟩ := List.mem_map.mp hr
  exact (records_framed p r hmem).sanitised

theorem Plain.sanitised {p : Page} (h : Plain p) :
    ∀ r ∈ (records p).map Record.sanitised, ∀ f ∈ r.fields, '<' ∉ f.2 := by
  intro r hr f hf
  obtain ⟨r, hmem, rfl⟩ := List.mem_map.mp hr
  obtain ⟨f, hfmem, rfl⟩ := List.mem_map.mp hf
  exact (plainText_replaceIllegal.mpr (plain_iff.mp h r hmem f hfmem)).1

theorem Plain.reads {p : Page} (h : Plain p) :
    readRecords (replaceIllegal (xbufText (records p))) =
      some ((records p).map Record.sanitised) := by
  rw [replaceIllegal_xbufText (records_framed p)]
  exact readRecords_xbufText (sanitised_framed p) h.sanitised

theorem indexXml_eq_ok {p : Page} {xbuf : Str} :
    indexXml p = .ok xbuf ↔ Fits p ∧ xbuf = replaceIllegal (xbufText (records p)) := by
  have hrs := indexRecords_eq_ok p
  unfold indexXml
  cases h : indexRecords p with
  | error a =>
    refine iff_of_false nofun fun hfits => ?_
    rw [(hrs _).mpr ⟨hfits.1, rfl⟩] at h
    cases h
  | ok rs =>
    obtain ⟨hfits, rfl⟩ := (hrs rs).mp h
    exact ⟨fun he => ⟨hfits, (Except.ok.inj he).symm⟩, fun he => congrArg _ he.2.symm⟩

/-- **The document keeps its structure exactly if the numbers fit their buffers and the data have no
`<` and no `>` in them.** -/
theorem structure_kept_iff (p : Page) : Kept p ↔ Fits p ∧ Plain p := by
  constructor
  · rintro ⟨hclean, xbuf, hxbuf, -⟩
    exact ⟨(indexXml_eq_ok.mp hxbuf).1, clean_records_iff.mpr hclean⟩
  · rintro ⟨hfits, hplain⟩
    exact ⟨clean_records_iff.mp hplain, _, indexXml_eq_ok.mpr ⟨hfits, rfl⟩, hplain.reads⟩

def angleSong : Page :=
  ⟨⟨⟨0, "/mp3/a<b.mp3".toList, .zero, true⟩, 4096, none, none⟩, ([], 0), ([], 0), ([], 0)⟩

theorem angle_in_document : ¬ ∀ p, Kept p := by
  intro h
  have hclean := (h angleSong).clean _ List.mem_cons_self
    ("description".toList, angleSong.songfile.file.getFilenameNoType) (by decide) '<' (by decide)
  exact hclean.1 rfl

end NetDJ.Daemon
