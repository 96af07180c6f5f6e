import NetDJ.Text

/-!
# `ID3Tag.cc`: the tag at the end of a file

* `ID3Tag.initFromFile` : the fields of the last 128 bytes;
* `findStyle_plain` : no style has a tag in its name;
* `ID3Tag.length_tag_le` : the texts are short.
-/

namespace NetDJ.Daemon

def id3_styles : List (Nat × String) :=
  [(0x00, "Blues"), (0x01, "Classic Rock"), (0x02, "Country"), (0x03, "Dance"), (0x04, "Disco"),
    (0x05, "Funk"), (0x06, "Grunge"), (0x07, "Hip-Hop"), (0x08, "Jazz"), (0x09, "Metal"),
    (0x0A, "New Age"), (0x0B, "Oldies"), (0x0C, "Other"), (0x0D, "Pop"), (0x0E, "R&B"),
    (0x0F, "Rap"), (0x10, "Reggae"), (0x11, "Rock"), (0x12, "Techno"), (0x13, "Industrial"),
    (0x14, "Alternative"), (0x15, "Ska"), (0x16, "Death Metal"), (0x17, "Pranks"),
    (0x18, "Soundtrack"), (0x19, "Euro-Techno"), (0x1A, "Ambient"), (0x1B, "Trip-Hop"),
    (0x1C, "Vocal"), (0x1D, "Jazz+Funk"), (0x1E, "Fusion"), (0x1F, "Trance"), (0x20, "Classical"),
    (0x21, "Instrumental"), (0x22, "Acid"), (0x23, "House"), (0x24, "Game"), (0x25, "Sound Clip"),
    (0x26, "Gospel"), (0x27, "Noise"), (0x28, "Alt. Rock"), (0x29, "Bass"), (0x2A, "Soul"),
    (0x2B, "Punk"), (0x2C, "Space"), (0x2D, "Meditative"), (0x2E, "Instrumental Pop"),
    (0x2F, "Instrumental Rock"), (0x30, "Ethnic"), (0x31, "Gothic"), (0x32, "Darkwave"),
    (0x33, "Techno-Industrial"), (0x34, "Electronic"), (0x35, "Pop-Folk"), (0x36, "Eurodance"),
    (0x37, "Dream"), (0x38, "Southern Rock"), (0x39, "Comedy"), (0x3A, "Cult"), (0x3B, "Gangsta"),
    (0x3C, "Top 40"), (0x3D, "Christian Rap"), (0x3E, "Pop/Funk"), (0x3F, "Jungle"),
    (0x40, "Native US"), (0x41, "Cabaret"), (0x42, "New Wave"), (0x43, "Psychadelic"),
    (0x44, "Rave"), (0x45, "Showtunes"), (0x46, "Trailer"), (0x47, "Lo-Fi"), (0x48, "Tribal"),
    (0x49, "Acid Punk"), (0x4A, "Acid Jazz"), (0x4B, "Polka"), (0x4C, "Retro"), (0x4D, "Musical"),
    (0x4E, "Rock & Roll"), (0x4F, "Hard Rock"), (0x50, "Folk"), (0x51, "Folk-Rock"),
    (0x52, "National Folk"), (0x53, "Swing"), (0x54, "Fast Fusion"), (0x55, "Bebob"),
    (0x56, "Latin"), (0x57, "Revival"), (0x58, "Celtic"), (0x59, "Bluegrass"),
    (0x5A, "Avantgarde"), (0x5B, "Gothic Rock"), (0x5C, "Progressive Rock"),
    (0x5D, "Psychedelic Rock"), (0x5E, "Symphonic Rock"), (0x5F, "Slow Rock"), (0x60, "Big Band"),
    (0x61, "Chorus"), (0x62, "Easy Listening"), (0x63, "Acoustic"), (0x64, "Humour"),
    (0x65, "Speech"), (0x66, "Chanson"), (0x67, "Opera"), (0x68, "Chamber Music"),
    (0x69, "Sonata"), (0x6A, "Symphony"), (0x6B, "Booty Bass"), (0x6C, "Primus"),
    (0x6D, "Porn Groove"), (0x6E, "Satire"), (0x6F, "Slow Jam"), (0x70, "Club"), (0x71, "Tango"),
    (0x72, "Samba"), (0x73, "Folklore"), (0x74, "Ballad"), (0x75, "Power Ballad"),
    (0x76, "Rhytmic Soul"), (0x77, "Freestyle"), (0x78, "Duet"), (0x79, "Punk Rock"),
    (0x7A, "Drum Solo"), (0x7B, "Acapella"), (0x7C, "Euro-House"), (0x7D, "Dance Hall"),
    (0x7E, "Goa"), (0x7F, "Drum & Bass"), (0x80, "Club-House"), (0x81, "Hardcore"),
    (0x82, "Terror"), (0x83, "Indie"), (0x84, "BritPop"), (0x85, "Negerpunk"),
    (0x86, "Polsk Punk"), (0x87, "Beat"), (0x88, "Christian Gangsta Rap"), (0x89, "Heavy Metal"),
    (0x8A, "Black Metal"), (0x8B, "Crossover"), (0x8C, "Contemporary Christian"),
    (0x8D, "Christian Rock"), (0x8E, "Merengue"), (0x8F, "Salsa"), (0x90, "Trash Metal")]

def findStyle (styleid : Nat) : Str :=
  ((id3_styles.find? fun s => s.1 = styleid).map fun s => s.2.toList).getD
    "Unknown Style".toList

theorem findStyle_texts (styleid : Nat) : ('<' ∉ findStyle styleid ∧ '>' ∉ findStyle styleid) ∧
    (findStyle styleid).length ≤ 30 := by
  have htable : ∀ s ∈ id3_styles, ('<' ∉ s.2.toList ∧ '>' ∉ s.2.toList) ∧
      s.2.toList.length ≤ 30 := by decide +kernel
  unfold findStyle
  cases hs : id3_styles.find? fun s => s.1 = styleid with
  | none => decide
  | some s => exact htable s (List.mem_of_find?_eq_some hs)

theorem findStyle_plain (styleid : Nat) :
    '<' ∉ findStyle styleid ∧ '>' ∉ findStyle styleid := (findStyle_texts styleid).1

theorem length_findStyle_le (styleid : Nat) : (findStyle styleid).length ≤ 30 :=
  (findStyle_texts styleid).2

structure ID3Tag where
  tags : List Str

namespace ID3Tag

def new : ID3Tag := ⟨List.replicate 6 []⟩

def getTitle (t : ID3Tag) : Str := t.tags.getD 0 []
def getArtist (t : ID3Tag) : Str := t.tags.getD 1 []
def getAlbum (t : ID3Tag) : Str := t.tags.getD 2 []
def getYear (t : ID3Tag) : Str := t.tags.getD 3 []
def getNote (t : ID3Tag) : Str := t.tags.getD 4 []
def getStyle (t : ID3Tag) : Str := t.tags.getD 5 []

def maxsize : List Nat := [30, 30, 30, 4, 30]

/-- A field of `size` characters at most at `off`, up to a NUL, without spaces at its end. -/
def field (id3buf : Str) (off size : Nat) : Str :=
  let text := ((id3buf.drop off).take size).takeWhile (· ≠ '\x00')
  (text.reverse.dropWhile fun c => c = '\x00' ∨ c = ' ').reverse

/-- The fields of these sizes from `off` on. -/
def fields (id3buf : Str) : Nat → List Nat → List Str
  | _, [] => []
  | off, size :: sizes => field id3buf off size :: fields id3buf (off + size) sizes

/-- `InitFromFile` on what the file has in it, if it opens. A file with less than 128 bytes gives no
`id3buf`. -/
def initFromFile (t : ID3Tag) (content : Option Str) : ID3Tag × Bool :=
  match content with
  | none => (t, false)
  | some bytes =>
    let id3buf := bytes.drop (bytes.length - 128)
    if 128 ≤ bytes.length ∧ id3buf.take 3 = "TAG".toList then
      (⟨fields id3buf 3 maxsize ++ [findStyle (id3buf.getD 127 '\x00').toNat]⟩, true)
    else (t, false)

theorem getStyle_initFromFile (content : Option Str) :
    (new.initFromFile content).1.getStyle = [] ∨
      ∃ styleid, (new.initFromFile content).1.getStyle = findStyle styleid := by
  unfold initFromFile
  cases content with
  | none => exact .inl rfl
  | some bytes =>
    dsimp only
    split
    · refine .inr ⟨((bytes.drop (bytes.length - 128)).getD 127 '\x00').toNat, ?_⟩
      simp only [getStyle, fields, maxsize, List.cons_append, List.nil_append, List.getD_cons_succ,
        List.getD_cons_zero]
    · exact .inl rfl

theorem length_field_le (id3buf : Str) (off size : Nat) : (field id3buf off size).length ≤ size := by
  have htext : (((id3buf.drop off).take size).takeWhile (· ≠ '\x00')).length ≤ size :=
    (List.takeWhile_sublist _).length_le.trans (List.length_take_le _ _)
  unfold field
  rw [List.length_reverse]
  refine (List.dropWhile_sublist _).length_le.trans ?_
  rwa [List.length_reverse]

theorem length_fields_le {id3buf s : Str} {sizes : List Nat} {m : Nat} (h : ∀ n ∈ sizes, n ≤ m)
    {off : Nat} (hs : s ∈ fields id3buf off sizes) : s.length ≤ m := by
  induction sizes generalizing off with
  | nil => cases hs
  | cons size sizes ih =>
    obtain ⟨hsize, hsizes⟩ := List.forall_mem_cons.mp h
    rcases List.mem_cons.mp hs with rfl | hs
    · exact (length_field_le id3buf off size).trans hsize
    · exact ih hsizes hs

theorem length_tag_le (content : Option Str) (i : Nat) :
    ((new.initFromFile content).1.tags.getD i []).length ≤ 30 := by
  have hmem : ∀ {tags : List Str}, (∀ s ∈ tags, s.length ≤ 30) → (tags.getD i []).length ≤ 30 := by
    intro tags h
    rw [List.getD_eq_getElem?_getD]
    cases hi : tags[i]? with
    | none => exact Nat.zero_le _
    | some s => exact h s (List.mem_of_getElem? hi)
  have hnew : ∀ s ∈ new.tags, s.length ≤ 30 := by decide
  apply hmem
  unfold initFromFile
  cases content with
  | none => exact hnew
  | some bytes =>
    dsimp only
    split
    · intro s hs
      rcases List.mem_append.mp hs with hs | hs
      · exact length_fields_le (by decide) hs
      · rw [List.mem_singleton.mp hs]
        exact length_findStyle_le _
    · exact hnew

end ID3Tag

end NetDJ.Daemon
