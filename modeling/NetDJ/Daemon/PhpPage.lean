import NetDJ.Lib.Lists
import NetDJ.Lib.Struct
import NetDJ.Daemon.PageCache

/-!
# `netdj.php`: the page over `/index.xml`

The script takes the entries between the places of a tag, two by two, and prints some of their
texts.

* `Php.readDatabase`, `Php.page` : the script;
* `Php.shown` : what is to be seen of the data;
* `Php.struct_document`, `Php.rows_document` : the entries of a document of records, and what the
  script finds under a type;
* `Php.prop_parse` : the text of a field is found by its name;
* `Php.pageOf_xmlText` : the page that the script makes of the text that is sent;
* `Web.php_shows` : over a run, this is the page of the first request since the song changed.
-/

namespace NetDJ.Daemon

open Markup

namespace Php

/-! ## The script -/

/-- `array_slice`; a negative length counts from the end. -/
def arraySlice {α : Type} (xs : List α) (offset : Nat) (len : Int) : List α :=
  if 0 ≤ len then (xs.drop offset).take len.toNat
  else (xs.take (xs.length - len.natAbs)).drop offset

/-- A `TList` or a `TSong`. -/
abbrev Obj := StdMap Str (Option Str)

/-- `parse`, for one of the types. -/
def parse (mvalues : List TagEntry) : Obj :=
  mvalues.foldl (fun entry v => entry.insert v.tag v.value) ∅

/-- `$tags`: the places of the entries, tag by tag. -/
def tags (values : List TagEntry) : List (Str × List Nat) :=
  (values.map (·.tag)).eraseDups.map fun key => (key, indices key 0 values)

def types : List Str := ["LIST".toList, "CURRENTSONG".toList, "SONG".toList]

/-- One round of the loop over `$ranges`. -/
def range (values : List TagEntry) (i : Nat) (j : Option Nat) : Obj :=
  let offset := i + 1
  let len : Int := (j.getD 0 : Nat) - (offset : Nat)
  parse (arraySlice values offset len)

/-- `readDatabase`, behind the parser. -/
def readDatabase (values : List TagEntry) : List (Str × List Obj) :=
  ((tags values).filter (·.1 ∈ types)).map fun kv => (kv.1, twoByTwo (range values) kv.2)

/-- `->name`, in a text. -/
def prop (o : Obj) (name : String) : Str := ((o.lookup name.toList).getD none).getD []

/-- What is printed: the song in the form for the search, the number in the link behind `Skip song`,
the next songs, and the rows of the table. -/
structure Page where
  q : Str
  id : Str
  songs : Str
  lists : Str
  deriving DecidableEq

def rows (db : List (Str × List Obj)) (key : String) : List Obj := (db.lookup key.toList).getD []

def page (db : List (Str × List Obj)) : Page where
  q := ((rows db "CURRENTSONG").head?.map fun o => prop o "DESCRIPTION").getD []
  id := ((rows db "CURRENTSONG").head?.map fun o => prop o "UNID").getD []
  songs :=
    if rows db "SONG" = [] then "Sorry, no info available<BR>".toList
    else (rows db "SONG").flatMap fun l => prop l "DESCRIPTION" ++ "<BR>".toList
  lists := (rows db "LIST").flatMap fun l =>
    "<TR><TD>".toList ++ prop l "SIZE" ++ "</TD><TD>".toList ++ prop l "ID" ++
      "</TD><TD>".toList ++ prop l "DESCRIPTION" ++ "</TD></TR>\n".toList

/-- The page from the text that the daemon has sent. -/
def pageOf (text : Str) : Option Page := (read text).map fun d => page (readDatabase (d.struct []))

/-! ## What is to be seen -/

def text (s : Str) : Str := (value (replaceIllegal s)).getD []

def shown (p : Daemon.Page) : Page where
  q := text p.songfile.file.getFilenameNoType
  id := "0".toList
  songs :=
    if p.listed = [] then "Sorry, no info available<BR>".toList
    else p.listed.flatMap fun e => text e.2.file.getFilenameNoType ++ "<BR>".toList
  lists := p.lists.flatMap fun dir =>
    "<TR><TD>".toList ++ decimal dir.size ++ "</TD><TD>".toList ++ dir.shname ++
      "</TD><TD>".toList ++ dir.descr ++ "</TD></TR>\n".toList

/-! ## The entries of the document -/

def fieldEntry (f : Str × Str) : TagEntry := ⟨upper f.1, .complete, value f.2⟩

def recordBlock (r : Record) : TagEntry × List TagEntry × TagEntry :=
  (⟨upper r.tag, .opening, none⟩, r.fields.map fieldEntry, ⟨upper r.tag, .closing, none⟩)

theorem gap_fieldsDoc (tag : Str) (fs : List (Str × Str)) :
    value (fieldsDoc fs).lead = none ∧ Doc.gap tag (fieldsDoc fs).lead = [] := by
  cases fs <;> exact ⟨rfl, rfl⟩

theorem gap_recordsDoc (tag : Str) (rs : List Record) :
    value (recordsDoc rs).lead = none ∧ Doc.gap tag (recordsDoc rs).lead = [] := by
  cases rs <;> exact ⟨rfl, rfl⟩

theorem struct_fieldsDoc (tag : Str) (fs : List (Str × Str)) :
    (fieldsDoc fs).struct tag = fs.map fieldEntry := by
  induction fs with
  | nil => rfl
  | cons f fs ih =>
    have hleaf : (Doc.text f.2).elements = [] := rfl
    rw [fieldsDoc, Doc.struct, if_pos hleaf, (gap_fieldsDoc tag fs).2, ih]
    rfl

theorem struct_recordsDoc (tag : Str) {rs : List Record} (hrs : ∀ r ∈ rs, r.fields ≠ []) :
    (recordsDoc rs).struct tag = rs.flatMap fun r => block (recordBlock r) := by
  induction rs with
  | nil => rfl
  | cons r rs ih =>
    rw [List.forall_mem_cons] at hrs
    have hne : (fieldsDoc r.fields).elements ≠ [] := by
      rw [elements_fieldsDoc]
      exact fun h => hrs.1 (List.map_eq_nil_iff.mp h)
    rw [recordsDoc, Doc.struct, if_neg hne, (gap_fieldsDoc tag r.fields).1, struct_fieldsDoc,
      (gap_recordsDoc tag rs).2, ih hrs.2]
    rfl

/-- The entries of the document: a block for each record. -/
theorem struct_document {rs : List Record} (hne : rs ≠ []) (hrs : ∀ r ∈ rs, r.fields ≠ []) :
    (document rs).struct [] = [⟨"NETDJ".toList, .opening, none⟩] ++
      ((rs.map recordBlock).flatMap block ++ [⟨"NETDJ".toList, .closing, none⟩]) := by
  have helements : (recordsDoc rs).elements ≠ [] := by
    rw [elements_recordsDoc]
    exact fun h => hne (List.map_eq_nil_iff.mp h)
  have hname : upper netdjTag = "NETDJ".toList := by decide
  have hgap : Doc.gap [] (Doc.text ['\n']).lead ++ (Doc.text ['\n']).struct [] = [] := rfl
  rw [document, Doc.struct, Doc.struct, if_neg helements, (gap_recordsDoc [] rs).1,
    struct_recordsDoc _ hrs, List.flatMap_map, hname, hgap, List.append_nil]
  rfl

/-! ## What the script finds -/

theorem lookup_readDatabase {values : List TagEntry} {key : Str} (hkey : key ∈ types) :
    (readDatabase values).lookup key =
      ((tags values).lookup key).map (twoByTwo (range values)) := by
  unfold readDatabase
  induction tags values with
  | nil => rfl
  | cons kv l ih =>
    rw [List.filter_cons]
    by_cases h : key = kv.1
    · subst h
      rw [if_pos (decide_eq_true hkey), List.map_cons, List.lookup_cons, List.lookup_cons]
      simp
    · have hkv : (key == kv.1) = false := beq_false_of_ne h
      rw [List.lookup_cons, hkv, ← ih]
      split
      · rw [List.map_cons, List.lookup_cons, hkv]
      · rfl

theorem rows_readDatabase (values : List TagEntry) {key : String} (hkey : key.toList ∈ types) :
    rows (readDatabase values) key = twoByTwo (range values) (indices key.toList 0 values) := by
  unfold rows
  rw [lookup_readDatabase hkey]
  by_cases h : key.toList ∈ values.map (·.tag)
  · unfold tags
    rw [List.lookup_graph _ (List.mem_eraseDups.mpr h)]
    rfl
  · have hnone : (tags values).lookup key.toList = none := by
      rw [List.lookup_eq_none_iff]
      intro kv hkv
      obtain ⟨tag, htag, rfl⟩ := List.mem_map.mp hkv
      rw [List.mem_eraseDups] at htag
      simpa using fun heq : key.toList = tag => h (heq ▸ htag)
    have hempty : indices key.toList 0 values = [] := by
      unfold indices
      rw [List.findIdxs_eq_nil_iff]
      intro v hv
      simpa using fun heq : v.tag = key.toList => h (heq ▸ List.mem_map_of_mem hv)
    rw [hnone, hempty]
    rfl

theorem range_block {pre inner post : List TagEntry} {x y : TagEntry} :
    range (pre ++ (block (x, inner, y) ++ post)) pre.length
      (some (pre.length + inner.length + 1)) = parse inner := by
  have hlen : ((pre.length + inner.length + 1 : Nat) : Int) - ((pre.length + 1 : Nat) : Int) =
      (inner.length : Int) := by omega
  unfold range arraySlice block
  simp only [Option.getD_some, hlen]
  rw [if_pos (Int.natCast_nonneg _), Int.toNat_natCast]
  congr 1
  have hdrop : (pre ++ (x :: (inner ++ [y]) ++ post)).drop (pre.length + 1) =
      inner ++ (y :: post) := by simp
  rw [hdrop, List.take_left]

theorem fieldNames_notMem_types : ∀ n ∈ fieldNames, upper n ∉ types := by decide

/-- The fields of a record have names of their own, which are known. -/
structure Read (r : Record) : Prop where
  fields : r.fields ≠ []
  names : ∀ n ∈ r.fields.map Prod.fst, n ∈ fieldNames
  nodup : (r.fields.map fun f => upper f.1).Nodup

theorem rows_document {rs : List Record} (hne : rs ≠ []) (hrs : ∀ r ∈ rs, Read r) {key : String}
    (hkey : key.toList ∈ types) :
    rows (readDatabase ((document rs).struct [])) key =
      (rs.filter fun r => upper r.tag = key.toList).map fun r =>
        parse (r.fields.map fieldEntry) := by
  have hroot : "NETDJ".toList ≠ key.toList := by
    rintro heq
    exact absurd (heq ▸ hkey) (by decide)
  have hstruct := struct_document hne fun r hr => (hrs r hr).fields
  have hblocks : ∀ b ∈ rs.map recordBlock,
      decide (b.2.2.tag = key.toList) = decide (b.1.tag = key.toList) ∧
        ∀ v ∈ b.2.1, decide (v.tag = key.toList) = false := by
    intro b hb
    obtain ⟨r, hr, rfl⟩ := List.mem_map.mp hb
    refine ⟨rfl, fun v hv => ?_⟩
    obtain ⟨f, hf, rfl⟩ := List.mem_map.mp hv
    have hname := fieldNames_notMem_types f.1 ((hrs r hr).names f.1 (List.mem_map_of_mem hf))
    refine decide_eq_false fun heq => hname ?_
    rwa [show upper f.1 = key.toList from heq]
  -- the root element has another name, and stands around the blocks
  have hloop := twoByTwo_blocks (p := fun v => decide (v.tag = key.toList))
    (f := range ((document rs).struct [])) (g := parse)
    (fun pre x inner y post hes => by rw [hes]; exact range_block) hblocks
    (fun v hv => by rw [List.mem_singleton.mp hv]; exact decide_eq_false hroot) hstruct
  rw [rows_readDatabase _ hkey, indices]
  nth_rewrite 2 [hstruct]
  rw [List.findIdxs_append, List.findIdxs_singleton, if_neg (by simpa using hroot),
    List.nil_append, Nat.zero_add, hloop, List.filter_map, List.map_map]
  rfl

theorem prop_parse {r : Record} (hr : Read r) {f : Str × Str} (hf : f ∈ r.fields) {name : String}
    (hname : upper f.1 = name.toList) :
    prop (parse (r.fields.map fieldEntry)) name = (value f.2).getD [] := by
  have hfind : (r.fields.map fieldEntry).reverse.find? (fun v => v.tag = name.toList) =
      some (fieldEntry f) := by
    have hnodup : ((r.fields.map fieldEntry).reverse.map TagEntry.tag).Nodup := by
      rw [List.map_reverse, List.nodup_reverse, List.map_map]
      exact hr.nodup
    have hmem := List.mem_reverse.mpr (List.mem_map_of_mem (f := fieldEntry) hf)
    rw [← hname]
    exact find?_key hnodup hmem
  unfold prop parse
  rw [lookup_foldl_insert, hfind]
  rfl

/-! ## The records of a page -/

theorem Read.sanitised {r : Record} (hr : Read r) : Read r.sanitised := by
  have hnames : r.sanitised.fields.map Prod.fst = r.fields.map Prod.fst := List.map_map
  have hupper : (r.sanitised.fields.map fun f => upper f.1) = r.fields.map fun f => upper f.1 :=
    List.map_map
  refine ⟨fun h => hr.fields (List.map_eq_nil_iff.mp h), ?_, ?_⟩
  · rw [hnames]
    exact hr.names
  · rw [hupper]
    exact hr.nodup

/-- The object that is made of a record of the page. -/
def object (r : Record) : Obj := parse (r.sanitised.fields.map fieldEntry)

theorem prop_sanitised {r : Record} (hr : Read r) {n s : Str} (hf : (n, s) ∈ r.fields)
    {name : String} (hname : upper n = name.toList) :
    prop (object r) name = text s := by
  have hmem : (n, replaceIllegal s) ∈ r.sanitised.fields :=
    List.mem_map_of_mem (f := fun f => (f.1, replaceIllegal f.2)) hf
  exact prop_parse hr.sanitised hmem hname

theorem read_currentsong (f : PageFile) (size : Str) : Read (currentsong f size) := by
  refine ⟨nofun, currentsong_names f size, ?_⟩
  show (["unid".toList, "listid".toList, "size".toList, "description".toList, "artist".toList,
    "album".toList, "title".toList, "comment".toList, "year".toList,
    "style".toList].map upper).Nodup
  decide

theorem read_songRecord (e : (Str × PageFile) × Nat) : Read (songRecord e) := by
  refine ⟨nofun, songRecord_names e, ?_⟩
  show (["unid".toList, "listid".toList, "size".toList, "owner".toList, "description".toList,
    "artist".toList, "album".toList, "title".toList, "comment".toList, "year".toList,
    "style".toList].map upper).Nodup
  decide

theorem read_list (dir : PageList) (size : Str) : Read (list dir size) := by
  refine ⟨nofun, list_names dir size, ?_⟩
  show (["size".toList, "id".toList, "description".toList].map upper).Nodup
  decide

theorem read_records (p : Daemon.Page) : ∀ r ∈ records p, Read r := by
  intro r hr
  rcases List.mem_cons.mp hr with rfl | hr
  · exact read_currentsong _ _
  rcases List.mem_append.mp hr with hr | hr
  · obtain ⟨e, -, rfl⟩ := List.mem_map.mp hr
    exact read_songRecord e
  · obtain ⟨dir, -, rfl⟩ := List.mem_map.mp hr
    exact read_list dir _

theorem upper_currentsong (f : PageFile) (size : Str) :
    upper (currentsong f size).tag = "CURRENTSONG".toList := by
  show upper "currentsong".toList = _
  decide

theorem upper_songRecord (e : (Str × PageFile) × Nat) :
    upper (songRecord e).tag = "SONG".toList := by
  have hname : tagName (songRecord e).tag = "song".toList := rfl
  rw [upper, hname]
  decide

theorem upper_list (dir : PageList) (size : Str) : upper (list dir size).tag = "LIST".toList := by
  show upper "list".toList = _
  decide

theorem filter_of_upper {rs : List Record} {tag : Str} (h : ∀ r ∈ rs, upper r.tag = tag)
    (key : Str) : (rs.filter fun r => upper r.tag = key) = if tag = key then rs else [] := by
  split
  · next hkey =>
    rw [List.filter_eq_self]
    exact fun r hr => decide_eq_true ((h r hr).trans hkey)
  · next hkey =>
    rw [List.filter_eq_nil_iff]
    exact fun r hr => by simpa [h r hr] using hkey

theorem filter_records (p : Daemon.Page) (key : Str) :
    ((records p).filter fun r => upper r.tag = key) =
      (if "CURRENTSONG".toList = key then [currentsong p.songfile (decimal p.songfile.size)]
        else []) ++
      ((if "SONG".toList = key then (p.listed.zipIdx 1).map songRecord else []) ++
        if "LIST".toList = key then p.lists.map fun dir => list dir (decimal dir.size)
          else []) := by
  unfold records
  rw [← List.singleton_append, List.filter_append, List.filter_append]
  congr 1
  · refine filter_of_upper (fun r hr => ?_) key
    rw [List.mem_singleton.mp hr]
    exact upper_currentsong _ _
  congr 1
  · refine filter_of_upper (fun r hr => ?_) key
    obtain ⟨e, -, rfl⟩ := List.mem_map.mp hr
    exact upper_songRecord e
  · refine filter_of_upper (fun r hr => ?_) key
    obtain ⟨dir, -, rfl⟩ := List.mem_map.mp hr
    exact upper_list dir _

/-- What the script finds in the text that is sent for a page. -/
def database (p : Daemon.Page) : List (Str × List Obj) :=
  readDatabase ((document ((records p).map Record.sanitised)).struct [])

theorem rows_database (p : Daemon.Page) {key : String} (hkey : key.toList ∈ types) :
    rows (database p) key =
      ((records p).filter fun r => upper r.tag = key.toList).map object := by
  have hread : ∀ r ∈ (records p).map Record.sanitised, Read r := by
    intro r hr
    obtain ⟨r, hmem, rfl⟩ := List.mem_map.mp hr
    exact (read_records p r hmem).sanitised
  have hne : (records p).map Record.sanitised ≠ [] := List.cons_ne_nil _ _
  rw [database, rows_document hne hread hkey, List.filter_map, List.map_map]
  rfl

/-! ## The page -/

/-- A text in one line that is not white space is seen as it is. -/
theorem text_of_legal {s : Str} (hlegal : Legal s) (hcr : '\r' ∉ s) (hlf : '\n' ∉ s)
    (hs : s.all white = false) : text s = s := by
  rw [text, replaceIllegal_of_legal hlegal, value_of_noBreak hcr hlf hs]
  rfl

theorem text_decimal (n : Int) : text (decimal n) = decimal n := by
  have hdigit : ∀ c ∈ decimal n, c ≠ '\r' ∧ c ≠ '\n' ∧ white c = false := by
    intro c hc
    have hall : ∀ c ∈ "-0123456789".toList, c ≠ '\r' ∧ c ≠ '\n' ∧ white c = false := by decide
    exact hall c (mem_decimal hc)
  have hwhite : (decimal n).all white = false := by
    obtain ⟨c, hc⟩ := List.exists_mem_of_ne_nil _ (decimal_ne_nil n)
    rw [List.all_eq_false]
    exact ⟨c, hc, by simp [(hdigit c hc).2.2]⟩
  exact text_of_legal (legal_decimal n) (fun h => (hdigit _ h).1 rfl)
    (fun h => (hdigit _ h).2.1 rfl) hwhite

/-- The names and the descriptions of the lists are seen as they are. -/
theorem text_lists (p : Daemon.Page) :
    ∀ dir ∈ p.lists, text dir.shname = dir.shname ∧ text dir.descr = dir.descr := by
  simp only [Daemon.Page.lists, List.forall_mem_cons]
  refine ⟨⟨?_, ?_⟩, ⟨?_, ?_⟩, ⟨?_, ?_⟩, fun dir hdir => absurd hdir List.not_mem_nil⟩
  all_goals exact text_of_legal (by decide) (by decide) (by decide) (by decide)

section Printed
variable (f : PageFile) (size : Str) (e : (Str × PageFile) × Nat) (dir : PageList)

theorem prop_currentsong :
    prop (object (currentsong f size)) "DESCRIPTION" = text f.file.getFilenameNoType ∧
      prop (object (currentsong f size)) "UNID" = "0".toList := by
  have hread := read_currentsong f size
  have hdescr : ("description".toList, f.file.getFilenameNoType) ∈ (currentsong f size).fields :=
    List.mem_append_left _ (.tail _ (.tail _ (.tail _ (.head _))))
  have hunid : ("unid".toList, "0".toList) ∈ (currentsong f size).fields :=
    List.mem_append_left _ (.head _)
  refine ⟨prop_sanitised hread hdescr (by decide), ?_⟩
  exact (prop_sanitised hread hunid (by decide)).trans (text_decimal 0)

theorem prop_songRecord :
    prop (object (songRecord e)) "DESCRIPTION" = text e.1.2.file.getFilenameNoType := by
  have hdescr : ("description".toList, e.1.2.file.getFilenameNoType) ∈ (songRecord e).fields :=
    List.mem_append_left _ (.tail _ (.tail _ (.tail _ (.tail _ (.head _)))))
  exact prop_sanitised (read_songRecord e) hdescr (by decide)

theorem prop_list :
    prop (object (list dir size)) "SIZE" = text size ∧
      prop (object (list dir size)) "ID" = text dir.shname ∧
      prop (object (list dir size)) "DESCRIPTION" = text dir.descr := by
  have hread := read_list dir size
  exact ⟨prop_sanitised hread (.head _) (by decide),
    prop_sanitised hread (.tail _ (.head _)) (by decide),
    prop_sanitised hread (.tail _ (.tail _ (.head _))) (by decide)⟩

end Printed

/-- The script prints what is to be seen of the data. -/
theorem page_database (p : Daemon.Page) : page (database p) = shown p := by
  have hcurrent : rows (database p) "CURRENTSONG" =
      [object (currentsong p.songfile (decimal p.songfile.size))] := by
    rw [rows_database p (by decide), filter_records]
    rfl
  have hsongs : rows (database p) "SONG" =
      (p.listed.zipIdx 1).map fun e => object (songRecord e) := by
    rw [rows_database p (by decide), filter_records, if_neg (by decide), if_pos rfl,
      if_neg (by decide), List.nil_append, List.append_nil, List.map_map]
    rfl
  have hlists : rows (database p) "LIST" =
      p.lists.map fun dir => object (list dir (decimal dir.size)) := by
    rw [rows_database p (by decide), filter_records, if_neg (by decide), if_neg (by decide),
      if_pos rfl, List.nil_append, List.nil_append, List.map_map]
    rfl
  have hempty : (p.listed.zipIdx 1).map (fun e => object (songRecord e)) = [] ↔ p.listed = [] := by
    rw [List.map_eq_nil_iff, List.zipIdx_eq_nil_iff]
  have hnames : ((p.listed.zipIdx 1).flatMap fun e =>
        text e.1.2.file.getFilenameNoType ++ "<BR>".toList) =
      p.listed.flatMap fun e => text e.2.file.getFilenameNoType ++ "<BR>".toList := by
    conv => rhs; rw [← List.zipIdx_map_fst 1 p.listed]
    rw [List.flatMap_map]
  have htable : (p.lists.flatMap fun dir => "<TR><TD>".toList ++ decimal dir.size ++
        "</TD><TD>".toList ++ text dir.shname ++ "</TD><TD>".toList ++ text dir.descr ++
        "</TD></TR>\n".toList) =
      p.lists.flatMap fun dir => "<TR><TD>".toList ++ decimal dir.size ++ "</TD><TD>".toList ++
        dir.shname ++ "</TD><TD>".toList ++ dir.descr ++ "</TD></TR>\n".toList := by
    refine List.flatMap_congr fun dir hdir => ?_
    rw [(text_lists p dir hdir).1, (text_lists p dir hdir).2]
  unfold page shown
  rw [hcurrent, hsongs, hlists]
  simp only [hempty, List.head?_cons, Option.map_some, Option.getD_some, List.flatMap_map,
    prop_currentsong, prop_songRecord, prop_list, text_decimal, hnames, htable]

theorem pageOf_xmlText {p : Daemon.Page} (hplain : Plain p) :
    pageOf (xmlText p) = some (shown p) := by
  rw [pageOf, xmlText, replaceIllegal_xbufText (records_framed p),
    read_xbufText (sanitised_framed p) hplain.sanitised]
  exact congrArg some (page_database p)

end Php

/-! ## The answers of a run -/

namespace Web

/-- The requests for `/index.xml`: the name of the song, and what the page would be made of. -/
def xmlPages (w : Web) : Act → Web → List (Str × Page)
  | .xml l, _ => [(w.songfile.name, w.page l)]
  | _, _ => []

/-- The document that is kept is made anew by a request for another song. -/
theorem step_document {w w' : Web} {a : Act} (h : w.step a = some w') :
    (w'.o_xsongname, w'.HTTPxml.body) =
      (xmlPages w a w').foldl (fun m r => Memo.ask m (r.1, xmlText r.2))
        (w.o_xsongname, w.HTTPxml.body) := by
  cases a with
  | call k c os =>
    obtain ⟨d, e, song, -, -, rfl⟩ := step_call h
    rfl
  | set i stat del =>
    obtain ⟨song, -, h⟩ := Option.bind_eq_some_iff.mp h
    cases h
    rfl
  | getEntries k =>
    obtain ⟨d, -, h⟩ := Option.bind_eq_some_iff.mp h
    cases h
    rfl
  | getSize k os =>
    obtain ⟨d, e, n, -, -, rfl⟩ := step_getSize h
    rfl
  | text =>
    obtain ⟨r, -, rfl⟩ := text_eq_ok (toOption_eq_some.mp h)
    rfl
  | xml l =>
    have hxml : w.xml l = .ok w' := toOption_eq_some.mp h
    unfold Web.xml at hxml
    show _ = Memo.ask _ _
    unfold Memo.ask
    split at hxml
    · next hname =>
      obtain ⟨xbuf, hxbuf, hxml⟩ := bind_eq_ok.mp hxml
      obtain ⟨r, hr, he⟩ := bind_eq_ok.mp hxml
      obtain ⟨-, rfl⟩ := indexXml_eq_ok.mp hxbuf
      obtain ⟨-, headers, -, rfl⟩ := HTTPResponse.createPacket_eq_ok.mp hr
      cases he
      rw [if_pos hname]
      rfl
    · next hname =>
      cases hxml
      rw [if_neg hname]
  | html =>
    obtain ⟨name, buf, rfl⟩ := html_eq_ok (toOption_eq_some.mp h)
    rfl
  | clear | rename | accept =>
    cases h
    rfl

/-- **The script shows the data of the first request since the song changed:** its page is the one
that these data make, if they are plain. -/
theorem php_shows {c : Setup} {mem : Bool} {memory : File} {w t : Web} {acts : List Act}
    {l : PageInfo} (h : main c mem memory = .ok w)
    (hrun : Machine.run step w (acts ++ [.xml l]) = some t) (hname : t.songfile.name ≠ noPage.1)
    (hplain : ∀ r ∈ Machine.outputs step xmlPages w (acts ++ [.xml l]), Plain r.2) :
    ∃ p, Memo.LastBlock (Machine.outputs step xmlPages w (acts ++ [.xml l])) (t.songfile.name, p) ∧
      Php.pageOf t.HTTPxml.body = some (Php.shown p) := by
  have hstart : (w.o_xsongname, w.HTTPxml.body) = noPage := by
    obtain ⟨lists, -, h⟩ := bind_eq_ok.mp h
    obtain ⟨redirect, -, h⟩ := bind_eq_ok.mp h
    obtain ⟨auth, -, h⟩ := bind_eq_ok.mp h
    cases h
    rfl
  have hsnoc := (Machine.run_snoc w acts (.xml l)).symm.trans hrun
  obtain ⟨u, -, hxml⟩ := Option.bind_eq_some_iff.mp hsnoc
  have hsong : t.songfile = u.songfile := by
    obtain ⟨name, r, -, rfl⟩ := xml_eq_ok (toOption_eq_some.mp hxml)
    rfl
  have hkey : t.o_xsongname = u.songfile.name :=
    (congrArg Prod.fst (step_document hxml)).trans (Memo.key_ask _ _)
  have hsteps : ∀ u a u', True → step u a = some u' → True ∧ (u'.o_xsongname, u'.HTTPxml.body) =
      (xmlPages u a u').foldl (fun m r => Memo.ask m (r.1, xmlText r.2))
        (u.o_xsongname, u.HTTPxml.body) := fun u a u' _ hstep => ⟨trivial, step_document hstep⟩
  have hdocument := Machine.foldl_outputs (I := fun _ => True)
    (v := fun u : Web => (u.o_xsongname, u.HTTPxml.body)) hsteps trivial hrun
  rw [hstart, ← List.foldl_map, hkey, ← hsong] at hdocument
  obtain ⟨p, hblock, hbody⟩ := (Memo.lastBlock_iff.mpr hdocument).of_map hname
  refine ⟨p, hblock, ?_⟩
  obtain ⟨before, block, hsplit, -, -⟩ := hblock
  have hmem : (t.songfile.name, p) ∈ Machine.outputs step xmlPages w (acts ++ [.xml l]) :=
    hsplit ▸ List.mem_append_right _ List.mem_cons_self
  have hbody' : xmlText p = t.HTTPxml.body := hbody
  rw [← hbody']
  exact Php.pageOf_xmlText (hplain _ hmem)

def nothing : PageInfo := ⟨fun _ => 0, fun _ => none, fun _ => none⟩

/-- The first connection, while nothing is played. -/
theorem php_shows_first : ∃ w t p, main quiet false (holding 0) = .ok w ∧
    Machine.run step w ([.accept] ++ [.xml nothing]) = some t ∧
    Memo.LastBlock (Machine.outputs step xmlPages w ([.accept] ++ [.xml nothing]))
      (t.songfile.name, p) ∧ Php.pageOf t.HTTPxml.body = some (Php.shown p) := by
  obtain ⟨w, hw⟩ := (main_iff quiet false (holding 0)).mpr ⟨by decide, by decide⟩
  obtain ⟨-, -, hcurrent, -, -, -, -, -, hready⟩ := main_eq_ok hw
  have hpage : w.accept.page nothing =
      ⟨nothing.pageFile (.new (holding 0) []), ([], 0), ([], 0), ([], 0)⟩ := by
    unfold accept page
    rw [hcurrent]
    rfl
  have horigins : w.accept.Origins :=
    (origins_main hw narrow_zero).step (a := .accept) trivial rfl
  have hsong : w.accept.songfile = .new (holding 0) [] := by
    unfold accept
    rw [hcurrent]
    rfl
  have hshort : w.accept.Bounded (.xml nothing) := by
    intro f hf
    rcases List.mem_cons.mp hf with rfl | hf
    · rw [hsong]
      exact ⟨Nat.zero_le _, Nat.zero_le _⟩
    · exact absurd hf (by simp [accept])
  have hlong : w.accept.InLongBuffer (.xml nothing) := by
    unfold InLongBuffer longNumbers
    dsimp only
    rw [hpage]
    split <;> decide
  have hready' : w.accept.Ready := ⟨hready.xml, hready.text⟩
  obtain ⟨t, ht⟩ := (xml_iff hready' nothing).mpr
    ⟨inBuffers_iff.mpr (horigins.printable hshort), hlong⟩
  have hrun : Machine.run step w ([.accept] ++ [.xml nothing]) = some t := by
    show ((w.accept.xml nothing).toOption.bind fun s => some s) = some t
    rw [ht]
    rfl
  have hname : t.songfile.name ≠ noPage.1 := by
    obtain ⟨name, r, -, rfl⟩ := xml_eq_ok ht
    show w.accept.songfile.name ≠ _
    rw [hsong]
    decide
  have hplain : ∀ r ∈ Machine.outputs step xmlPages w ([.accept] ++ [.xml nothing]), Plain r.2 := by
    intro r hr
    rw [Machine.outputs_snoc (t := w.accept) rfl (toOption_eq_some.mpr ht)] at hr
    obtain rfl : r = (w.accept.songfile.name, w.accept.page nothing) := by
      simpa [Machine.outputs, xmlPages, step] using hr
    show Plain (w.accept.page nothing)
    rw [hpage]
    have htexts : ∀ s ∈ (nothing.pageFile (.new (holding 0) [])).texts, '<' ∉ s ∧ '>' ∉ s := by
      decide
    exact ⟨htexts, fun e he => absurd he List.not_mem_nil⟩
  obtain ⟨p, hp⟩ := php_shows hw hrun hname hplain
  exact ⟨w, t, p, hw, hrun, hp⟩

end Web

end NetDJ.Daemon
