import NetDJ.Daemon.HTTPResponse
import NetDJ.Daemon.IndexLength
import NetDJ.Daemon.SongNumbers
import NetDJ.Daemon.State

/-!
# `main.cc`: the web pages

The HTTP thread looks at the lists and at the current song while the player threads and the console
call them. Each call is made under a lock, so a step of the model is a call or a page.

* `Web.main`, `Web.step` : the start of the daemon, the calls of all threads, and the pages;
* `Web.numbers`, `Web.longNumbers` : what a page prints into `tmpint`, `tmplen` and `tmplint`;
* `Web.served_iff` : a page is made exactly if that fits;
* `Web.round_calls` : a round of the player is made of such calls.
-/

namespace NetDJ.Daemon

/-! ## The packets -/

namespace HTTPResponse

def withHeader (r : HTTPResponse) (hdr val : Str) : HTTPResponse :=
  { r with toHTTP := r.toHTTP.setHeader hdr val }

def withBody (r : HTTPResponse) (str : Str) : HTTPResponse :=
  { r with toHTTP := r.toHTTP.setBody str }

end HTTPResponse

def closing (r : HTTPResponse) : HTTPResponse := r.withHeader "Connection".toList "Close".toList

def authBody : Str :=
  ("<!DOCTYPE HTML PUBLIC \"-//W3C//DTD HTML 4.01 Transitional//EN\">\n" ++
    "<HTML>\n" ++
    "  <HEAD>\n" ++
    "    <TITLE>NetDJ</TITLE>\n" ++
    "  </HEAD>\n" ++
    "  <BODY>\n" ++
    "    Authorization required!\n" ++
    "  </BODY>\n" ++
    "</HTML>\n").toList

section Packets
variable (PKGVER : Str)

def newXml : HTTPResponse := closing (.ofStatus PKGVER 200 "text/xml".toList)

def newText : HTTPResponse := closing (.ofStatus PKGVER 200 "text/ascii".toList)

def newRedirect (HTTP_REDIRECT : Str) : HTTPResponse :=
  (closing (.ofStatus PKGVER 302 [])).withHeader "Location".toList
    (if HTTP_REDIRECT = [] then "/".toList else HTTP_REDIRECT)

def newAuth : HTTPResponse :=
  ((closing (.ofStatus PKGVER 401 "text/html; charset=iso-8859-1".toList)).withHeader
    "WWW-Authenticate".toList "Basic realm=\"NetDJ\"".toList).withBody authBody

end Packets

/-! ## The HTML page -/

def hbuf1 : Str :=
  ("HTTP/1.1 200 OK\r\n" ++
    "Server: NetDJ\r\n" ++
    "Connection: close\r\n" ++
    "Content-Type: text/html; charset=iso-8859-1\r\n" ++
    "\r\n" ++
    "<!DOCTYPE HTML PUBLIC \"-//W3C//DTD HTML 4.01 Transitional//EN\">\n" ++
    "<HTML>\n" ++
    "  <HEAD>\n" ++
    "    <META HTTP-EQUIV=\"Pragma\" CONTENT=\"no-cache\">\n" ++
    "    <META HTTP-EQUIV=\"Refresh\" CONTENT=\"30;URL=/\">\n" ++
    "    <STYLE TYPE=\"text/css\">\n" ++
    "      body.dummy \x7b\x7d\n" ++
    "      body \x7b\n" ++
    "        font-size: 10pt;\n" ++
    "      \x7d\n" ++
    "      table \x7b\n" ++
    "        font-size: 10pt;\n" ++
    "      \x7d\n" ++
    "      form \x7b\n" ++
    "        font-size: 10pt;\n" ++
    "      \x7d\n" ++
    "    </STYLE>\n" ++
    "    <TITLE>NetDJ</TITLE>\n" ++
    "  </HEAD>\n" ++
    "  <BODY>\n" ++
    "    <SCRIPT LANGUAGE=\"JavaScript\" TYPE=\"text/javascript\">\n" ++
    "      function addNetscapePanel() \x7b\n" ++
    "        if ((typeof window.sidebar == \"object\")\n" ++
    "            && (typeof window.sidebar.addPanel == \"function\"))\n" ++
    "          \x7b\n" ++
    "            window.sidebar.addPanel (\"NetDJ\", window.location,\"\");\n" ++
    "          \x7d\n" ++
    "      \x7d\n" ++
    "    </SCRIPT>\n" ++
    "    <A HREF=\"http://netdj.sourceforge.net\">NetDJ</A> is currently playing:\n" ++
    "    <P>\n" ++
    "    <FORM TARGET=\"_CONTENT\" ACTION=\"http://www.google.com/search\">\n" ++
    "      <INPUT maxLength=256 size=55 name=q value=\"").toList

def hbuf2 : Str :=
  ("\">\n" ++
    "      <INPUT TYPE=SUBMIT VALUE=\"Google Search\" NAME=btnG>\n" ++
    "    </FORM>\n" ++
    "    <P>\n" ++
    "    [<A HREF=\"/\">Refresh</A>]\n" ++
    "    - [<A HREF=\"/cgi-bin/next?id=").toList

def hbuf3 : Str :=
  ("\">Skip song</A>]\n" ++
    "    - [<A HREF=\"/cgi-bin/stop\">Stop player</A>]\n" ++
    "    - [<A HREF=\"/cgi-bin/start\">Start player</A>]\n" ++
    "    <P>\n" ++
    "    <STRONG>Next songs in cache:</STRONG><BR>\n").toList

def hbuf4 : Str :=
  ("    <P>\n" ++
    "    <STRONG>Playlists:</STRONG><BR>\n" ++
    "    <TABLE BORDER=1>\n" ++
    "      <TR><TD><B>Size</B></TD><TD><B>Name</B></TD><TD><B>Description</B></TD></TR>\n").toList

def hbuf5 : Str :=
  ("    </TABLE>\n" ++
    "    <P>\n" ++
    "    Add to <A HREF=\"javascript:addNetscapePanel();\">Netscape sidebar</A>" ++
    " - <A HREF=\"/\" REL=\"sidebar\" TITLE=\"NetDJ\">Opera panel</A>\n" ++
    "  </BODY>\n" ++
    "</HTML>\n").toList

/-- The loop over the lists, each with what `GetSize` has returned. -/
def tableRows : List (Directory × Int) → Except Abort Str
  | [] => .ok []
  | (dir, size) :: rest => do
    let n ← sprintf tmpint size
    let rows ← tableRows rest
    .ok ("      <TR><TD>".toList ++ n ++ "</TD><TD>".toList ++ dir.shname ++ "</TD><TD>".toList ++
      dir.descr ++ "</TD></TR>\n".toList ++ rows)

/-! ## The daemon -/

/-- What the thread finds out about a file for its page: `off_t` is a `long`. -/
structure PageInfo where
  size : File → BitVec 64
  pw_name : File → Option Str
  content : File → Option Str

def PageInfo.pageFile (l : PageInfo) (f : File) : PageFile :=
  ⟨f, (l.size f).toInt, l.pw_name f, l.content f⟩

/-- The lists; the songs that the player threads have got of `GetSong`; the current song; and the
variables of `http_thread`: what the last connection has found, what `GetEntries` and `GetSize` have
returned for each list, and what is kept from page to page. -/
structure Web where
  lists : List Directory
  taken : List File
  current : SongRun
  HTTP_REDIRECT : Str
  songfile : File
  cfilename : Str
  songs : List (List File)
  sizes : List Int
  HTTPxml : HTTPResponse
  HTTPtext : HTTPResponse
  HTTPredirect : HTTPResponse
  HTTPauth : HTTPResponse
  o_xsongname : Str
  o_hsongname : Str
  hbuf : Str

/-- What the configuration says, with `PKGVER` and the time in the state file. -/
structure Setup where
  PKGVER : Str
  REQUEST_DIR : Str
  CACHE_DIR : Str
  SHARE_DIR : Str
  HTTP_REDIRECT : Str
  state : Option Int

namespace Web

/-- The lists as `main` sets them up. `mem` is what the memory held for `fromfile`. -/
def openLists (c : Setup) (mem : Bool) : Except Abort (List Directory) := do
  let cache := loadstate (newCache mem) c.state
  let request ← (Directory.new "request".toList "Requested songs".toList true mem).setDirname
    c.REQUEST_DIR false
  let cache ← cache.setDirname c.CACHE_DIR false
  let share ← (Directory.new "share".toList "Share-dir".toList false mem).setDirname
    c.SHARE_DIR true
  return [request, cache, share]

/-- The program up to the first connection. `memory` is what the memory held for the files of the
current song and for `songfile`. -/
def main (c : Setup) (mem : Bool) (memory : File) : Except Abort Web := do
  let lists ← openLists c mem
  let redirect ← (newRedirect c.PKGVER c.HTTP_REDIRECT).createPacket
  let auth ← (newAuth c.PKGVER).createPacket
  return {
    lists := lists
    taken := []
    current := .init memory
    HTTP_REDIRECT := c.HTTP_REDIRECT
    songfile := .new memory []
    cfilename := []
    songs := [[], [], []]
    sizes := [0, 0, 0]
    HTTPxml := newXml c.PKGVER
    HTTPtext := newText c.PKGVER
    HTTPredirect := redirect
    HTTPauth := auth
    o_xsongname := "///---///".toList
    o_hsongname := "///---///".toList
    hbuf := []
  }

/-- A connection: the current song is looked at. -/
def accept (w : Web) : Web :=
  let songfile := w.current.song.currfile
  { w with
    songfile := songfile
    cfilename := songfile.getFilenameNoType
    songs := [[], [], []]
    sizes := [0, 0, 0] }

def text (w : Web) : Except Abort Web := do
  let HTTPtext ← (w.HTTPtext.withBody w.cfilename).createPacket
  return { w with HTTPtext := HTTPtext }

def page (w : Web) (l : PageInfo) : Page :=
  let list k := ((w.songs.getD k []).map l.pageFile, w.sizes.getD k 0)
  ⟨l.pageFile w.songfile, list 0, list 1, list 2⟩

def xml (w : Web) (l : PageInfo) : Except Abort Web :=
  if w.o_xsongname ≠ w.songfile.name then do
    let xbuf ← indexXml (w.page l)
    let HTTPxml ← (w.HTTPxml.withBody xbuf).createPacket
    return { w with o_xsongname := w.songfile.name, HTTPxml := HTTPxml }
  else .ok w

def html (w : Web) : Except Abort Web :=
  if w.HTTP_REDIRECT ≠ [] then .ok w -- `HTTPredirect` is sent
  else if w.o_hsongname ≠ w.songfile.name then do
    let id ← sprintf tmpint w.songfile.id.toInt
    let names := (w.songs.getD 1 []).flatMap fun it =>
      "    ".toList ++ it.getFilenameNoType ++ "<BR>\n".toList
    let rows ← tableRows (w.lists.zip w.sizes)
    return { w with
      o_hsongname := w.songfile.name
      hbuf := hbuf1 ++ w.cfilename ++ hbuf2 ++ id ++ hbuf3 ++ names ++ hbuf4 ++ rows ++ hbuf5 }
  else .ok w

/-- The calls of all threads, and the pages. -/
inductive Act where
  /-- A call on list `k`, by a player thread or by the console. -/
  | call (k : Nat) (c : Call) (os : Os)
  /-- `Exists` and `Set` on a song that a player thread has got. -/
  | set (i : Nat) (stat : Str → Option Stat) (del : Bool)
  | clear (memory : File)
  | rename (newpath : Str) (del renamed : Bool)
  | accept
  /-- The thread asks list `k` for its entries: for ten of them at most. -/
  | getEntries (k : Nat)
  /-- The thread asks list `k` for its size. -/
  | getSize (k : Nat) (os : Os)
  | text
  | xml (l : PageInfo)
  | html

/-- The page, with the numbers printed, or what the other calls leave. -/
def step (w : Web) : Act → Option Web
  | .call k c os => do
    let d ← w.lists[k]?
    let (d, song) ← (c.run d os).toOption
    return { w with lists := w.lists.set k d, taken := w.taken ++ song.toList }
  | .set i stat del => do
    let song ← w.taken[i]?
    return { w with current := w.current.call (.set (song.exists_ stat).1 del) }
  | .clear memory => some { w with current := w.current.call (.clear memory) }
  | .rename newpath del renamed =>
    some { w with current := w.current.call (.renameCurrent newpath del renamed) }
  | .accept => some w.accept
  | .getEntries k => do
    let d ← w.lists[k]?
    return { w with songs := w.songs.set k (d.getEntries 10) }
  | .getSize k os => do
    let d ← w.lists[k]?
    let (d, n) ← (d.getSize os).toOption
    return { w with lists := w.lists.set k d, sizes := w.sizes.set k (BitVec.ofNat 32 n).toInt }
  | .text => w.text.toOption
  | .xml l => (w.xml l).toOption
  | .html => w.html.toOption

/-! ## What is printed -/

/-- `CreatePacket` prints the size of the body, unless it is empty. -/
def bodySize (body : Str) : List Int :=
  if body = [] then [] else [(BitVec.ofNat 32 body.length).toInt]

def numbers (w : Web) : Act → List Int
  | .text => bodySize w.cfilename
  | .xml l =>
    if w.o_xsongname ≠ w.songfile.name then
      ((w.page l).listed.zipIdx 1).flatMap (fun e => [(e.2 : Int), e.1.2.file.id.toInt]) ++
        (w.page l).lists.map PageList.size ++ bodySize (xmlText (w.page l))
    else []
  | .html =>
    if w.HTTP_REDIRECT = [] ∧ w.o_hsongname ≠ w.songfile.name then
      w.songfile.id.toInt :: (w.lists.zip w.sizes).map (·.2)
    else []
  | _ => []

def longNumbers (w : Web) : Act → List Int
  | .xml l =>
    if w.o_xsongname ≠ w.songfile.name then
      (w.page l).songfile.size :: (w.page l).listed.map (·.2.size)
    else []
  | _ => []

/-- No number is longer than the ten bytes, with its NUL. -/
def InBuffers (w : Web) (a : Act) : Prop := ∀ n ∈ w.numbers a, (decimal n).length + 1 ≤ 10

/-- The same for the twenty bytes of `tmplint`. -/
def InLongBuffer (w : Web) (a : Act) : Prop := ∀ n ∈ w.longNumbers a, (decimal n).length + 1 ≤ 20

theorem withBody_createPacket_iff {r : HTTPResponse} (hstat : (decimal r.status).length < tmpstat)
    (body : Str) : (∃ p, (r.withBody body).createPacket = .ok p) ↔
      ∀ n ∈ bodySize body, (decimal n).length + 1 ≤ 10 := by
  have hlen : (∃ headers, (r.withBody body).toHTTP.withLength = .ok headers) ↔
      ∀ n ∈ bodySize body, (decimal n).length + 1 ≤ 10 := by
    show (∃ headers, (if body = [] then .ok _ else Except.map _ (sprintf tmplen _)) = .ok headers) ↔ _
    unfold bodySize
    by_cases hbody : body = []
    · rw [if_pos hbody, if_pos hbody]
      exact iff_of_true ⟨_, rfl⟩ nofun
    · rw [if_neg hbody, if_neg hbody, List.forall_mem_singleton]
      constructor
      · rintro ⟨headers, h⟩
        obtain ⟨len, hs, -⟩ := map_eq_ok.mp h
        exact (sprintf_eq_ok.mp hs).1
      · intro h
        exact ⟨_, map_eq_ok.mpr ⟨_, sprintf_eq_ok.mpr ⟨h, rfl⟩, rfl⟩⟩
  rw [← hlen]
  constructor
  · rintro ⟨p, hp⟩
    obtain ⟨-, headers, hw, -⟩ := HTTPResponse.createPacket_eq_ok.mp hp
    exact ⟨headers, hw⟩
  · rintro ⟨headers, hw⟩
    exact ⟨_, HTTPResponse.createPacket_eq_ok.mpr ⟨hstat, headers, hw, rfl⟩⟩

theorem tableRows_iff {rows : List (Directory × Int)} :
    (∃ s, tableRows rows = .ok s) ↔ ∀ n ∈ rows.map (·.2), (decimal n).length + 1 ≤ 10 := by
  induction rows with
  | nil => exact iff_of_true ⟨[], rfl⟩ nofun
  | cons row rows ih =>
    obtain ⟨dir, size⟩ := row
    rw [List.map_cons, List.forall_mem_cons, ← ih]
    simp only [tableRows, bind_eq_ok, sprintf_eq_ok]
    constructor
    · rintro ⟨s, n, ⟨hsize, rfl⟩, s', hs', -⟩
      exact ⟨hsize, s', hs'⟩
    · rintro ⟨hsize, s', hs'⟩
      exact ⟨_, _, ⟨hsize, rfl⟩, s', hs', rfl⟩

theorem fits_page_iff (p : Page) : Fits p ↔
    (∀ n ∈ (p.listed.zipIdx 1).flatMap (fun e => [(e.2 : Int), e.1.2.file.id.toInt]) ++
      p.lists.map PageList.size, (decimal n).length + 1 ≤ 10) ∧
    ∀ n ∈ p.songfile.size :: p.listed.map (·.2.size), (decimal n).length + 1 ≤ 20 := by
  have hplaces : ∀ e ∈ p.listed.zipIdx 1, (decimal (e.2 : Int)).length + 1 ≤ 10 := by
    intro e he
    have hlen : p.listed.length ≤ 10 := List.length_take_le _ _
    have hlt := List.snd_lt_add_of_mem_zipIdx he
    exact decimal_songno (by omega)
  have hids : (∀ n ∈ (p.listed.zipIdx 1).flatMap fun e => [(e.2 : Int), e.1.2.file.id.toInt],
      (decimal n).length + 1 ≤ 10) ↔
        ∀ e ∈ p.listed, (decimal e.2.file.id.toInt).length + 1 ≤ 10 := by
    conv => rhs; rw [← List.zipIdx_map_fst 1 p.listed]
    rw [List.forall_mem_flatMap, List.forall_mem_map]
    refine forall₂_congr fun e he => ?_
    rw [List.forall_mem_cons, List.forall_mem_singleton]
    exact and_iff_right (hplaces e he)
  rw [List.forall_mem_append, hids, List.forall_mem_map, List.forall_mem_cons,
    List.forall_mem_map]
  constructor
  · intro h
    exact ⟨⟨fun e he => (h.listed e he).1, h.lists⟩, h.songfile, fun e he => (h.listed e he).2⟩
  · rintro ⟨⟨hlisted, hlists⟩, hsong, hsizes⟩
    exact ⟨hsong, fun e he => ⟨hlisted e he, hsizes e he⟩, hlists⟩

/-- The two packets have a status of three digits. -/
structure Ready (w : Web) : Prop where
  xml : w.HTTPxml.status = 200
  text : w.HTTPtext.status = 200

theorem status_fits {r : HTTPResponse} (h : r.status = 200) :
    (decimal r.status).length < tmpstat := by
  rw [h]
  decide

theorem text_iff {w : Web} (hw : w.Ready) : (∃ w', w.text = .ok w') ↔ w.InBuffers .text := by
  unfold text
  rw [InBuffers, numbers, ← withBody_createPacket_iff (status_fits hw.text)]
  simp only [bind_eq_ok]
  exact ⟨fun ⟨_, r, h, _⟩ => ⟨r, h⟩, fun ⟨r, h⟩ => ⟨_, r, h, rfl⟩⟩

theorem xml_iff {w : Web} (hw : w.Ready) (l : PageInfo) :
    (∃ w', w.xml l = .ok w') ↔ w.InBuffers (.xml l) ∧ w.InLongBuffer (.xml l) := by
  unfold xml InBuffers InLongBuffer numbers longNumbers
  dsimp only
  by_cases hname : w.o_xsongname ≠ w.songfile.name
  · rw [if_pos hname, if_pos hname, if_pos hname, List.forall_mem_append, and_right_comm,
      ← fits_page_iff, ← withBody_createPacket_iff (status_fits hw.xml)]
    simp only [bind_eq_ok, indexXml_eq_ok]
    constructor
    · rintro ⟨_, xbuf, ⟨hfits, rfl⟩, r, hr, -⟩
      exact ⟨hfits, r, hr⟩
    · rintro ⟨hfits, r, hr⟩
      exact ⟨_, _, ⟨hfits, rfl⟩, r, hr, rfl⟩
  · rw [if_neg hname, if_neg hname, if_neg hname]
    exact iff_of_true ⟨w, rfl⟩ ⟨nofun, nofun⟩

theorem html_iff (w : Web) : (∃ w', w.html = .ok w') ↔ w.InBuffers .html := by
  unfold html InBuffers numbers
  dsimp only
  by_cases hredirect : w.HTTP_REDIRECT = []
  · by_cases hname : w.o_hsongname ≠ w.songfile.name
    · rw [if_neg (not_not.mpr hredirect), if_pos hname, if_pos ⟨hredirect, hname⟩,
        List.forall_mem_cons, ← tableRows_iff]
      simp only [bind_eq_ok, sprintf_eq_ok]
      constructor
      · rintro ⟨_, n, ⟨hid, rfl⟩, rows, hrows, -⟩
        exact ⟨hid, rows, hrows⟩
      · rintro ⟨hid, rows, hrows⟩
        exact ⟨_, _, ⟨hid, rfl⟩, rows, hrows, rfl⟩
    · rw [if_neg (not_not.mpr hredirect), if_neg hname, if_neg fun h => hname h.2]
      exact iff_of_true ⟨w, rfl⟩ nofun
  · rw [if_pos hredirect, if_neg fun h => hredirect h.1]
    exact iff_of_true ⟨w, rfl⟩ nofun

/-- **A page is made** if and only if all that it prints fits. -/
theorem served_iff {w : Web} (hw : w.Ready) {a : Act} (ha : a = .text ∨ (∃ l, a = .xml l) ∨ a = .html) :
    (w.step a).isSome = true ↔ w.InBuffers a ∧ w.InLongBuffer a := by
  rcases ha with rfl | ⟨l, rfl⟩ | rfl
  · rw [step, isSome_toOption, text_iff hw]
    exact (and_iff_left nofun).symm
  · rw [step, isSome_toOption, xml_iff hw]
  · rw [step, isSome_toOption, html_iff]
    exact (and_iff_left nofun).symm

/-! ## What a step leaves -/

theorem status_createPacket {r p : HTTPResponse} (h : r.createPacket = .ok p) :
    p.status = r.status := by
  obtain ⟨-, headers, -, rfl⟩ := HTTPResponse.createPacket_eq_ok.mp h
  rfl

theorem text_eq_ok {w w' : Web} (h : w.text = .ok w') :
    ∃ r, r.status = w.HTTPtext.status ∧ w' = { w with HTTPtext := r } := by
  obtain ⟨r, hr, he⟩ := bind_eq_ok.mp h
  have hstatus := status_createPacket hr
  exact ⟨r, hstatus, (Except.ok.inj he).symm⟩

theorem xml_eq_ok {w w' : Web} {l : PageInfo} (h : w.xml l = .ok w') :
    ∃ name r, r.status = w.HTTPxml.status ∧ w' = { w with o_xsongname := name, HTTPxml := r } := by
  unfold xml at h
  split at h
  · obtain ⟨xbuf, -, h⟩ := bind_eq_ok.mp h
    obtain ⟨r, hr, he⟩ := bind_eq_ok.mp h
    have hstatus := status_createPacket hr
    exact ⟨_, r, hstatus, (Except.ok.inj he).symm⟩
  · exact ⟨_, _, rfl, (Except.ok.inj h).symm⟩

theorem html_eq_ok {w w' : Web} (h : w.html = .ok w') :
    ∃ name buf, w' = { w with o_hsongname := name, hbuf := buf } := by
  unfold html at h
  split at h
  · exact ⟨_, _, (Except.ok.inj h).symm⟩
  split at h
  · obtain ⟨n, -, h⟩ := bind_eq_ok.mp h
    obtain ⟨rows, -, he⟩ := bind_eq_ok.mp h
    exact ⟨_, _, (Except.ok.inj he).symm⟩
  · exact ⟨_, _, (Except.ok.inj h).symm⟩

theorem step_call {w w' : Web} {k : Nat} {c : Call} {os : Os} (h : w.step (.call k c os) = some w') :
    ∃ d e song, w.lists[k]? = some d ∧ c.run d os = .ok (e, song) ∧
      w' = { w with lists := w.lists.set k e, taken := w.taken ++ song.toList } := by
  obtain ⟨d, hd, h⟩ := Option.bind_eq_some_iff.mp h
  obtain ⟨⟨e, song⟩, hrun, h⟩ := Option.bind_eq_some_iff.mp h
  exact ⟨d, e, song, hd, toOption_eq_some.mp hrun, (Option.some.inj h).symm⟩

theorem step_getSize {w w' : Web} {k : Nat} {os : Os} (h : w.step (.getSize k os) = some w') :
    ∃ d e n, w.lists[k]? = some d ∧ d.getSize os = .ok (e, n) ∧
      w' = { w with lists := w.lists.set k e, sizes := w.sizes.set k (BitVec.ofNat 32 n).toInt } := by
  obtain ⟨d, hd, h⟩ := Option.bind_eq_some_iff.mp h
  obtain ⟨⟨e, n⟩, hrun, h⟩ := Option.bind_eq_some_iff.mp h
  exact ⟨d, e, n, hd, toOption_eq_some.mp hrun, (Option.some.inj h).symm⟩

theorem Ready.step {w w' : Web} {a : Act} (hw : w.Ready) (h : w.step a = some w') : w'.Ready := by
  cases a with
  | call k c os =>
    obtain ⟨d, e, song, -, -, rfl⟩ := step_call h
    exact ⟨hw.xml, hw.text⟩
  | set i stat del =>
    obtain ⟨song, -, h⟩ := Option.bind_eq_some_iff.mp h
    cases h
    exact ⟨hw.xml, hw.text⟩
  | getEntries k =>
    obtain ⟨d, -, h⟩ := Option.bind_eq_some_iff.mp h
    cases h
    exact ⟨hw.xml, hw.text⟩
  | getSize k os =>
    obtain ⟨d, e, n, -, -, rfl⟩ := step_getSize h
    exact ⟨hw.xml, hw.text⟩
  | text =>
    obtain ⟨r, hr, rfl⟩ := text_eq_ok (toOption_eq_some.mp h)
    exact ⟨hw.xml, hr.trans hw.text⟩
  | xml l =>
    obtain ⟨name, r, hr, rfl⟩ := xml_eq_ok (toOption_eq_some.mp h)
    exact ⟨hr.trans hw.xml, hw.text⟩
  | html =>
    obtain ⟨name, buf, rfl⟩ := html_eq_ok (toOption_eq_some.mp h)
    exact ⟨hw.xml, hw.text⟩
  | clear | rename | accept =>
    cases h
    exact ⟨hw.xml, hw.text⟩

/-! ## The player -/

/-- The calls of a round on the lists, up to the first one that has a song. -/
theorem firstSong_calls {oss : Nat → Os × Nat} {rest rest' : List Directory}
    {res : Option (File × Nat)} (front : List Directory) (w : Web) (hl : w.lists = front ++ rest)
    (h : firstSong oss front.length rest = .ok (rest', res)) : ∃ acts, Machine.run step w acts =
      some { w with lists := front ++ rest', taken := w.taken ++ (res.map (·.1)).toList } := by
  induction rest generalizing front w rest' res with
  | nil =>
    cases h
    refine ⟨[], ?_⟩
    rw [Machine.run_nil, ← hl]
    simp
  | cons d rest ih =>
    have hget : w.lists[front.length]? = some d := by simp [hl]
    have hset : ∀ e, w.lists.set front.length e = front ++ e :: rest := fun e => by simp [hl]
    cases hg : d.getSong (oss front.length).1 (oss front.length).2 with
    | error a =>
      rw [firstSong, hg] at h
      cases h
    | ok r =>
      obtain ⟨e, song⟩ := r
      have hstep : w.step (.call front.length (.getSong (oss front.length).2)
          (oss front.length).1) =
            some { w with lists := front ++ e :: rest, taken := w.taken ++ song.toList } := by
        simp only [step, hget, Call.run, hg, hset, Except.toOption, Option.bind_eq_bind,
          Option.bind_some]
        rfl
      cases song with
      | some f =>
        rw [firstSong_song hg] at h
        cases h
        exact ⟨[_], by rw [Machine.run_cons, hstep]; rfl⟩
      | none =>
        rw [firstSong, hg] at h
        obtain ⟨⟨lists₁, res₁⟩, hrest, he⟩ := map_eq_ok.mp h
        obtain ⟨rfl, rfl⟩ := Prod.mk.inj he
        have hlen : (front ++ [e]).length = front.length + 1 := List.length_append
        rw [← hlen] at hrest
        obtain ⟨acts, hacts⟩ := ih (front ++ [e])
          { w with lists := front ++ e :: rest, taken := w.taken ++ [] } (by simp) hrest
        refine ⟨.call front.length (.getSong (oss front.length).2) (oss front.length).1 :: acts, ?_⟩
        rw [Machine.run_cons, hstep]
        refine Eq.trans hacts ?_
        simp

/-- A round of the player is made of calls: it leaves the lists and the current song as they do. -/
theorem round_calls {w : Web} {s s' : Player} {r : Round} {out : Outcome}
    (hl : w.lists = s.lists) (hc : w.current = s.current) (h : s.round r = .ok (s', out)) :
    ∃ acts w', Machine.run step w acts = some w' ∧ w'.lists = s'.lists ∧
      w'.current = s'.current := by
  unfold Player.round at h
  split at h
  · cases h
  · next lists hfirst =>
    cases h
    obtain ⟨acts, hacts⟩ := firstSong_calls [] w hl hfirst
    have hrun : Machine.run step w (acts ++ [.clear r.memory]) =
        some { w with
          lists := lists
          taken := w.taken ++ []
          current := w.current.call (.clear r.memory) } := by
      rw [Machine.run_snoc, hacts]
      rfl
    refine ⟨_, _, hrun, rfl, ?_⟩
    exact congrArg (fun c => SongRun.call c (.clear r.memory)) hc
  · next lists song i hfirst =>
    obtain ⟨acts, hacts⟩ := firstSong_calls [] w hl hfirst
    dsimp only at h
    split at h
    · cases h
      set del := deleteIt r.DELETE_PLAYED i
      have hrun : Machine.run step w (acts ++ [.set w.taken.length r.stat del]) =
          some { w with
            lists := lists
            taken := w.taken ++ [song]
            current := w.current.call (.set (song.exists_ r.stat).1 del) } := by
        rw [Machine.run_snoc, hacts]
        simp only [Option.bind_some, step, Option.map_some, Option.toList_some]
        rw [List.getElem?_concat_length]
        rfl
      refine ⟨_, _, hrun, rfl, ?_⟩
      exact congrArg (fun c => SongRun.call c (.set (song.exists_ r.stat).1 del)) hc
    · cases h
      exact ⟨acts, _, hacts, rfl, hc⟩

end Web

end NetDJ.Daemon
