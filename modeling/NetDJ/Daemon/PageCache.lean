import NetDJ.Lib.Memo
import NetDJ.Lib.Traces
import NetDJ.Daemon.Reuse
import NetDJ.Daemon.Pages

/-!
# `main.cc`: the pages that are kept

`http_thread` makes `/index.xml` and the HTML page anew only if the name of the song is not the one
of the page it has. So a page is for the song that the connection has found, but its lists and sizes
are those of the first request since the song changed.

* `Web.xmlPacket`, `Web.htmlText` : the pages as they are made from nothing;
* `Web.XmlKept` : the response object makes the packet that a new one would make;
* `Web.xmlAsks`, `Web.htmlAsks` : the requests of a run, each with the page that would be made;
* `Web.pages_cached` : what is sent is the page of the first of the last requests for one song.
-/

namespace NetDJ.Daemon

namespace Web

/-! ## The pages -/

/-- The packet that a new object makes of a page. -/
def xmlPacket (PKGVER : Str) (p : Page) : Str :=
  match ((newXml PKGVER).withBody (xmlText p)).createPacket with
  | .ok r => r.packet
  | .error _ => []

/-- What `hbuf` is made of. -/
def htmlText (w : Web) : Except Abort Str := do
  let id ← sprintf tmpint w.songfile.id.toInt
  let names := (w.songs.getD 1 []).flatMap fun it =>
    "    ".toList ++ it.getFilenameNoType ++ "<BR>\n".toList
  let rows ← tableRows (w.lists.zip w.sizes)
  return hbuf1 ++ w.cfilename ++ hbuf2 ++ id ++ hbuf3 ++ names ++ hbuf4 ++ rows ++ hbuf5

/-- The requests for `/index.xml`: the name of the song, and the packet that would be made. -/
def xmlAsks (PKGVER : Str) (w : Web) : Act → Web → List (Str × Str)
  | .xml l, _ => [(w.songfile.name, xmlPacket PKGVER (w.page l))]
  | _, _ => []

/-- The same for the HTML page, which is not made where there is a redirection. -/
def htmlAsks (w : Web) : Act → Web → List (Str × Str)
  | .html, _ =>
    if w.HTTP_REDIRECT = [] then
      match w.htmlText with
      | .ok hbuf => [(w.songfile.name, hbuf)]
      | .error _ => []
    else []
  | _, _ => []

/-! ## The response object -/

/-- An object that differs from a new one in the body, the packet and the length only. -/
structure XmlKept (PKGVER : Str) (r : HTTPResponse) : Prop where
  version : r.version = (newXml PKGVER).version
  status : r.status = (newXml PKGVER).status
  description : r.description = (newXml PKGVER).description
  headers : ∀ name ≠ contentLength, r.getHeader name = (newXml PKGVER).getHeader name

theorem xmlText_ne (p : Page) : xmlText p ≠ [] := by
  intro h
  have hlen := congrArg List.length h
  simp [xmlText, replaceIllegal, xbufText] at hlen

theorem lookup_withLength {h : HTTP} {headers : StdMap Str Str} (hbody : h.body ≠ [])
    (hl : h.withLength = .ok headers) (name : Str) : headers.lookup name =
      if name = contentLength then some (decimal (BitVec.ofNat 32 h.body.length).toInt)
      else h.getHeader name := by
  obtain ⟨hb, -⟩ | ⟨-, rfl⟩ := HTTP.withLength_eq_ok hl
  · exact absurd hb hbody
  · split
    · next hname =>
      rw [hname]
      exact AList.lookup_insert _
    · next hname => exact AList.lookup_insert_ne hname

theorem XmlKept.createPacket {PKGVER : Str} {r p : HTTPResponse} {page : Page}
    (hr : XmlKept PKGVER r) (hp : (r.withBody (xmlText page)).createPacket = .ok p) :
    XmlKept PKGVER p ∧ p.packet = xmlPacket PKGVER page := by
  obtain ⟨hstat, headers, hlen, rfl⟩ := HTTPResponse.createPacket_eq_ok.mp hp
  have hlookup := lookup_withLength (xmlText_ne page) hlen
  -- a new object has the same length to print
  obtain ⟨new, hnew⟩ : ∃ new, ((newXml PKGVER).withBody (xmlText page)).createPacket = .ok new := by
    rw [withBody_createPacket_iff (status_fits rfl),
      ← withBody_createPacket_iff (r := r) (by exact hstat)]
    exact ⟨_, hp⟩
  obtain ⟨-, headers', hlen', rfl⟩ := HTTPResponse.createPacket_eq_ok.mp hnew
  have hlookup' := lookup_withLength (xmlText_ne page) hlen'
  refine ⟨⟨hr.version, hr.status, hr.description, fun name hname => ?_⟩, ?_⟩
  · refine (hlookup name).trans ?_
    rw [if_neg hname]
    exact hr.headers name hname
  · have hsorted : headers.sorted = headers'.sorted := by
      apply sorted_congr
      intro name
      rw [hlookup, hlookup']
      split
      · rfl
      · next hname => exact hr.headers name hname
    unfold xmlPacket
    rw [hnew]
    dsimp only
    rw [hsorted]
    have hline : (r.withBody (xmlText page)).commandText (decimal r.status) =
        ((newXml PKGVER).withBody (xmlText page)).commandText (decimal (newXml PKGVER).status) := by
      show 'H' :: 'T' :: 'T' :: 'P' :: '/' :: (r.version ++ ' ' :: (decimal r.status ++
        ' ' :: (r.description ++ crlf))) = _
      rw [hr.version, hr.status, hr.description]
      rfl
    exact congrArg (· ++ _ ++ crlf ++ xmlText page) hline

/-! ## What a step does to the pages -/

theorem XmlKept.xml {PKGVER : Str} {w w' : Web} {l : PageInfo} (hw : XmlKept PKGVER w.HTTPxml)
    (h : w.xml l = .ok w') : XmlKept PKGVER w'.HTTPxml ∧
      (w'.o_xsongname, w'.HTTPxml.packet) = Memo.ask (w.o_xsongname, w.HTTPxml.packet)
        (w.songfile.name, xmlPacket PKGVER (w.page l)) := by
  unfold Web.xml at h
  unfold Memo.ask
  split at h
  · next hname =>
    obtain ⟨xbuf, hxbuf, h⟩ := bind_eq_ok.mp h
    obtain ⟨r, hr, he⟩ := bind_eq_ok.mp h
    cases he
    obtain ⟨-, rfl⟩ := indexXml_eq_ok.mp hxbuf
    obtain ⟨hkept, hpacket⟩ := hw.createPacket hr
    rw [if_pos hname]
    exact ⟨hkept, congrArg (Prod.mk _) hpacket⟩
  · next hname =>
    cases h
    rw [if_neg hname]
    exact ⟨hw, rfl⟩

theorem html_asks {w w' : Web} (h : w.html = .ok w') : (w'.o_hsongname, w'.hbuf) =
    (w.htmlAsks .html w').foldl Memo.ask (w.o_hsongname, w.hbuf) := by
  unfold html at h
  unfold htmlAsks
  dsimp only
  split at h
  · next hredirect =>
    cases h
    rw [if_neg hredirect]
    rfl
  · next hredirect =>
    rw [if_pos (not_not.mp hredirect)]
    split at h
    · next hname =>
      obtain ⟨id, hid, h⟩ := bind_eq_ok.mp h
      obtain ⟨rows, hrows, he⟩ := bind_eq_ok.mp h
      cases he
      have htext : w.htmlText = .ok (hbuf1 ++ w.cfilename ++ hbuf2 ++ id ++ hbuf3 ++
          ((w.songs.getD 1 []).flatMap fun it =>
            "    ".toList ++ it.getFilenameNoType ++ "<BR>\n".toList) ++ hbuf4 ++ rows ++ hbuf5) :=
        bind_eq_ok.mpr ⟨id, hid, bind_eq_ok.mpr ⟨rows, hrows, rfl⟩⟩
      rw [htext]
      exact (if_pos hname).symm
    · next hname =>
      cases h
      split
      · exact (if_neg hname).symm
      · rfl

theorem step_pages {PKGVER : Str} {w w' : Web} {a : Act} (hw : XmlKept PKGVER w.HTTPxml)
    (h : w.step a = some w') : XmlKept PKGVER w'.HTTPxml ∧
      (w'.o_xsongname, w'.HTTPxml.packet) =
        (xmlAsks PKGVER w a w').foldl Memo.ask (w.o_xsongname, w.HTTPxml.packet) ∧
      (w'.o_hsongname, w'.hbuf) =
        (htmlAsks w a w').foldl Memo.ask (w.o_hsongname, w.hbuf) := by
  cases a with
  | call k c os =>
    obtain ⟨d, e, song, -, -, rfl⟩ := step_call h
    exact ⟨hw, rfl, rfl⟩
  | set i stat del =>
    obtain ⟨song, -, h⟩ := Option.bind_eq_some_iff.mp h
    cases h
    exact ⟨hw, rfl, rfl⟩
  | getEntries k =>
    obtain ⟨d, -, h⟩ := Option.bind_eq_some_iff.mp h
    cases h
    exact ⟨hw, rfl, rfl⟩
  | getSize k os =>
    obtain ⟨d, e, n, -, -, rfl⟩ := step_getSize h
    exact ⟨hw, rfl, rfl⟩
  | text =>
    obtain ⟨r, -, rfl⟩ := text_eq_ok (toOption_eq_some.mp h)
    exact ⟨hw, rfl, rfl⟩
  | xml l =>
    have hxml := toOption_eq_some.mp h
    obtain ⟨hkept, hasked⟩ := hw.xml hxml
    obtain ⟨name, r, -, rfl⟩ := xml_eq_ok hxml
    exact ⟨hkept, hasked, rfl⟩
  | html =>
    have hhtml := toOption_eq_some.mp h
    have hasked := html_asks hhtml
    obtain ⟨name, buf, rfl⟩ := html_eq_ok hhtml
    exact ⟨hw, rfl, hasked⟩
  | clear | rename | accept =>
    cases h
    exact ⟨hw, rfl, rfl⟩

/-! ## The pages of a run -/

def noPage : Str × Str := ("///---///".toList, [])

/-- **What is sent for `/index.xml` is the packet of the first of the last requests for one song, and
so it is with the HTML page.** The song is the one that the connection has found. -/
theorem pages_cached {c : Setup} {mem : Bool} {memory : File} {w t : Web} {acts : List Act}
    (h : main c mem memory = .ok w) (hrun : Machine.run step w acts = some t) :
    (∀ page, Memo.LastBlock (noPage :: Machine.outputs step (xmlAsks c.PKGVER) w acts) page ↔
      page = (t.o_xsongname, t.HTTPxml.packet)) ∧
    (∀ page, Memo.LastBlock (noPage :: Machine.outputs step htmlAsks w acts) page ↔
      page = (t.o_hsongname, t.hbuf)) ∧
    (∀ l t', t.step (.xml l) = some t' → t'.o_xsongname = t.songfile.name) ∧
    ∀ t', t.HTTP_REDIRECT = [] → t.step .html = some t' → t'.o_hsongname = t.songfile.name := by
  have hstart : XmlKept c.PKGVER w.HTTPxml ∧ (w.o_xsongname, w.HTTPxml.packet) = noPage ∧
      (w.o_hsongname, w.hbuf) = noPage := by
    obtain ⟨lists, -, h⟩ := bind_eq_ok.mp h
    obtain ⟨redirect, -, h⟩ := bind_eq_ok.mp h
    obtain ⟨auth, -, h⟩ := bind_eq_ok.mp h
    cases h
    exact ⟨⟨rfl, rfl, rfl, fun _ _ => rfl⟩, rfl, rfl⟩
  obtain ⟨hkept, hxml, hhtml⟩ := hstart
  have hkept' : XmlKept c.PKGVER t.HTTPxml :=
    Machine.run_keeps (fun u a u' hu hstep => (step_pages hu hstep).1) hkept hrun
  refine ⟨fun page => ?_, fun page => ?_, fun l t' ht' => ?_, fun t' hredirect ht' => ?_⟩
  · rw [Memo.lastBlock_iff, ← hxml]
    rw [← Machine.foldl_outputs (f := Memo.ask) (v := fun u : Web =>
      (u.o_xsongname, u.HTTPxml.packet)) (fun u a u' hu hstep =>
        ⟨(step_pages hu hstep).1, (step_pages hu hstep).2.1⟩) hkept hrun]
  · rw [Memo.lastBlock_iff, ← hhtml]
    rw [← Machine.foldl_outputs (f := Memo.ask) (v := fun u : Web => (u.o_hsongname, u.hbuf))
      (fun u a u' hu hstep => ⟨(step_pages hu hstep).1, (step_pages hu hstep).2.2⟩) hkept hrun]
  · have hasked := (hkept'.xml (toOption_eq_some.mp ht')).2
    exact (congrArg Prod.fst hasked).trans (Memo.key_ask _ _)
  · have hname : t.html = .ok t' := toOption_eq_some.mp ht'
    unfold html at hname
    rw [if_neg (not_not.mpr hredirect)] at hname
    split at hname
    · obtain ⟨id, -, hname⟩ := bind_eq_ok.mp hname
      obtain ⟨rows, -, he⟩ := bind_eq_ok.mp hname
      cases he
      rfl
    · next hsame =>
      cases hname
      exact not_not.mp hsame

/-- The first connection, which gets the HTML page. -/
theorem pages_cached_first : ∃ w t, main quiet false (holding 0) = .ok w ∧
    Machine.run step w [.accept, .html] = some t ∧
    ∀ page, Memo.LastBlock (noPage :: Machine.outputs step htmlAsks w [.accept, .html]) page ↔
      page = (t.o_hsongname, t.hbuf) := by
  obtain ⟨w, hw⟩ := (main_iff quiet false (holding 0)).mpr ⟨by decide, by decide⟩
  have horigins : w.accept.Origins :=
    (origins_main hw narrow_zero).step (a := .accept) trivial rfl
  obtain ⟨t, ht⟩ := (html_iff w.accept).mpr (inBuffers_iff.mpr (horigins.printable trivial))
  have hrun : Machine.run step w [.accept, .html] = some t := by
    show (w.accept.html.toOption.bind fun s => some s) = some t
    rw [ht]
    rfl
  exact ⟨w, t, hw, hrun, (pages_cached hw hrun).2.1⟩

end Web

end NetDJ.Daemon
