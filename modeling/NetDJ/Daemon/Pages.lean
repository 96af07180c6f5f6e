import NetDJ.Daemon.Web

/-!
# `main.cc`: the numbers in the web pages

Ids, sizes and lengths are printed into ten bytes. An id is what the counter of a list gave to a
song; the file of `Clear` has what the memory held.

* `Web.Printable` : what the page prints is narrow;
* `Web.Origins` : where the ids come from, and how large they get;
* `Web.Origins.step` : a step keeps that if the songs are few and what the memory holds is narrow;
* `Web.main_iff` : when the daemon starts;
* `Web.pages_fit` : every page of a run fits if each number that it prints is narrow, which is so as
  long as the counters and what the memory held are.
-/

namespace NetDJ.Daemon

namespace Web

/-! ## Where the ids come from -/

/-- No id and no size that a page may print is wide: the lists have not numbered many songs, and
what is not from a list is narrow. -/
structure Origins (w : Web) : Prop where
  lists : ∀ d ∈ w.lists, d.Counted
  taken : ∀ f ∈ w.taken, Narrow f.id.toInt
  current : Narrow w.current.song.currfile.id.toInt
  songfile : Narrow w.songfile.id.toInt
  songs : ∀ fs ∈ w.songs, ∀ f ∈ fs, Narrow f.id.toInt
  sizes : ∀ n ∈ w.sizes, Narrow n

/-- The call numbers the songs of the list below the bound. -/
def Few (w : Web) (k : Nat) (os : Os) : Prop :=
  ∀ d, w.lists[k]? = some d → d.nextfileid.toNat + (d.fresh os).length < 10 ^ 9

/-- The songs are few, what the memory holds for the id of the file of `Clear` is narrow, and the
texts of a page are short. -/
def Bounded (w : Web) : Act → Prop
  | .call k _ os | .getSize k os => w.Few k os
  | .clear memory => Narrow memory.id.toInt
  | .text => w.cfilename.length < 10 ^ 9
  | .xml l => ∀ f ∈ w.songfile :: w.songs.flatten, (l.pageFile f).Short
  | _ => True

theorem narrow_size {d : Directory} (hd : d.Counted) :
    Narrow (BitVec.ofNat 32 d.list.length).toInt := by
  apply Directory.narrow_of_toNat
  have hlen := hd.length.trans_lt hd.counter
  rw [BitVec.toNat_ofNat]
  omega

theorem id_call {s : SongRun} {c : SongCall} (hs : Narrow s.song.currfile.id.toInt)
    (hset : ∀ fil del, c = .set fil del → Narrow fil.id.toInt)
    (hclear : ∀ memory, c = .clear memory → Narrow memory.id.toInt) :
    Narrow (s.call c).song.currfile.id.toInt := by
  cases c with
  | set fil del => exact hset fil del rfl
  | clear memory => exact hclear memory rfl
  | renameCurrent newpath del renamed =>
    by_cases h : (fun name (_ : Str) => renamed && decide (name ≠ [])) s.song.currfile.name newpath
    · rw [SongRun.call, TCurrentSong.renameCurrent_works h]
      exact hs
    · rw [SongRun.call, TCurrentSong.renameCurrent_fails (Bool.eq_false_of_not_eq_true h)]
      exact hs

theorem id_exists (f : File) (stat : Str → Option Stat) : (f.exists_ stat).1.id = f.id := by
  unfold File.exists_ File.updateStat
  split <;> rfl

theorem forall_mem_set {α : Type*} {P : α → Prop} {l : List α} {k : Nat} {x : α}
    (hl : ∀ y ∈ l, P y) (hx : P x) : ∀ y ∈ l.set k x, P y := by
  intro y hy
  rcases List.mem_or_eq_of_mem_set hy with hy | rfl
  · exact hl y hy
  · exact hx

namespace Origins
variable {w w' : Web}

theorem call {k : Nat} {c : Call} {os : Os} (hw : w.Origins) (hfew : w.Few k os)
    (h : w.step (.call k c os) = some w') : w'.Origins := by
  obtain ⟨d, e, song, hd, hrun, rfl⟩ := step_call h
  obtain ⟨he, hsong⟩ := (hw.lists d (List.mem_of_getElem? hd)).call (hfew d hd) hrun
  refine { hw with lists := forall_mem_set hw.lists he, taken := fun f hf => ?_ }
  rcases List.mem_append.mp hf with hf | hf
  · exact hw.taken f hf
  · exact hsong f (Option.mem_toList.mp hf)

theorem getSize {k : Nat} {os : Os} (hw : w.Origins) (hfew : w.Few k os)
    (h : w.step (.getSize k os) = some w') : w'.Origins := by
  obtain ⟨d, e, n, hd, hsize, rfl⟩ := step_getSize h
  obtain ⟨e', hupd, he⟩ := map_eq_ok.mp hsize
  obtain ⟨rfl, rfl⟩ := Prod.mk.inj he
  have he := (hw.lists d (List.mem_of_getElem? hd)).update (hfew d hd) hupd
  exact { hw with
    lists := forall_mem_set hw.lists he
    sizes := forall_mem_set hw.sizes (narrow_size he) }

theorem getEntries {k : Nat} (hw : w.Origins) (h : w.step (.getEntries k) = some w') :
    w'.Origins := by
  obtain ⟨d, hd, h⟩ := Option.bind_eq_some_iff.mp h
  cases h
  refine { hw with songs := forall_mem_set hw.songs fun f hf => ?_ }
  refine (hw.lists d (List.mem_of_getElem? hd)).ids f ?_
  unfold Directory.getEntries at hf
  split at hf
  · exact List.mem_of_mem_take hf
  · cases hf

/-- The current song is one that a player thread has got. -/
theorem set {i : Nat} {stat : Str → Option Stat} {del : Bool} (hw : w.Origins)
    (h : w.step (.set i stat del) = some w') : w'.Origins := by
  obtain ⟨song, hsong, h⟩ := Option.bind_eq_some_iff.mp h
  cases h
  refine { hw with current := id_call hw.current (fun fil del he => ?_) nofun }
  cases he
  rw [id_exists]
  exact hw.taken song (List.mem_of_getElem? hsong)

/-- **A step keeps the origins of the ids.** -/
theorem step {a : Act} (hw : w.Origins) (ha : w.Bounded a) (h : w.step a = some w') :
    w'.Origins := by
  cases a with
  | call k c os => exact hw.call ha h
  | set i stat del => exact hw.set h
  | clear memory =>
    cases h
    refine { hw with current := id_call hw.current nofun fun m he => ?_ }
    cases he
    exact ha
  | rename newpath del renamed =>
    cases h
    exact { hw with current := id_call hw.current nofun nofun }
  | accept =>
    cases h
    exact { hw with
      songfile := hw.current
      songs := by simp [Web.accept]
      sizes := by simp [Web.accept, narrow_zero] }
  | getEntries k => exact hw.getEntries h
  | getSize k os => exact hw.getSize ha h
  | text =>
    obtain ⟨r, -, rfl⟩ := text_eq_ok (toOption_eq_some.mp h)
    exact { hw with }
  | xml l =>
    obtain ⟨name, r, -, rfl⟩ := xml_eq_ok (toOption_eq_some.mp h)
    exact { hw with }
  | html =>
    obtain ⟨name, buf, rfl⟩ := html_eq_ok (toOption_eq_some.mp h)
    exact { hw with }

end Origins

/-! ## The pages of a run -/

/-- All that the page prints is narrow. -/
def Printable (w : Web) : Act → Prop
  | .text => ∀ n ∈ bodySize w.cfilename, Narrow n
  | .xml l => w.o_xsongname ≠ w.songfile.name →
    (∀ e ∈ (w.page l).listed, Narrow e.2.file.id.toInt) ∧
      (∀ dir ∈ (w.page l).lists, Narrow dir.size) ∧
      ∀ n ∈ bodySize (xmlText (w.page l)), Narrow n
  | .html => w.HTTP_REDIRECT = [] → w.o_hsongname ≠ w.songfile.name →
    Narrow w.songfile.id.toInt ∧ ∀ x ∈ w.lists.zip w.sizes, Narrow x.2
  | _ => True

/-- The places of the songs are narrow anyway. -/
theorem inBuffers_iff {w : Web} {a : Act} : w.InBuffers a ↔ w.Printable a := by
  have hnarrow : ∀ n, (decimal n).length + 1 ≤ 10 ↔ Narrow n := fun n => narrow_iff.symm
  unfold InBuffers
  simp only [hnarrow]
  cases a with
  | text => exact Iff.rfl
  | xml l =>
    unfold numbers Printable
    dsimp only
    by_cases hname : w.o_xsongname ≠ w.songfile.name
    · rw [if_pos hname, List.forall_mem_append, List.forall_mem_append, List.forall_mem_map,
        and_assoc, forall_prop_of_true hname]
      refine and_congr_left' ?_
      conv => rhs; rw [← List.zipIdx_map_fst 1 (w.page l).listed]
      rw [List.forall_mem_flatMap, List.forall_mem_map]
      refine forall₂_congr fun e he => ?_
      rw [List.forall_mem_cons, List.forall_mem_singleton]
      exact and_iff_right (narrow_of_lt (by have := place_le he; omega))
    · rw [if_neg hname]
      exact iff_of_true nofun fun h => absurd h hname
  | html =>
    unfold numbers Printable
    dsimp only
    by_cases hboth : w.HTTP_REDIRECT = [] ∧ w.o_hsongname ≠ w.songfile.name
    · rw [if_pos hboth, List.forall_mem_cons, List.forall_mem_map, forall_prop_of_true hboth.1,
        forall_prop_of_true hboth.2]
    · rw [if_neg hboth]
      exact iff_of_true nofun fun hredirect hname => absurd ⟨hredirect, hname⟩ hboth
  | call | set | clear | rename | accept | getEntries | getSize => exact iff_of_true nofun trivial

theorem mem_getD {α : Type*} {l : List α} {k : Nat} {x : α} (P : α → Prop) (hl : ∀ y ∈ l, P y)
    (hx : P x) : P (l.getD k x) := by
  rw [List.getD_eq_getElem?_getD]
  cases h : l[k]? with
  | none => exact hx
  | some y => exact hl y (List.mem_of_getElem? h)

theorem exists_song {w : Web} {l : PageInfo} {e : Str × PageFile} (he : e ∈ (w.page l).listed) :
    ∃ fs ∈ w.songs, ∃ f ∈ fs, e.2 = l.pageFile f := by
  obtain ⟨dir, hdir, hmem⟩ := List.mem_flatMap.mp (List.mem_of_mem_take he)
  obtain ⟨f, hf, rfl⟩ := List.mem_map.mp hmem
  have hlists : ∀ dir ∈ (w.page l).lists, ∃ k, dir.list = (w.songs.getD k []).map l.pageFile := by
    intro dir hdir
    simp only [Page.lists, page, List.mem_cons, List.not_mem_nil, or_false] at hdir
    rcases hdir with rfl | rfl | rfl
    · exact ⟨0, rfl⟩
    · exact ⟨1, rfl⟩
    · exact ⟨2, rfl⟩
  obtain ⟨k, hk⟩ := hlists dir (List.mem_of_mem_filter hdir)
  rw [hk] at hf
  obtain ⟨file, hfile, rfl⟩ := List.mem_map.mp hf
  rw [List.getD_eq_getElem?_getD] at hfile
  cases hs : w.songs[k]? with
  | none =>
    rw [hs] at hfile
    cases hfile
  | some fs =>
    rw [hs] at hfile
    exact ⟨fs, List.mem_of_getElem? hs, file, hfile, rfl⟩

theorem narrow_sizes {w : Web} {l : PageInfo} (hw : ∀ n ∈ w.sizes, Narrow n) :
    ∀ dir ∈ (w.page l).lists, Narrow dir.size := by
  simp only [Page.lists, page, List.forall_mem_cons]
  exact ⟨mem_getD Narrow hw narrow_zero, mem_getD Narrow hw narrow_zero, mem_getD Narrow hw narrow_zero,
    List.forall_mem_nil _⟩

theorem length_narrow {n : Int} (h : Narrow n) : (decimal n).length ≤ 10 ^ 6 :=
  (narrow_iff.mp h).le.trans (by decide)

theorem length_long (x : BitVec 64) : (decimal x.toInt).length ≤ 10 ^ 6 := by
  have hlow := BitVec.le_toInt x
  have hhigh := BitVec.toInt_lt (x := x)
  have hlen : (decimal x.toInt).length < 20 + 2 :=
    (length_decimal_lt_iff (by decide)).mpr ⟨by omega, by omega⟩
  omega

theorem short_records {w : Web} {l : PageInfo} (hw : w.Origins)
    (hshort : ∀ f ∈ w.songfile :: w.songs.flatten, (l.pageFile f).Short) :
    ∀ r ∈ records (w.page l), ∀ f ∈ r.fields, f.2.length ≤ 10 ^ 6 := by
  obtain ⟨hsongfile, hsongs⟩ := List.forall_mem_cons.mp hshort
  have hsizes := narrow_sizes (l := l) hw.sizes
  have hnames : ∀ dir ∈ (w.page l).lists,
      dir.shname.length ≤ 10 ^ 6 ∧ dir.descr.length ≤ 10 ^ 6 := by
    simp only [Page.lists, List.forall_mem_cons]
    refine ⟨?_, ?_, ?_, List.forall_mem_nil _⟩
    all_goals exact ⟨by decide +kernel, by decide +kernel⟩
  intro r hr
  rcases List.mem_cons.mp hr with rfl | hr
  · refine (forall_currentsong_fields (P := fun s => s.length ≤ 10 ^ 6) _ _).mpr
      ⟨⟨by decide +kernel, by decide +kernel, length_long _⟩, hsongfile.texts⟩
  rcases List.mem_append.mp hr with hr | hr
  · obtain ⟨e, he, rfl⟩ := List.mem_map.mp hr
    have hmem : e.1 ∈ (w.page l).listed := List.fst_mem_of_mem_zipIdx he
    obtain ⟨dir, hdir, hdirname⟩ := exists_list hmem
    obtain ⟨fs, hfs, f, hf, hfile⟩ := exists_song hmem
    have hf' := hsongs f (List.mem_flatten.mpr ⟨fs, hfs, hf⟩)
    refine (forall_songRecord_fields (P := fun s => s.length ≤ 10 ^ 6) e).mpr ?_
    rw [hdirname, hfile]
    exact ⟨⟨length_narrow (hw.songs fs hfs f hf), (hnames dir hdir).1, length_long _⟩,
      ⟨hf'.owner, hf'.texts.1⟩, hf'.texts.2⟩
  · obtain ⟨dir, hdir, rfl⟩ := List.mem_map.mp hr
    exact (forall_list_fields (P := fun s => s.length ≤ 10 ^ 6) dir _).mpr
      ⟨length_narrow (hsizes dir hdir), hnames dir hdir⟩

theorem narrow_bodySize {body : Str} (h : body.length < 10 ^ 9) : ∀ n ∈ bodySize body, Narrow n := by
  unfold bodySize
  split
  · exact nofun
  · rw [List.forall_mem_singleton]
    apply Directory.narrow_of_toNat
    rw [BitVec.toNat_ofNat]
    omega

theorem Origins.printable {w : Web} {a : Act} (hw : w.Origins) (ha : w.Bounded a) :
    w.Printable a := by
  cases a with
  | text => exact narrow_bodySize ha
  | xml l =>
    refine fun _ => ⟨fun e he => ?_, narrow_sizes hw.sizes,
      narrow_bodySize (length_xmlText_lt (short_records hw ha))⟩
    obtain ⟨fs, hfs, f, hf, hfile⟩ := exists_song he
    rw [hfile]
    exact hw.songs fs hfs f hf
  | html => exact fun _ _ => ⟨hw.songfile, fun x hx => hw.sizes x.2 (List.of_mem_zip hx).2⟩
  | call | set | clear | rename | accept | getEntries | getSize => trivial

/-! ## The start -/

theorem setDirname_iff {d : Directory} {dirname : Str} {fromfile : Bool} :
    (∃ d', d.setDirname dirname fromfile = .ok d') ↔ fromfile = true ∨ dirname ≠ [] := by
  unfold Directory.setDirname
  dsimp only
  by_cases hfile : fromfile = true
  · rw [if_pos hfile]
    exact iff_of_true ⟨_, rfl⟩ (.inl hfile)
  · by_cases hdir : dirname = []
    · rw [if_neg hfile, if_pos hdir]
      exact iff_of_false nofun fun h => h.elim hfile fun hne => hne hdir
    · rw [if_neg hfile, if_neg hdir]
      exact iff_of_true ⟨_, rfl⟩ (.inr hdir)

theorem counted_setDirname {d d' : Directory} {dirname : Str} {fromfile : Bool}
    (hid : d.nextfileid = 0) (hlist : d.list = []) (h : d.setDirname dirname fromfile = .ok d') :
    d'.Counted := by
  have hsame : d'.nextfileid = d.nextfileid ∧ d'.list = d.list := by
    unfold Directory.setDirname at h
    dsimp only at h
    split at h
    · cases h
      exact ⟨rfl, rfl⟩
    split at h
    · cases h
    · cases h
      exact ⟨rfl, rfl⟩
  rw [hid, hlist] at hsame
  refine ⟨?_, ?_, ?_⟩
  · rw [hsame.1]
    decide
  · rw [hsame.2]
    exact Nat.zero_le _
  · rw [hsame.2]
    exact nofun

theorem loadstate_empty {cache : Directory} {file : Option Int} :
    (loadstate cache file).nextfileid = cache.nextfileid ∧
      (loadstate cache file).list = cache.list := by
  cases file with
  | none => exact ⟨rfl, rfl⟩
  | some upd => exact ⟨rfl, rfl⟩

theorem counted_openLists {c : Setup} {mem : Bool} {lists : List Directory}
    (h : openLists c mem = .ok lists) : ∀ d ∈ lists, d.Counted := by
  obtain ⟨request, hrequest, h⟩ := bind_eq_ok.mp h
  obtain ⟨cache, hcache, h⟩ := bind_eq_ok.mp h
  obtain ⟨share, hshare, h⟩ := bind_eq_ok.mp h
  cases h
  simp only [List.forall_mem_cons]
  refine ⟨counted_setDirname rfl rfl hrequest, ?_, counted_setDirname rfl rfl hshare, nofun⟩
  have hstate := @loadstate_empty (newCache mem) c.state
  exact counted_setDirname hstate.1 hstate.2 hcache

/-- The packets for the refused and for the redirected requests are made once. -/
theorem exists_redirect (PKGVER HTTP_REDIRECT : Str) :
    ∃ p, (newRedirect PKGVER HTTP_REDIRECT).createPacket = .ok p := by
  have hstat : (decimal 302).length < tmpstat := by decide
  exact ⟨_, HTTPResponse.createPacket_eq_ok.mpr ⟨hstat, _, rfl, rfl⟩⟩

theorem exists_auth (PKGVER : Str) : ∃ p, (newAuth PKGVER).createPacket = .ok p := by
  have hstat : (decimal 401).length < tmpstat := by decide
  have hlen : authBody.length < 10 ^ 9 := by decide +kernel
  refine (withBody_createPacket_iff hstat authBody).mpr fun n hn => ?_
  exact narrow_iff.mp (narrow_bodySize hlen n hn)

theorem main_eq_ok {c : Setup} {mem : Bool} {memory : File} {w : Web} (h : main c mem memory = .ok w) :
    openLists c mem = .ok w.lists ∧ w.taken = [] ∧ w.current = .init memory ∧
      w.HTTP_REDIRECT = c.HTTP_REDIRECT ∧ w.songfile = .new memory [] ∧
      w.songs = [[], [], []] ∧ w.sizes = [0, 0, 0] ∧ w.o_hsongname = "///---///".toList ∧
      w.Ready := by
  obtain ⟨lists, hlists, h⟩ := bind_eq_ok.mp h
  obtain ⟨redirect, -, h⟩ := bind_eq_ok.mp h
  obtain ⟨auth, -, h⟩ := bind_eq_ok.mp h
  cases h
  exact ⟨hlists, rfl, rfl, rfl, rfl, rfl, rfl, rfl, rfl, rfl⟩

theorem main_iff (c : Setup) (mem : Bool) (memory : File) :
    (∃ w, main c mem memory = .ok w) ↔ c.REQUEST_DIR ≠ [] ∧ c.CACHE_DIR ≠ [] := by
  obtain ⟨redirect, hredirect⟩ := exists_redirect c.PKGVER c.HTTP_REDIRECT
  obtain ⟨auth, hauth⟩ := exists_auth c.PKGVER
  have hname : ∀ {d : Directory} {dirname : Str},
      (∃ d', d.setDirname dirname false = .ok d') ↔ dirname ≠ [] := by
    intro d dirname
    rw [setDirname_iff]
    exact or_iff_right Bool.false_ne_true
  constructor
  · rintro ⟨w, h⟩
    obtain ⟨hlists, -⟩ := main_eq_ok h
    obtain ⟨request, hrequest, h⟩ := bind_eq_ok.mp hlists
    obtain ⟨cache, hcache, -⟩ := bind_eq_ok.mp h
    exact ⟨hname.mp ⟨request, hrequest⟩, hname.mp ⟨cache, hcache⟩⟩
  · rintro ⟨hreq, hcac⟩
    obtain ⟨request, hrequest⟩ := hname.mpr hreq
    obtain ⟨cache, hcache⟩ := hname.mpr hcac
    obtain ⟨share, hshare⟩ := setDirname_iff.mpr (.inl rfl)
    refine ⟨_, bind_eq_ok.mpr ⟨_, bind_eq_ok.mpr ⟨_, hrequest, bind_eq_ok.mpr ⟨_, hcache,
      bind_eq_ok.mpr ⟨_, hshare, rfl⟩⟩⟩, bind_eq_ok.mpr ⟨_, hredirect, bind_eq_ok.mpr ⟨_, hauth, rfl⟩⟩⟩⟩

theorem origins_main {c : Setup} {mem : Bool} {memory : File} {w : Web}
    (h : main c mem memory = .ok w) (hmem : Narrow memory.id.toInt) : w.Origins := by
  obtain ⟨hlists, htaken, hcurrent, -, hsongfile, hsongs, hsizes, -⟩ := main_eq_ok h
  refine ⟨counted_openLists hlists, ?_, ?_, ?_, ?_, ?_⟩
  · simp [htaken]
  · rw [hcurrent]
    exact hmem
  · rw [hsongfile]
    exact hmem
  · simp [hsongs]
  · simp [hsizes, narrow_zero]

/-- **Every page of a run fits its buffers** if and only if every page prints narrow numbers; and
this is so if the lists number less than a thousand million songs, the memory that no constructor
writes to holds a narrow number, and names are not longer than a million characters. -/
theorem pages_fit {c : Setup} {mem : Bool} {memory : File} {w : Web}
    (h : main c mem memory = .ok w) (acts : List Act) :
    ((∀ t a, Machine.Takes step w acts t a → t.InBuffers a) ↔
      ∀ t a, Machine.Takes step w acts t a → t.Printable a) ∧
    (Narrow memory.id.toInt → (∀ t a, Machine.Takes step w acts t a → t.Bounded a) →
      ∀ t a, Machine.Takes step w acts t a → t.InBuffers a) := by
  constructor
  · exact forall₂_congr fun t a => imp_congr_right fun _ => inBuffers_iff
  · intro hmem hbounded t a ht
    have hstart := origins_main h hmem
    have ht' : t.Origins :=
      Machine.takes_invariant_under (fun s b s' hs hb hstep => hs.step hb hstep) hstart hbounded ht
    exact inBuffers_iff.mpr (ht'.printable (hbounded t a ht))

/-- Two directories, and no redirection. -/
def quiet : Setup := ⟨[], "/q/".toList, "/c/".toList, "/s".toList, [], none⟩

/-- A file in memory that holds this number. -/
def holding (id : BitVec 32) : File := ⟨id, [], .zero, false⟩

/-- What a call finds in "/q/": these of the files "a.mp3" and "b.mp3". -/
def queued (names : List Str) : Os :=
  ⟨some names, Player.twoFiles 1 2, none, 3, .insertion, holding 0⟩

/-- Two songs are queued, the first one is played, and a page is asked for. -/
def showing : List Act :=
  [.call 0 (.getSong 0) (queued ["a.mp3".toList, "b.mp3".toList]),
    .set 0 (Player.twoFiles 1 2) true, .accept, .getEntries 0, .getSize 0 (queued []), .html]

/-- The page of the two songs. -/
theorem pages_fit_first : ∃ w, main quiet false (holding 0) = .ok w ∧
    (∃ t, Machine.Takes step w showing t .html ∧ t.numbers .html = [0, 1, 0, 0]) ∧
    ∀ t a, Machine.Takes step w showing t a → t.InBuffers a := by
  obtain ⟨w, hw⟩ := (main_iff quiet false (holding 0)).mpr ⟨by decide, by decide⟩
  obtain ⟨hlists, htaken, -, hredirect, -, hsongs, hsizes, hname, -⟩ := main_eq_ok hw
  refine ⟨w, hw, ?_, (pages_fit hw showing).2 ⟨by decide, by decide⟩ ?_⟩
  all_goals
    clear hw
    obtain ⟨lists, taken, current, redirect, songfile, cfilename, songs, sizes, xml, text, r, auth,
      xname, o_hsongname, hbuf⟩ := w
    cases hlists
    cases htaken
    cases hredirect
    cases hsongs
    cases hsizes
    cases hname
  · refine ⟨_, ⟨showing.take 5, [], rfl, rfl⟩, ?_⟩
    rfl
  · refine Machine.forall_takes_cons rfl ?_ (Machine.forall_takes_cons rfl trivial
      (Machine.forall_takes_cons rfl trivial (Machine.forall_takes_cons rfl trivial
        (Machine.forall_takes_cons rfl ?_ ?_))))
    · intro d hd
      cases hd
      decide
    · intro d hd
      cases hd
      decide
    · intro t a ht
      obtain rfl := List.mem_singleton.mp ht.mem
      trivial

/-- No list has a song, and the file of `Clear` holds a number of ten digits with a sign. -/
theorem clear_overruns : ¬ ∀ (c : Setup) (mem : Bool) (memory : File) (w : Web) (acts : List Act),
    main c mem memory = .ok w → ∀ t a, Machine.Takes step w acts t a → t.InBuffers a := by
  intro h
  obtain ⟨w, hw⟩ := (main_iff quiet false (holding 0)).mpr ⟨by decide, by decide⟩
  obtain ⟨-, -, -, hredirect, -, -, -, hname, -⟩ := main_eq_ok hw
  have hfit := h quiet false (holding 0) w [.clear (holding (2 ^ 31)), .accept, .html] hw _ .html
    ⟨[.clear (holding (2 ^ 31)), .accept], [], rfl, rfl⟩
  have hprinted : (-2147483648 : Int) ∈
      (({ w with current := w.current.call (.clear (holding (2 ^ 31))) } : Web).accept).numbers
        .html := by
    unfold numbers
    dsimp only
    rw [if_pos]
    · exact List.mem_cons_self
    · refine ⟨hredirect, ?_⟩
      show w.o_hsongname ≠ []
      rw [hname]
      decide
  exact absurd (hfit _ hprinted) (by decide)

end Web

end NetDJ.Daemon
