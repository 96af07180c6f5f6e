import NetDJ.Daemon.ListFile
import NetDJ.Daemon.Player

/-!
# `main.cc`: whether a round of the player does anything

A round takes a song from the first list that has one. From a playlist it is gone then; from the
share it is not, and if its file is gone or is the current song, the round has done nothing.

* `Directory.Works`, `Directory.listed` : when `Update` returns, and the list behind it, by what the
  call finds;
* `update_iff` : this is what `Update` does;
* `Player.Progress` : the round opens a song, sleeps or shortens a playlist;
* `Player.Fruitful` : the list that is chosen is a playlist, or its song can be played;
* `Player.progress_iff` : that is when the round makes progress.
-/

namespace NetDJ.Daemon

namespace Directory
variable {d d' : Directory} {os : Os}

instance (d : Directory) (os : Os) : Decidable (d.Reloads os) :=
  inferInstanceAs (Decidable (_ ∨ _))

/-- The list behind a call of `Update`, by what the call finds. -/
def listed (d : Directory) (os : Os) : List File :=
  if d.fromfile then
    if d.Reloads os then numbered d.nextfileid ((os.lines.getD []).filterMap (mp3Of os.stat))
    else d.list
  else if d.dirname = [] then d.list
  else
    let list := d.list ++ numbered d.nextfileid (d.found os.stat (os.readdir.getD []))
    if d.playlist then os.sort.apply list else list

/-- The songs that a call of `Update` numbers. -/
def fresh (d : Directory) (os : Os) : List (Str × Stat) :=
  if d.fromfile then
    if d.Reloads os then (os.lines.getD []).filterMap (mp3Of os.stat) else []
  else if d.dirname = [] then []
  else d.found os.stat (os.readdir.getD [])

/-- The call finds nothing that ends the program: the directory opens, and no path is too short for
the test of its ending. -/
def Works (d : Directory) (os : Os) : Prop :=
  if d.fromfile then d.Reloads os → ∀ l ∈ os.lines.getD [], ¬ tooShort os.stat l = true
  else d.dirname ≠ [] →
    ∃ names, os.readdir = some names ∧ ∀ n ∈ names, d.Long os.stat (d.dirname ++ n)

theorem update_file_iff (hfile : d.fromfile = true) : d.update os = .ok d' ↔
    if d.Reloads os then (∀ l ∈ os.lines.getD [], ¬ tooShort os.stat l = true) ∧
      (d.cleared os).push ((os.lines.getD []).filterMap (mp3Of os.stat)) = d'
    else d = d' := by
  rw [update, if_pos hfile, loadFile]
  dsimp only
  by_cases hload : d.Reloads os
  · rw [if_pos hload]
    unfold Reloads at hload
    rw [if_pos hload]
    cases os.lines with
    | none =>
      rw [Option.getD_none, List.filterMap_nil, push_nil, Except.ok.injEq]
      exact (and_iff_right (by simp)).symm
    | some lines => exact foldlM_readLine_mp3_iff os (d.cleared os, _) d'
  · rw [if_neg hload]
    unfold Reloads at hload
    rw [if_neg hload, Except.ok.injEq]

theorem update_dir_iff (hmode : d.fromfile = false) (hdir : d.dirname ≠ []) :
    d.update os = .ok d' ↔ ∃ names, os.readdir = some names ∧
      (∀ n ∈ names, d.Long os.stat (d.dirname ++ n)) ∧
      (d.push (d.found os.stat names)).endScan os = d' := by
  cases hopen : os.readdir with
  | none =>
    rw [update, hmode, if_neg Bool.false_ne_true, if_pos hdir, loadDirectory, hopen]
    simp
  | some names =>
    simp only [Option.some.injEq, exists_eq_left']
    constructor
    · intro h
      have hlong := long_of_update hmode hdir hopen h
      obtain ⟨fobj', hscan⟩ := scan_eq (File.new os.memory []) hlong
      rw [update_eq hmode hdir hopen, hscan] at h
      exact ⟨hlong, Except.ok.inj h⟩
    · rintro ⟨hlong, rfl⟩
      obtain ⟨fobj', hscan⟩ := scan_eq (File.new os.memory []) hlong
      rw [update_eq hmode hdir hopen, hscan]
      rfl

theorem update_no_dir (hmode : d.fromfile = false) (hdir : d.dirname = []) :
    d.update os = .ok d := by
  rw [update, hmode, if_neg Bool.false_ne_true, if_neg (by simp [hdir])]

theorem of_update (h : d.update os = .ok d') : d.Works os ∧
    d'.nextfileid = d.nextfileid + BitVec.ofNat 32 (d.fresh os).length ∧
    d'.list = d.listed os ∧ d'.playlist = d.playlist := by
  unfold Works listed fresh
  by_cases hfile : d.fromfile = true
  · have h' := (update_file_iff hfile).mp h
    rw [if_pos hfile, if_pos hfile, if_pos hfile]
    by_cases hload : d.Reloads os
    · rw [if_pos hload] at h'
      obtain ⟨hshort, rfl⟩ := h'
      rw [if_pos hload, if_pos hload]
      exact ⟨fun _ => hshort, by simp [push, cleared], by simp [push, cleared], rfl⟩
    · rw [if_neg hload] at h'
      subst h'
      rw [if_neg hload, if_neg hload]
      exact ⟨fun hl => absurd hl hload, by simp, rfl, rfl⟩
  · rw [if_neg hfile, if_neg hfile, if_neg hfile]
    have hmode := Bool.eq_false_of_not_eq_true hfile
    by_cases hdir : d.dirname = []
    · obtain rfl := Except.ok.inj ((update_no_dir hmode hdir).symm.trans h)
      rw [if_pos hdir, if_pos hdir]
      exact ⟨fun hne => absurd hdir hne, by simp, rfl, rfl⟩
    · obtain ⟨names, hopen, hlong, rfl⟩ := (update_dir_iff hmode hdir).mp h
      rw [if_neg hdir, if_neg hdir, hopen, Option.getD_some]
      refine ⟨fun _ => ⟨names, rfl, hlong⟩, ?_, ?_, ?_⟩
      · by_cases hplay : d.playlist = true <;> simp [endScan, push, hplay]
      · by_cases hplay : d.playlist = true <;> simp [endScan, push, hplay]
      · by_cases hplay : d.playlist = true <;> simp [endScan, push, hplay]

theorem Works.update (h : d.Works os) : ∃ d', d.update os = .ok d' := by
  unfold Works at h
  by_cases hfile : d.fromfile = true
  · rw [if_pos hfile] at h
    by_cases hload : d.Reloads os
    · exact ⟨_, (update_file_iff hfile).mpr (by rw [if_pos hload]; exact ⟨h hload, rfl⟩)⟩
    · exact ⟨d, (update_file_iff hfile).mpr (by rw [if_neg hload])⟩
  · rw [if_neg hfile] at h
    have hmode := Bool.eq_false_of_not_eq_true hfile
    by_cases hdir : d.dirname = []
    · exact ⟨d, update_no_dir hmode hdir⟩
    · obtain ⟨names, hopen, hlong⟩ := h hdir
      exact ⟨_, (update_dir_iff hmode hdir).mpr ⟨names, hopen, hlong, rfl⟩⟩

theorem listed_perm (hmode : d.fromfile = false) (os : Os) :
    (d.listed os).Perm (d.list ++ numbered d.nextfileid (d.fresh os)) := by
  unfold listed fresh
  rw [hmode, if_neg Bool.false_ne_true, if_neg Bool.false_ne_true]
  by_cases hdir : d.dirname = []
  · rw [if_pos hdir, if_pos hdir, numbered, List.append_nil]
  · rw [if_neg hdir, if_neg hdir]
    dsimp only
    split
    · exact os.sort.perm _
    · exact List.Perm.refl _

theorem update_grows (hmode : d.fromfile = false) (h : d.update os = .ok d') :
    ∃ k, d'.nextfileid = d.nextfileid + BitVec.ofNat 32 k ∧
      d'.list.length = d.list.length + k := by
  obtain ⟨-, hid, hlist, -⟩ := of_update h
  refine ⟨(d.fresh os).length, hid, ?_⟩
  rw [hlist, (listed_perm hmode os).length_eq, List.length_append, length_numbered]

/-- A directory without the song that has been taken from it is not as it was before the call: if
the counter is, more than one song has been added or none. -/
theorem pop_ne {song : File} {rest : List File} (hmode : d.fromfile = false)
    (h : d.update os = .ok d') (hl : d'.list = song :: rest) : { d' with list := rest } ≠ d := by
  intro he
  obtain ⟨k, hid, hlen⟩ := update_grows hmode h
  have hid' : d'.nextfileid = d.nextfileid := by rw [← he]
  have hrest : rest.length = d.list.length := by rw [← he]
  rw [hl, List.length_cons, hrest] at hlen
  obtain rfl : k = 1 := by omega
  rw [hid'] at hid
  simp at hid

theorem of_getSong {rand : Nat} {e : Directory} {res : Option File}
    (h : d.getSong os rand = .ok (e, res)) : ∃ d', d.update os = .ok d' ∧
      ((d'.list = [] ∧ e = d' ∧ res = none) ∨
        ∃ song, res = some song ∧
          ((d'.playlist = true ∧ ∃ rest, d'.list = song :: rest ∧ e = { d' with list := rest }) ∨
            d'.playlist = false ∧ d'.list[rand]? = some song ∧ e = d')) := by
  unfold getSong at h
  split at h
  · cases h
  · next d' hd =>
    refine ⟨d', hd, ?_⟩
    split at h
    · next hl =>
      cases h
      exact .inl ⟨hl, rfl, rfl⟩
    · next front rest hl =>
      split at h
      · next hplay =>
        cases h
        exact .inr ⟨front, rfl, .inl ⟨hplay, rest, hl, rfl⟩⟩
      · next hplay =>
        split at h
        · next f hf =>
          cases h
          exact .inr ⟨f, rfl, .inr ⟨Bool.eq_false_of_not_eq_true hplay, hf, rfl⟩⟩
        · cases h

theorem getSong_pick {rand : Nat} {f : File} (h : d.update os = .ok d')
    (hplay : d'.playlist = false) (hf : d'.list[rand]? = some f) :
    d.getSong os rand = .ok (d', some f) := by
  rw [getSong, h]
  dsimp only
  cases hl : d'.list with
  | nil =>
    rw [hl] at hf
    cases hf
  | cons front rest =>
    rw [hl] at hf
    simp [hplay, hf]

end Directory

/-! ## The first list that has a song -/

section First
variable {oss : Nat → Os × Nat} {i j : Nat} {d d' : Directory} {lists lists' : List Directory}

theorem firstSong_empty (h : d.update (oss i).1 = .ok d') (hl : d'.list = []) :
    firstSong oss i (d :: lists) =
      (firstSong oss (i + 1) lists).map fun r => (d' :: r.1, r.2) := by
  have hsong : d.getSong (oss i).1 (oss i).2 = .ok (d', none) := by
    rw [Directory.getSong, h]
    dsimp only
    rw [hl]
  rw [firstSong, hsong]

theorem firstSong_song {e : Directory} {song : File}
    (h : d.getSong (oss i).1 (oss i).2 = .ok (e, some song)) :
    firstSong oss i (d :: lists) = .ok (e :: lists, some (song, i)) := by
  rw [firstSong, h]

theorem firstSong_none (h : firstSong oss i lists = .ok (lists', none)) :
    ∀ d ∈ lists', d.list = [] := by
  induction lists generalizing i lists' with
  | nil =>
    cases h
    simp
  | cons d lists ih =>
    cases hg : d.getSong (oss i).1 (oss i).2 with
    | error a =>
      rw [firstSong, hg] at h
      cases h
    | ok r =>
      obtain ⟨e, res⟩ := r
      obtain ⟨d', hd, ⟨hl, rfl, rfl⟩ | ⟨song, rfl, -⟩⟩ := Directory.of_getSong hg
      · rw [firstSong_empty hd hl] at h
        obtain ⟨⟨lists₁, res₁⟩, hrest, he⟩ := map_eq_ok.mp h
        obtain ⟨rfl, rfl⟩ := Prod.mk.inj he
        exact List.forall_mem_cons.mpr ⟨hl, ih hrest⟩
      · rw [firstSong_song hg] at h
        cases h

end First

/-- A song that was on a playlist behind its `Update` is not on it any more. -/
def Popped (oss : Nat → Os × Nat) (i : Nat) (lists lists' : List Directory) : Prop :=
  ∃ (k : Nat) (d d' : Directory) (song : File) (rest : List File), lists[k]? = some d ∧
    d.playlist = true ∧ d.update (oss (i + k)).1 = .ok d' ∧ d'.list = song :: rest ∧
    lists'[k]? = some { d' with list := rest }

/-- In the order of the lists, up to the first one with a song: it is a playlist, or the song that
is picked can be played, being there and not the current one. -/
def Fruitful (oss : Nat → Os × Nat) (stat : Str → Option Stat) (current : Str) :
    Nat → List Directory → Prop
  | _, [] => True
  | i, d :: lists => d.Works (oss i).1 →
    if d.listed (oss i).1 = [] then Fruitful oss stat current (i + 1) lists
    else d.playlist = true ∨ ∀ f, (d.listed (oss i).1)[(oss i).2]? = some f →
      (regular stat f.name).isSome ∧ f.name ≠ current

section Popped
variable {oss : Nat → Os × Nat} {i : Nat} {d d' : Directory} {lists lists' : List Directory}

theorem popped_cons (h : d.update (oss i).1 = .ok d') (hl : d'.list = []) :
    Popped oss i (d :: lists) (d' :: lists') ↔ Popped oss (i + 1) lists lists' := by
  constructor
  · rintro ⟨k, d₁, d₁', song, rest, hd, hplay, hupd, hl₁, hd'⟩
    cases k with
    | zero =>
      obtain rfl := Option.some.inj hd
      rw [Nat.add_zero, h] at hupd
      rw [← Except.ok.inj hupd, hl] at hl₁
      cases hl₁
    | succ k =>
      rw [← Nat.add_assoc, Nat.add_right_comm] at hupd
      exact ⟨k, d₁, d₁', song, rest, hd, hplay, hupd, hl₁, hd'⟩
  · rintro ⟨k, d₁, d₁', song, rest, hd, hplay, hupd, hl₁, hd'⟩
    rw [Nat.add_right_comm] at hupd
    exact ⟨k + 1, d₁, d₁', song, rest, hd, hplay, hupd, hl₁, hd'⟩

theorem popped_front {song : File} {rest : List File} (hplay : d.playlist = true)
    (h : d.update (oss i).1 = .ok d') (hl : d'.list = song :: rest) :
    Popped oss i (d :: lists) ({ d' with list := rest } :: lists) :=
  ⟨0, d, d', song, rest, rfl, hplay, h, hl, rfl⟩

theorem Popped.ne (h : Popped oss i lists lists')
    (kinds : ∀ d ∈ lists, d.playlist = true → d.fromfile = false) : lists' ≠ lists := by
  rintro rfl
  obtain ⟨k, d, d', song, rest, hd, hplay, hupd, hl, hd'⟩ := h
  have hmode := kinds d (List.mem_of_getElem? hd) hplay
  exact Directory.pop_ne hmode hupd hl (Option.some.inj (hd'.symm.trans hd))

/-- Where the first list is none, the others are as they were. -/
theorem not_popped (hplay : d.playlist = false)
    (kinds : ∀ d ∈ lists, d.playlist = true → d.fromfile = false) :
    ¬ Popped oss i (d :: lists) (d' :: lists) := by
  rintro ⟨k, d₁, d₁', song, rest, hd, hplay₁, hupd, hl, hd'⟩
  cases k with
  | zero =>
    obtain rfl := Option.some.inj hd
    rw [hplay] at hplay₁
    cases hplay₁
  | succ k =>
    have hmem : d₁ ∈ lists := List.mem_of_getElem? hd
    exact Directory.pop_ne (kinds d₁ hmem hplay₁) hupd hl (Option.some.inj (hd'.symm.trans hd))

end Popped

section Fruitful
variable {oss : Nat → Os × Nat} {stat : Str → Option Stat} {current : Str} {i : Nat}
  {d d' : Directory} {lists : List Directory}

/-- A song that the loop over the lists picks has left a playlist or can be played. -/
def Picks (oss : Nat → Os × Nat) (stat : Str → Option Stat) (current : Str) (i : Nat)
    (lists : List Directory) : Prop :=
  ∀ lists' song j, firstSong oss i lists = .ok (lists', some (song, j)) →
    Popped oss i lists lists' ∨ (regular stat song.name).isSome ∧ song.name ≠ current

theorem picks_cons (hd : d.update (oss i).1 = .ok d') (hl : d'.list = []) :
    Picks oss stat current i (d :: lists) ↔ Picks oss stat current (i + 1) lists := by
  unfold Picks
  rw [firstSong_empty hd hl]
  constructor
  · intro h lists₁ song j hrest
    rw [← popped_cons hd hl]
    exact h (d' :: lists₁) song j (by rw [hrest]; rfl)
  · intro h lists' song j hfirst
    obtain ⟨⟨lists₁, res⟩, hrest, he⟩ := map_eq_ok.mp hfirst
    obtain ⟨rfl, rfl⟩ := Prod.mk.inj he
    rw [popped_cons hd hl]
    exact h lists₁ song j hrest

theorem picks_song (hd : d.update (oss i).1 = .ok d') (hl : d'.list ≠ [])
    (kinds : ∀ e ∈ lists, e.playlist = true → e.fromfile = false) :
    Picks oss stat current i (d :: lists) ↔ d'.playlist = true ∨
      ∀ f, d'.list[(oss i).2]? = some f → (regular stat f.name).isSome ∧ f.name ≠ current := by
  obtain ⟨-, -, -, hplaylist⟩ := Directory.of_update hd
  constructor
  · intro h
    by_cases hplay : d'.playlist = true
    · exact .inl hplay
    · have hplay' := Bool.eq_false_of_not_eq_true hplay
      refine .inr fun f hf => ?_
      have hg : d.getSong (oss i).1 (oss i).2 = .ok (d', some f) :=
        Directory.getSong_pick hd hplay' hf
      exact (h _ f i (firstSong_song hg)).resolve_left
        (not_popped (hplaylist.symm.trans hplay') kinds)
  · intro h lists' song j hfirst
    cases hg : d.getSong (oss i).1 (oss i).2 with
    | error a =>
      rw [firstSong, hg] at hfirst
      cases hfirst
    | ok r =>
      obtain ⟨e, res⟩ := r
      obtain ⟨d₁, hd₁, hres⟩ := Directory.of_getSong hg
      obtain rfl := Except.ok.inj (hd.symm.trans hd₁)
      obtain ⟨song', rfl, hway⟩ := hres.resolve_left fun h => hl h.1
      rw [firstSong_song hg] at hfirst
      cases hfirst
      rcases hway with ⟨hplay, rest, hrest, rfl⟩ | ⟨hplay, hpick, rfl⟩
      · exact .inl (popped_front (hplaylist.symm.trans hplay) hd hrest)
      · rw [hplay] at h
        exact .inr (h.resolve_left Bool.false_ne_true _ hpick)

/-- The condition on the lists says that of the song that is picked. -/
theorem fruitful_iff (kinds : ∀ e ∈ lists, e.playlist = true → e.fromfile = false) :
    Fruitful oss stat current i lists ↔ Picks oss stat current i lists := by
  induction lists generalizing i with
  | nil => exact iff_of_true trivial nofun
  | cons d lists ih =>
    obtain ⟨-, hkinds⟩ := List.forall_mem_cons.mp kinds
    rw [Fruitful]
    by_cases hworks : d.Works (oss i).1
    · obtain ⟨d', hd⟩ := hworks.update
      obtain ⟨-, -, hlist, hplaylist⟩ := Directory.of_update hd
      rw [forall_prop_of_true hworks, ← hlist, ← hplaylist]
      by_cases hl : d'.list = []
      · rw [if_pos hl, ih hkinds, picks_cons hd hl]
      · rw [if_neg hl, picks_song hd hl hkinds]
    · refine iff_of_true (fun h => absurd h hworks) fun lists' song j hfirst => ?_
      cases hg : d.getSong (oss i).1 (oss i).2 with
      | error a =>
        rw [firstSong, hg] at hfirst
        cases hfirst
      | ok r =>
        obtain ⟨d', hd, -⟩ := Directory.of_getSong hg
        exact absurd (Directory.of_update hd).1 hworks

end Fruitful

namespace Player

/-! ## The round -/

/-- A round that comes to its end has called `Set` on a song, or sleeps because all lists are empty,
or has taken an entry off a playlist; and it does not leave the lists and the current song as they
were without sleeping. -/
def Progress (s : Player) (r : Round) : Prop :=
  ∀ s' out, s.round r = .ok (s', out) →
    ((∃ fobj stat, out = .opens fobj stat) ∨ (out = .noFiles ∧ ∀ d ∈ s'.lists, d.list = []) ∨
      Popped r.lists 0 s.lists s'.lists) ∧
    (s'.lists = s.lists → s'.current = s.current → out = .noFiles)

section Round
variable {s s' : Player} {r : Round} {lists : List Directory} {song : File} {i : Nat}

/-- The song can be played. -/
def Playable (s : Player) (r : Round) (song : File) : Prop :=
  (regular r.stat song.name).isSome ∧ song.name ≠ s.current.song.currfile.name

theorem round_noFiles (h : firstSong r.lists 0 s.lists = .ok (lists, none)) :
    s.round r = .ok ({ s with lists := lists }.call (.clear r.memory), .noFiles) := by
  rw [round, h]

theorem round_opens_of (h : firstSong r.lists 0 s.lists = .ok (lists, some (song, i)))
    (hplay : s.Playable r song) : ∃ fobj del stat, fobj.name = song.name ∧
      s.round r = .ok ({ s with lists := lists }.call (.set fobj del), .opens fobj stat) := by
  obtain ⟨hname, hfound⟩ := @File.updateStat_eq r.stat song
  rw [round, h]
  dsimp only
  rw [if_pos ⟨hfound.trans hplay.1, fun he => hplay.2 (hname.symm.trans he)⟩]
  exact ⟨_, _, _, hname, rfl⟩

theorem round_passed_of (h : firstSong r.lists 0 s.lists = .ok (lists, some (song, i)))
    (hplay : ¬ s.Playable r song) : s.round r = .ok ({ s with lists := lists }, .passed) := by
  obtain ⟨hname, hfound⟩ := @File.updateStat_eq r.stat song
  rw [round, h]
  dsimp only
  rw [if_neg fun he => hplay ⟨hfound.symm.trans he.1, fun hn => he.2 (hname.trans hn)⟩]

theorem current_call_set {fobj : File} (del : Bool)
    (h : fobj.name ≠ s.current.song.currfile.name) : (s.call (.set fobj del)).current ≠ s.current := by
  intro he
  have hcurr : (s.call (.set fobj del)).current.song.currfile = fobj := rfl
  rw [he] at hcurr
  exact h (congrArg File.name hcurr).symm

end Round

/-- **A round makes progress** if and only if the first list with a song is a playlist or the song
that is picked from it is there and not the current one. -/
theorem progress_iff {s : Player} (r : Round)
    (kinds : ∀ d ∈ s.lists, d.playlist = true → d.fromfile = false) :
    s.Progress r ↔ Fruitful r.lists r.stat s.current.song.currfile.name 0 s.lists := by
  rw [fruitful_iff kinds]
  constructor
  · intro h lists song j hfirst
    by_cases hplay : s.Playable r song
    · exact .inr hplay
    · obtain ⟨hany, -⟩ := h _ _ (round_passed_of hfirst hplay)
      exact .inl (by simpa using hany)
  · intro h s' out hround
    cases hfirst : firstSong r.lists 0 s.lists with
    | error a =>
      rw [round, hfirst] at hround
      cases hround
    | ok x =>
      obtain ⟨lists, res⟩ := x
      cases res with
      | none =>
        rw [round_noFiles hfirst] at hround
        cases hround
        exact ⟨.inr (.inl ⟨rfl, firstSong_none hfirst⟩), fun _ _ => rfl⟩
      | some x =>
        obtain ⟨song, j⟩ := x
        by_cases hplay : s.Playable r song
        · obtain ⟨fobj, del, stat, hname, hopens⟩ := round_opens_of hfirst hplay
          rw [hopens] at hround
          cases hround
          refine ⟨.inl ⟨fobj, stat, rfl⟩, fun _ hcurr => absurd hcurr ?_⟩
          exact current_call_set (s := { s with lists := lists }) del (hname ▸ hplay.2)
        · have hpopped := (h lists song j hfirst).resolve_right hplay
          rw [round_passed_of hfirst hplay] at hround
          cases hround
          exact ⟨.inr (.inr hpopped), fun hsame => absurd hsame (hpopped.ne kinds)⟩

def playingShare : Player :=
  let song : File := ⟨0, "/q/a.mp3".toList, ⟨false, 1⟩, true⟩
  ⟨[⟨"request".toList, "Requested songs".toList, "/q/".toList, 0, 7, [], true, false⟩,
    ⟨"cache".toList, "Cache-dir".toList, "/c/".toList, 0, 7, [], true, false⟩,
    ⟨"share".toList, "Share-dir".toList, "/s".toList, 1, 7, [song], false, true⟩],
    ⟨⟨false, song, File.new ⟨0, [], .zero, false⟩ [], false⟩, []⟩, []⟩

theorem kinds_playingShare : ∀ d ∈ playingShare.lists, d.playlist = true → d.fromfile = false := by
  simp [playingShare]

/-- A request comes in. -/
theorem progress_playingShare : playingShare.Progress (requests ["b.mp3".toList] 1 9 9) := by
  refine (progress_iff _ kinds_playingShare).mpr fun _ => ?_
  rw [if_neg (by decide)]
  exact .inl rfl

/-- Without a request the round changes nothing and does not sleep. -/
theorem share_spins : ¬ ∀ (s : Player) (r : Round),
    (∀ d ∈ s.lists, d.playlist = true → d.fromfile = false) → s.Progress r := by
  intro h
  have hround : playingShare.round (requests [] 1 1 7) = .ok (playingShare, .passed) := rfl
  have hsame := (h _ _ kinds_playingShare _ _ hround).2 rfl rfl
  cases hsame

end Player

end NetDJ.Daemon
