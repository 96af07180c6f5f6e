import NetDJ.Engine.CurrentSong
import NetDJ.Engine.Priority
import NetDJ.Engine.SongXml

/-!
# `Server.cpp`, `Collections.cpp`: the request list tells what is played next

`CmdRequests` lists the request collection. What a client reads there is compared with what the
player fetches from then on.

* `XmlListing.Alone`, `alone_of_run` : what a call of `AsXML` finds if nothing else touches the list;
* `take_map_take` : a part of a list that agrees with another one as far as both go;
* `PlayerThread.next_songs_listed` : the songs that are fetched next are the ones that are listed.
-/

namespace NetDJ.Engine

/-! ## A call that is not disturbed -/

theorem CollectionSonglist.size_le (c : CollectionSonglist) : c.size ≤ c.mSonglist.length := by
  have hmod : c.mSonglist.length % 2 ^ 32 ≤ c.mSonglist.length := Nat.mod_le _ _
  unfold size
  rw [BitVec.toInt_eq_toNat_cond, BitVec.toNat_ofNat]
  split
  · omega
  · omega

namespace XmlListing

/-- The list is as it was, and the entries so far are those of its front. -/
structure Alone (aCol : CollectionSonglist) (s : XmlListing) : Prop where
  col : s.col = aCol
  pc : match s.pc with
    | .size => s.entries = []
    | .test i => s.entries.map Prod.snd = aCol.mSonglist.take i ∧ i ≤ aCol.size.toNat
    | .get i => s.entries.map Prod.snd = aCol.mSonglist.take i ∧ (i : Int) < aCol.size
    | .done => s.entries.map Prod.snd = aCol.mSonglist.take aCol.size.toNat
    | .update | .thrown | .undefined => False

theorem Alone.step {aCol : CollectionSonglist} {s s' : XmlListing} {act : Act} (hs : Alone aCol s)
    (hact : ∀ l, act ≠ .locked l) (h : s.step act = some s') : Alone aCol s' := by
  obtain ⟨rfl, hpc⟩ := hs
  cases act with
  | locked l => exact absurd rfl (hact l)
  | updated throws =>
    obtain ⟨hup, -⟩ := Option.ite_none_right_eq_some.mp h
    rw [hup] at hpc
    exact hpc.elim
  | size =>
    obtain ⟨hsize, he⟩ := Option.ite_none_right_eq_some.mp h
    cases he
    rw [hsize] at hpc
    refine ⟨rfl, ?_, Nat.zero_le _⟩
    show s.entries.map Prod.snd = []
    rw [hpc]
    rfl
  | test =>
    obtain ⟨i, hi, ⟨hlt, rfl⟩ | ⟨hlt, rfl⟩⟩ := step_test h
    · rw [hi] at hpc
      exact ⟨rfl, hpc.1, hlt⟩
    · rw [hi] at hpc
      have hend : s.col.size.toNat = i := by
        have hle := hpc.2
        omega
      refine ⟨rfl, ?_⟩
      show s.entries.map Prod.snd = s.col.mSonglist.take s.col.size.toNat
      rw [hend]
      exact hpc.1
  | get =>
    unfold XmlListing.step at h
    dsimp only at h
    split at h
    · next i hi =>
      rw [hi] at hpc
      obtain ⟨hsongs, hlt⟩ := hpc
      split at h
      · next song hsong =>
        cases h
        refine ⟨rfl, ?_, ?_⟩
        · show (s.entries ++ [(i, song)]).map Prod.snd = s.col.mSonglist.take (i + 1)
          rw [List.map_append, hsongs, List.take_add_one, show s.col.mSonglist[i]? = _ from hsong]
          rfl
        · show i + 1 ≤ s.col.size.toNat
          omega
      · next hsong =>
        -- The position is below the size, so the song is there.
        have hle := s.col.size_le
        have hnone := List.getElem?_eq_none_iff.mp hsong
        omega
    · cases h

theorem alone_of_run {aCol : CollectionSonglist} {acts : List Act} {s : XmlListing}
    (hacts : ∀ l, .locked l ∉ acts) (h : Machine.run step (start false aCol) acts = some s) :
    Alone aCol s :=
  Machine.run_invariant (C := fun act => ∀ l, act ≠ .locked l)
    (fun _ _ _ hact ht hstep => ht.step hact hstep)
    (fun _ ha l => ne_of_mem_of_not_mem ha (hacts l)) ⟨rfl, rfl⟩ h

end XmlListing

/-! ## What is fetched next -/

/-- If two lists agree as far as both go, so do the front of one of them and the other one. -/
theorem take_map_take {α β : Type*} {l l' : List α} (h : l'.take l.length = l.take l'.length)
    (f : α → β) (k : Nat) : (l'.map f).take (l.take k).length =
      ((l.take k).map f).take (l'.map f).length := by
  rw [← List.map_take, ← List.map_take, List.length_map]
  congr 1
  calc l'.take (l.take k).length
      = (l'.take l.length).take k := by rw [List.length_take, List.take_take]
    _ = (l.take l'.length).take k := by rw [h]
    _ = (l.take k).take l'.length := by rw [List.take_take, List.take_take, Nat.min_comm]

namespace PlayerThread

theorem identifiers_of_run {REQUEST_DIR SHARE_DIR : Str} {request share : Disk}
    {s t : PlayerThread} {acts : List Act}
    (hmain : mainloop REQUEST_DIR SHARE_DIR request share = some (.ok s))
    (h : Machine.run step s acts = some t) :
    t.mCols.map (·.base.mIdentifier) = ["request".toList, "share".toList] := by
  refine Machine.run_keeps (I := fun t : PlayerThread =>
    t.mCols.map (·.base.mIdentifier) = ["request".toList, "share".toList]) ?_
    (identifiers_of_mainloop hmain) h
  intro u act u' hu hstep
  cases act with
  | stop | skip =>
    cases hstep
    exact hu
  | thread a => exact (thread_identifiers hstep).trans hu

/-- **What a client reads in the request list is what is fetched next**: the ids and the information
of the songs, in their order, as far as the list goes. The call of `AsXML` is not disturbed, and
`UPDATE_BEFORE_TRANSMIT` is not set. -/
theorem next_songs_listed {REQUEST_DIR SHARE_DIR : Str} {request share : Disk}
    {s t t' : PlayerThread} {before after : List Act} {c : CollectionSonglistDir}
    {rest : List ICollection} {calls : List XmlListing.Act} {l : XmlListing}
    (info : SongFile → SongInfo)
    (hmain : mainloop REQUEST_DIR SHARE_DIR request share = some (.ok s))
    (ht : Machine.run step s before = some t) (ht' : Machine.run step t after = some t')
    (hcols : t.mCols = .dir c :: rest)
    (hl : Machine.run XmlListing.step (.start false c.toCollectionSonglist) calls = some l)
    (halone : ∀ locked, .locked locked ∉ calls) (hdone : l.pc = .done) :
    ∃ r, ReadListing.read (l.asXML info) = some r ∧ r.id = "request".toList ∧
      ((Machine.outputs step fetched t after).map fun x =>
          (x.2, x.1.mUNID, (info x.1).shown)).take r.songs.length =
        (r.songs.map fun e => (0, e.2)).take (Machine.outputs step fetched t after).length := by
  have hqueue : QueueFirst t.mCols := Machine.run_keeps
    (fun u act u' hu hstep => (fetched_step u act u' hu hstep).1) (queueFirst_of_mainloop hmain) ht
  have htake := Machine.take_outputs fetched_step hqueue ht'
  have hl := XmlListing.alone_of_run halone hl
  have hsongs : l.entries.map Prod.snd = c.mSonglist.take c.size.toNat := by
    have hpc := hl.pc
    rw [hdone] at hpc
    exact hpc
  have hid : c.mIdentifier = "request".toList := by
    have hids := identifiers_of_run hmain ht
    rw [hcols] at hids
    exact (List.cons.inj hids).1
  refine ⟨_, read_asXML l info, ?_, ?_⟩
  · rw [hl.col]
    exact hid
  · -- The entries and what waits on the queue are the same songs.
    have hlisted : ((l.entries.map (shownEntry info)).map fun e => (0, e.2)) =
        (t.requests.take c.size.toNat).map fun x => (x.2, x.1.mUNID, (info x.1).shown) := by
      unfold requests
      rw [hcols, queueOf, ← List.map_take, ← hsongs, List.map_map, List.map_map, List.map_map]
      rfl
    have hlen : (l.entries.map (shownEntry info)).length =
        (t.requests.take c.size.toNat).length := by
      rw [← List.length_map (fun e => ((0 : Nat), e.2)), hlisted, List.length_map]
    rw [hlisted, hlen, take_map_take htake, List.length_map]

def listTwo : List XmlListing.Act := [.size, .test, .get, .test, .get, .test]

theorem next_songs_listed_two : ∃ (s t' : PlayerThread) (r : ReadListing),
    mainloop "/req".toList "/shr".toList twoRequests (oneLine false) = some (.ok s) ∧
    Machine.run step s threeSongs = some t' ∧ r.songs.length = 2 ∧ r.id = "request".toList ∧
    ((Machine.outputs step fetched s threeSongs).map fun x =>
        (x.2, x.1.mUNID, (XmlListing.tagged x.1).shown)).take r.songs.length =
      (r.songs.map fun e => (0, e.2)).take (Machine.outputs step fetched s threeSongs).length := by
  obtain ⟨r, hr, hid, hnext⟩ := @next_songs_listed "/req".toList "/shr".toList twoRequests
    (oneLine false) _ _ _ [] threeSongs _ _ listTwo _ XmlListing.tagged rfl rfl rfl rfl rfl
    (by simp [listTwo]) rfl
  refine ⟨_, _, r, rfl, rfl, ?_, hid, hnext⟩
  rw [read_asXML] at hr
  obtain rfl := Option.some.inj hr
  rfl

end PlayerThread

end NetDJ.Engine
