import NetDJ.Lib.Machine
import NetDJ.Engine.ReadClient

/-!
# `Server.cpp`: the element of the current song

The player creates the element in `SongPlaying` and deletes the one before, `CmdCurrent` clones it,
and the destructor deletes it. The mutex makes each of them one step. The constructor does not set
`mSongElement`, which then holds what the memory held.

* `ServerSong.step` : the signals of the player, the requests, and the destructor;
* `Valid` : a step uses the element of the last `SongPlaying`, or leaves a null pointer alone;
* `Ok`, `Ok.step` : after a `SongPlaying` its element is the only one there is;
* `getSong_eq` : which is then what `GetSong` clones;
* `valid_iff` : every use is valid exactly if before the first `SongPlaying` no one asks for the
  current song, and what is deleted there has been built on memory that held null.
-/

namespace NetDJ.Engine

/-- The element that `AsXML` creates, with the attribute `collection`. -/
structure SongElement where
  xml : Str
  collection : Str
  deriving DecidableEq

/-- `mSongElement`, where 0 is null; `elements` are the addresses of the elements that have not been
deleted, with their position in `created`, the elements of all calls of `SongPlaying`. -/
structure ServerSong where
  mSongElement : Nat
  elements : List (Nat × Nat)
  created : List SongElement
  destroyed : Bool

namespace ServerSong

def init (memory : Nat) : ServerSong := ⟨memory, [], [], false⟩

/-- `if (mSongElement) { delete mSongElement; }` -/
def deleteElement (s : ServerSong) : ServerSong :=
  if s.mSongElement = 0 then s
  else { s with elements := s.elements.filter fun e => e.1 ≠ s.mSongElement }

/-- `mSongElement = aSong->AsXML(&mDocument)`, at the address `new`. -/
def createElement (s : ServerSong) (new : Nat) (element : SongElement) : ServerSong :=
  { s with
    mSongElement := new,
    elements := s.elements ++ [(new, s.created.length)],
    created := s.created ++ [element] }

/-- What `GetSong` clones; `none` if the pointer is not that of an element. -/
def getSong (s : ServerSong) : Option SongElement :=
  (s.elements.lookup s.mSongElement).bind fun n => s.created[n]?

inductive Act where
  /-- `SongPlaying`: the allocator gives the new element the address `new`. -/
  | songPlaying (new : Nat) (element : SongElement)
  | readClient (urlPath : Str → Str) (server : Server) (header : RequestHeader)
  | destructor

def step (s : ServerSong) : Act → Option ServerSong
  | .songPlaying new element =>
    if s.destroyed = false ∧ new ≠ 0 ∧ new ∉ s.deleteElement.elements.map (·.1) then
      some (s.deleteElement.createElement new element)
    else none
  | .readClient _ _ _ => if s.destroyed = false then some s else none
  | .destructor =>
    if s.destroyed = false then some { s.deleteElement with destroyed := true } else none

/-! ## What is valid -/

/-- The step deletes the element, if the pointer is not null. -/
def Deletes : Act → Prop
  | .songPlaying _ _ | .destructor => True
  | .readClient _ _ _ => False

/-- The step calls `GetSong`: the request executes `/current.xml`. -/
def Clones : Act → Prop
  | .readClient urlPath server header => server.executed urlPath header = some .current
  | .songPlaying _ _ | .destructor => False

/-- `mSongElement` points to the element of the last `SongPlaying`, and that has not been deleted. -/
def Latest (s : ServerSong) : Prop :=
  ∃ n, s.created.length = n + 1 ∧ (s.mSongElement, n) ∈ s.elements

/-- The step uses the last element, or finds null where it deletes. -/
def Valid (s : ServerSong) (act : Act) : Prop :=
  (Clones act → s.Latest) ∧ (Deletes act → s.mSongElement = 0 ∨ s.Latest)

/-- Until the first `SongPlaying` the pointer is what the memory held. Then the last element is the
only one, and when the server has gone there is none. -/
structure Ok (memory : Nat) (s : ServerSong) : Prop where
  before : s.created = [] → s.mSongElement = memory ∧ s.elements = []
  after : s.created ≠ [] → s.destroyed = false →
    s.mSongElement ≠ 0 ∧ s.elements = [(s.mSongElement, s.created.length - 1)]
  gone : s.created ≠ [] → s.destroyed = true → s.elements = []

theorem ok_init (memory : Nat) : Ok memory (init memory) :=
  ⟨fun _ => ⟨rfl, rfl⟩, fun h => absurd rfl h, fun h => absurd rfl h⟩

@[simp] theorem deleteElement_created (s : ServerSong) : s.deleteElement.created = s.created := by
  unfold deleteElement
  split <;> rfl

theorem Ok.deleteElement {memory : Nat} {s : ServerSong} (hs : Ok memory s)
    (hd : s.destroyed = false) : s.deleteElement.elements = [] := by
  unfold ServerSong.deleteElement
  by_cases hc : s.created = []
  · have hnil := (hs.before hc).2
    split
    · exact hnil
    · rw [hnil, List.filter_nil]
  · obtain ⟨hne, hone⟩ := hs.after hc hd
    rw [if_neg hne, hone]
    simp

theorem Ok.step {memory : Nat} {s s' : ServerSong} {act : Act} (hs : Ok memory s)
    (h : s.step act = some s') : Ok memory s' := by
  cases act with
  | songPlaying new element =>
    obtain ⟨⟨hd, hnew, -⟩, he⟩ := Option.ite_none_right_eq_some.mp h
    cases he
    have hnil := hs.deleteElement hd
    have hne : s.deleteElement.created ++ [element] ≠ [] := by simp
    refine ⟨fun h => absurd h hne, fun _ _ => ⟨hnew, ?_⟩, fun _ hgone => ?_⟩
    · show s.deleteElement.elements ++ [(new, s.deleteElement.created.length)] = _
      rw [hnil]
      simp [createElement]
    · have hd' : s.deleteElement.destroyed = true := hgone
      unfold ServerSong.deleteElement at hd'
      split at hd' <;> exact absurd (hd.symm.trans hd') Bool.false_ne_true
  | readClient urlPath server header =>
    obtain ⟨-, he⟩ := Option.ite_none_right_eq_some.mp h
    cases he
    exact hs
  | destructor =>
    obtain ⟨hd, he⟩ := Option.ite_none_right_eq_some.mp h
    cases he
    have hnil := hs.deleteElement hd
    refine ⟨fun hc => ⟨?_, hnil⟩, fun _ hd' => absurd hd' nofun, fun _ _ => hnil⟩
    rw [deleteElement_created] at hc
    rw [← (hs.before hc).1]
    unfold ServerSong.deleteElement
    split <;> rfl

/-- After a `SongPlaying` the pointer is that of its element. -/
theorem Ok.latest_iff {memory : Nat} {s : ServerSong} (hs : Ok memory s)
    (hd : s.destroyed = false) : s.Latest ↔ s.created ≠ [] := by
  constructor
  · rintro ⟨n, hn, -⟩ hc
    rw [hc] at hn
    cases hn
  · intro hc
    obtain ⟨-, hone⟩ := hs.after hc hd
    have hpos := List.length_pos_iff.mpr hc
    exact ⟨s.created.length - 1, by omega, by rw [hone]; exact List.mem_singleton_self _⟩

/-- `GetSong` clones the element of the last song, if there has been one. -/
theorem getSong_eq {memory : Nat} {acts : List Act} {s : ServerSong}
    (hrun : Machine.run step (init memory) acts = some s) (hd : s.destroyed = false) :
    s.getSong = s.created.getLast? := by
  have hs : Ok memory s := Machine.run_keeps (fun _ _ _ => Ok.step) (ok_init memory) hrun
  unfold getSong
  by_cases hc : s.created = []
  · rw [(hs.before hc).2, hc]
    rfl
  · rw [(hs.after hc hd).2, List.lookup_cons, beq_self_eq_true, List.getLast?_eq_getElem?]
    rfl

/-- **Every use of the element is valid exactly if, before the first `SongPlaying`, no request
executes `/current.xml`, and the memory held null if there is a `SongPlaying` or the destructor.** -/
theorem valid_iff {memory : Nat} {acts : List Act} {s : ServerSong}
    (hrun : Machine.run step (init memory) acts = some s) :
    (∀ t act, Machine.Takes step (init memory) acts t act → Valid t act) ↔
      ∀ t act, Machine.Takes step (init memory) acts t act → t.created = [] →
        ¬ Clones act ∧ (Deletes act → memory = 0) := by
  refine Machine.forall_takes_congr (I := Ok memory) (ok_init memory) (fun _ _ _ => Ok.step) ?_ hrun
  intro t act t' ht hstep
  have hd : t.destroyed = false := by
    cases act with
    | songPlaying new element => exact (Option.ite_none_right_eq_some.mp hstep).1.1
    | readClient urlPath server header => exact (Option.ite_none_right_eq_some.mp hstep).1
    | destructor => exact (Option.ite_none_right_eq_some.mp hstep).1
  unfold Valid
  rw [ht.latest_iff hd]
  by_cases hc : t.created = []
  · rw [(ht.before hc).1]
    simp [hc]
  · simp [hc]

/-- A client asks for the current song, and none has been played. -/
def currentFirst : List Act :=
  [.readClient id oneUserServer ⟨"GET".toList, "/current.xml".toList, []⟩]

theorem clones_null : ¬ ∀ memory acts s, Machine.run step (init memory) acts = some s →
    ∀ t act, Machine.Takes step (init memory) acts t act → Valid t act := by
  intro h
  have hvalid := h 0 currentFirst (init 0) rfl (init 0) _ ⟨[], [], rfl, rfl⟩
  have hclones : Server.executed id oneUserServer ⟨"GET".toList, "/current.xml".toList, []⟩ =
      some .current := by decide
  obtain ⟨n, hn, -⟩ := hvalid.1 hclones
  cases hn

/-- Two songs are played, and the second one is asked for. -/
def twoSongs : List Act :=
  [.songPlaying 4096 ⟨"<song/>".toList, "request".toList⟩,
    .songPlaying 4096 ⟨"<song/>".toList, "share".toList⟩,
    .readClient id oneUserServer ⟨"GET".toList, "/current.xml".toList, []⟩, .destructor]

theorem valid_twoSongs : ∃ s, Machine.run step (init 0) twoSongs = some s ∧
    ∀ t act, Machine.Takes step (init 0) twoSongs t act → Valid t act := by
  refine ⟨_, rfl, (valid_iff rfl).mpr ?_⟩
  exact Machine.forall_takes_cons rfl (fun _ => ⟨id, fun _ => rfl⟩) (Machine.forall_takes_cons rfl
    nofun (Machine.forall_takes_cons rfl nofun (Machine.forall_takes_cons rfl nofun
      Machine.forall_takes_nil)))

end ServerSong

end NetDJ.Engine
