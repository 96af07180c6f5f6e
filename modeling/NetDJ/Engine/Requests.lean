import NetDJ.Engine.Queue

/-!
# Requests put into the directory of a queue

Time passes, files and links are put into the directory and stay there, and `Update` is called at
any moment, on a listing in the order of the modification times.

* `Request` : a regular file, or a link to an older one, with the second of its arrival;
* `Requests.step` : the moves;
* `Requests.Ok`, `Requests.ok_of_run` : what has arrived since the last `Update` has no song;
* `Requests.request_appended_iff` : when the next `Update` appends it.
-/

namespace NetDJ.Engine

/-- An entry of the directory and the second in which it arrived: the modification time of a file,
the change time of a link, whose target is not newer. -/
structure Request extends FileInfo where
  second : Int
  regular : isSymLink = false → lastModified = second
  older : lastModified ≤ second
  deriving DecidableEq

/-- The collection, the clock, the entries, and those of them that arrived since the last
`Update`. -/
structure Requests where
  dir : CollectionSonglistDir
  clock : Int
  files : List Request
  pending : List Request

/-- `st_ctime` from `lstat`. -/
def lstat (files : List Request) (path : Str) : Option Int :=
  (files.find? fun r => r.filePath = path).map (·.second)

namespace Requests

inductive Act where
  | tick (secs : Nat)
  | arrive (r : Request)
  /-- `Update` with the entries in this order, and what `new` gives in each pass. -/
  | update (order : List Request) (news : List (Option Bool))
  | getNextSong (rand : Nat)

/-- The directory lists every entry, oldest modification time first. -/
def Lists (s : Requests) (order : List Request) : Prop :=
  order.Perm s.files ∧ order.Pairwise fun x y => x.lastModified ≤ y.lastModified

instance (s : Requests) (order : List Request) : Decidable (s.Lists order) :=
  inferInstanceAs (Decidable (_ ∧ _))

def passes (s : Requests) (news : List (Option Bool)) : List Pass := news.map (⟨lstat s.files, ·⟩)

def step (s : Requests) : Act → Option Requests
  | .tick secs => some { s with clock := s.clock + secs }
  | .arrive r =>
    if r.second = s.clock ∧ r.filePath ∉ s.files.map (·.filePath) then
      some { s with files := r :: s.files, pending := r :: s.pending }
    else none
  | .update order news =>
    if s.Lists order then
      (s.dir.update (some (order.map (·.toFileInfo))) (s.passes news)).map fun (dir, r) =>
        match r with
        | .ok _ => { s with dir := dir, pending := [] }
        | .error _ => { s with dir := dir }
    else none
  | .getNextSong rand =>
    let (base, _) := s.dir.toCollectionSonglist.getNextSong rand
    some { s with dir := { s.dir with toCollectionSonglist := base } }

def start (aId aDescr aDir : Str) (aDelete : Bool) (clock : Int) : Requests :=
  ⟨.init aId aDescr aDir true aDelete, clock, [], []⟩

/-! ## What has arrived has no song yet -/

/-- The songs on the list are entries, and none that arrived since the last `Update`. -/
structure Ok (s : Requests) : Prop where
  queue : s.dir.mIsQueue = true
  once : (s.files.map (·.filePath)).Nodup
  pending : s.pending ⊆ s.files
  known : ∀ song ∈ s.dir.mSonglist, song.mFilename ∈ s.files.map (·.filePath)
  fresh : ∀ song ∈ s.dir.mSonglist, song.mFilename ∉ s.pending.map (·.filePath)

theorem ok_start (aId aDescr aDir : Str) (aDelete : Bool) (clock : Int) :
    Ok (start aId aDescr aDir aDelete clock) :=
  ⟨rfl, List.nodup_nil, List.Subset.refl _, nofun, nofun⟩

theorem Ok.eq_of_path {s : Requests} (hs : Ok s) {x y : Request} (hx : x ∈ s.files)
    (hy : y ∈ s.files) (h : x.filePath = y.filePath) : x = y :=
  List.inj_on_of_nodup_map hs.once hx hy h

/-- The date that `Update` compares is the second of the arrival. -/
theorem Ok.fDate_eq {s : Requests} (hs : Ok s) {r : Request} (hr : r ∈ s.files)
    (new : Option Bool) : fDate r.toFileInfo ⟨lstat s.files, new⟩ = some r.second := by
  unfold fDate
  cases hl : r.isSymLink with
  | false =>
    rw [if_neg Bool.false_ne_true]
    exact congrArg some (r.regular hl)
  | true =>
    rw [if_pos rfl]
    show lstat s.files r.filePath = some r.second
    rw [lstat, find?_key hs.once hr]
    rfl

/-- The entries of a listing, with the dates compared. -/
def dated (order : List Request) : List (FileInfo × Int) :=
  order.map fun r => (r.toFileInfo, r.second)

theorem eq_dated {order : List Request} {l : List (FileInfo × Int)}
    (hl : l.map (·.1) = order.map (·.toFileInfo))
    (hd : ∀ x ∈ l, ∀ r ∈ order, x.1 = r.toFileInfo → x.2 = r.second) : l = dated order := by
  induction order generalizing l with
  | nil => exact List.map_eq_nil_iff.mp hl
  | cons r order ih =>
    obtain ⟨x, l, rfl, hx, hl⟩ := List.map_eq_cons_iff.mp hl
    have hx₂ := hd x List.mem_cons_self r List.mem_cons_self hx
    rw [dated, List.map_cons, ← hx₂, ← show x.1 = r.toFileInfo from hx]
    refine congrArg _ (ih hl fun y hy q hq => ?_)
    exact hd y (List.mem_cons_of_mem x hy) q (List.mem_cons_of_mem r hq)

theorem Ok.update {s : Requests} (hs : Ok s) {order : List Request} {news : List (Option Bool)}
    {dir : CollectionSonglistDir} {new : List (SongFile × Int)} (ho : s.Lists order)
    (h : s.dir.update (some (order.map (·.toFileInfo))) (s.passes news) = some (dir, .ok new)) :
    s.dir.Updated (s.passes news) (dated order) new dir := by
  obtain ⟨l, hl, hu⟩ := CollectionSonglistDir.update_queue hs.queue h
  rwa [← eq_dated (Option.some.inj hl).symm]
  intro x hx r hr he
  obtain ⟨p, hp, hd⟩ := hu.dates x hx
  obtain ⟨m, -, rfl⟩ := List.mem_map.mp hp
  rw [he, hs.fDate_eq (ho.1.mem_iff.mp hr)] at hd
  exact (Option.some.inj hd).symm

/-- The songs that a call of `Update` appends are those of the records. -/
theorem mem_new_iff {c c' : CollectionSonglistDir} {passes : List Pass} {order : List Request}
    {new : List (SongFile × Int)} (hu : c.Updated passes (dated order) new c') (path : Str) :
    path ∈ new.map (·.1.mFilename) ↔
      ∃ x ∈ records dateOf c.mLastTimeStamp (dated order), x.1.filePath = path := by
  have h : new.map (·.1.mFilename) =
      (records dateOf c.mLastTimeStamp (dated order)).map (·.1.filePath) := by
    have h := congrArg (List.map Prod.fst) hu.new_eq
    rwa [List.map_map, List.map_map] at h
  rw [h, List.mem_map]

theorem Ok.arrive {s : Requests} (hs : Ok s) {r : Request}
    (hr : r.filePath ∉ s.files.map (·.filePath)) :
    Ok { s with files := r :: s.files, pending := r :: s.pending } := by
  refine ⟨hs.queue, List.nodup_cons.mpr ⟨hr, hs.once⟩, List.cons_subset_cons r hs.pending,
    fun song hsong => List.mem_cons_of_mem _ (hs.known song hsong), fun song hsong hp => ?_⟩
  rcases List.mem_cons.mp hp with he | hp
  · have hknown := hs.known song hsong
    rw [he] at hknown
    exact hr hknown
  · exact hs.fresh song hsong hp

theorem Ok.updated {s : Requests} (hs : Ok s) {order : List Request} {news : List (Option Bool)}
    {dir : CollectionSonglistDir} {new : List (SongFile × Int)} (ho : s.Lists order)
    (hu : s.dir.Updated (s.passes news) (dated order) new dir) :
    Ok { s with dir := dir, pending := [] } := by
  refine ⟨hu.queue, hs.once, nofun, fun song hsong => ?_, nofun⟩
  rw [hu.songs, List.mem_append] at hsong
  rcases hsong with hsong | hsong
  · exact hs.known song hsong
  · obtain ⟨x, hx, rfl⟩ := List.mem_map.mp hsong
    obtain ⟨y, hy, he⟩ := (mem_new_iff hu x.1.mFilename).mp (List.mem_map_of_mem hx)
    obtain ⟨q, hq, rfl⟩ := List.mem_map.mp ((records.sublist _ _).subset hy)
    exact he ▸ List.mem_map_of_mem (f := fun r : Request => r.filePath) (ho.1.mem_iff.mp hq)

theorem Ok.step {s s' : Requests} {a : Act} (hs : Ok s) (h : s.step a = some s') : Ok s' := by
  cases a with
  | tick secs =>
    cases h
    exact ⟨hs.queue, hs.once, hs.pending, hs.known, hs.fresh⟩
  | arrive r =>
    rw [Requests.step] at h
    split at h
    · next hr =>
      cases h
      exact hs.arrive hr.2
    · cases h
  | update order news =>
    rw [Requests.step] at h
    split at h
    · next ho =>
      obtain ⟨⟨dir, r⟩, hu, he⟩ := Option.map_eq_some_iff.mp h
      obtain ⟨new, rfl⟩ := CollectionSonglistDir.update_some hu
      cases he
      exact hs.updated ho (hs.update ho hu)
    · cases h
  | getNextSong rand =>
    cases h
    have hsub := s.dir.getNextSong_subset rand
    exact ⟨(s.dir.getNextSong_mIsQueue rand).trans hs.queue, hs.once, hs.pending,
      fun song hsong => hs.known song (hsub hsong), fun song hsong => hs.fresh song (hsub hsong)⟩

theorem ok_of_run {s s' : Requests} {acts : List Act} (hs : Ok s)
    (h : Machine.run step s acts = some s') : Ok s' :=
  Machine.run_keeps (fun _ _ _ ht hstep => ht.step hstep) hs h

/-! ## What is appended -/

/-- An entry of a listing is a record exactly if its date is not below the mark and nothing before
it has a later date. -/
theorem mem_records_dated {w : QDateTime} {pre post : List Request} {r : Request}
    (once : ((pre ++ r :: post).map (·.filePath)).Nodup) :
    (r.toFileInfo, r.second) ∈ records dateOf w (dated (pre ++ r :: post)) ↔
      w ≤ (r.second : QDateTime) ∧ ∀ g ∈ pre, g.second ≤ r.second := by
  rw [List.map_append, List.map_cons, List.nodup_middle, ← List.map_append,
    List.nodup_cons] at once
  have hother : ∀ q ∈ pre ++ post, (q.toFileInfo, q.second) ≠ (r.toFileInfo, r.second) :=
    fun q hq he => once.1 (List.mem_map.mpr ⟨q, hq, congrArg (fun x => x.1.filePath) he⟩)
  rw [dated, List.map_append, List.map_cons, records.mem_iff]
  · refine and_congr_right fun _ => ?_
    rw [List.forall_mem_map]
    exact forall₂_congr fun g _ => QDateTime.setTime_t_le
  · intro hm
    obtain ⟨q, hq, he⟩ := List.mem_map.mp hm
    exact hother q (List.mem_append_left _ hq) he
  · intro hm
    obtain ⟨q, hq, he⟩ := List.mem_map.mp hm
    exact hother q (List.mem_append_right _ hq) he

/-- A call of `Update` returns if `new` works. -/
theorem Ok.update_returns {s : Requests} (hs : Ok s) {order : List Request} (ho : s.Lists order)
    {news : List (Option Bool)} (hnews : ∀ m ∈ news, m.isSome)
    (hlen : order.length ≤ news.length) : ∃ t, s.step (.update order news) = some t := by
  have hworks : ∀ p ∈ s.passes news, p.newSong.isSome ∧
      ∀ fi ∈ order.map (·.toFileInfo), (fDate fi p).isSome := by
    intro p hp
    obtain ⟨m, hm, rfl⟩ := List.mem_map.mp hp
    refine ⟨hnews m hm, fun fi hfi => ?_⟩
    obtain ⟨r, hr, rfl⟩ := List.mem_map.mp hfi
    rw [hs.fDate_eq (ho.1.mem_iff.mp hr)]
    rfl
  obtain ⟨dir, new, hu⟩ := s.dir.update_returns hworks (by simpa [passes] using hlen)
  rw [Requests.step, if_pos ho, hu]
  exact ⟨_, rfl⟩

/-- What a call of `Update` does to an entry that arrived since the last one. -/
theorem Ok.appended_iff {s t : Requests} (hs : Ok s) {pre post : List Request} {r : Request}
    {news : List (Option Bool)} (ht : s.step (.update (pre ++ r :: post) news) = some t)
    (hr : r ∈ s.pending) :
    r.filePath ∉ s.dir.mSonglist.map (·.mFilename) ∧
      (r.filePath ∈ t.dir.mSonglist.map (·.mFilename) ↔
        s.dir.mLastTimeStamp ≤ (r.second : QDateTime) ∧ ∀ g ∈ pre, g.second ≤ r.second) := by
  have hold : r.filePath ∉ s.dir.mSonglist.map (·.mFilename) := by
    intro h
    obtain ⟨song, hsong, he⟩ := List.mem_map.mp h
    exact hs.fresh song hsong (he ▸ List.mem_map_of_mem (f := fun r : Request => r.filePath) hr)
  refine ⟨hold, ?_⟩
  rw [Requests.step] at ht
  split at ht
  · next ho =>
    obtain ⟨⟨dir, res⟩, hu, he⟩ := Option.map_eq_some_iff.mp ht
    obtain ⟨new, rfl⟩ := CollectionSonglistDir.update_some hu
    cases he
    have hup := hs.update ho hu
    have hrecord : r.filePath ∈ new.map (·.1.mFilename) ↔ (r.toFileInfo, r.second) ∈
        records dateOf s.dir.mLastTimeStamp (dated (pre ++ r :: post)) := by
      rw [mem_new_iff hup]
      refine ⟨fun ⟨x, hx, he⟩ => ?_, fun hx => ⟨_, hx, rfl⟩⟩
      obtain ⟨q, hq, rfl⟩ := List.mem_map.mp ((records.sublist _ _).subset hx)
      obtain rfl := hs.eq_of_path (ho.1.mem_iff.mp hq) (hs.pending hr) he
      exact hx
    rw [hup.songs, List.map_append, List.mem_append, or_iff_right hold, List.map_map]
    exact hrecord.trans (mem_records_dated ((ho.1.map _).nodup_iff.mpr hs.once))
  · cases ht

/-- **A request that arrived since the last `Update` is appended by the next one exactly if its date
is not below the time stamp at that moment and nothing listed before it has a later date.** The call
returns if `new` works. -/
theorem request_appended_iff {aId aDescr aDir : Str} {aDelete : Bool} {clock : Int}
    {acts : List Act} {s : Requests}
    (hs : Machine.run step (start aId aDescr aDir aDelete clock) acts = some s)
    {order : List Request} (ho : s.Lists order) (news : List (Option Bool)) :
    ((∀ m ∈ news, m.isSome) → order.length ≤ news.length →
        ∃ t, s.step (.update order news) = some t) ∧
      ∀ t, s.step (.update order news) = some t → ∀ pre r post, order = pre ++ r :: post →
        r ∈ s.pending →
        r.filePath ∉ s.dir.mSonglist.map (·.mFilename) ∧
          (r.filePath ∈ t.dir.mSonglist.map (·.mFilename) ↔
            s.dir.mLastTimeStamp ≤ (r.second : QDateTime) ∧ ∀ g ∈ pre, g.second ≤ r.second) := by
  have hok := ok_of_run (ok_start aId aDescr aDir aDelete clock) hs
  refine ⟨hok.update_returns ho, fun t ht pre r post hsplit hr => ?_⟩
  subst hsplit
  exact hok.appended_iff ht hr

def fileAt (path : Str) (secs : Int) : Request :=
  ⟨⟨path, false, secs⟩, secs, fun _ => rfl, le_rfl⟩

def fileA : Request := fileAt "/req/a.mp3".toList 10

def fileB : Request := fileAt "/req/b.mp3".toList 10

def sameSecond : List Act :=
  [.update [] [], .arrive fileA, .update [fileA] [some false], .arrive fileB]

theorem request_appended_fileA : ∃ s t,
    Machine.run step (start "request".toList [] "/req".toList true 10)
        [.update [] [], .arrive fileA] = some s ∧
      s.step (.update [fileA] [some false]) = some t ∧
      fileA.filePath ∈ t.dir.mSonglist.map (·.mFilename) := by
  have h := (@request_appended_iff "request".toList [] "/req".toList true 10
    [.update [] [], .arrive fileA] _ rfl [fileA] ⟨List.Perm.refl _, by decide⟩ [some false]).2
    _ rfl [] fileA [] rfl (by decide)
  exact ⟨_, _, rfl, rfl, h.2.mpr ⟨QDateTime.null_le _, nofun⟩⟩

/-- The second of them is not appended by the next `Update`. -/
theorem request_lost : ∃ s t,
    Machine.run step (start "request".toList [] "/req".toList true 10) sameSecond = some s ∧
      fileB ∈ s.pending ∧ s.step (.update [fileA, fileB] [some false, some false]) = some t ∧
      fileB.filePath ∉ t.dir.mSonglist.map (·.mFilename) :=
  ⟨_, _, rfl, by decide, rfl, by decide⟩

end Requests

end NetDJ.Engine
