import NetDJ.Engine.Collections

/-!
# `Collections::GetNextSong`: the first collection that gives a song

The loop leaves the `try` block of a collection by `break`, with its song, by an `EmptyCollection`,
which moves on to the next collection, or by another exception, which leaves the function.

* `Visit` : a collection and what its `Update` does;
* `Collections.getNextSong` : the loop over the collections;
* `getNextSong_visits` : the loop over the collections of `mainloop` is that loop;
* `Visit.Passed`, `Visit.Gives` : how the body can end without an exception that leaves the loop;
* `Respects`, `LosesNothing` : priority, and what happens to the songs;
* `getNextSong_respects` : the loop meets both.
-/

namespace NetDJ.Engine

/-- A collection, the state its `Update` would leave it in, with the exception that it would throw
(the loop only tells `EmptyCollection` from all others), and the number that `get_rand` would
give. -/
structure Visit where
  col : CollectionSonglist
  updated : CollectionSonglist
  update : Except Failure Unit
  rand : Nat

namespace Visit

def nextSong (v : Visit) : CollectionSonglist × Except Failure SongFile :=
  match v.update with
  | .ok () => v.updated.getNextSong v.rand
  | .error e => (v.updated, .error e)

end Visit

namespace Collections

/-- `GetNextSong`: the collections behind the call, and the song with the position of `*aCol`, or
`none` where it returns false. -/
def getNextSong : List Visit → List CollectionSonglist × Except Failure (Option (SongFile × Nat))
  | [] => ([], .ok none)
  | v :: rest =>
    match v.nextSong with
    | (c, .ok song) => (c :: rest.map (·.col), .ok (some (song, 0)))
    | (c, .error (.thrown (.emptyCollection _))) =>
      let (cols, r) := getNextSong rest
      (c :: cols, r.map (Option.map fun x => (x.1, x.2 + 1)))
    | (c, .error e) => (c :: rest.map (·.col), .error e)

theorem getNextSong_gives {v : Visit} {rest : List Visit} {song : SongFile} {c : CollectionSonglist}
    (h : v.nextSong = (c, .ok song)) :
    getNextSong (v :: rest) = (c :: rest.map (·.col), .ok (some (song, 0))) := by
  rw [getNextSong, h]

theorem getNextSong_passed {v : Visit} {rest : List Visit} {c : CollectionSonglist} {d : Str}
    (h : v.nextSong = (c, .error (.thrown (.emptyCollection d)))) :
    getNextSong (v :: rest) = (c :: (getNextSong rest).1,
      (getNextSong rest).2.map (Option.map fun x => (x.1, x.2 + 1))) := by
  rw [getNextSong, h]

theorem getNextSong_fails {v : Visit} {rest : List Visit} {c : CollectionSonglist} {e : Failure}
    (he : ∀ d, e ≠ .thrown (.emptyCollection d)) (h : v.nextSong = (c, .error e)) :
    getNextSong (v :: rest) = (c :: rest.map (·.col), .error e) := by
  rw [getNextSong, h]
  split
  · next h' => cases h'
  · next h' =>
    cases h'
    exact absurd rfl (he _)
  · next h' =>
    cases h'
    rfl

end Collections

/-! ## The collections of `mainloop` -/

theorem ICollection.nextSong_visit {c c' : ICollection} {disk : Disk} {r : Except Failure SongFile}
    (h : c.nextSong disk = some (c', r)) :
    ∃ v : Visit, v.col = c.base ∧ v.nextSong = (c'.base, r) := by
  obtain ⟨⟨d, u⟩, -, he⟩ := Option.map_eq_some_iff.mp h
  refine ⟨⟨c.base, d.base, u, disk.rand⟩, rfl, ?_⟩
  cases u with
  | ok _ =>
    have hnext : d.getNextSong disk.rand = (c', r) := he
    obtain ⟨rfl, rfl⟩ := Prod.mk.inj hnext
    cases d <;> rfl
  | error e =>
    obtain ⟨rfl, rfl⟩ := Prod.mk.inj he
    rfl

def Visit.none (c : ICollection) : Visit := ⟨c.base, c.base, .ok (), 0⟩

theorem Visit.map_none (cols : List ICollection) :
    (cols.map Visit.none).map (·.col) = cols.map (·.base) := by
  simp [Visit.none, Function.comp_def]

theorem getNextSong_visits {cols cols' : List ICollection} {disks : List Disk}
    {r : Except Failure (Option (SongFile × Nat))} (h : getNextSong cols disks = some (cols', r)) :
    ∃ visits : List Visit, visits.map (·.col) = cols.map (·.base) ∧
      Collections.getNextSong visits = (cols'.map (·.base), r) := by
  fun_induction getNextSong cols disks generalizing cols' r with
  | case1 =>
    cases h
    exact ⟨[], rfl, rfl⟩
  | case2 => cases h
  | case3 => cases h
  | case4 c cols disk disks c' song hnext =>
    cases h
    obtain ⟨v, hcol, hv⟩ := ICollection.nextSong_visit hnext
    refine ⟨v :: cols.map Visit.none, ?_, ?_⟩
    · rw [List.map_cons, hcol, Visit.map_none, List.map_cons]
    · rw [Collections.getNextSong_gives hv, Visit.map_none, List.map_cons]
  | case5 c cols disk disks c' d hnext ih =>
    obtain ⟨⟨cols₁, r₁⟩, hrest, he⟩ := Option.map_eq_some_iff.mp h
    cases he
    obtain ⟨v, hcol, hv⟩ := ICollection.nextSong_visit hnext
    obtain ⟨visits, hcols, hvisits⟩ := ih hrest
    refine ⟨v :: visits, ?_, ?_⟩
    · rw [List.map_cons, hcol, hcols, List.map_cons]
    · rw [Collections.getNextSong_passed hv, hvisits, List.map_cons]
  | case6 c cols disk disks c' e hother hnext =>
    cases h
    obtain ⟨v, hcol, hv⟩ := ICollection.nextSong_visit hnext
    refine ⟨v :: cols.map Visit.none, ?_, ?_⟩
    · rw [List.map_cons, hcol, Visit.map_none, List.map_cons]
    · have hfails : ∀ d, e ≠ .thrown (.emptyCollection d) := by
        rintro d rfl
        exact hother d rfl
      rw [Collections.getNextSong_fails hfails hv, Visit.map_none, List.map_cons]

/-! ## One visit -/

namespace Visit

/-- `Update` was called, and the collection gave no song: it is empty, or `Update` said so. -/
def Passed (v : Visit) : Prop :=
  (v.update = .ok () ∧ v.updated.mSonglist = []) ∨
    ∃ d, v.update = .error (.thrown (.emptyCollection d))

/-- A song is taken from the front of the queue, and the collection is `c` then. -/
def Popped (v : Visit) (song : SongFile) (c : CollectionSonglist) : Prop :=
  v.updated.mIsQueue = true ∧ v.updated.mSonglist = song :: c.mSonglist ∧
    c = { v.updated with mSonglist := c.mSonglist }

/-- `Update` returns, and the collection gives a song of its list: a queue its first one, which
leaves the list. -/
def Gives (v : Visit) (song : SongFile) (c : CollectionSonglist) : Prop :=
  v.update = .ok () ∧ song ∈ v.updated.mSonglist ∧
    (v.Popped song c ∨ v.updated.mIsQueue = false ∧ c = v.updated)

/-- The collection as it was, or as its `Update` left it: no song has been taken from it. -/
def Kept (v : Visit) (c : CollectionSonglist) : Prop := c = v.col ∨ c = v.updated

/-- An exception that is no `EmptyCollection`, from `Update`; or `get_rand` gave no index of the
list. -/
def Fails (v : Visit) (e : Failure) : Prop :=
  (∀ d, e ≠ .thrown (.emptyCollection d)) ∧
    (v.update = .error e ∨ (v.update = .ok () ∧ v.updated.mSonglist.length ≤ v.rand ∧
      e = .undefined))

/-- The three ways in which the body ends. -/
theorem nextSong_cases (v : Visit) :
    (∃ song c, v.nextSong = (c, .ok song) ∧ v.Gives song c) ∨
      (∃ d, v.nextSong = (v.updated, .error (.thrown (.emptyCollection d))) ∧ v.Passed) ∨
      ∃ e, v.nextSong = (v.updated, .error e) ∧ v.Fails e := by
  unfold nextSong
  cases hu : v.update with
  | error e =>
    by_cases he : ∃ d, e = .thrown (.emptyCollection d)
    · obtain ⟨d, rfl⟩ := he
      exact .inr (.inl ⟨d, rfl, .inr ⟨d, hu⟩⟩)
    · exact .inr (.inr ⟨e, rfl, fun d hd => he ⟨d, hd⟩, .inl hu⟩)
  | ok _ =>
    dsimp only
    cases hl : v.updated.mSonglist with
    | nil =>
      rw [CollectionSonglist.getNextSong_nil hl]
      exact .inr (.inl ⟨_, rfl, .inl ⟨hu, hl⟩⟩)
    | cons song rest =>
      by_cases hq : v.updated.mIsQueue = true
      · rw [CollectionSonglist.getNextSong_front hq hl]
        refine .inl ⟨song, _, rfl, hu, by simp [hl], .inl ⟨hq, hl, rfl⟩⟩
      · have hq' : v.updated.mIsQueue = false := Bool.eq_false_of_not_eq_true hq
        rw [CollectionSonglist.getNextSong, hl]
        dsimp only
        rw [if_neg hq]
        cases hr : (song :: rest)[v.rand]? with
        | some sng =>
          have hmem : sng ∈ v.updated.mSonglist := hl ▸ List.mem_of_getElem? hr
          exact .inl ⟨sng, v.updated, rfl, hu, hmem, .inr ⟨hq', rfl⟩⟩
        | none =>
          have hlen : v.updated.mSonglist.length ≤ v.rand := hl ▸ List.getElem?_eq_none_iff.mp hr
          exact .inr (.inr ⟨.undefined, rfl, nofun, .inr ⟨hu, hlen, rfl⟩⟩)

end Visit

/-! ## The loop -/

namespace Collections

/-- The collections up to the one where the loop ends: those before it were passed, and those behind
it are as they were. -/
def EndsAt (visits : List Visit) (cols : List CollectionSonglist) (k : Nat) (v : Visit)
    (c : CollectionSonglist) : Prop :=
  ∃ before after : List Visit, visits = before ++ v :: after ∧ before.length = k ∧
    cols = before.map (·.updated) ++ c :: after.map (·.col) ∧ ∀ u ∈ before, u.Passed

/-- The priority of the collections: what the call returns, and which collections it has updated. -/
def Respects (visits : List Visit) (cols : List CollectionSonglist) :
    Except Failure (Option (SongFile × Nat)) → Prop
  | .ok (some (song, k)) => ∃ v c, EndsAt visits cols k v c ∧ v.Gives song c
  | .ok none => cols = visits.map (·.updated) ∧ ∀ v ∈ visits, v.Passed
  | .error e => ∃ k v, EndsAt visits cols k v v.updated ∧ v.Fails e

theorem EndsAt.cons {visits : List Visit} {cols : List CollectionSonglist} {k : Nat} {v : Visit}
    {c : CollectionSonglist} (h : EndsAt visits cols k v c) {u : Visit} (hu : u.Passed) :
    EndsAt (u :: visits) (u.updated :: cols) (k + 1) v c := by
  obtain ⟨before, after, rfl, rfl, rfl, hpassed⟩ := h
  exact ⟨u :: before, after, rfl, rfl, rfl, List.forall_mem_cons.mpr ⟨hu, hpassed⟩⟩

theorem endsAt_zero (v : Visit) (rest : List Visit) (c : CollectionSonglist) :
    EndsAt (v :: rest) (c :: rest.map (·.col)) 0 v c :=
  ⟨[], rest, rfl, rfl, rfl, fun _ h => absurd h List.not_mem_nil⟩

theorem Respects.cons {visits : List Visit} {cols : List CollectionSonglist}
    {r : Except Failure (Option (SongFile × Nat))} (h : Respects visits cols r) {u : Visit}
    (hu : u.Passed) : Respects (u :: visits) (u.updated :: cols)
      (r.map (Option.map fun x => (x.1, x.2 + 1))) := by
  match r, h with
  | .ok (some (song, k)), ⟨v, c, hends, hgives⟩ => exact ⟨v, c, hends.cons hu, hgives⟩
  | .ok none, ⟨hcols, hpassed⟩ =>
    exact ⟨congrArg (u.updated :: ·) hcols, List.forall_mem_cons.mpr ⟨hu, hpassed⟩⟩
  | .error e, ⟨k, v, hends, hfails⟩ => exact ⟨k + 1, v, hends.cons hu, hfails⟩

theorem respects (visits : List Visit) :
    Respects visits (getNextSong visits).1 (getNextSong visits).2 := by
  induction visits with
  | nil => exact ⟨rfl, fun _ h => absurd h List.not_mem_nil⟩
  | cons v rest ih =>
    rcases v.nextSong_cases with ⟨song, c, hv, hgives⟩ | ⟨d, hv, hpassed⟩ | ⟨e, hv, hfails⟩
    · rw [getNextSong_gives hv]
      exact ⟨v, c, endsAt_zero v rest c, hgives⟩
    · rw [getNextSong_passed hv]
      exact ih.cons hpassed
    · rw [getNextSong_fails hfails.1 hv]
      exact ⟨0, v, endsAt_zero v rest v.updated, hfails⟩

/-! ## The songs -/

/-- At most the collection at `k` has lost a song, a queue its first one; if the call has not
returned true, none has. -/
def LosesNothing (visits : List Visit) (cols : List CollectionSonglist)
    (r : Except Failure (Option (SongFile × Nat))) : Prop :=
  List.Forall₂ Visit.Kept visits cols ∨
    ∃ before v after cols₁ c cols₂ song, visits = before ++ v :: after ∧
      cols = cols₁ ++ c :: cols₂ ∧ List.Forall₂ Visit.Kept before cols₁ ∧ v.Popped song c ∧
      List.Forall₂ Visit.Kept after cols₂ ∧ r = .ok (some (song, before.length))

theorem kept_updated (visits : List Visit) :
    List.Forall₂ Visit.Kept visits (visits.map (·.updated)) := by
  rw [List.forall₂_map_right_iff, List.forall₂_same]
  exact fun _ _ => .inr rfl

theorem kept_col (visits : List Visit) :
    List.Forall₂ Visit.Kept visits (visits.map (·.col)) := by
  rw [List.forall₂_map_right_iff, List.forall₂_same]
  exact fun _ _ => .inl rfl

/-- Where the collection at which the loop ends has kept its songs, all have. -/
theorem EndsAt.kept {visits : List Visit} {cols : List CollectionSonglist} {k : Nat} {v : Visit}
    (h : EndsAt visits cols k v v.updated) : List.Forall₂ Visit.Kept visits cols := by
  obtain ⟨before, after, rfl, -, rfl, -⟩ := h
  exact List.rel_append (kept_updated before) (.cons (.inr rfl) (kept_col after))

theorem Respects.losesNothing {visits : List Visit} {cols : List CollectionSonglist}
    {r : Except Failure (Option (SongFile × Nat))} (h : Respects visits cols r) :
    LosesNothing visits cols r := by
  match r, h with
  | .ok (some (song, k)), ⟨v, c, hends, hgives⟩ =>
    rcases hgives.2.2 with hpop | ⟨-, rfl⟩
    · obtain ⟨before, after, rfl, rfl, rfl, -⟩ := hends
      exact .inr ⟨before, v, after, _, c, _, song, rfl, rfl, kept_updated before, hpop,
        kept_col after, rfl⟩
    · exact .inl hends.kept
  | .ok none, ⟨hcols, _⟩ => exact .inl (hcols ▸ kept_updated visits)
  | .error e, ⟨k, v, hends, _⟩ => exact .inl hends.kept

/-- **`GetNextSong` respects the priority and loses nothing**, whatever the updates do. -/
theorem getNextSong_respects (visits : List Visit) :
    Respects visits (getNextSong visits).1 (getNextSong visits).2 ∧
      LosesNothing visits (getNextSong visits).1 (getNextSong visits).2 :=
  ⟨respects visits, (respects visits).losesNothing⟩

end Collections

end NetDJ.Engine
