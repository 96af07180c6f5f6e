import NetDJ.Engine.SonglistDir

/-!
# `Collection_Songlist_Dir.cpp`: whether a scan comes to an end

The body of the loop moves the iterator on at its end. A pass that leaves the body before, by
`continue` or by an exception, meets the same entry again.

* `passes` : the passes of a call during which `lstat` says the same of a path each time;
* `Moves` : no pass leaves the body early;
* `scan_ends_iff` : this is when the loop is through after one pass for each entry; with a symbolic
  link that `lstat` does not find it never is.
-/

namespace NetDJ.Engine

/-- The passes of a call: what `lstat` says of a path, and what `new` gives in each pass. -/
def passes (lstat : Str → Option Int) (news : Nat → Option Bool) (n : Nat) : List Pass :=
  (List.range n).map fun k => ⟨lstat, news k⟩

/-- The date of an entry, unless `lstat` fails. -/
def stamp (lstat : Str → Option Int) (fi : FileInfo) : Option Int :=
  if fi.isSymLink then lstat fi.filePath else some fi.lastModified

/-- No pass leaves the body early: `lstat` finds every symbolic link, and `new` throws only for an
entry that is no song to be added, since its date lies below the time stamp of the queue or below
the date of an earlier entry. -/
def Moves (isQueue : Bool) (mark : QDateTime) (lstat : Str → Option Int)
    (news : Nat → Option Bool) (list : List FileInfo) : Prop :=
  ∀ before fi after, list = before ++ fi :: after → ∃ date, stamp lstat fi = some date ∧
    ((news before.length).isSome ∨ isQueue = true ∧
      ((date : QDateTime) < mark ∨ ∃ d ∈ before.filterMap (stamp lstat), date < d))

variable {isQueue : Bool} {mark : QDateTime} {lstat : Str → Option Int} {news : Nat → Option Bool}

theorem passes_succ (n : Nat) : passes lstat news (n + 1) =
    ⟨lstat, news 0⟩ :: passes lstat (fun k => news (k + 1)) n := by
  rw [passes, List.range_succ_eq_map, List.map_cons, List.map_map]
  rfl

theorem length_passes (n : Nat) : (passes lstat news n).length = n := by
  rw [passes, List.length_map, List.length_range]

/-! ## The condition, entry by entry -/

theorem moves_list (mark mark' : QDateTime) {list : List FileInfo}
    (h : Moves false mark lstat news list) : Moves false mark' lstat news list := by
  intro before fi after he
  obtain ⟨date, hd, hnew | ⟨hq, -⟩⟩ := h before fi after he
  · exact ⟨date, hd, .inl hnew⟩
  · cases hq

theorem moves_cons {fi : FileInfo} {list : List FileInfo} :
    Moves isQueue mark lstat news (fi :: list) ↔ ∃ date, stamp lstat fi = some date ∧
      ((news 0).isSome ∨ isQueue = true ∧ (date : QDateTime) < mark) ∧
      Moves isQueue (max mark date) lstat (fun k => news (k + 1)) list := by
  constructor
  · intro h
    obtain ⟨date, hd, hnew⟩ := h [] fi list rfl
    refine ⟨date, hd, ?_, fun before fi' after he => ?_⟩
    · rcases hnew with hnew | ⟨hq, hlt | ⟨d, hmem, -⟩⟩
      · exact .inl hnew
      · exact .inr ⟨hq, hlt⟩
      · cases hmem
    · obtain ⟨date', hd', hnew'⟩ := h (fi :: before) fi' after (by rw [he]; rfl)
      refine ⟨date', hd', ?_⟩
      rcases hnew' with hnew' | ⟨hq, hlow⟩
      · exact .inl hnew'
      · refine .inr ⟨hq, ?_⟩
        rw [List.filterMap_cons_some hd, List.exists_mem_cons_iff, ← or_assoc,
          ← QDateTime.setTime_t_lt, ← lt_max_iff] at hlow
        exact hlow
  · rintro ⟨date, hd, hnew, h⟩ before fi' after he
    cases before with
    | nil =>
      obtain ⟨rfl, rfl⟩ := List.cons.inj he
      refine ⟨date, hd, ?_⟩
      rcases hnew with hnew | ⟨hq, hlt⟩
      · exact .inl hnew
      · exact .inr ⟨hq, .inl hlt⟩
    | cons fi₀ before =>
      obtain ⟨rfl, hlist⟩ := List.cons.inj he
      obtain ⟨date', hd', hnew'⟩ := h before fi' after hlist
      refine ⟨date', hd', ?_⟩
      rcases hnew' with hnew' | ⟨hq, hlow⟩
      · exact .inl hnew'
      · refine .inr ⟨hq, ?_⟩
        rw [List.filterMap_cons_some hd, List.exists_mem_cons_iff, ← or_assoc,
          ← QDateTime.setTime_t_lt, ← lt_max_iff]
        exact hlow

/-! ## The loop -/

/-- A loop with entries left needs a pass for each of them. -/
theorem scanLoop_of_length_lt (s : Scan) {list : List FileInfo} {ps : List Pass}
    (h : ps.length < list.length) : scanLoop s list ps = none := by
  fun_induction scanLoop s list ps with
  | case1 => exact absurd h (by simp)
  | case2 => rfl
  | case3 s fi list p ps _ ih =>
    rw [List.length_cons, List.length_cons] at h
    exact ih (by rw [List.length_cons]; omega)
  | case4 s fi list p ps s₁ _ ih =>
    rw [List.length_cons, List.length_cons] at h
    exact ih (by omega)

/-- With one pass for each entry the loop is through only if each pass moves on. -/
theorem scanLoop_cons {s : Scan} {fi : FileInfo} {list : List FileInfo} {p : Pass} {ps : List Pass}
    (hl : ps.length = list.length) : (∃ s', scanLoop s (fi :: list) (p :: ps) = some s') ↔
      ∃ s₁, scanPass s fi p = some s₁ ∧ ∃ s', scanLoop s₁ list ps = some s' := by
  rw [scanLoop]
  cases hpass : scanPass s fi p with
  | none =>
    dsimp only
    rw [scanLoop_of_length_lt s (by rw [List.length_cons]; omega)]
    exact iff_of_false nofun nofun
  | some s₁ => exact ⟨fun h => ⟨s₁, rfl, h⟩, by rintro ⟨_, ⟨⟩, h⟩; exact h⟩

theorem takes_eq_false {s : Scan} {date : Int} :
    s.takes date = false ↔ s.col.mIsQueue = true ∧ (date : QDateTime) < s.col.mLastTimeStamp := by
  simp [Scan.takes, and_comm]

/-- The time stamp behind an entry that was taken. -/
theorem moves_taken {s : Scan} {date : Int} (ht : s.takes date = true) {list : List FileInfo} :
    Moves s.col.mIsQueue date lstat news list ↔
      Moves s.col.mIsQueue (max s.col.mLastTimeStamp date) lstat news list := by
  cases hq : s.col.mIsQueue with
  | true =>
    have hmax : max s.col.mLastTimeStamp (date : QDateTime) = date :=
      max_eq_right ((Scan.takes_iff hq date).mp ht)
    rw [hmax]
  | false => exact ⟨moves_list _ _, moves_list _ _⟩

theorem scanPass_iff {s : Scan} {fi : FileInfo} {new : Option Bool} {P : Scan → Prop} :
    (∃ s₁, scanPass s fi ⟨lstat, new⟩ = some s₁ ∧ P s₁) ↔ ∃ date, stamp lstat fi = some date ∧
      ((s.takes date = true ∧ ∃ memory, new = some memory ∧ P (s.add fi date memory)) ∨
        (s.takes date = false ∧ P s)) := by
  have hdate : fDate fi ⟨lstat, new⟩ = stamp lstat fi := rfl
  rw [scanPass, hdate]
  cases stamp lstat fi with
  | none => simp
  | some date =>
    dsimp only
    cases ht : s.takes date with
    | false => simp [ht]
    | true => cases new <;> simp [ht]

theorem scanLoop_iff (s : Scan) (news : Nat → Option Bool) (list : List FileInfo) :
    (∃ s', scanLoop s list (passes lstat news list.length) = some s') ↔
      Moves s.col.mIsQueue s.col.mLastTimeStamp lstat news list := by
  induction list generalizing s news with
  | nil => exact iff_of_true ⟨s, rfl⟩ fun before _ _ he => absurd he (by simp)
  | cons fi list ih =>
    rw [List.length_cons, passes_succ, scanLoop_cons (length_passes _), moves_cons]
    simp only [ih]
    rw [scanPass_iff]
    refine exists_congr fun date => and_congr_right fun _ => ?_
    cases ht : s.takes date with
    | true =>
      have hlow : ¬ (s.col.mIsQueue = true ∧ (date : QDateTime) < s.col.mLastTimeStamp) := by
        rw [← takes_eq_false, ht]
        exact Bool.noConfusion
      simp only [Scan.add_mIsQueue, Scan.add_mLastTimeStamp, hlow, or_false, true_and,
        moves_taken ht, Option.isSome_iff_exists]
      simp [exists_and_right]
    | false =>
      obtain ⟨hq, hlt⟩ := takes_eq_false.mp ht
      have hmax : max s.col.mLastTimeStamp (date : QDateTime) = s.col.mLastTimeStamp :=
        max_eq_left hlt.le
      rw [hmax]
      simp [hq, hlt]

theorem scanLoop_stuck (s : Scan) {list : List FileInfo} (news : Nat → Option Bool) (n : Nat)
    (h : ∃ fi ∈ list, stamp lstat fi = none) : scanLoop s list (passes lstat news n) = none := by
  induction n generalizing s list news with
  | zero =>
    obtain ⟨fi, hfi, -⟩ := h
    exact scanLoop_of_length_lt s (List.length_pos_of_mem hfi)
  | succ n ih =>
    cases list with
    | nil =>
      obtain ⟨fi, hfi, -⟩ := h
      cases hfi
    | cons fi list =>
      rw [passes_succ, scanLoop]
      split
      · exact ih s _ h
      · next s₁ hpass =>
        obtain ⟨date, hd, -⟩ := scanPass_cases hpass
        obtain ⟨fi', hfi', hnone⟩ := h
        rcases List.mem_cons.mp hfi' with rfl | hfi'
        · exact absurd (hd.symm.trans hnone) (by simp)
        · exact ih s₁ _ ⟨fi', hfi', hnone⟩

namespace CollectionSonglistDir

/-- **A scan ends after one pass for each entry exactly if no pass leaves the body early**, and with
a symbolic link that `lstat` does not find it never ends. -/
theorem scan_ends_iff (c : CollectionSonglistDir) (lstat : Str → Option Int)
    (news : Nat → Option Bool) (list : List FileInfo) :
    ((∃ r, c.update (some list) (passes lstat news list.length) = some r) ↔
      Moves c.mIsQueue c.mLastTimeStamp lstat news list) ∧
    ((∃ fi ∈ list, fi.isSymLink = true ∧ lstat fi.filePath = none) →
      ∀ n, c.update (some list) (passes lstat news n) = none) := by
  constructor
  · rw [← scanLoop_iff ⟨c, [], []⟩]
    simp only [update, Option.map_eq_some_iff]
    constructor
    · rintro ⟨-, s, hs, -⟩
      exact ⟨s, hs⟩
    · rintro ⟨s, hs⟩
      exact ⟨_, s, hs, rfl⟩
  · rintro ⟨fi, hfi, hlink, hnone⟩ n
    rw [update, scanLoop_stuck _ news n ⟨fi, hfi, by rw [stamp, if_pos hlink, hnone]⟩]
    rfl

/-- A directory with a link to nothing. -/
theorem scan_hangs : ¬ ∃ isQueue n r,
    (init "c".toList [] "/c".toList isQueue false).update (some [⟨"/c/a.mp3".toList, true, 0⟩])
      (passes (fun _ => none) (fun _ => some false) n) = some r := by
  rintro ⟨isQueue, n, r, hr⟩
  obtain ⟨s, hs, -⟩ := Option.map_eq_some_iff.mp hr
  exact absurd hs (by rw [scanLoop_stuck _ _ n ⟨_, List.mem_singleton_self _, rfl⟩]; nofun)

end CollectionSonglistDir

end NetDJ.Engine
