import NetDJ.Lib.Cursor
import NetDJ.Lib.Machine
import NetDJ.Engine.Report

/-!
# `LogService.cpp`: entries of other threads

`Emit` puts the entries of other threads on a queue, under its mutex, and posts an event. `event`
goes through the queue in the thread of the owner and clears it, without the mutex. An append makes
the new entry the current one, so it ends the loop over the queue.

* `LogService.emit` : the call;
* `LogService.step` : calls of other threads between the steps of `event`;
* `Delivered` : every entry has been delivered once, or waits for an event;
* `Waits`, `Waits.step` : what waits on the queue, and what a step of `event` leaves of it;
* `Tracks`, `Tracks.step` : as long as nothing was lost, the entries passed are those delivered and
  those that wait, in this order;
* `delivered_iff` : nothing is lost exactly if no entry is appended between `first` and `clear`.
-/

namespace NetDJ.Engine

/-- An entry with its attributes. `thread` and `call` say which thread passed it and how many calls
came before. -/
structure Entry where
  thread : Nat
  call : Nat
  id : BitVec 32
  timestamp : Int
  level : Int
  entryClass : EntryClass
  element : Str
  deriving DecidableEq

/-- Where `event` is: not running, before `first`, before the signal, before `next`, or before
`clear`. -/
inductive LogPc where
  | idle
  | first
  | emitting (entry : Entry)
  | next
  | clear
  deriving DecidableEq

/-- The members, the events that wait, and where `event` is. `passed` holds the entries that `Emit`
was called with, `emitted` those that `NewLogEntry` was emitted with; `appended` says whether one was
appended since the last `first`. -/
structure LogService where
  mLogCount : BitVec 32
  mOwnerThread : Nat
  mEntryQueue : CursorList Entry
  posted : Nat
  pc : LogPc
  passed : List Entry
  emitted : List Entry
  appended : Bool

namespace LogService

def init (currentThread : Nat) : LogService := ⟨0, currentThread, .empty, 0, .idle, [], [], false⟩

def emit (s : LogService) (thread : Nat) (now : Int) (aEntry : Str) (aLevel : Int)
    (aClass : EntryClass) : LogService :=
  let entry : Entry :=
    ⟨thread, s.passed.length, s.mLogCount + 1, now, aLevel, aClass, aEntry⟩
  if thread = s.mOwnerThread then
    { s with
      mLogCount := s.mLogCount + 1, passed := s.passed ++ [entry], emitted := s.emitted ++ [entry] }
  else
    { s with
      mLogCount := s.mLogCount + 1, passed := s.passed ++ [entry],
      mEntryQueue := s.mEntryQueue.append entry, posted := s.posted + 1, appended := true }

inductive Act where
  /-- Another thread calls `Emit`. -/
  | emit (thread : Nat) (now : Int) (aEntry : Str) (aLevel : Int) (aClass : EntryClass)
  /-- The owner takes an event and calls `event`. -/
  | event
  | first
  | newLogEntry
  | next
  | clear
  deriving DecidableEq

/-- The loop goes on with the entry it got, if it got one. -/
def loop (s : LogService) (r : CursorList Entry × Option Entry) : LogService :=
  { s with mEntryQueue := r.1, pc := match r.2 with | some entry => .emitting entry | none => .clear }

def step (s : LogService) : Act → Option LogService
  | .emit thread now aEntry aLevel aClass =>
    if thread = s.mOwnerThread then none else some (s.emit thread now aEntry aLevel aClass)
  | .event =>
    if s.pc = .idle ∧ 0 < s.posted then some { s with posted := s.posted - 1, pc := .first }
    else none
  | .first =>
    if s.pc = .first then some { s.loop s.mEntryQueue.first with appended := false } else none
  | .newLogEntry =>
    match s.pc with
    | .emitting entry => some { s with emitted := s.emitted ++ [entry], pc := .next }
    | _ => none
  | .next => if s.pc = .next then some (s.loop s.mEntryQueue.next) else none
  | .clear =>
    if s.pc = .clear then some { s with mEntryQueue := s.mEntryQueue.clear, pc := .idle } else none

/-- An event has been posted and `event` is not through with it. -/
def Pending (s : LogService) : Prop := 0 < s.posted ∨ s.pc ≠ .idle

/-- Every entry has been emitted once, or it is on the queue and an event will come by. The entries
of each thread are emitted in their order. -/
structure Delivered (s : LogService) : Prop where
  once : ∀ e ∈ s.passed, s.emitted.count e = 1 ∨
    (e ∉ s.emitted ∧ e ∈ s.mEntryQueue.items ∧ s.Pending)
  order : ∀ thread, (s.emitted.filter (·.thread = thread)).Sublist
    (s.passed.filter (·.thread = thread))

/-! ## The queue and the loop -/

/-- The loop over the queue before an entry is emitted or the next one is sought: `done` are the
entries before the current one. An append has made its entry the current one. -/
def Passing (s : LogService) (done : List Entry) (e : Entry) (post : List Entry) : Prop :=
  s.mEntryQueue.items = done ++ e :: post ∧
    if s.appended then post ≠ [] ∧ ∃ pre last, s.mEntryQueue.At pre last []
    else s.mEntryQueue.At done e post

/-- The entries that wait stand at the end of the queue, and an event will come by for them. -/
def Waits (s : LogService) (waiting : List Entry) : Prop :=
  match s.pc with
  | .idle => s.mEntryQueue.items = waiting ∧ (waiting ≠ [] → 0 < s.posted)
  | .first => s.mEntryQueue.items = waiting
  | .emitting entry => ∃ done post, waiting = entry :: post ∧ s.Passing done entry post
  | .next => ∃ done entry, s.Passing done entry waiting
  | .clear => (∃ done, s.mEntryQueue.items = done ++ waiting) ∧ (s.appended = true ↔ waiting ≠ [])

theorem Passing.fresh {s : LogService} {done post : List Entry} {e : Entry}
    (h : s.Passing done e post) (happ : s.appended = false) : s.mEntryQueue.At done e post := by
  have h2 := h.2
  rwa [happ, if_neg Bool.false_ne_true] at h2

/-- What `next` gives in the loop: nothing after an append, and nothing at the end. -/
theorem Passing.next {s : LogService} {done post : List Entry} {e : Entry}
    (h : s.Passing done e post) :
    (∃ q, s.mEntryQueue.next = (q, none) ∧ q.items = s.mEntryQueue.items ∧
        (s.appended = true ↔ post ≠ [])) ∨
      ∃ q e' post', s.mEntryQueue.next = (q, some e') ∧ post = e' :: post' ∧
        s.appended = false ∧ q.At (done ++ [e]) e' post' := by
  cases happ : s.appended with
  | true =>
    obtain ⟨-, h2⟩ := h
    rw [happ, if_pos rfl] at h2
    obtain ⟨hpost, pre, last, hat⟩ := h2
    exact .inl ⟨_, hat.next_last, rfl, iff_of_true rfl hpost⟩
  | false =>
    have hat := h.fresh happ
    cases post with
    | nil => exact .inl ⟨_, hat.next_last, rfl, iff_of_false nofun fun hne => hne rfl⟩
    | cons e' post' =>
      obtain ⟨q, hq, hat'⟩ := hat.next
      exact .inr ⟨q, e', post', hq, rfl, rfl, hat'⟩

section Waits
variable {s s' : LogService} {waiting : List Entry}

/-- An entry of another thread waits behind the others. -/
theorem Waits.append (hs : s.Waits waiting) (mLogCount : BitVec 32) (passed : List Entry)
    (entry : Entry) : Waits { s with
      mLogCount := mLogCount, passed := passed, mEntryQueue := s.mEntryQueue.append entry,
      posted := s.posted + 1, appended := true } (waiting ++ [entry]) := by
  have hne : ∀ l : List Entry, l ++ [entry] ≠ [] := fun l => by simp
  have hpassing : ∀ done e post, s.Passing done e post → Passing { s with
      mLogCount := mLogCount, passed := passed, mEntryQueue := s.mEntryQueue.append entry,
      posted := s.posted + 1, appended := true } done e (post ++ [entry]) := by
    intro done e post h
    refine ⟨?_, hne post, _, entry, CursorList.at_append _ _⟩
    show s.mEntryQueue.items ++ [entry] = _
    rw [h.1, List.append_assoc]
    rfl
  unfold Waits at hs ⊢
  dsimp only
  cases hpc : s.pc with
  | idle =>
    rw [hpc] at hs
    exact ⟨congrArg (· ++ [entry]) hs.1, fun _ => Nat.succ_pos _⟩
  | first =>
    rw [hpc] at hs
    exact congrArg (· ++ [entry]) hs
  | emitting e =>
    rw [hpc] at hs
    obtain ⟨done, post, rfl, h⟩ := hs
    exact ⟨done, post ++ [entry], rfl, hpassing done e post h⟩
  | next =>
    rw [hpc] at hs
    obtain ⟨done, e, h⟩ := hs
    exact ⟨done, e, hpassing done e waiting h⟩
  | clear =>
    rw [hpc] at hs
    obtain ⟨⟨done, h⟩, -⟩ := hs
    refine ⟨⟨done, ?_⟩, iff_of_true rfl (hne waiting)⟩
    show s.mEntryQueue.items ++ [entry] = _
    rw [h, List.append_assoc]

theorem Waits.first (hs : s.Waits waiting) (hpc : s.pc = .first) :
    Waits { s.loop s.mEntryQueue.first with appended := false } waiting := by
  unfold Waits at hs
  rw [hpc] at hs
  cases waiting with
  | nil =>
    rw [CursorList.first_nil hs]
    exact ⟨⟨[], hs⟩, iff_of_false Bool.false_ne_true fun hne => hne rfl⟩
  | cons e post =>
    obtain ⟨q, hq, hat⟩ := CursorList.first_cons hs
    rw [hq]
    exact ⟨[], post, rfl, hat.items, hat⟩

theorem Waits.next (hs : s.Waits waiting) (hpc : s.pc = .next) :
    Waits (s.loop s.mEntryQueue.next) waiting := by
  unfold Waits at hs
  rw [hpc] at hs
  obtain ⟨done, e, hpassing⟩ := hs
  rcases hpassing.next with ⟨q, hq, hitems, happ⟩ | ⟨q, e', post', hq, rfl, happ, hat⟩
  · rw [hq]
    refine ⟨⟨done ++ [e], ?_⟩, happ⟩
    show q.items = _
    rw [hitems, hpassing.1, List.append_assoc]
    rfl
  · rw [hq]
    refine ⟨done ++ [e], post', rfl, hat.items, ?_⟩
    show if s.appended then _ else _
    rw [happ]
    exact hat

/-- If nothing has been appended, nothing waits when the queue is cleared. -/
theorem Waits.clear (hs : s.Waits waiting) (hpc : s.pc = .clear) (happ : s.appended = false) :
    waiting = [] := by
  unfold Waits at hs
  rw [hpc] at hs
  by_contra hne
  have hyes := hs.2.mpr hne
  rw [happ] at hyes
  cases hyes

/-- A step of `event` emits the first of the entries that wait, or none, and leaves the others
waiting, if it clears nothing that waits. -/
theorem Waits.step {act : Act} (hs : s.Waits waiting)
    (hemit : ∀ thread now aEntry aLevel aClass, act ≠ .emit thread now aEntry aLevel aClass)
    (hclear : act = .clear → s.appended = false) (h : s.step act = some s') :
    ∃ shown waiting', waiting = shown ++ waiting' ∧ s'.emitted = s.emitted ++ shown ∧
      s'.passed = s.passed ∧ s'.mOwnerThread = s.mOwnerThread ∧ s'.Waits waiting' := by
  have hnone : s.emitted = s.emitted ++ [] := (List.append_nil _).symm
  cases act with
  | emit thread now aEntry aLevel aClass => exact absurd rfl (hemit _ _ _ _ _)
  | event =>
    obtain ⟨⟨hpc, -⟩, he⟩ := Option.ite_none_right_eq_some.mp h
    cases he
    unfold Waits at hs
    rw [hpc] at hs
    exact ⟨[], waiting, rfl, hnone, rfl, rfl, hs.1⟩
  | first =>
    obtain ⟨hpc, he⟩ := Option.ite_none_right_eq_some.mp h
    cases he
    exact ⟨[], waiting, rfl, hnone, rfl, rfl, hs.first hpc⟩
  | newLogEntry =>
    unfold LogService.step at h
    dsimp only at h
    split at h
    · next e hpc =>
      cases h
      unfold Waits at hs
      rw [hpc] at hs
      obtain ⟨done, post, rfl, hpassing⟩ := hs
      exact ⟨[e], post, rfl, rfl, rfl, rfl, done, e, hpassing⟩
    · cases h
  | next =>
    obtain ⟨hpc, he⟩ := Option.ite_none_right_eq_some.mp h
    cases he
    exact ⟨[], waiting, rfl, hnone, rfl, rfl, hs.next hpc⟩
  | clear =>
    obtain ⟨hpc, he⟩ := Option.ite_none_right_eq_some.mp h
    cases he
    obtain rfl := hs.clear hpc (hclear rfl)
    exact ⟨[], [], rfl, hnone, rfl, rfl, rfl, fun h => absurd rfl h⟩

end Waits

/-- The entries passed are those emitted and then those that wait. -/
structure Tracks (s : LogService) (waiting : List Entry) : Prop where
  passed : s.passed = s.emitted ++ waiting
  calls : s.passed.map (·.call) = List.range s.passed.length
  queue : s.Waits waiting

theorem tracks_init (currentThread : Nat) : Tracks (init currentThread) [] :=
  ⟨rfl, rfl, rfl, fun h => absurd rfl h⟩

theorem Tracks.emit {s : LogService} {waiting : List Entry} (hs : Tracks s waiting) {thread : Nat}
    (hthread : thread ≠ s.mOwnerThread) (now : Int) (aEntry : Str) (aLevel : Int)
    (aClass : EntryClass) : ∃ waiting', Tracks (s.emit thread now aEntry aLevel aClass) waiting' := by
  unfold LogService.emit
  rw [if_neg hthread]
  generalize he : (⟨thread, s.passed.length, s.mLogCount + 1, now, aLevel, aClass, aEntry⟩ : Entry)
    = entry
  refine ⟨waiting ++ [entry], ?_, ?_, hs.queue.append _ _ _⟩
  · show s.passed ++ [entry] = s.emitted ++ (waiting ++ [entry])
    rw [hs.passed, List.append_assoc]
  · have hcall : entry.call = s.passed.length := by rw [← he]
    show (s.passed ++ [entry]).map (·.call) = List.range (s.passed ++ [entry]).length
    rw [List.map_append, hs.calls, List.length_append, List.length_singleton, List.range_succ,
      List.map_singleton, hcall]

/-- A step that clears nothing that waits. -/
theorem Tracks.step {s s' : LogService} {waiting : List Entry} {act : Act} (hs : Tracks s waiting)
    (hclear : act = .clear → s.appended = false) (h : s.step act = some s') :
    ∃ waiting', Tracks s' waiting' := by
  by_cases hemit : ∃ thread now aEntry aLevel aClass, act = .emit thread now aEntry aLevel aClass
  · obtain ⟨thread, now, aEntry, aLevel, aClass, rfl⟩ := hemit
    obtain ⟨hthread, he⟩ := Option.ite_none_left_eq_some.mp h
    cases he
    exact hs.emit hthread now aEntry aLevel aClass
  · push Not at hemit
    obtain ⟨shown, waiting', rfl, hemitted, hpassed, -, hwaits⟩ := hs.queue.step hemit hclear h
    refine ⟨waiting', ?_, hpassed ▸ hs.calls, hwaits⟩
    rw [hpassed, hs.passed, hemitted, List.append_assoc]

/-! ## What is delivered -/

theorem Tracks.nodup {s : LogService} {waiting : List Entry} (hs : Tracks s waiting) :
    s.passed.Nodup := by
  have hcalls : (s.passed.map (·.call)).Nodup := by
    rw [hs.calls]
    exact List.nodup_range
  exact hcalls.of_map _

theorem Tracks.mem_queue {s : LogService} {waiting : List Entry} (hs : Tracks s waiting) {e : Entry}
    (he : e ∈ waiting) : e ∈ s.mEntryQueue.items ∧ s.Pending := by
  have hqueue := hs.queue
  unfold Waits at hqueue
  cases hpc : s.pc with
  | idle =>
    rw [hpc] at hqueue
    exact ⟨hqueue.1.symm ▸ he, .inl (hqueue.2 (List.ne_nil_of_mem he))⟩
  | first =>
    rw [hpc] at hqueue
    exact ⟨hqueue.symm ▸ he, .inr (by rw [hpc]; exact nofun)⟩
  | emitting entry =>
    rw [hpc] at hqueue
    obtain ⟨done, post, rfl, h⟩ := hqueue
    exact ⟨h.1.symm ▸ List.mem_append_right _ he, .inr (by rw [hpc]; exact nofun)⟩
  | next =>
    rw [hpc] at hqueue
    obtain ⟨done, entry, h⟩ := hqueue
    refine ⟨?_, .inr (by rw [hpc]; exact nofun)⟩
    rw [h.1]
    exact List.mem_append_right _ (List.mem_cons_of_mem _ he)
  | clear =>
    rw [hpc] at hqueue
    obtain ⟨⟨done, h⟩, -⟩ := hqueue
    exact ⟨h.symm ▸ List.mem_append_right _ he, .inr (by rw [hpc]; exact nofun)⟩

theorem Tracks.delivered {s : LogService} {waiting : List Entry} (hs : Tracks s waiting) :
    Delivered s := by
  have hnodup := hs.nodup
  rw [hs.passed, List.nodup_append] at hnodup
  obtain ⟨hemitted, -, hdisjoint⟩ := hnodup
  refine ⟨fun e he => ?_, fun thread => ?_⟩
  · rw [hs.passed, List.mem_append] at he
    rcases he with he | he
    · exact .inl (List.count_eq_one_of_mem hemitted he)
    · exact .inr ⟨fun h => hdisjoint e h e he rfl, hs.mem_queue he⟩
  · rw [hs.passed]
    exact (List.sublist_append_left _ _).filter _

/-- What `clear` drops is lost. -/
theorem Tracks.lost {s s' : LogService} {waiting : List Entry} (hs : Tracks s waiting)
    (happ : s.appended = true) (h : s.step .clear = some s') : ¬ Delivered s' := by
  obtain ⟨hpc, he⟩ := Option.ite_none_right_eq_some.mp h
  cases he
  have hqueue := hs.queue
  unfold Waits at hqueue
  rw [hpc] at hqueue
  obtain ⟨e, rest, rfl⟩ := List.exists_cons_of_ne_nil (hqueue.2.mp happ)
  have hmem : e ∈ s.passed := by
    rw [hs.passed]
    exact List.mem_append_right _ List.mem_cons_self
  have hnot : e ∉ s.emitted := by
    have hnodup := hs.nodup
    rw [hs.passed, List.nodup_append] at hnodup
    exact fun h => hnodup.2.2 e h e List.mem_cons_self rfl
  intro hd
  rcases hd.once e hmem with hone | ⟨-, hq, -⟩
  · exact hnot (List.count_pos_iff.mp (hone ▸ Nat.one_pos))
  · exact absurd hq List.not_mem_nil

/-- **In every state of a run every entry has been delivered once, or waits for an event, and those
of one thread come in their order, exactly if no `clear` runs after an append that came after its
`first`.** -/
theorem delivered_iff {currentThread : Nat} {acts : List Act} {s : LogService}
    (hrun : Machine.run step (init currentThread) acts = some s) :
    (∀ t, Machine.Reaches step (init currentThread) acts t → Delivered t) ↔
      ∀ t, Machine.Takes step (init currentThread) acts t .clear → t.appended = false := by
  refine Machine.forall_reaches_iff_takes (I := fun t => ∃ waiting, Tracks t waiting)
    ⟨[], tracks_init currentThread⟩ ?_ ?_ ?_ hrun
  · rintro t ⟨waiting, ht⟩
    exact ht.delivered
  · rintro t act t' ⟨waiting, ht⟩ hclear hstep
    exact ht.step hclear hstep
  · rintro t t' ⟨waiting, ht⟩ happ hstep
    exact ht.lost (eq_true_of_ne_false happ) hstep

def message : Act := .emit 1 0 "Check song type!".toList 10 .crit

def twoMessages : List Act := [message, .event, .first, .newLogEntry, .next, message, .clear]

theorem message_lost : ¬ ∀ currentThread acts s,
    Machine.run step (init currentThread) acts = some s → Delivered s := by
  intro h
  have hlost : ∃ s, Machine.run step (init 0) twoMessages = some s ∧
      ∃ e ∈ s.passed, e ∉ s.emitted ∧ e ∉ s.mEntryQueue.items :=
    ⟨_, rfl, ⟨1, 1, 2, 0, 10, .crit, "Check song type!".toList⟩, by decide, by decide, by decide⟩
  obtain ⟨s, hs, e, he, hemitted, hqueue⟩ := hlost
  rcases (h 0 twoMessages s hs).once e he with hone | ⟨-, hq, -⟩
  · exact hemitted (List.count_pos_iff.mp (hone ▸ Nat.one_pos))
  · exact hqueue hq

def oneMessage : List Act := [message, .event, .first, .newLogEntry, .next, .clear]

theorem delivered_oneMessage : ∃ s, Machine.run step (init 0) oneMessage = some s ∧
    s.emitted.length = 1 ∧ ∀ t, Machine.Reaches step (init 0) oneMessage t → Delivered t := by
  have hclear : ∀ t act, Machine.Takes step (init 0) oneMessage t act → act = .clear →
      t.appended = false := by
    iterate 5 refine Machine.forall_takes_cons rfl nofun ?_
    exact Machine.forall_takes_cons rfl (fun _ => rfl) Machine.forall_takes_nil
  exact ⟨_, rfl, rfl, (delivered_iff rfl).mpr fun t ht => hclear t _ ht rfl⟩

end LogService

end NetDJ.Engine
