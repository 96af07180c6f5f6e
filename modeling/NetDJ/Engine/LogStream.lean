import NetDJ.Engine.LogService
import NetDJ.Engine.Listeners

/-!
# `LogService.cpp`, `FileLogger.cpp`, `Server.cpp`: the log from `Emit` to its readers

Entries of the owner's thread go straight to the slots of `NewLogEntry`, those of other threads
through the queue. The slots are that of the server, which writes the entry to its clients, and that
of the file logger.

* `LogService.Streams` : the accounts of each thread;
* `LogStream.step` : the service, the server and the file logger together;
* `Readers` : both slots have had the entries that were emitted;
* `run_listens` : what a client that listens is sent along a run;
* `exactly_once` : between two moments at which nothing waits, a client that listens and the file
  logger get the entries of each thread once and in their order, unless a `clear` drops some.
-/

namespace NetDJ.Engine

/-! ## The service, with entries of its owner -/

namespace LogService

/-- The entries of a thread, in their order. -/
def ofThread (thread : Nat) (l : List Entry) : List Entry := l.filter (·.thread = thread)

/-- What each thread has passed has been emitted, and then waits. -/
structure Streams (s : LogService) (waiting : List Entry) : Prop where
  passed : ∀ thread, ofThread thread s.passed = ofThread thread (s.emitted ++ waiting)
  foreign : ∀ e ∈ waiting, e.thread ≠ s.mOwnerThread
  waits : s.Waits waiting

theorem streams_init (currentThread : Nat) : Streams (init currentThread) [] :=
  ⟨fun _ => rfl, fun _ h => absurd h List.not_mem_nil, rfl, fun h => absurd rfl h⟩

theorem ofThread_append (thread : Nat) (l l' : List Entry) :
    ofThread thread (l ++ l') = ofThread thread l ++ ofThread thread l' := List.filter_append l l'

/-- The entries of one thread do not show in the accounts of another. -/
theorem ofThread_eq_nil {thread : Nat} {l : List Entry} (h : ∀ e ∈ l, e.thread ≠ thread) :
    ofThread thread l = [] :=
  List.filter_eq_nil_iff.mpr fun e he => by simpa using h e he

/-- A call of `Emit` in any thread, at any moment. -/
theorem Streams.emit {s : LogService} {waiting : List Entry} (hs : Streams s waiting)
    (thread : Nat) (now : Int) (aEntry : Str) (aLevel : Int) (aClass : EntryClass) :
    ∃ waiting', Streams (s.emit thread now aEntry aLevel aClass) waiting' := by
  unfold LogService.emit
  generalize he : (⟨thread, s.passed.length, s.mLogCount + 1, now, aLevel, aClass, aEntry⟩ : Entry)
    = entry
  have hthread : entry.thread = thread := by rw [← he]
  by_cases howner : thread = s.mOwnerThread
  · -- The entry overtakes those that wait, and none of these is the owner's.
    rw [if_pos howner]
    refine ⟨waiting, fun thread' => ?_, hs.foreign, hs.waits⟩
    show ofThread thread' (s.passed ++ [entry]) = ofThread thread' (s.emitted ++ [entry] ++ waiting)
    rw [ofThread_append, hs.passed, ofThread_append, ofThread_append, ofThread_append]
    by_cases hother : entry.thread = thread'
    · rw [ofThread_eq_nil fun e hmem h => hs.foreign e hmem (h.trans (by rw [← hother, hthread,
        howner])), List.append_nil, List.append_nil]
    · rw [ofThread_eq_nil (l := [entry]) fun e hmem => by rwa [List.mem_singleton.mp hmem],
        List.append_nil, List.append_nil]
  · rw [if_neg howner]
    refine ⟨waiting ++ [entry], fun thread' => ?_, fun e hmem => ?_, hs.waits.append _ _ _⟩
    · show ofThread thread' (s.passed ++ [entry]) =
        ofThread thread' (s.emitted ++ (waiting ++ [entry]))
      rw [ofThread_append, hs.passed, ← ofThread_append, List.append_assoc]
    · rcases List.mem_append.mp hmem with hmem | hmem
      · exact hs.foreign e hmem
      · rw [List.mem_singleton.mp hmem, hthread]
        exact howner

/-- A step that clears nothing that waits. -/
theorem Streams.step {s s' : LogService} {waiting : List Entry} {act : Act} (hs : Streams s waiting)
    (hclear : act = .clear → s.appended = false) (h : s.step act = some s') :
    ∃ waiting', Streams s' waiting' := by
  by_cases hemit : ∃ thread now aEntry aLevel aClass, act = .emit thread now aEntry aLevel aClass
  · obtain ⟨thread, now, aEntry, aLevel, aClass, rfl⟩ := hemit
    obtain ⟨-, he⟩ := Option.ite_none_left_eq_some.mp h
    cases he
    exact hs.emit thread now aEntry aLevel aClass
  · push Not at hemit
    obtain ⟨shown, waiting', rfl, hemitted, hpassed, howner, hwaits⟩ := hs.waits.step hemit hclear h
    refine ⟨waiting', fun thread => ?_, fun e he => ?_, hwaits⟩
    · rw [hpassed, hs.passed, hemitted, List.append_assoc]
    · rw [howner]
      exact hs.foreign e (List.mem_append_right _ he)

/-- `event` is not running, and no event has been posted. -/
def Quiet (s : LogService) : Prop := s.pc = .idle ∧ s.posted = 0

theorem Streams.quiet {s : LogService} {waiting : List Entry} (hs : Streams s waiting)
    (hquiet : s.Quiet) (thread : Nat) : ofThread thread s.passed = ofThread thread s.emitted := by
  have hqueue := hs.waits
  unfold Waits at hqueue
  rw [hquiet.1] at hqueue
  have hnone : waiting = [] := by
    by_contra hne
    exact (hqueue.2 hne).ne' hquiet.2
  rw [hs.passed, hnone, List.append_nil]

def shown (s : LogService) : Act → Option Entry
  | .newLogEntry =>
    match s.pc with
    | .emitting entry => some entry
    | _ => none
  | _ => none

/-- Beside calls of `Emit`, the entries emitted are those shown. -/
theorem step_emitted {s s' : LogService} {act : Act} (h : s.step act = some s') :
    s'.emitted = s.emitted ++ (s.shown act).toList := by
  have hnone : s.emitted = s.emitted ++ [] := (List.append_nil _).symm
  cases act with
  | emit thread now aEntry aLevel aClass =>
    obtain ⟨hthread, he⟩ := Option.ite_none_left_eq_some.mp h
    cases he
    unfold LogService.emit
    rw [if_neg hthread]
    exact hnone
  | newLogEntry =>
    unfold LogService.step at h
    unfold shown
    cases hpc : s.pc with
    | emitting entry =>
      simp only [hpc] at h ⊢
      cases h
      rfl
    | _ =>
      simp only [hpc] at h
      cases h
  | event | first | next | clear =>
    obtain ⟨-, he⟩ := Option.ite_none_right_eq_some.mp h
    cases he
    exact hnone

/-! ## What a step only adds to -/

theorem passed_emit (s : LogService) (thread : Nat) (now : Int) (aEntry : Str) (aLevel : Int)
    (aClass : EntryClass) : s.passed <+: (s.emit thread now aEntry aLevel aClass).passed := by
  unfold LogService.emit
  dsimp only
  split
  · exact List.prefix_append _ _
  · exact List.prefix_append _ _

theorem passed_step {s s' : LogService} {act : Act} (h : s.step act = some s') :
    s.passed <+: s'.passed := by
  cases act with
  | emit thread now aEntry aLevel aClass =>
    obtain ⟨-, he⟩ := Option.ite_none_left_eq_some.mp h
    cases he
    exact s.passed_emit thread now aEntry aLevel aClass
  | newLogEntry =>
    unfold LogService.step at h
    dsimp only at h
    split at h
    · cases h
      exact List.prefix_rfl
    · cases h
  | event | first | next | clear =>
    obtain ⟨-, he⟩ := Option.ite_none_right_eq_some.mp h
    cases he
    exact List.prefix_rfl

end LogService

/-! ## The readers -/

/-- The level of the logger, and the entries it has written to its file. -/
structure FileLogger where
  mLevel : BitVec 32
  mStream : List Report

def FileLogger.newLogEntry (f : FileLogger) (r : Report) : FileLogger :=
  if f.mLevel < r.level then f else { f with mStream := f.mStream ++ [r] }

theorem FileLogger.newLogEntry_mLevel (f : FileLogger) (r : Report) :
    (f.newLogEntry r).mLevel = f.mLevel := by
  unfold newLogEntry
  split
  · rfl
  · rfl

theorem FileLogger.newLogEntry_mStream (f : FileLogger) (r : Report) :
    (f.newLogEntry r).mStream = f.mStream ++ [r].filter (·.level ≤ f.mLevel) := by
  unfold newLogEntry
  rw [List.filter_singleton]
  by_cases hr : f.mLevel < r.level
  · rw [if_pos hr, decide_eq_false (BitVec.not_le.mpr hr)]
    exact (List.append_nil _).symm
  · rw [if_neg hr, decide_eq_true (BitVec.not_lt.mp hr)]
    rfl

/-- The entry as the slots get it: the element, and its attribute `level` as an `unsigned int`. -/
def Entry.report (e : Entry) : Report := .other e.element (BitVec.ofInt 32 e.level)

/-- The class that the service gives an entry of the server. -/
def Report.entryClass : Report → EntryClass
  | message _ _ aClass => aClass
  | clientNew | clientClose | skip _ | other _ _ => .info
  | quit _ => .crit

/-- The service, the server with its clients, and the file logger. `log` holds what `NewLogEntry` was
emitted with. -/
structure LogStream where
  service : LogService
  server : Clients
  flog : FileLogger
  log : List Report

namespace LogStream

-- `createEntry` makes the elements of the entries that report what the server does.
variable (createEntry : Report → Str)

def element : Report → Str
  | .other aEntry _ => aEntry
  | r => createEntry r

/-- `mainloop`: the level of the file logger is 999. -/
def init (currentThread : Nat) : LogStream :=
  ⟨.init currentThread, .init, ⟨999, []⟩, []⟩

/-- The slots but for the server's, if there is an entry. -/
def newLogEntry (s : LogStream) : Option Report → LogStream
  | none => s
  | some r => { s with flog := s.flog.newLogEntry r, log := s.log ++ [r] }

/-- `Emit` in the thread of the owner, if there is an entry. -/
def emit (s : LogStream) (now : Int) (aClass : EntryClass) : Option Report → LogService
  | none => s.service
  | some r => s.service.emit s.service.mOwnerThread now (element createEntry r) r.level.toInt aClass

inductive Act where
  /-- `Emit` in another thread, and the steps of `event`. -/
  | service (act : LogService.Act)
  /-- `Emit` in the thread of the owner, from elsewhere than the server. -/
  | owner (now : Int) (aEntry : Str) (aLevel : BitVec 32) (aClass : EntryClass)
  | server (now : Int) (act : Clients.Act)

/-- The thread of the owner runs one handler at a time: `event`, or an answer of the server. -/
def step (s : LogStream) : Act → Option LogStream
  | .service act =>
    if act = .event ∧ s.server.answering.isSome then none
    else
      let r := (s.service.shown act).map Entry.report
      (s.service.step act).map fun service =>
        { s.newLogEntry r with service := service, server := r.elim s.server s.server.newLogEntry }
  | .owner now aEntry aLevel aClass =>
    let r := .other aEntry aLevel
    some { s.newLogEntry (some r) with
      service := s.emit createEntry now aClass (some r), server := s.server.newLogEntry r }
  | .server now act =>
    if s.service.pc = .idle then
      let r := s.server.logged act
      (s.server.step act).map fun server =>
        { s.newLogEntry r with
          service := s.emit createEntry now ((r.map Report.entryClass).getD .info) r,
          server := server }
    else none

/-! ## One step -/

/-- What can be read of an entry: its element, and its level. -/
def text (r : Report) : Str × BitVec 32 := (element createEntry r, r.level)

/-- What a step does with an entry `r`, or with none. -/
structure Step (s : LogStream) (r : Option Report) (s' : LogStream) : Prop where
  log : s'.log = s.log ++ r.toList
  flog : s'.flog = r.elim s.flog s.flog.newLogEntry
  emitted : ∃ new : List Entry, s'.service.emitted = s.service.emitted ++ new ∧
    new.map (fun e => text createEntry e.report) = r.toList.map (text createEntry)
  server : (s'.server = s.server ∧ r = none) ∨
    ∃ act, s.server.step act = some s'.server ∧ s.server.logged act = r

theorem newLogEntry_flog (s : LogStream) (r : Option Report) :
    (s.newLogEntry r).flog = r.elim s.flog s.flog.newLogEntry := by
  cases r with
  | none => rfl
  | some r => rfl

theorem newLogEntry_log (s : LogStream) (r : Option Report) :
    (s.newLogEntry r).log = s.log ++ r.toList := by
  cases r with
  | none => exact (List.append_nil _).symm
  | some r => rfl

theorem emit_emitted (s : LogStream) (now : Int) (aClass : EntryClass) (r : Option Report) :
    ∃ new : List Entry, (s.emit createEntry now aClass r).emitted = s.service.emitted ++ new ∧
      new.map (fun e => text createEntry e.report) = r.toList.map (text createEntry) := by
  cases r with
  | none => exact ⟨[], (List.append_nil _).symm, rfl⟩
  | some r =>
    refine ⟨[⟨s.service.mOwnerThread, s.service.passed.length, s.service.mLogCount + 1, now,
      r.level.toInt, aClass, element createEntry r⟩], ?_, ?_⟩
    · unfold emit LogService.emit
      dsimp only
      rw [if_pos rfl]
    · show [(element createEntry r, BitVec.ofInt 32 r.level.toInt)] = [text createEntry r]
      rw [BitVec.ofInt_toInt]
      rfl

theorem step_spec {s s' : LogStream} {act : Act} (h : s.step createEntry act = some s') :
    ∃ r, Step createEntry s r s' := by
  cases act with
  | service act =>
    obtain ⟨-, h⟩ := Option.ite_none_left_eq_some.mp h
    obtain ⟨service, hservice, rfl⟩ := Option.map_eq_some_iff.mp h
    refine ⟨(s.service.shown act).map Entry.report, newLogEntry_log _ _, newLogEntry_flog _ _,
      ⟨_, LogService.step_emitted hservice, ?_⟩, ?_⟩
    · cases s.service.shown act with
      | none => rfl
      | some e => rfl
    · cases s.service.shown act with
      | none => exact .inl ⟨rfl, rfl⟩
      | some e => exact .inr ⟨.newLogEntry e.element (BitVec.ofInt 32 e.level), rfl, rfl⟩
  | owner now aEntry aLevel aClass =>
    cases h
    exact ⟨some (.other aEntry aLevel), rfl, rfl, emit_emitted createEntry s now aClass _,
      .inr ⟨.newLogEntry aEntry aLevel, rfl, rfl⟩⟩
  | server now act =>
    obtain ⟨-, h⟩ := Option.ite_none_right_eq_some.mp h
    obtain ⟨server, hserver, rfl⟩ := Option.map_eq_some_iff.mp h
    exact ⟨s.server.logged act, newLogEntry_log _ _, newLogEntry_flog _ _,
      emit_emitted createEntry s now _ _, .inr ⟨_, hserver, rfl⟩⟩

/-- The log holds the entries emitted, and the file those of them that have the logger's level. -/
structure Readers (s : LogStream) : Prop where
  log : s.log.map (text createEntry) = s.service.emitted.map fun e => text createEntry e.report
  flog : s.flog.mStream = s.log.filter (·.level ≤ s.flog.mLevel)
  level : s.flog.mLevel = 999
  numbered : s.server.Numbered

theorem readers_init (currentThread : Nat) : Readers createEntry (init currentThread) :=
  ⟨rfl, rfl, rfl, Clients.numbered_init⟩

theorem Readers.step {s s' : LogStream} {act : Act} (hs : Readers createEntry s)
    (h : s.step createEntry act = some s') : Readers createEntry s' := by
  obtain ⟨r, hlog, hflog, ⟨new, hemitted, hnew⟩, hserver⟩ := step_spec createEntry h
  have hlevel : s'.flog.mLevel = s.flog.mLevel := by
    rw [hflog]
    cases r with
    | none => rfl
    | some r => exact FileLogger.newLogEntry_mLevel s.flog r
  refine ⟨?_, ?_, hlevel.trans hs.level, ?_⟩
  · rw [hlog, hemitted, List.map_append, List.map_append, hs.log, hnew]
  · rw [hlevel, hlog, hflog, List.filter_append, ← hs.flog]
    cases r with
    | none => exact (List.append_nil _).symm
    | some r => exact s.flog.newLogEntry_mStream r
  · rcases hserver with ⟨he, -⟩ | ⟨act, hact, -⟩
    · rw [he]
      exact hs.numbered
    · exact hs.numbered.step hact

theorem streams_emit {s : LogStream} {waiting : List Entry} (hs : s.service.Streams waiting)
    (now : Int) (aClass : EntryClass) (r : Option Report) :
    ∃ waiting', (s.emit createEntry now aClass r).Streams waiting' := by
  cases r with
  | none => exact ⟨waiting, hs⟩
  | some r => exact hs.emit _ now _ _ aClass

/-- The accounts of the threads, unless entries that wait are cleared. -/
theorem streams_step {s s' : LogStream} {act : Act} (hs : ∃ waiting, s.service.Streams waiting)
    (hclear : act = .service .clear → s.service.appended = false)
    (h : s.step createEntry act = some s') : ∃ waiting, s'.service.Streams waiting := by
  obtain ⟨waiting, hs⟩ := hs
  cases act with
  | service act =>
    obtain ⟨-, h⟩ := Option.ite_none_left_eq_some.mp h
    obtain ⟨service, hservice, rfl⟩ := Option.map_eq_some_iff.mp h
    exact hs.step (fun he => hclear (congrArg Act.service he)) hservice
  | owner now aEntry aLevel aClass =>
    cases h
    exact streams_emit createEntry hs now aClass (some (.other aEntry aLevel))
  | server now act =>
    obtain ⟨-, h⟩ := Option.ite_none_right_eq_some.mp h
    obtain ⟨server, -, rfl⟩ := Option.map_eq_some_iff.mp h
    exact streams_emit createEntry hs now _ _

theorem passed_emit (s : LogStream) (now : Int) (aClass : EntryClass) (r : Option Report) :
    s.service.passed <+: (s.emit createEntry now aClass r).passed := by
  cases r with
  | none => exact List.prefix_rfl
  | some r => exact s.service.passed_emit _ now _ _ aClass

theorem passed_step {s s' : LogStream} {act : Act} (h : s.step createEntry act = some s') :
    s.service.passed <+: s'.service.passed := by
  cases act with
  | service act =>
    obtain ⟨-, h⟩ := Option.ite_none_left_eq_some.mp h
    obtain ⟨service, hservice, rfl⟩ := Option.map_eq_some_iff.mp h
    exact LogService.passed_step hservice
  | owner now aEntry aLevel aClass =>
    cases h
    exact passed_emit createEntry s now aClass (some (.other aEntry aLevel))
  | server now act =>
    obtain ⟨-, h⟩ := Option.ite_none_right_eq_some.mp h
    obtain ⟨server, -, rfl⟩ := Option.map_eq_some_iff.mp h
    exact passed_emit createEntry s now _ _

/-! ## Runs -/

/-- A client that listens is sent what is logged, as long as its connection is open. -/
theorem run_listens {acts : List Act} {s s' : LogStream} {socket : Nat}
    (hs : Readers createEntry s) (hl : s.server.Listens socket)
    (h : Machine.run (step createEntry) s acts = some s') : s'.server.Gone socket ∨
      (s'.server.Listens socket ∧ ∃ new, s'.log = s.log ++ new ∧
        s'.server.entriesTo socket = s.server.entriesTo socket ++ new.filter (·.level ≤ 999)) := by
  refine (Machine.run_keeps (I := fun s' => Readers createEntry s' ∧ (s'.server.Gone socket ∨
      (s'.server.Listens socket ∧ ∃ new, s'.log = s.log ++ new ∧
        s'.server.entriesTo socket = s.server.entriesTo socket ++ new.filter (·.level ≤ 999))))
    ?_ ⟨hs, .inr ⟨hl, [], (List.append_nil _).symm, (List.append_nil _).symm⟩⟩ h).2
  rintro t act t' ⟨ht, hcase⟩ hstep
  refine ⟨ht.step createEntry hstep, ?_⟩
  obtain ⟨r, hlog, -, -, hserver⟩ := step_spec createEntry hstep
  rcases hcase with hgone | ⟨hlt, new, hnew, hentries⟩
  · left
    rcases hserver with ⟨he, -⟩ | ⟨act, hact, -⟩
    · rwa [he]
    · exact (Clients.step_gone hgone hact).1
  · rcases hserver with ⟨he, rfl⟩ | ⟨act, hact, rfl⟩
    · rw [he, hlog]
      exact .inr ⟨hlt, new, (List.append_nil _).trans hnew, hentries⟩
    · obtain ⟨hnext, hsent⟩ := Clients.step_listens ht.numbered hlt hact
      rcases hnext with hnext | hnext
      · refine .inr ⟨hnext, new ++ (t.server.logged act).toList, ?_, ?_⟩
        · rw [hlog, hnew, List.append_assoc]
        · rw [hsent, hentries, List.filter_append, List.append_assoc]
      · exact .inl hnext

theorem run_passed {acts : List Act} {s s' : LogStream}
    (h : Machine.run (step createEntry) s acts = some s') :
    s.service.passed <+: s'.service.passed :=
  Machine.run_keeps (I := fun t => s.service.passed <+: t.service.passed)
    (fun _ _ _ ht hstep => ht.trans (passed_step createEntry hstep)) List.prefix_rfl h

theorem run_emitted {acts : List Act} {s s' : LogStream}
    (h : Machine.run (step createEntry) s acts = some s') :
    s.service.emitted <+: s'.service.emitted := by
  refine Machine.run_keeps (I := fun t => s.service.emitted <+: t.service.emitted)
    (fun t _ t' ht hstep => ht.trans ?_) List.prefix_rfl h
  obtain ⟨r, -, -, ⟨new, hnew, -⟩, -⟩ := step_spec createEntry hstep
  exact ⟨new, hnew.symm⟩

theorem run_readers {acts : List Act} {s s' : LogStream} (hs : Readers createEntry s)
    (h : Machine.run (step createEntry) s acts = some s') : Readers createEntry s' :=
  Machine.run_keeps (fun _ _ _ ht hstep => ht.step createEntry hstep) hs h

theorem map_text_filter (l : List Report) (aLevel : BitVec 32) :
    (l.filter (·.level ≤ aLevel)).map (text createEntry) =
      (l.map (text createEntry)).filter (·.2 ≤ aLevel) := by
  rw [List.filter_map]
  rfl

/-- **Between two moments at which nothing waits, a client that listens and the file logger get the
entries of level 999 or less that each thread has passed, each once and in their order, as long as no
`clear` runs after an append that came after its `first`.** -/
theorem exactly_once {currentThread : Nat} {before after : List Act} {t s : LogStream}
    {socket : Nat} (ht : Machine.run (step createEntry) (init currentThread) before = some t)
    (hs : Machine.run (step createEntry) t after = some s)
    (hclear : ∀ u, Machine.Takes (step createEntry) (init currentThread) (before ++ after) u
      (.service .clear) → u.service.appended = false)
    (htquiet : t.service.Quiet) (hsquiet : s.service.Quiet)
    (htlistens : t.server.Listens socket) (hslistens : s.server.Listens socket) :
    ∃ passed emitted, s.service.passed = t.service.passed ++ passed ∧
      (∀ thread, LogService.ofThread thread emitted = LogService.ofThread thread passed) ∧
      (s.server.entriesTo socket).map (text createEntry) =
        (t.server.entriesTo socket).map (text createEntry) ++
          (emitted.map fun e => text createEntry e.report).filter (·.2 ≤ 999) ∧
      s.flog.mStream.map (text createEntry) = t.flog.mStream.map (text createEntry) ++
          (emitted.map fun e => text createEntry e.report).filter (·.2 ≤ 999) := by
  have hrun : Machine.run (step createEntry) (init currentThread) (before ++ after) = some s := by
    rw [Machine.run_append, ht]
    exact hs
  have hstreams : ∀ acts u, Machine.run (step createEntry) (init currentThread) acts = some u →
      (∀ v act, Machine.Takes (step createEntry) (init currentThread) acts v act →
        act = .service .clear → v.service.appended = false) →
      ∃ waiting, u.service.Streams waiting := fun acts u hu hC =>
    Machine.run_invariant_under (fun _ _ _ hv hC hstep => streams_step createEntry hv hC hstep)
      ⟨[], LogService.streams_init currentThread⟩ hC hu
  obtain ⟨passed, hpassed⟩ := run_passed createEntry hs
  obtain ⟨emitted, hemitted⟩ := run_emitted createEntry hs
  have htreaders := run_readers createEntry (readers_init createEntry currentThread) ht
  have hsreaders := run_readers createEntry htreaders hs
  obtain ⟨tw, htw⟩ := hstreams before t ht fun v act hv hact => hclear v (hact ▸ hv.append after)
  obtain ⟨sw, hsw⟩ := hstreams _ s hrun fun v act hv hact => hclear v (hact ▸ hv)
  have hlog : ∀ new, s.log = t.log ++ new →
      new.map (text createEntry) = emitted.map fun e => text createEntry e.report := by
    intro new hnew
    have h := hsreaders.log
    rw [hnew, ← hemitted, List.map_append, List.map_append, htreaders.log] at h
    exact List.append_cancel_left h
  rcases run_listens createEntry htreaders htlistens hs with hgone | ⟨-, new, hnew, hentries⟩
  · exact absurd (hgone.closed _ hslistens rfl) Bool.true_eq_false.mp
  refine ⟨passed, emitted, hpassed.symm, fun thread => ?_, ?_, ?_⟩
  · have h := hsw.quiet hsquiet thread
    rw [← hpassed, ← hemitted, LogService.ofThread_append, LogService.ofThread_append,
      htw.quiet htquiet] at h
    exact (List.append_cancel_left h).symm
  · rw [hentries, List.map_append, map_text_filter, hlog new hnew]
  · rw [hsreaders.flog, htreaders.flog, hsreaders.level, htreaders.level, hnew, List.filter_append,
      List.map_append, map_text_filter createEntry new, hlog new hnew]

def asking : List Act :=
  [.server 0 .newClient,
    .server 0 (.readClient 0 id oneUserServer ⟨"GET".toList, "/log".toList, []⟩)] ++
  List.replicate 8 (.server 0 .answer)

def twoEntries : List Act :=
  [.service LogService.message, .server 0 .newClient, .service .event, .service .first,
    .service .newLogEntry, .service .next, .service .clear]

theorem exactly_once_twoEntries : ∃ t s,
    Machine.run (step fun _ => []) (init 0) asking = some t ∧
    Machine.run (step fun _ => []) t twoEntries = some s ∧
    ∃ passed emitted, s.service.passed = t.service.passed ++ passed ∧
      (∀ thread, LogService.ofThread thread emitted = LogService.ofThread thread passed) ∧
      (s.server.entriesTo 0).map (text fun _ => []) =
        (t.server.entriesTo 0).map (text fun _ => []) ++
          (emitted.map fun e => text (fun _ => []) e.report).filter (·.2 ≤ 999) ∧
      s.flog.mStream.map (text fun _ => []) = t.flog.mStream.map (text fun _ => []) ++
          (emitted.map fun e => text (fun _ => []) e.report).filter (·.2 ≤ 999) := by
  refine ⟨_, _, rfl, rfl, @exactly_once (fun _ => []) 0 asking twoEntries _ _ 0 rfl rfl
    (fun u hu => ?_) ⟨rfl, rfl⟩ ⟨rfl, rfl⟩ (List.mem_of_getElem? (i := 0) rfl)
    (List.mem_of_getElem? (i := 0) rfl)⟩
  have hlast : Machine.Takes (step fun _ => []) (init 0)
      ((asking ++ twoEntries.dropLast) ++ .service .clear :: []) u (.service .clear) := hu
  have happ : (Machine.run (step fun _ => []) (init 0) (asking ++ twoEntries.dropLast)).map
      (·.service.appended) = some false := rfl
  rw [hlast.once (by simp [asking, twoEntries, LogService.message]) List.not_mem_nil] at happ
  exact Option.some.inj happ

end LogStream

end NetDJ.Engine
