import NetDJ.Lib.Machine
import NetDJ.Engine.ReadClient

/-!
# `Server.cpp`, `Client.cpp`: the clients and the log

The server answers one request after the other. Log entries come from the server itself, at its
signals, and from elsewhere, at any moment.

* `Clients.newLogEntry` : an entry is written to the clients with its level;
* `Clients.step` : connections, requests, the effects of an answer one by one, and entries;
* `Private` : entries go to the clients that have issued `/log`, and the others get the answers to
  their requests;
* `Discreet` : an entry of level 0 comes only when everyone has asked for it;
* `Ok`, `Ok.step` : the invariant, and each effect of an answer keeps it;
* `not_private` : a step that is not discreet is not private;
* `private_iff` : it is private exactly if, whenever an entry of level 0 comes, everyone who is
  connected has issued `/log`.
-/

namespace NetDJ.Engine

/-- A client: its connection, whether its socket is open, and its log level. -/
structure Client where
  mSocket : Nat
  isOpen : Bool
  mLogLevel : BitVec 32
  deriving DecidableEq

inductive Report where
  | message (aMsg : Str) (aLevel : BitVec 32) (aClass : EntryClass)
  | clientNew
  | clientClose
  | skip (aUsername : Str)
  | quit (aUsername : Str)
  /-- An entry from elsewhere: the player, a signal, Qt. -/
  | other (aEntry : Str) (aLevel : BitVec 32)
  deriving DecidableEq

def Report.level : Report → BitVec 32
  | message _ aLevel _ => aLevel
  | clientNew | clientClose => 100
  | skip _ => 20
  | quit _ => 0
  | other _ aLevel => aLevel

/-- What is written to a socket. -/
inductive Chunk where
  | out (o : Out)
  | entry (r : Report)
  deriving DecidableEq

/-- An answer under way: the socket, the effects to come, and whether the socket is closed then. -/
structure Answering where
  socket : Nat
  effects : List Effect
  closeCon : Bool

/-- The clients, the number of connections so far, the answer under way, and what has been written to
which socket. `answers` holds the effects of the answers to the requests of each connection, and
`logging` the connections on which `/log` has been issued. -/
structure Clients where
  mClients : List Client
  connections : Nat
  answering : Option Answering
  written : List (Nat × Chunk)
  answers : List (Nat × List Effect)
  logging : List Nat

namespace Clients

def init : Clients := ⟨[], 0, none, [], [], []⟩

/-- `NewLogEntry`: the entry is written to the open sockets of the clients whose level it has. -/
def newLogEntry (s : Clients) (r : Report) : Clients :=
  { s with
    written := s.written ++
      (s.mClients.filter fun c => c.isOpen && decide (r.level ≤ c.mLogLevel)).map
        fun c => (c.mSocket, .entry r) }

def setLogLevel (s : Clients) (socket : Nat) (aLevel : BitVec 32) : Clients :=
  { s with
    mClients := s.mClients.map fun c =>
      if c.mSocket = socket then { c with mLogLevel := aLevel } else c }

/-- One effect of the answer to `socket`. -/
def perform (s : Clients) (socket : Nat) : Effect → Clients
  | .out o => { s with written := s.written ++ [(socket, .out o)] }
  | .sigMessage aMsg aLevel aClass => s.newLogEntry (.message aMsg (BitVec.ofNat 32 aLevel) aClass)
  | .sigSkip aUsername => s.newLogEntry (.skip aUsername)
  | .sigQuit aUsername => s.newLogEntry (.quit aUsername)
  | .setLogLevel aLevel => s.setLogLevel socket (BitVec.ofNat 32 aLevel)

inductive Act where
  | newClient
  | clientClosed (socket : Nat)
  /-- A request of a client is read; `server` is what its answer is made from. -/
  | readClient (socket : Nat) (urlPath : Str → Str) (server : Server) (header : RequestHeader)
  /-- The next effect of the answer under way, or its end. -/
  | answer
  | newLogEntry (aEntry : Str) (aLevel : BitVec 32)

def step (s : Clients) : Act → Option Clients
  | .newClient =>
    if s.answering.isNone then
      some (newLogEntry { s with
        mClients := s.mClients ++ [⟨s.connections, true, 0⟩],
        connections := s.connections + 1 } .clientNew)
    else none
  | .clientClosed socket =>
    if s.answering.isNone ∧ ∃ c ∈ s.mClients, c.mSocket = socket then
      some { s.newLogEntry .clientClose with
        mClients := s.mClients.filter fun c => c.mSocket ≠ socket }
    else none
  | .readClient socket urlPath server header =>
    if s.answering.isNone ∧ ∃ c ∈ s.mClients, c.mSocket = socket ∧ c.isOpen = true then
      some { s with
        answering := some ⟨socket, (server.answer urlPath header).1,
          (server.answer urlPath header).2⟩,
        answers := s.answers ++ [(socket, (server.answer urlPath header).1)],
        logging := if server.executed urlPath header = some .log then s.logging ++ [socket]
          else s.logging }
    else none
  | .answer =>
    match s.answering with
    | none => none
    | some ⟨socket, effect :: effects, closeCon⟩ =>
      some { s.perform socket effect with answering := some ⟨socket, effects, closeCon⟩ }
    | some ⟨socket, [], closeCon⟩ =>
      some { s with
        answering := none,
        mClients := s.mClients.map fun c =>
          if closeCon = true ∧ c.mSocket = socket then { c with isOpen := false } else c }
  | .newLogEntry aEntry aLevel => some (s.newLogEntry (.other aEntry aLevel))

/-! ## What is private -/

/-- What the effects stream to the client. -/
def outsOf : List Effect → List Chunk
  | [] => []
  | .out o :: effects => .out o :: outsOf effects
  | .sigMessage .. :: effects | .sigSkip _ :: effects | .sigQuit _ :: effects
  | .setLogLevel _ :: effects => outsOf effects

def sentTo (s : Clients) (socket : Nat) : List Chunk :=
  (s.written.filter (·.1 = socket)).map (·.2)

/-- What the answer under way has still to stream to the socket. -/
def due (s : Clients) (socket : Nat) : List Chunk :=
  match s.answering with
  | some a => if a.socket = socket then outsOf a.effects else []
  | none => []

/-- The answers to the requests of the connection. -/
def responses (s : Clients) (socket : Nat) : List Chunk :=
  (s.answers.filter (·.1 = socket)).flatMap fun a => outsOf a.2

/-- Entries are written only to clients that have issued `/log`, and any other client gets exactly
the answers to its requests. -/
structure Private (s : Clients) : Prop where
  entries : ∀ socket r, (socket, .entry r) ∈ s.written → socket ∈ s.logging
  answers : ∀ socket, socket ∉ s.logging → s.sentTo socket ++ s.due socket = s.responses socket

/-- The entry that a step writes to the clients. -/
def Logs (s : Clients) : Act → Report → Prop
  | .newClient, r => r = .clientNew
  | .clientClosed _, r => r = .clientClose
  | .readClient _ _ _ _, _ => False
  | .answer, r => ∃ socket effect effects closeCon,
      s.answering = some ⟨socket, effect :: effects, closeCon⟩ ∧
      match effect with
      | .sigMessage aMsg aLevel aClass => r = .message aMsg (BitVec.ofNat 32 aLevel) aClass
      | .sigSkip aUsername => r = .skip aUsername
      | .sigQuit aUsername => r = .quit aUsername
      | .out _ | .setLogLevel _ => False
  | .newLogEntry aEntry aLevel, r => r = .other aEntry aLevel

/-- If the step writes an entry of level 0, all clients that are connected have issued `/log`. -/
def Discreet (s : Clients) (act : Act) : Prop :=
  ∀ r, s.Logs act r → r.level = 0 → ∀ c ∈ s.mClients, c.isOpen = true → c.mSocket ∈ s.logging

/-! ## The invariant -/

/-- Beside being private: a client has a log level only if `/log` has been issued, and so has it
been where an answer is going to set one. -/
structure Ok (s : Clients) : Prop extends Private s where
  levels : ∀ c ∈ s.mClients, c.mLogLevel ≠ 0 → c.mSocket ∈ s.logging
  sets : ∀ a, s.answering = some a → ∀ aLevel, .setLogLevel aLevel ∈ a.effects →
    a.socket ∈ s.logging

theorem ok_init : Ok init where
  entries _ _ h := absurd h List.not_mem_nil
  answers _ _ := rfl
  levels _ h := absurd h List.not_mem_nil
  sets _ h := nomatch h

theorem sentTo_append {s : Clients} {socket : Nat} {new : List (Nat × Chunk)}
    (h : ∀ p ∈ new, p.1 ≠ socket) :
    ({ s with written := s.written ++ new } : Clients).sentTo socket = s.sentTo socket := by
  have hnew : new.filter (fun p => decide (p.1 = socket)) = [] :=
    List.filter_eq_nil_iff.mpr fun p hp => by simpa using h p hp
  unfold sentTo
  rw [List.filter_append, hnew, List.append_nil]

theorem Ok.newLogEntry {s : Clients} (hs : Ok s) {r : Report}
    (hzero : r.level = 0 → ∀ c ∈ s.mClients, c.isOpen = true → c.mSocket ∈ s.logging) :
    Ok (s.newLogEntry r) := by
  have hlogging : ∀ p ∈ (s.mClients.filter fun c =>
      c.isOpen && decide (r.level ≤ c.mLogLevel)).map fun c => (c.mSocket, Chunk.entry r),
      p.1 ∈ s.logging := by
    intro p hp
    obtain ⟨c, hc, rfl⟩ := List.mem_map.mp hp
    obtain ⟨hmem, hlevel⟩ := List.mem_filter.mp hc
    obtain ⟨hopen, hle⟩ := Bool.and_eq_true_iff.mp hlevel
    by_cases hr : r.level = 0
    · exact hzero hr c hmem hopen
    · refine hs.levels c hmem fun hc0 => hr ?_
      rw [hc0] at hle
      exact BitVec.le_zero_iff.mp (of_decide_eq_true hle)
  refine ⟨⟨fun socket r' h => ?_, fun socket h => ?_⟩, hs.levels, hs.sets⟩
  · rcases List.mem_append.mp h with h | h
    · exact hs.entries socket r' h
    · exact hlogging _ h
  · have hsent : (s.newLogEntry r).sentTo socket = s.sentTo socket :=
      sentTo_append fun p hp he => h (he ▸ hlogging p hp)
    rw [hsent]
    exact hs.answers socket h

theorem Ok.setLogLevel {s : Clients} (hs : Ok s) {socket : Nat} (h : socket ∈ s.logging)
    (aLevel : BitVec 32) : Ok (s.setLogLevel socket aLevel) := by
  refine ⟨⟨hs.entries, hs.answers⟩, fun c hc hlevel => ?_, hs.sets⟩
  obtain ⟨c, hmem, rfl⟩ := List.mem_map.mp hc
  by_cases heq : c.mSocket = socket
  · rw [if_pos heq]
    exact heq ▸ h
  · rw [if_neg heq] at hlevel ⊢
    exact hs.levels c hmem hlevel

theorem due_eq {s : Clients} {socket : Nat} {effects : List Effect} {closeCon : Bool}
    (h : s.answering = some ⟨socket, effects, closeCon⟩) (socket' : Nat) :
    s.due socket' = if socket = socket' then outsOf effects else [] := by
  unfold due
  rw [h]

theorem Ok.drop {s : Clients} (hs : Ok s) {socket : Nat} {effect : Effect} {effects : List Effect}
    {closeCon : Bool} (h : s.answering = some ⟨socket, effect :: effects, closeCon⟩)
    (hout : outsOf (effect :: effects) = outsOf effects) :
    Ok { s with answering := some ⟨socket, effects, closeCon⟩ } := by
  refine ⟨⟨hs.entries, fun socket' h' => ?_⟩, hs.levels, ?_⟩
  · have hanswers := hs.answers socket' h'
    rw [due_eq h, hout] at hanswers
    rw [due_eq rfl]
    exact hanswers
  · rintro a ha aLevel hmem
    cases ha
    exact hs.sets ⟨socket, effect :: effects, closeCon⟩ h aLevel (List.mem_cons_of_mem effect hmem)

theorem Ok.out {s : Clients} (hs : Ok s) {socket : Nat} {o : Out} {effects : List Effect}
    {closeCon : Bool} (h : s.answering = some ⟨socket, .out o :: effects, closeCon⟩) :
    Ok { s with
      written := s.written ++ [(socket, .out o)],
      answering := some ⟨socket, effects, closeCon⟩ } := by
  refine ⟨⟨fun socket' r hmem => ?_, fun socket' h' => ?_⟩, hs.levels, ?_⟩
  · rcases List.mem_append.mp hmem with hmem | hmem
    · exact hs.entries socket' r hmem
    · cases List.mem_singleton.mp hmem
  · have hanswers := hs.answers socket' h'
    rw [due_eq h] at hanswers
    rw [due_eq rfl]
    by_cases heq : socket = socket'
    · subst heq
      rw [if_pos rfl] at hanswers ⊢
      have hsent : sentTo { s with
          written := s.written ++ [(socket, .out o)],
          answering := some ⟨socket, effects, closeCon⟩ } socket = s.sentTo socket ++ [.out o] := by
        simp [sentTo]
      rw [hsent, List.append_assoc]
      exact hanswers
    · rw [if_neg heq] at hanswers ⊢
      have hsent : sentTo { s with
          written := s.written ++ [(socket, .out o)],
          answering := some ⟨socket, effects, closeCon⟩ } socket' = s.sentTo socket' :=
        sentTo_append fun p hp => List.mem_singleton.mp hp ▸ heq
      rw [hsent]
      exact hanswers
  · rintro a ha aLevel hmem
    cases ha
    exact hs.sets ⟨socket, .out o :: effects, closeCon⟩ h aLevel (List.mem_cons_of_mem _ hmem)

theorem Ok.perform {s : Clients} (hs : Ok s) {socket : Nat} {effect : Effect}
    {effects : List Effect} {closeCon : Bool}
    (h : s.answering = some ⟨socket, effect :: effects, closeCon⟩) (hdiscreet : s.Discreet .answer) :
    Ok { s.perform socket effect with answering := some ⟨socket, effects, closeCon⟩ } := by
  cases effect with
  | out o => exact hs.out h
  | sigMessage aMsg aLevel aClass =>
    exact (hs.drop h rfl).newLogEntry (hdiscreet _ ⟨socket, _, effects, closeCon, h, rfl⟩)
  | sigSkip aUsername =>
    exact (hs.drop h rfl).newLogEntry (hdiscreet _ ⟨socket, _, effects, closeCon, h, rfl⟩)
  | sigQuit aUsername =>
    exact (hs.drop h rfl).newLogEntry (hdiscreet _ ⟨socket, _, effects, closeCon, h, rfl⟩)
  | setLogLevel aLevel =>
    exact (hs.drop h rfl).setLogLevel (hs.sets _ h aLevel List.mem_cons_self) _

theorem Ok.readClient {s : Clients} (hs : Ok s) (hidle : s.answering = none) (socket : Nat)
    (urlPath : Str → Str) (server : Server) (header : RequestHeader) :
    Ok { s with
      answering := some ⟨socket, (server.answer urlPath header).1,
        (server.answer urlPath header).2⟩,
      answers := s.answers ++ [(socket, (server.answer urlPath header).1)],
      logging := if server.executed urlPath header = some .log then s.logging ++ [socket]
        else s.logging } := by
  have hmono : ∀ socket' ∈ s.logging, socket' ∈ (if server.executed urlPath header = some .log then
      s.logging ++ [socket] else s.logging) := by
    intro socket' h
    split
    · exact List.mem_append_left _ h
    · exact h
  refine ⟨⟨fun socket' r h => hmono _ (hs.entries socket' r h), fun socket' h => ?_⟩,
    fun c hc hlevel => hmono _ (hs.levels c hc hlevel), ?_⟩
  · have hanswers := hs.answers socket' fun hmem => h (hmono _ hmem)
    have hdue : s.due socket' = [] := by
      unfold due
      rw [hidle]
    rw [hdue, List.append_nil] at hanswers
    rw [due_eq rfl]
    show s.sentTo socket' ++ _ = _
    rw [hanswers]
    unfold responses
    rw [List.filter_append, List.flatMap_append]
    by_cases heq : socket = socket'
    · simp [heq]
    · simp [heq]
  · rintro a ha aLevel hmem
    cases ha
    dsimp only
    rw [if_pos (Server.executed_log urlPath server hmem)]
    exact List.mem_append_right _ List.mem_cons_self

/-- A step that is discreet keeps the invariant. -/
theorem Ok.step {s s' : Clients} {act : Act} (hs : Ok s) (hdiscreet : s.Discreet act)
    (h : s.step act = some s') : Ok s' := by
  cases act with
  | newClient =>
    obtain ⟨-, he⟩ := Option.ite_none_right_eq_some.mp h
    cases he
    have hnew : Ok { s with
        mClients := s.mClients ++ [⟨s.connections, true, 0⟩],
        connections := s.connections + 1 } := by
      refine ⟨⟨hs.entries, hs.answers⟩, fun c hc hlevel => ?_, hs.sets⟩
      rcases List.mem_append.mp hc with hc | hc
      · exact hs.levels c hc hlevel
      · rw [List.mem_singleton.mp hc] at hlevel
        exact absurd rfl hlevel
    exact hnew.newLogEntry fun h => absurd h (by decide)
  | clientClosed socket =>
    obtain ⟨-, he⟩ := Option.ite_none_right_eq_some.mp h
    cases he
    have hentry : Ok (s.newLogEntry .clientClose) := hs.newLogEntry fun h => absurd h (by decide)
    exact ⟨⟨hentry.entries, hentry.answers⟩,
      fun c hc => hentry.levels c (List.mem_of_mem_filter hc), hentry.sets⟩
  | readClient socket urlPath server header =>
    obtain ⟨⟨hidle, -⟩, he⟩ := Option.ite_none_right_eq_some.mp h
    cases he
    exact hs.readClient (Option.isNone_iff_eq_none.mp hidle) socket urlPath server header
  | answer =>
    unfold Clients.step at h
    dsimp only at h
    split at h
    · cases h
    · next socket effect effects closeCon hanswering =>
      cases h
      exact hs.perform hanswering hdiscreet
    · next socket closeCon hanswering =>
      cases h
      refine ⟨⟨hs.entries, fun socket' h' => ?_⟩, fun c hc hlevel => ?_, fun a ha => nomatch ha⟩
      · have hanswers := hs.answers socket' h'
        rw [due_eq hanswering, outsOf, ite_self] at hanswers
        exact hanswers
      · obtain ⟨c, hmem, rfl⟩ := List.mem_map.mp hc
        split at hlevel
        · next hclose =>
          rw [if_pos hclose]
          exact hs.levels c hmem hlevel
        · next hclose =>
          rw [if_neg hclose]
          exact hs.levels c hmem hlevel
  | newLogEntry aEntry aLevel =>
    cases h
    exact hs.newLogEntry (hdiscreet _ rfl)

/-- An entry reaches everyone whose level it has. -/
theorem mem_newLogEntry {s : Clients} {c : Client} (hc : c ∈ s.mClients) (hopen : c.isOpen = true)
    {r : Report} (hr : r.level = 0) : (c.mSocket, .entry r) ∈ (s.newLogEntry r).written := by
  refine List.mem_append_right _ (List.mem_map.mpr ⟨c, List.mem_filter.mpr ⟨hc, ?_⟩, rfl⟩)
  rw [hopen, hr, Bool.true_and]
  exact decide_eq_true (Nat.zero_le _)

/-- A step that is not discreet writes the entry to someone who has not asked for it. -/
theorem not_private {s s' : Clients} {act : Act} (hdiscreet : ¬ s.Discreet act)
    (h : s.step act = some s') : ¬ Private s' := by
  unfold Discreet at hdiscreet
  push Not at hdiscreet
  obtain ⟨r, hlogs, hr, c, hc, hopen, hlog⟩ := hdiscreet
  have hwritten := mem_newLogEntry hc hopen hr
  suffices hs' : (c.mSocket, .entry r) ∈ s'.written ∧ s'.logging = s.logging from
    fun hp => hlog (hs'.2 ▸ hp.entries _ r hs'.1)
  cases act with
  | newClient =>
    rw [show r = .clientNew from hlogs] at hr
    exact absurd hr (by decide)
  | clientClosed socket =>
    rw [show r = .clientClose from hlogs] at hr
    exact absurd hr (by decide)
  | readClient socket urlPath server header => exact hlogs.elim
  | answer =>
    obtain ⟨socket, effect, effects, closeCon, hanswering, heffect⟩ := hlogs
    unfold Clients.step at h
    dsimp only at h
    rw [hanswering] at h
    cases h
    cases effect with
    | out o => exact heffect.elim
    | setLogLevel aLevel => exact heffect.elim
    | sigMessage aMsg aLevel aClass =>
      cases heffect
      exact ⟨hwritten, rfl⟩
    | sigSkip aUsername =>
      cases heffect
      exact ⟨hwritten, rfl⟩
    | sigQuit aUsername =>
      cases heffect
      exact ⟨hwritten, rfl⟩
  | newLogEntry aEntry aLevel =>
    cases h
    cases hlogs
    exact ⟨hwritten, rfl⟩

/-- **In every state of a run entries have gone only to those who have issued `/log`, and the others
have got the answers to their requests, exactly if whenever an entry of level 0 came, everyone who
was connected had issued `/log`.** -/
theorem private_iff {acts : List Act} {s : Clients} (hrun : Machine.run step init acts = some s) :
    (∀ t, Machine.Reaches step init acts t → Private t) ↔
      ∀ t act, Machine.Takes step init acts t act → t.Discreet act :=
  Machine.forall_reaches_iff (I := Ok) ok_init (fun _ => Ok.toPrivate)
    (fun _ _ _ ht hact hstep => ht.step hact hstep)
    (fun _ _ _ _ hact hstep => not_private hact hstep) hrun

/-- A client gets the help page, and the daemon a signal. -/
def helpAtSignal : List Act :=
  [.newClient, .readClient 0 id oneUserServer ⟨"GET".toList, "/help".toList, []⟩, .answer,
    .newLogEntry "Received signal 15, quitting".toList 0]

theorem entry_in_answer : ¬ ∀ acts s, Machine.run step init acts = some s → Private s := by
  intro h
  have hentry : ∃ s, Machine.run step init helpAtSignal = some s ∧
      (0, .entry (.other "Received signal 15, quitting".toList 0)) ∈ s.written ∧
      0 ∉ s.logging :=
    ⟨_, rfl, by decide, by decide⟩
  obtain ⟨s, hs, hwritten, hlogging⟩ := hentry
  exact hlogging ((h helpAtSignal s hs).entries 0 _ hwritten)

/-- A client asks for the log, and gets what comes. -/
def logAtSignal : List Act :=
  [.newClient, .readClient 0 id oneUserServer ⟨"GET".toList, "/log".toList, []⟩, .answer, .answer,
    .newLogEntry "Received signal 15, quitting".toList 0]

theorem private_log : ∃ s, Machine.run step init logAtSignal = some s ∧
    ∀ t, Machine.Reaches step init logAtSignal t → Private t := by
  refine ⟨_, rfl, (private_iff rfl).mpr ?_⟩
  refine Machine.forall_takes_cons rfl ?_ (Machine.forall_takes_cons rfl nofun
    (Machine.forall_takes_cons rfl ?_ (Machine.forall_takes_cons rfl ?_
      (Machine.forall_takes_cons rfl ?_ Machine.forall_takes_nil))))
  · rintro r rfl hr
    exact absurd hr (by decide)
  · rintro r ⟨socket, effect, effects, closeCon, ha, hlogs⟩ hr
    cases ha
    rw [show r = _ from hlogs] at hr
    exact absurd hr (by decide)
  · rintro r ⟨socket, effect, effects, closeCon, ha, hlogs⟩
    cases ha
    exact hlogs.elim
  · exact fun _ _ _ => by decide

end Clients

end NetDJ.Engine
