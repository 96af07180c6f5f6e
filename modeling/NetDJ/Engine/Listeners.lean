import NetDJ.Lib.Lists
import NetDJ.Engine.Clients

/-!
# `Client.cpp`, `Server.cpp`: what a client that listens is sent

`/log` sets the level of a client to 999, and nothing sets it back. From then on the client is sent
every entry, as long as its connection is open.

* `Clients.logged` : the entry that a step writes, as a function;
* `entriesTo` : the entries that a socket has been sent;
* `Numbered`, `Numbered.step` : one client for each socket, and no level but 999 is ever set;
* `Listens`, `Gone` : clients with the level, and sockets that are closed for good;
* `step_listens` : what one step sends to a client that listens.
-/

namespace NetDJ.Engine

/-- The entry that an effect makes the service write. -/
def Effect.report : Effect → Option Report
  | .sigMessage aMsg aLevel aClass => some (.message aMsg (BitVec.ofNat 32 aLevel) aClass)
  | .sigSkip aUsername => some (.skip aUsername)
  | .sigQuit aUsername => some (.quit aUsername)
  | .out _ | .setLogLevel _ => none

def Chunk.report : Chunk → Option Report
  | .entry r => some r
  | .out _ => none

namespace Clients

/-- The entry that a step writes to the clients, if it writes one. -/
def logged (s : Clients) : Act → Option Report
  | .newClient => some .clientNew
  | .clientClosed _ => some .clientClose
  | .readClient _ _ _ _ => none
  | .answer =>
    match s.answering with
    | some ⟨_, effect :: _, _⟩ => effect.report
    | _ => none
  | .newLogEntry aEntry aLevel => some (.other aEntry aLevel)

def entriesTo (s : Clients) (socket : Nat) : List Report := (s.sentTo socket).filterMap Chunk.report

/-- Each socket has one client, and the levels that answers set are 999. -/
structure Numbered (s : Clients) : Prop where
  nodup : (s.mClients.map (·.mSocket)).Nodup
  lt : ∀ c ∈ s.mClients, c.mSocket < s.connections
  sets : ∀ a, s.answering = some a → ∀ aLevel, .setLogLevel aLevel ∈ a.effects → aLevel = 999

/-- The client has issued `/log`, and its connection is open. -/
def Listens (s : Clients) (socket : Nat) : Prop := ⟨socket, true, 999⟩ ∈ s.mClients

structure Gone (s : Clients) (socket : Nat) : Prop where
  lt : socket < s.connections
  closed : ∀ c ∈ s.mClients, c.mSocket = socket → c.isOpen = false

theorem numbered_init : Numbered init where
  nodup := List.nodup_nil
  lt _ h := absurd h List.not_mem_nil
  sets _ h := absurd h (Option.some_ne_none _).symm

end Clients

namespace Server

variable (urlPath : Str → Str) (s : Server)

theorem runCommand_level {u : Str} {t : CmdType} {aLevel : Nat}
    (h : .setLogLevel aLevel ∈ (s.runCommand u t).1) : aLevel = 999 := by
  have ht := runCommand_setLogLevel s h
  subst ht
  rcases List.mem_cons.mp h with he | h
  · cases he
    rfl
  · exact absurd h (setLogLevel_notMem_outs _ _)

theorem answer_level {h : RequestHeader} {aLevel : Nat}
    (hmem : .setLogLevel aLevel ∈ (answer urlPath s h).1) : aLevel = 999 := by
  have hexec := executed_log urlPath s hmem
  rcases answer_cases urlPath s h with ⟨-, hnone, -⟩ | ⟨-, hnone, -⟩ | ⟨-, hnone, -⟩ |
    ⟨t, aMsg, uName, -, -, ha⟩
  · rw [hexec] at hnone
    cases hnone
  · rw [hexec] at hnone
    cases hnone
  · rw [hexec] at hnone
    cases hnone
  · rw [ha] at hmem
    exact runCommand_level s ((List.mem_cons.mp hmem).resolve_left nofun)

end Server

namespace Clients

/-! ## What a socket is sent -/

theorem entriesTo_append (s : Clients) (socket : Nat) (new : List (Nat × Chunk)) :
    ({ s with written := s.written ++ new } : Clients).entriesTo socket =
      s.entriesTo socket ++ ((new.filter (·.1 = socket)).map (·.2)).filterMap Chunk.report := by
  unfold entriesTo sentTo
  rw [List.filter_append, List.map_append, List.filterMap_append]

theorem entriesTo_out (s : Clients) (socket socket' : Nat) (o : Out) :
    ({ s with written := s.written ++ [(socket', .out o)] } : Clients).entriesTo socket =
      s.entriesTo socket := by
  rw [entriesTo_append, List.filter_singleton]
  cases decide (socket' = socket) with
  | true => exact List.append_nil _
  | false => exact List.append_nil _

/-- An entry is sent to the clients of a socket that have its level. -/
theorem newLogEntry_entriesTo (s : Clients) (r : Report) (socket : Nat) :
    (s.newLogEntry r).entriesTo socket = s.entriesTo socket ++
      ((s.mClients.filter (·.mSocket = socket)).filter fun c =>
        c.isOpen && decide (r.level ≤ c.mLogLevel)).map fun _ => r := by
  rw [newLogEntry, entriesTo_append, List.filter_comm]
  congr 1
  induction s.mClients.filter fun c => c.isOpen && decide (r.level ≤ c.mLogLevel) with
  | nil => rfl
  | cons c l ih =>
    by_cases hc : c.mSocket = socket
    · rw [List.filter_cons_of_pos (by simpa using hc), List.map_cons, List.map_cons,
        List.filter_cons_of_pos (by simpa using hc), ← ih]
      rfl
    · rw [List.filter_cons_of_neg (by simpa using hc), List.map_cons,
        List.filter_cons_of_neg (by simpa using hc), ih]

theorem newLogEntry_listens {s : Clients} (hs : Numbered s) {socket : Nat} (h : s.Listens socket)
    (r : Report) :
    (s.newLogEntry r).entriesTo socket = s.entriesTo socket ++ [r].filter (·.level ≤ 999) := by
  have hone : s.mClients.filter (fun c => c.mSocket = socket) = [⟨socket, true, 999⟩] :=
    filter_key hs.nodup h
  rw [newLogEntry_entriesTo, hone, List.filter_singleton, List.filter_singleton, Bool.true_and]
  show _ ++ List.map _ (bif decide (r.level ≤ 999) then _ else _) = _
  cases decide (r.level ≤ 999) with
  | true => rfl
  | false => rfl

theorem newLogEntry_gone {s : Clients} {socket : Nat} (h : s.Gone socket) (r : Report) :
    (s.newLogEntry r).entriesTo socket = s.entriesTo socket := by
  have hnone : (s.mClients.filter (·.mSocket = socket)).filter
      (fun c => c.isOpen && decide (r.level ≤ c.mLogLevel)) = [] := by
    rw [List.filter_eq_nil_iff]
    intro c hc
    obtain ⟨hmem, heq⟩ := List.mem_filter.mp hc
    simp [h.closed c hmem (of_decide_eq_true heq)]
  rw [newLogEntry_entriesTo, hnone, List.map_nil, List.append_nil]

/-! ## One step -/

theorem Numbered.newLogEntry {s : Clients} (hs : Numbered s) (r : Report) :
    Numbered (s.newLogEntry r) := ⟨hs.nodup, hs.lt, hs.sets⟩

theorem Numbered.map {s : Clients} (hs : Numbered s) {f : Client → Client}
    (hf : ∀ c, (f c).mSocket = c.mSocket) {answering : Option Answering}
    (hsets : ∀ a, answering = some a → ∀ aLevel, .setLogLevel aLevel ∈ a.effects → aLevel = 999) :
    Numbered { s with mClients := s.mClients.map f, answering := answering } := by
  refine ⟨?_, fun c hc => ?_, hsets⟩
  · show ((s.mClients.map f).map (·.mSocket)).Nodup
    rw [List.map_map, show (fun c : Client => c.mSocket) ∘ f = fun c => c.mSocket from funext hf]
    exact hs.nodup
  · obtain ⟨d, hd, rfl⟩ := List.mem_map.mp hc
    rw [hf]
    exact hs.lt d hd

theorem Numbered.newClient {s : Clients} (hs : Numbered s) :
    Numbered { s with
      mClients := s.mClients ++ [⟨s.connections, true, 0⟩], connections := s.connections + 1 } := by
  refine ⟨?_, fun c hc => ?_, hs.sets⟩
  · show ((s.mClients ++ [Client.mk s.connections true 0]).map (·.mSocket)).Nodup
    rw [List.map_append, List.nodup_append]
    refine ⟨hs.nodup, List.nodup_singleton _, fun i hi j hj => ?_⟩
    obtain ⟨c, hc, rfl⟩ := List.mem_map.mp hi
    rw [List.mem_singleton.mp hj]
    exact (hs.lt c hc).ne
  · rcases List.mem_append.mp hc with hc | hc
    · exact (hs.lt c hc).trans (Nat.lt_succ_self _)
    · rw [List.mem_singleton.mp hc]
      exact Nat.lt_succ_self _

theorem Numbered.step {s s' : Clients} {act : Act} (hs : Numbered s) (h : s.step act = some s') :
    Numbered s' := by
  cases act with
  | newClient =>
    obtain ⟨-, he⟩ := Option.ite_none_right_eq_some.mp h
    cases he
    exact hs.newClient.newLogEntry _
  | clientClosed socket =>
    obtain ⟨-, he⟩ := Option.ite_none_right_eq_some.mp h
    cases he
    refine ⟨?_, fun c hc => hs.lt c (List.mem_of_mem_filter hc), hs.sets⟩
    exact hs.nodup.sublist (List.filter_sublist.map _)
  | readClient socket urlPath server header =>
    obtain ⟨-, he⟩ := Option.ite_none_right_eq_some.mp h
    cases he
    refine ⟨hs.nodup, hs.lt, fun a ha aLevel hmem => ?_⟩
    cases ha
    exact Server.answer_level urlPath server hmem
  | answer =>
    unfold Clients.step at h
    dsimp only at h
    split at h
    · cases h
    · next socket effect effects closeCon ha =>
      cases h
      have hsets : ∀ a, some (⟨socket, effects, closeCon⟩ : Answering) = some a →
          ∀ aLevel, .setLogLevel aLevel ∈ a.effects → aLevel = 999 := by
        intro a he aLevel hmem
        cases he
        exact hs.sets _ ha aLevel (List.mem_cons_of_mem _ hmem)
      cases effect with
      | setLogLevel aLevel => exact hs.map (fun c => by split <;> rfl) hsets
      | out o => exact ⟨hs.nodup, hs.lt, hsets⟩
      | sigMessage aMsg aLevel aClass => exact ⟨hs.nodup, hs.lt, hsets⟩
      | sigSkip aUsername => exact ⟨hs.nodup, hs.lt, hsets⟩
      | sigQuit aUsername => exact ⟨hs.nodup, hs.lt, hsets⟩
    · cases h
      exact hs.map (fun c => by split <;> rfl) nofun
  | newLogEntry aEntry aLevel =>
    cases h
    exact hs.newLogEntry _

/-- A socket that is closed stays so, and is sent no more entries. -/
theorem step_gone {s s' : Clients} {act : Act} {socket : Nat} (hg : s.Gone socket)
    (h : s.step act = some s') : s'.Gone socket ∧ s'.entriesTo socket = s.entriesTo socket := by
  cases act with
  | newClient =>
    obtain ⟨-, he⟩ := Option.ite_none_right_eq_some.mp h
    cases he
    have hgone : Gone { s with
        mClients := s.mClients ++ [⟨s.connections, true, 0⟩],
        connections := s.connections + 1 } socket := by
      refine ⟨hg.lt.trans (Nat.lt_succ_self _), fun c hc heq => ?_⟩
      rcases List.mem_append.mp hc with hc | hc
      · exact hg.closed c hc heq
      · rw [List.mem_singleton.mp hc] at heq
        exact absurd heq hg.lt.ne'
    exact ⟨⟨hgone.lt, hgone.closed⟩, newLogEntry_gone hgone _⟩
  | clientClosed socket' =>
    obtain ⟨-, he⟩ := Option.ite_none_right_eq_some.mp h
    cases he
    exact ⟨⟨hg.lt, fun c hc => hg.closed c (List.mem_of_mem_filter hc)⟩, newLogEntry_gone hg _⟩
  | readClient socket' urlPath server header =>
    obtain ⟨-, he⟩ := Option.ite_none_right_eq_some.mp h
    cases he
    exact ⟨⟨hg.lt, hg.closed⟩, rfl⟩
  | answer =>
    unfold Clients.step at h
    dsimp only at h
    split at h
    · cases h
    · next socket' effect effects closeCon ha =>
      cases h
      cases effect with
      | out o =>
        exact ⟨⟨hg.lt, hg.closed⟩, entriesTo_out s socket socket' o⟩
      | setLogLevel aLevel =>
        refine ⟨⟨hg.lt, fun c hc heq => ?_⟩, rfl⟩
        obtain ⟨d, hd, rfl⟩ := List.mem_map.mp hc
        split at heq
        · next hd' =>
          rw [if_pos hd']
          exact hg.closed d hd heq
        · next hd' =>
          rw [if_neg hd']
          exact hg.closed d hd heq
      | sigMessage aMsg aLevel aClass => exact ⟨⟨hg.lt, hg.closed⟩, newLogEntry_gone hg _⟩
      | sigSkip aUsername => exact ⟨⟨hg.lt, hg.closed⟩, newLogEntry_gone hg _⟩
      | sigQuit aUsername => exact ⟨⟨hg.lt, hg.closed⟩, newLogEntry_gone hg _⟩
    · cases h
      refine ⟨⟨hg.lt, fun c hc heq => ?_⟩, rfl⟩
      obtain ⟨d, hd, rfl⟩ := List.mem_map.mp hc
      split at heq
      · next hd' => rw [if_pos hd']
      · next hd' =>
        rw [if_neg hd']
        exact hg.closed d hd heq
  | newLogEntry aEntry aLevel =>
    cases h
    exact ⟨⟨hg.lt, hg.closed⟩, newLogEntry_gone hg _⟩

/-- A step sends a client that listens the entry it logs, and the client listens on or is gone. -/
theorem step_listens {s s' : Clients} (hs : Numbered s) {act : Act} {socket : Nat}
    (hl : s.Listens socket) (h : s.step act = some s') : (s'.Listens socket ∨ s'.Gone socket) ∧
      s'.entriesTo socket = s.entriesTo socket ++
        (s.logged act).toList.filter (·.level ≤ 999) := by
  have hnone : s.entriesTo socket = s.entriesTo socket ++ [] := (List.append_nil _).symm
  cases act with
  | newClient =>
    obtain ⟨-, he⟩ := Option.ite_none_right_eq_some.mp h
    cases he
    exact ⟨.inl (List.mem_append_left _ hl),
      newLogEntry_listens hs.newClient (List.mem_append_left _ hl) _⟩
  | clientClosed socket' =>
    obtain ⟨-, he⟩ := Option.ite_none_right_eq_some.mp h
    cases he
    refine ⟨?_, newLogEntry_listens hs hl _⟩
    by_cases heq : socket = socket'
    · refine .inr ⟨hs.lt _ hl, fun c hc hc' => ?_⟩
      exact absurd (hc'.trans heq) (of_decide_eq_true (List.mem_filter.mp hc).2)
    · exact .inl (List.mem_filter.mpr ⟨hl, decide_eq_true heq⟩)
  | readClient socket' urlPath server header =>
    obtain ⟨-, he⟩ := Option.ite_none_right_eq_some.mp h
    cases he
    exact ⟨.inl hl, hnone⟩
  | answer =>
    unfold Clients.step at h
    dsimp only at h
    unfold logged
    dsimp only
    split at h
    · cases h
    · next socket' effect effects closeCon ha =>
      cases h
      rw [ha]
      cases effect with
      | out o => exact ⟨.inl hl, (entriesTo_out s socket socket' o).trans hnone⟩
      | setLogLevel aLevel =>
        refine ⟨.inl (List.mem_map.mpr ⟨_, hl, ?_⟩), hnone⟩
        rw [hs.sets _ ha aLevel List.mem_cons_self]
        split
        · rfl
        · rfl
      | sigMessage aMsg aLevel aClass => exact ⟨.inl hl, newLogEntry_listens hs hl _⟩
      | sigSkip aUsername => exact ⟨.inl hl, newLogEntry_listens hs hl _⟩
      | sigQuit aUsername => exact ⟨.inl hl, newLogEntry_listens hs hl _⟩
    · next socket' closeCon ha =>
      cases h
      rw [ha]
      refine ⟨?_, hnone⟩
      by_cases hclose : closeCon = true ∧ socket = socket'
      · refine .inr ⟨hs.lt _ hl, fun c hc hc' => ?_⟩
        obtain ⟨d, hd, rfl⟩ := List.mem_map.mp hc
        split at hc'
        · next hd' => rw [if_pos hd']
        · next hd' => exact absurd ⟨hclose.1, hc'.trans hclose.2⟩ hd'
      · exact .inl (List.mem_map.mpr ⟨_, hl, if_neg hclose⟩)
  | newLogEntry aEntry aLevel =>
    cases h
    exact ⟨.inl hl, newLogEntry_listens hs hl _⟩

end Clients

end NetDJ.Engine
