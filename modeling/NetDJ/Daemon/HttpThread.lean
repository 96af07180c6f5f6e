import NetDJ.Util
import NetDJ.Daemon.AccessConf

/-!
# `main.cc`: the HTTP thread

One thread serves one connection after the other. The receive buffer, the request object, the
texts `auth`, `tmpstr`, `cmdbyuser` and the pointer `com` live outside the loop and are reused.

* `Connection` : what `poll` and `recv` give on an accepted connection;
* `HttpThread.serve` : one round of the loop, with the command it runs and the answer it sends;
* `requestCommand` : the command that a text runs on a request object of its own;
* `serve_ok` : a round returns, and decides by the text in the buffer alone;
* `isolated_iff` : the round follows its connection's own bytes unless `recv` failed and the buffer
  still holds a request that runs a command;
* `isolation` : so it is after any history of earlier connections.
-/

namespace NetDJ.Daemon

/-! ## The command table -/

inductive ComFunc where
  | add | help | info | list | lists | move | next | yeah | reload | start | stop | version
  | weblock | webstart
  deriving DecidableEq

structure COMMAND where
  name : Str
  func : ComFunc
  userfunc : Bool
  deriving DecidableEq

def commands : List COMMAND :=
  [⟨"add".toList, .add, false⟩, ⟨"help".toList, .help, false⟩, ⟨"info".toList, .info, false⟩,
    ⟨"list".toList, .list, false⟩, ⟨"lists".toList, .lists, false⟩, ⟨"move".toList, .move, false⟩,
    ⟨"next".toList, .next, true⟩, ⟨"otw".toList, .yeah, false⟩, ⟨"reload".toList, .reload, false⟩,
    ⟨"save".toList, .yeah, false⟩, ⟨"start".toList, .start, true⟩, ⟨"stop".toList, .stop, true⟩,
    ⟨"version".toList, .version, false⟩, ⟨"weblock".toList, .weblock, false⟩,
    ⟨"webstart".toList, .webstart, false⟩]

def findCommand (name : Str) (admin : Bool) : Option COMMAND :=
  commands.find? fun c => cStr name = c.name && (c.userfunc || admin)

/-! ## One connection -/

inductive Recv where
  /-- It returned -1. -/
  | failed
  /-- It stored these bytes and returned their number, 0 included. -/
  | bytes (b : Str)

/-- `poll`, `recv`, and what the tables of `base64_decode` hold by then. -/
structure Connection where
  poll : Bool
  recv : Recv
  tables : Tables

/-- The part of the configuration the loop reads. `http_locked` is set before the thread starts,
and `com_weblock`, which changes it, is not a command of the web interface. -/
structure HttpConfig where
  users : Users
  httpLocked : Bool
  HTTP_REDIRECT : Str

/-- Which packet is sent before the socket is closed. -/
inductive Reply where
  | nothing | redirect | auth | text | xml | html
  deriving DecidableEq

structure HttpThread where
  rbuf : Str
  req : HTTPRequest
  auth : Str
  tmpstr : Str
  cmdbyuser : Str
  com : Option COMMAND

/-- `recno = recv(..); rbuf[recno] = '\0'`. After a failure the NUL goes in front of the buffer,
which is left as it was. -/
def receive (rbuf : Str) : Recv → Str
  | .failed => rbuf
  | .bytes b => b ++ '\x00' :: rbuf.drop (b.length + 1)

def cgiBin : Str := "/cgi-bin/".toList

def basic : Str := "Basic ".toList

namespace HttpThread

/-- A `/cgi-bin/` request. -/
def serveCommand (cfg : HttpConfig) (tables : Tables) (t : HttpThread) :
    HttpThread × Option COMMAND × Reply :=
  match t.req.getHeader "Authorization".toList with
  | none => (t, none, .auth)
  | some auth =>
    let t := { t with auth := auth }
    if t.auth.take 6 = basic then
      let t := { t with tmpstr := base64Decode tables (t.auth.drop 6) }
      let allowed := isAccessAllowed cfg.users t.tmpstr UserLevel.powerUser.value t.cmdbyuser
      let t := { t with cmdbyuser := allowed.2 }
      if allowed.1 then
        let t := { t with com := findCommand (t.req.name.drop 9) false }
        (t, t.com, .redirect)
      else (t, none, .auth)
    else (t, none, .auth)

/-- The answer to what was parsed. -/
def respond (cfg : HttpConfig) (tables : Tables) (t : HttpThread) (parsed : Bool) :
    HttpThread × Option COMMAND × Reply :=
  if parsed && t.req.command = "GET".toList then
    if t.req.name.take 9 = cgiBin then t.serveCommand cfg tables
    else if t.req.name = "/index.txt".toList then (t, none, .text)
    else if t.req.name = "/index.xml".toList then (t, none, .xml)
    else if cfg.HTTP_REDIRECT ≠ [] then (t, none, .redirect)
    else (t, none, .html)
  else (t, none, .nothing)

/-- A round of the loop: the command function it calls and the packet it sends. -/
def serve (cfg : HttpConfig) (t : HttpThread) (c : Connection) :
    Except Abort (HttpThread × Option COMMAND × Reply) :=
  if c.poll then
    let t := { t with rbuf := receive t.rbuf c.recv }
    if cfg.httpLocked then .ok (t, none, .nothing)
    else do
      let (parsed, req) ← t.req.parse (cStr t.rbuf) false
      return respond cfg c.tables { t with req := req } parsed
  else .ok (t, none, .nothing)

def serveAll (cfg : HttpConfig) (t : HttpThread) (cs : List Connection) : Except Abort HttpThread :=
  cs.foldlM (fun t c => (·.1) <$> serve cfg t c) t

/-- The command function called for the connection `c`. -/
def commandRun (cfg : HttpConfig) (t : HttpThread) (c : Connection) :
    Except Abort (Option COMMAND) :=
  (·.2.1) <$> serve cfg t c

end HttpThread

/-! ## What a text does by itself -/

def authorised (users : Users) (tables : Tables) (req : HTTPRequest) : Bool :=
  match req.getHeader "Authorization".toList with
  | none => false
  | some auth => auth.take 6 = basic &&
      (isAccessAllowed users (base64Decode tables (auth.drop 6)) UserLevel.powerUser.value []).1

def unusedRequest : HTTPRequest := HTTPRequest.new []

/-- The text is a `GET` request for a `/cgi-bin/` name. -/
def isCommandRequest (text : Str) : Bool :=
  let (pos, req) := unusedRequest.parseHead text
  pos ≠ 0 && req.command = "GET".toList && req.name.take 9 = cgiBin

def requestCommand (users : Users) (tables : Tables) (text : Str) : Option COMMAND :=
  let req := (unusedRequest.parseHead text).2
  if isCommandRequest text && authorised users tables req then findCommand (req.name.drop 9) false
  else none

/-- The bytes received on a connection. -/
def Connection.received (c : Connection) : Str :=
  match c.recv with
  | .failed => []
  | .bytes b => b

/-- `recv` stores at most `sizeof(rbuf) - 1` bytes; none of them is NUL, and the text behind
`Basic ` of an `Authorization` header in them consists of Base64 digits and `=`. -/
def Connection.Valid (c : Connection) : Prop :=
  c.received.length ≤ 4095 ∧ '\x00' ∉ c.received ∧
    ∀ auth, (unusedRequest.parseHead c.received).2.getHeader "Authorization".toList = some auth →
      auth.take 6 = basic → ∀ ch ∈ auth.drop 6, isDigit64 ch = true ∨ ch = '='

def zeroTables : Tables := ⟨fun _ => 0, fun _ => 0⟩

/-- The command a connection runs by its own bytes. -/
def ownCommand (cfg : HttpConfig) (c : Connection) : Option COMMAND :=
  if c.poll && !cfg.httpLocked then requestCommand cfg.users zeroTables c.received else none

def lastText (text : Str) (cs : List Connection) : Str :=
  cs.foldl (fun text c => match c.poll, c.recv with
    | true, .bytes b => cStr b
    | _, _ => text) text

/-! ## The round and the text in the buffer -/

namespace HttpThread

theorem serveCommand_command (cfg : HttpConfig) (tables : Tables) (t : HttpThread) :
    (t.serveCommand cfg tables).2.1 =
      if authorised cfg.users tables t.req then findCommand (t.req.name.drop 9) false
      else none := by
  rw [serveCommand, authorised]
  cases t.req.getHeader "Authorization".toList with
  | none => rfl
  | some auth =>
    by_cases hb : auth.take 6 = basic
    · simp only [hb, if_true, decide_true, Bool.true_and]
      rw [isAccessAllowed_fst _ _ _ t.cmdbyuser []]
      split <;> rfl
    · simp [hb]

theorem serveCommand_rbuf (cfg : HttpConfig) (tables : Tables) (t : HttpThread) :
    (t.serveCommand cfg tables).1.rbuf = t.rbuf := by
  rw [serveCommand]
  split
  · rfl
  · simp only
    split
    · split <;> rfl
    · rfl

theorem respond_command (cfg : HttpConfig) (tables : Tables) (t : HttpThread) (parsed : Bool) :
    (respond cfg tables t parsed).2.1 =
      if parsed && t.req.command = "GET".toList && t.req.name.take 9 = cgiBin &&
          authorised cfg.users tables t.req then findCommand (t.req.name.drop 9) false
      else none := by
  rw [respond]
  by_cases hget : (parsed && t.req.command = "GET".toList) = true
  · rw [if_pos hget, hget, Bool.true_and]
    by_cases hcgi : t.req.name.take 9 = cgiBin
    · rw [if_pos hcgi, serveCommand_command, decide_eq_true hcgi, Bool.true_and]
    · rw [if_neg hcgi, decide_eq_false hcgi, Bool.false_and, if_neg Bool.false_ne_true]
      split
      · rfl
      · split
        · rfl
        · split <;> rfl
  · rw [if_neg hget, Bool.eq_false_iff.mpr hget]
    rfl

theorem respond_rbuf (cfg : HttpConfig) (tables : Tables) (t : HttpThread) (parsed : Bool) :
    (respond cfg tables t parsed).1.rbuf = t.rbuf := by
  rw [respond]
  split
  · split
    · exact serveCommand_rbuf cfg tables t
    · split
      · rfl
      · split
        · rfl
        · split <;> rfl
  · rfl

theorem authorised_congr (users : Users) (tables : Tables) {r r' : HTTPRequest}
    (h : r.headers = r'.headers) : authorised users tables r = authorised users tables r' := by
  rw [authorised, authorised, HTTP.getHeader, HTTP.getHeader, h]

/-- Parsed into an object with any contents, a text leads to the command that it runs by itself. -/
theorem respond_parsed (cfg : HttpConfig) (tables : Tables) (t : HttpThread) (text : Str) :
    (respond cfg tables { t with req := (t.req.parseHead text).2 }
      (decide ((t.req.parseHead text).1 ≠ 0))).2.1 = requestCommand cfg.users tables text := by
  rw [respond_command, requestCommand, isCommandRequest]
  by_cases h : (t.req.parseHead text).1 ≠ 0
  · have hnew : (unusedRequest.parseHead text).1 ≠ 0 :=
      (HTTPRequest.parseHead_pos _ _).mpr ((HTTPRequest.parseHead_pos _ _).mp h)
    obtain ⟨hcom, hname, hhdr⟩ := HTTPRequest.parseHead_agree t.req unusedRequest h
    simp only [decide_eq_true h, decide_eq_true hnew, Bool.true_and, hcom, hname,
      authorised_congr cfg.users tables hhdr]
  · have hnew : ¬ (unusedRequest.parseHead text).1 ≠ 0 := fun hne =>
      h ((HTTPRequest.parseHead_pos _ _).mpr ((HTTPRequest.parseHead_pos _ _).mp hne))
    simp only [decide_eq_false h, decide_eq_false hnew, Bool.false_and, if_neg Bool.false_ne_true]

theorem serve_of_poll {cfg : HttpConfig} {c : Connection} (hp : c.poll = true)
    (hl : cfg.httpLocked = false) (t : HttpThread) :
    let t₁ := { t with rbuf := receive t.rbuf c.recv }
    let parsed := t₁.req.parseHead (cStr t₁.rbuf)
    serve cfg t c =
      .ok (respond cfg c.tables { t₁ with req := parsed.2 } (decide (parsed.1 ≠ 0))) := by
  rw [serve, if_pos hp]
  simp only [hl, Bool.false_eq_true, if_false, HTTPRequest.parse_false]
  rfl

/-- **A round always returns.** It decides by the text in the buffer alone: the request object and
the texts left by earlier rounds play no part. -/
theorem serve_ok (cfg : HttpConfig) (t : HttpThread) (c : Connection) :
    ∃ t' reply, serve cfg t c =
        .ok (t', if c.poll && !cfg.httpLocked then
          requestCommand cfg.users c.tables (cStr (receive t.rbuf c.recv)) else none, reply) ∧
      t'.rbuf = if c.poll then receive t.rbuf c.recv else t.rbuf := by
  cases hp : c.poll with
  | false => exact ⟨t, .nothing, by simp [serve, hp], rfl⟩
  | true =>
    cases hl : cfg.httpLocked with
    | true => exact ⟨_, .nothing, by simp [serve, hp, hl]; rfl, rfl⟩
    | false =>
      have hserve := serve_of_poll hp hl t
      have hcom := respond_parsed cfg c.tables { t with rbuf := receive t.rbuf c.recv }
        (cStr (receive t.rbuf c.recv))
      have hbuf := respond_rbuf cfg c.tables
        { t with
          rbuf := receive t.rbuf c.recv
          req := (t.req.parseHead (cStr (receive t.rbuf c.recv))).2 }
        (decide ((t.req.parseHead (cStr (receive t.rbuf c.recv))).1 ≠ 0))
      refine ⟨_, _, hserve.trans (congrArg Except.ok (Prod.ext rfl (Prod.ext ?_ rfl))), hbuf⟩
      exact hcom

theorem serveAll_ok (cfg : HttpConfig) (cs : List Connection) (t : HttpThread) :
    ∃ t', serveAll cfg t cs = .ok t' ∧ cStr t'.rbuf = lastText (cStr t.rbuf) cs := by
  induction cs generalizing t with
  | nil => exact ⟨t, rfl, rfl⟩
  | cons c cs ih =>
    obtain ⟨u, reply, hserve, hbuf⟩ := serve_ok cfg t c
    obtain ⟨t', hall, htext⟩ := ih u
    refine ⟨t', ?_, ?_⟩
    · rw [serveAll, List.foldlM_cons, hserve]
      exact hall
    · rw [htext, hbuf, lastText, lastText, List.foldl_cons]
      congr 1
      cases c.poll with
      | false => rfl
      | true =>
        cases c.recv with
        | failed => rfl
        | bytes b => exact cStr_append_nul b _

end HttpThread

/-! ## Isolation -/

section Isolation
variable (users : Users) (tables : Tables)

theorem requestCommand_nil : requestCommand users tables [] = none := by
  have h : isCommandRequest [] = false := by decide
  rw [requestCommand, h, Bool.false_and, if_neg Bool.false_ne_true]

theorem authorised_of_requestCommand {text : Str} {com : COMMAND}
    (h : requestCommand users tables text = some com) :
    authorised users tables (unusedRequest.parseHead text).2 = true := by
  rw [requestCommand] at h
  split at h
  next hand => exact (Bool.and_eq_true_iff.mp hand).2
  next => cases h

/-- On Base64 text the tables play no part. -/
theorem authorised_tables (req : HTTPRequest)
    (h : ∀ auth, req.getHeader "Authorization".toList = some auth → auth.take 6 = basic →
      ∀ ch ∈ auth.drop 6, isDigit64 ch = true ∨ ch = '=') :
    authorised users tables req = authorised users zeroTables req := by
  rw [authorised, authorised]
  cases hauth : req.getHeader "Authorization".toList with
  | none => rfl
  | some auth =>
    by_cases hb : auth.take 6 = basic
    · simp only [base64Decode_congr tables zeroTables (h auth hauth hb)]
    · simp [hb]

theorem requestCommand_tables {c : Connection} (hc : c.Valid) :
    requestCommand users tables c.received = requestCommand users zeroTables c.received := by
  rw [requestCommand, requestCommand, authorised_tables users tables _ hc.2.2]

end Isolation

namespace HttpThread

/-- The connection runs the command of its own bytes, and none unless these carry an accepted
header. -/
def Isolated (cfg : HttpConfig) (t : HttpThread) (c : Connection) : Prop :=
  commandRun cfg t c = .ok (ownCommand cfg c) ∧
    ∀ com, commandRun cfg t c = .ok (some com) →
      authorised cfg.users zeroTables (unusedRequest.parseHead c.received).2 = true

/-- `recv` does not fail, or the text that the buffer still holds runs no command. -/
def Undisturbed (cfg : HttpConfig) (text : Str) (c : Connection) : Prop :=
  c.poll = true → cfg.httpLocked = false → (∃ b, c.recv = .bytes b) ∨
    requestCommand cfg.users c.tables text = none

theorem commandRun_eq (cfg : HttpConfig) (t : HttpThread) (c : Connection) :
    commandRun cfg t c = .ok (if c.poll && !cfg.httpLocked then
      requestCommand cfg.users c.tables (cStr (receive t.rbuf c.recv)) else none) := by
  obtain ⟨t', reply, hserve, -⟩ := serve_ok cfg t c
  rw [commandRun, hserve]
  rfl

theorem commandRun_of_undisturbed {cfg : HttpConfig} {t : HttpThread} {c : Connection}
    (hc : c.Valid) (h : Undisturbed cfg (cStr t.rbuf) c) :
    commandRun cfg t c = .ok (ownCommand cfg c) := by
  rw [commandRun_eq, ownCommand]
  by_cases hserved : (c.poll && !cfg.httpLocked) = true
  · rw [if_pos hserved, if_pos hserved]
    rw [Bool.and_eq_true_iff, Bool.not_eq_true'] at hserved
    congr 1
    cases hr : c.recv with
    | failed =>
      have hstale := (h hserved.1 hserved.2).resolve_left fun ⟨b, hb⟩ => by simp [hr] at hb
      have hown : c.received = [] := by rw [Connection.received, hr]
      rw [receive, hstale, hown, requestCommand_nil]
    | bytes b =>
      have hown : c.received = b := by rw [Connection.received, hr]
      rw [receive, cStr_append_nul, ← hown, cStr_eq_self hc.2.1, requestCommand_tables _ _ hc]
  · rw [if_neg hserved, if_neg hserved]

theorem isolated_iff {cfg : HttpConfig} {t : HttpThread} {c : Connection} (hc : c.Valid) :
    Isolated cfg t c ↔ Undisturbed cfg (cStr t.rbuf) c := by
  constructor
  · rintro ⟨hown, -⟩ hp hl
    cases hr : c.recv with
    | bytes b => exact Or.inl ⟨b, rfl⟩
    | failed =>
      have hrec : c.received = [] := by rw [Connection.received, hr]
      rw [commandRun_eq, ownCommand, hp, hl, hr, hrec, requestCommand_nil] at hown
      exact Or.inr (Except.ok.inj hown)
  · intro h
    have hown := commandRun_of_undisturbed hc h
    refine ⟨hown, fun com hcom => ?_⟩
    have hsome : ownCommand cfg c = some com := Except.ok.inj (hown.symm.trans hcom)
    rw [ownCommand] at hsome
    split at hsome
    · exact authorised_of_requestCommand _ _ hsome
    · cases hsome

/-- **Isolation between connections.** Whatever was served before, the thread answers. A connection
runs the command of its own bytes exactly if `recv` did not fail on it or the request received last
runs no command by itself; so two histories of that kind lead to the same command. -/
theorem isolation (cfg : HttpConfig) (t₁ t₂ : HttpThread) (earlier₁ earlier₂ : List Connection)
    (c : Connection) (hc : c.Valid) :
    ∃ u₁ u₂, serveAll cfg t₁ earlier₁ = .ok u₁ ∧ serveAll cfg t₂ earlier₂ = .ok u₂ ∧
      (Isolated cfg u₁ c ↔ Undisturbed cfg (lastText (cStr t₁.rbuf) earlier₁) c) ∧
      (Undisturbed cfg (lastText (cStr t₁.rbuf) earlier₁) c →
        Undisturbed cfg (lastText (cStr t₂.rbuf) earlier₂) c →
        commandRun cfg u₁ c = commandRun cfg u₂ c) := by
  obtain ⟨u₁, hu₁, htext₁⟩ := serveAll_ok cfg earlier₁ t₁
  obtain ⟨u₂, hu₂, htext₂⟩ := serveAll_ok cfg earlier₂ t₂
  rw [← htext₁, ← htext₂]
  exact ⟨u₁, u₂, hu₁, hu₂, isolated_iff hc, fun h₁ h₂ =>
    (commandRun_of_undisturbed hc h₁).trans (commandRun_of_undisturbed hc h₂).symm⟩

/-! ### A request served twice -/

def oneUser : HttpConfig := ⟨AList.insert "a".toList ⟨100, "b".toList⟩ ∅, false, []⟩

def idle : HttpThread := ⟨[], unusedRequest, [], [], [], none⟩

/-- A client that sends `stop` with the credentials `a:b`. -/
def stopClient : Connection where
  poll := true
  recv := .bytes
    "GET /cgi-bin/stop HTTP/1.1\r\nAuthorization: Basic YTpi\r\n\r\n".toList
  tables := zeroTables

/-- A client that resets its connection: `recv` fails. -/
def resetClient : Connection := ⟨true, .failed, zeroTables⟩

/-- Behind a connection that is reset, the `stop` runs as it would on an idle thread. -/
theorem isolation_stopClient :
    ∃ u₁ u₂, serveAll oneUser idle [resetClient] = .ok u₁ ∧ serveAll oneUser idle [] = .ok u₂ ∧
      Isolated oneUser u₁ stopClient ∧
      commandRun oneUser u₁ stopClient = commandRun oneUser u₂ stopClient := by
  have hvalid : stopClient.Valid := by
    have h : (unusedRequest.parseHead stopClient.received).2.getHeader "Authorization".toList =
        some "Basic YTpi".toList := by decide +kernel
    refine ⟨by decide, by decide, fun auth hauth _ => ?_⟩
    rw [h] at hauth
    cases hauth
    exact List.forall_iff_forall_mem.mp (by decide)
  have hbytes : ∀ text, Undisturbed oneUser text stopClient := fun _ _ _ => .inl ⟨_, rfl⟩
  obtain ⟨u₁, u₂, hu₁, hu₂, hiff, hsame⟩ := isolation oneUser idle idle [resetClient] [] stopClient
    hvalid
  exact ⟨u₁, u₂, hu₁, hu₂, hiff.mpr (hbytes _), hsame (hbytes _) (hbytes _)⟩

/-- The client that sends nothing runs the `stop` of the client before it; on an idle thread it
runs nothing. -/
theorem stop_served_twice :
    (serveAll oneUser idle [stopClient] >>= fun t => commandRun oneUser t resetClient) =
        .ok (some ⟨"stop".toList, .stop, true⟩) ∧
      (serveAll oneUser idle [] >>= fun t => commandRun oneUser t resetClient) = .ok none ∧
      resetClient.received = [] := by
  refine ⟨?_, ?_, rfl⟩
  · decide +kernel
  · decide +kernel

end HttpThread

end NetDJ.Daemon
