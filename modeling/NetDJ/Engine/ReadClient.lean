import NetDJ.Engine.Server

/-!
# `Server.cpp`: a request is read and answered

`ReadClient` runs whenever bytes have come in. It parses the lines that are there, and answers.
`QHttpRequestHeader` is not part of the repository: `parse` stands for it.

* `readInput` : the loop over the lines of the socket;
* `Server.answer` : the answer to a header, and `answer_cases` : what it is by the fate of the header;
* `readClients` : the headers parsed when a request comes in several deliveries;
* `readInput_complete` : a request that is there in full is read in full;
* `outcome_eq_iff` : the command and the status line are those of the header's `fate`;
* `deliveries_iff` : deliveries do not matter exactly if there is only one, or the lines of the first
  one alone have the fate of the request.
-/

namespace NetDJ.Engine

def MAX_REQUEST_SIZE : Nat := 8192

/-! ## The socket -/

/-- `readLine`: the text up to the next newline, and what is left of the buffer. -/
def readLine (buf : Str) : Str × Str :=
  (buf.takeWhile (· ≠ '\n') ++ ['\n'], (buf.dropWhile (· ≠ '\n')).tail)

/-- The loop of `ReadClient`: `input` and what is left of the buffer. -/
def readLoop : Nat → Str → Str → Str × Str
  | 0, input, buf => (input, buf)
  | n + 1, input, buf =>
    if input.length < MAX_REQUEST_SIZE ∧ '\n' ∈ buf then
      readLoop n (input ++ (readLine buf).1) (readLine buf).2
    else (input, buf)

/-- Every round takes a character at least, so the length of the buffer is rounds enough. -/
def readInput (buf : Str) : Str × Str := readLoop buf.length [] buf

theorem readLine_append {buf : Str} (h : '\n' ∈ buf) : (readLine buf).1 ++ (readLine buf).2 = buf := by
  induction buf with
  | nil => exact absurd h List.not_mem_nil
  | cons c buf ih =>
    by_cases hc : c = '\n'
    · subst hc
      rfl
    · have hmem : '\n' ∈ buf := List.mem_of_ne_of_mem (Ne.symm hc) h
      have hne : decide (c ≠ '\n') = true := decide_eq_true hc
      unfold readLine at ih ⊢
      rw [List.takeWhile_cons_of_pos (p := fun x => decide (x ≠ '\n')) hne,
        List.dropWhile_cons_of_pos (p := fun x => decide (x ≠ '\n')) hne]
      exact congrArg (c :: ·) (ih hmem)

theorem readLine_ne_nil (buf : Str) : (readLine buf).1 ≠ [] := by simp [readLine]

/-- The loop reads the complete lines, if they are not too long. -/
theorem readLoop_lines {n : Nat} (input buf : Str) (hn : buf.length ≤ n)
    (hlen : input.length + buf.length ≤ MAX_REQUEST_SIZE) :
    ∃ lines rest, readLoop n input buf = (input ++ lines, rest) ∧ lines ++ rest = buf ∧
      '\n' ∉ rest := by
  induction n generalizing input buf with
  | zero =>
    obtain rfl := List.length_eq_zero_iff.mp (Nat.le_zero.mp hn)
    exact ⟨[], [], by rw [List.append_nil]; rfl, rfl, List.not_mem_nil⟩
  | succ n ih =>
    by_cases hline : '\n' ∈ buf
    · have happend := readLine_append hline
      have hpos : 0 < (readLine buf).1.length := List.length_pos_iff.mpr (readLine_ne_nil buf)
      have hbuf : (readLine buf).1.length + (readLine buf).2.length = buf.length := by
        rw [← List.length_append, happend]
      obtain ⟨lines, rest, hread, hsplit, hrest⟩ :=
        ih (input ++ (readLine buf).1) (readLine buf).2 (by omega)
          (by rw [List.length_append]; omega)
      refine ⟨(readLine buf).1 ++ lines, rest, ?_, ?_, hrest⟩
      · rw [readLoop, if_pos ⟨by omega, hline⟩, hread, List.append_assoc]
      · rw [List.append_assoc, hsplit, happend]
    · refine ⟨[], buf, ?_, rfl, hline⟩
      rw [readLoop, if_neg fun h => hline h.2, List.append_nil]

/-- What is there in full, and not too long, is read in full. -/
theorem readInput_complete {buf : Str} (hlen : buf.length ≤ MAX_REQUEST_SIZE)
    (hend : buf.getLast? = some '\n') : readInput buf = (buf, []) := by
  obtain ⟨lines, rest, hread, hsplit, hrest⟩ :=
    readLoop_lines [] buf (le_refl buf.length) (by simpa using hlen)
  have hnil : rest = [] := by
    by_contra hne
    have hlast : rest.getLast? = some '\n' := by
      rw [← hend, ← hsplit, List.getLast?_append_of_ne_nil _ hne]
    exact hrest (List.mem_of_getLast? hlast)
  subst hnil
  rw [List.append_nil] at hsplit
  rw [readInput, hread, hsplit, List.nil_append]

/-! ## The answer -/

/-- What `ReadClient` and `HandleCommand` use of the parsed header. -/
structure RequestHeader where
  method : Str
  path : Str
  authorization : Str

def HTTP_401 : Out :=
  .text "HTTP/1.0 401 Unauthorized\r\nWWW-Authenticate: Basic realm=\"NetDJ\"\r\n".toList

def HTTP_404 : Out := .text "HTTP/1.0 404 Not Found\r\n".toList

def HTTP_501 : Out := .text "HTTP/1.0 501 Not Implemented\r\n".toList

/-- The page of an error. -/
def errorPage (title message : Str) : Out :=
  .text ("<!DOCTYPE HTML PUBLIC \"-//IETF//DTD HTML 2.0//EN\">\n<HTML>\n<HEAD>\n<TITLE>".toList ++
    title ++ "</TITLE>\n</HEAD>\n<BODY BGCOLOR=\"#FFFFFF\">\n".toList ++ message ++
    "\n</BODY>\n</HTML>\n".toList)

def HTML_401 : Out :=
  errorPage "404 Unathorized".toList "You need proper authentication to access this!".toList

def HTML_404 : Out := errorPage "404 Not found".toList "The requested command is invalid.".toList

def HTML_501 : Out :=
  errorPage "501 Not Implemented".toList "Sorry, the server only supports GET.".toList

namespace Server

variable (urlPath : Str → Str) (s : Server)

/-- `ReadClient` behind the parser: what it does, and whether it closes the connection. -/
def answer (h : RequestHeader) : List Effect × Bool :=
  if h.method = "GET".toList then
    match handleCommand urlPath s h.path h.authorization with
    | (effects, .ok closeCon) => (effects, closeCon)
    | (effects, .error .cmdUnauthorized) =>
      (effects ++ outs [HTTP_401, .HTTP_HTML, .HTTP_DATASTART, HTML_401, .text "\n".toList], true)
    | (effects, .error .cmdInvalid) =>
      (effects ++ outs [HTTP_404, .HTTP_HTML, .HTTP_DATASTART, HTML_404], true)
  else (outs [HTTP_501, .HTTP_HTML, .HTTP_DATASTART, HTML_501], true)

/-- The entry of `gCommands` that `HandleCommand` finds. -/
def command (h : RequestHeader) : Option Command :=
  gCommands.find? (·.mName = shortcut (urlPath h.path))

/-- The command that the answer executes: the one found, if `HandleCommand` is called and does not
throw. -/
def executed (h : RequestHeader) : Option CmdType :=
  if h.method = "GET".toList then
    match (handleCommand urlPath s h.path h.authorization).2 with
    | .ok _ => (command urlPath h).map (·.mType)
    | .error _ => none
  else none

def statusLine (effects : List Effect) : Option Out :=
  effects.findSome? fun
    | .out o => some o
    | _ => none

/-- What becomes of a request. -/
inductive Fate where
  | notGet
  | unknown
  | refused
  | runs (t : CmdType)
  deriving DecidableEq

def fate (h : RequestHeader) : Fate :=
  if h.method = "GET".toList then
    match command urlPath h with
    | none => .unknown
    | some cmd =>
      if (s.checkAuthorization cmd.mAuthLevel h.authorization).1 then .runs cmd.mType else .refused
  else .notGet

/-- The command executed and the status line sent. -/
def outcome (h : RequestHeader) : Option CmdType × Option Out :=
  (executed urlPath s h, statusLine (answer urlPath s h).1)

/-- The headers that `ReadClient` parses when the deliveries come in one by one, until it closes the
connection; `buf` is what is left in the socket. -/
def readClients (parse : Str → RequestHeader) : Str → List Str → List RequestHeader
  | _, [] => []
  | buf, d :: ds =>
    let (input, rest) := readInput (buf ++ d)
    let header := parse input
    header :: if (answer urlPath s header).2 then [] else readClients parse rest ds

def Fate.status : Fate → Out
  | .notGet => HTTP_501
  | .unknown => HTTP_404
  | .refused => HTTP_401
  | .runs .requests => if s.requestXML.isSome then .HTTP_200 else .HTTP_500
  | .runs _ => .HTTP_200

def Fate.command : Fate → Option CmdType
  | .runs t => some t
  | _ => none

theorem statusLine_runCommand (u : Str) (t : CmdType) :
    statusLine (s.runCommand u t).1 = some (Fate.status s (.runs t)) := by
  cases t with
  | requests =>
    unfold runCommand cmdRequests Fate.status
    cases s.requestXML <;> rfl
  | help | current | log | skip | shutdown => rfl

theorem handleCommand_unknown {h : RequestHeader} (hcmd : command urlPath h = none) :
    ∃ aMsg, handleCommand urlPath s h.path h.authorization =
      ([.sigMessage aMsg 70 .warn], .error .cmdInvalid) := by
  unfold handleCommand
  dsimp only
  rw [show gCommands.find? _ = none from hcmd]
  exact ⟨_, rfl⟩

theorem handleCommand_refused {h : RequestHeader} {cmd : Command}
    (hcmd : command urlPath h = some cmd)
    (haccess : (s.checkAuthorization cmd.mAuthLevel h.authorization).1 = false) :
    ∃ effects, handleCommand urlPath s h.path h.authorization =
      (effects, .error .cmdUnauthorized) ∧
        ∀ effect ∈ effects, ∃ aMsg, effect = .sigMessage aMsg 50 .warn := by
  unfold handleCommand
  dsimp only
  rw [show gCommands.find? _ = some cmd from hcmd]
  dsimp only
  rw [if_neg (by rw [haccess]; exact Bool.false_ne_true)]
  refine ⟨_, rfl, ?_⟩
  split
  · exact fun effect he => absurd he List.not_mem_nil
  · exact fun effect he => ⟨_, List.mem_singleton.mp he⟩

theorem handleCommand_runs {h : RequestHeader} {cmd : Command}
    (hcmd : command urlPath h = some cmd)
    (haccess : (s.checkAuthorization cmd.mAuthLevel h.authorization).1 = true) :
    ∃ aMsg uName, handleCommand urlPath s h.path h.authorization =
      (.sigMessage aMsg 150 .info :: (s.runCommand uName cmd.mType).1,
        .ok (s.runCommand uName cmd.mType).2) := by
  unfold handleCommand
  dsimp only
  rw [show gCommands.find? _ = some cmd from hcmd]
  dsimp only
  rw [if_pos haccess]
  exact ⟨_, _, rfl⟩

theorem statusLine_append {effects : List Effect}
    (h : ∀ effect ∈ effects, ∃ aMsg, effect = .sigMessage aMsg 50 .warn) (o : Out)
    (os : List Out) : statusLine (effects ++ outs (o :: os)) = some o := by
  have hnone : statusLine effects = none := by
    rw [statusLine, List.findSome?_eq_none_iff]
    intro effect he
    obtain ⟨aMsg, rfl⟩ := h effect he
    rfl
  unfold statusLine at hnone ⊢
  rw [List.findSome?_append, hnone]
  rfl

theorem runCommand_closes (u : Str) (t : CmdType) : (s.runCommand u t).2 = decide (t ≠ .log) := by
  cases t <;> rfl

theorem answer_cases (h : RequestHeader) :
    (fate urlPath s h = .notGet ∧ executed urlPath s h = none ∧
      answer urlPath s h = (outs [HTTP_501, .HTTP_HTML, .HTTP_DATASTART, HTML_501], true)) ∨
    (fate urlPath s h = .unknown ∧ executed urlPath s h = none ∧ ∃ aMsg, answer urlPath s h =
      ([.sigMessage aMsg 70 .warn] ++ outs [HTTP_404, .HTTP_HTML, .HTTP_DATASTART, HTML_404],
        true)) ∨
    (fate urlPath s h = .refused ∧ executed urlPath s h = none ∧ ∃ effects,
      (∀ effect ∈ effects, ∃ aMsg, effect = .sigMessage aMsg 50 .warn) ∧ answer urlPath s h =
        (effects ++ outs [HTTP_401, .HTTP_HTML, .HTTP_DATASTART, HTML_401, .text "\n".toList],
          true)) ∨
    ∃ t aMsg uName, fate urlPath s h = .runs t ∧ executed urlPath s h = some t ∧
      answer urlPath s h =
        (.sigMessage aMsg 150 .info :: (s.runCommand uName t).1, (s.runCommand uName t).2) := by
  unfold fate executed answer
  by_cases hget : h.method = "GET".toList
  · rw [if_pos hget, if_pos hget, if_pos hget]
    cases hcmd : command urlPath h with
    | none =>
      obtain ⟨aMsg, hh⟩ := handleCommand_unknown urlPath s hcmd
      rw [hh]
      exact .inr (.inl ⟨rfl, rfl, aMsg, rfl⟩)
    | some cmd =>
      by_cases haccess : (s.checkAuthorization cmd.mAuthLevel h.authorization).1 = true
      · obtain ⟨aMsg, uName, hh⟩ := handleCommand_runs urlPath s hcmd haccess
        rw [hh]
        exact .inr (.inr (.inr ⟨cmd.mType, aMsg, uName, if_pos haccess, rfl, rfl⟩))
      · obtain ⟨effects, hh, hwarn⟩ :=
          handleCommand_refused urlPath s hcmd (Bool.eq_false_iff.mpr haccess)
        rw [hh]
        exact .inr (.inr (.inl ⟨if_neg haccess, rfl, effects, hwarn, rfl⟩))
  · rw [if_neg hget, if_neg hget, if_neg hget]
    exact .inl ⟨rfl, rfl, rfl⟩

/-- What a header gets, and whether the connection stays open, is determined by its fate. -/
theorem outcome_eq (h : RequestHeader) :
    outcome urlPath s h = ((fate urlPath s h).command, some ((fate urlPath s h).status s)) ∧
      ((answer urlPath s h).2 = false ↔ fate urlPath s h = .runs .log) := by
  unfold outcome
  rcases answer_cases urlPath s h with ⟨hfate, hexec, ha⟩ | ⟨hfate, hexec, aMsg, ha⟩ |
    ⟨hfate, hexec, effects, hwarn, ha⟩ | ⟨t, aMsg, uName, hfate, hexec, ha⟩
  · rw [hfate, hexec, ha]
    exact ⟨rfl, iff_of_false nofun nofun⟩
  · rw [hfate, hexec, ha]
    exact ⟨rfl, iff_of_false nofun nofun⟩
  · rw [hfate, hexec, ha]
    exact ⟨Prod.ext rfl (statusLine_append hwarn _ _), iff_of_false nofun nofun⟩
  · rw [hfate, hexec, ha]
    refine ⟨Prod.ext rfl (statusLine_runCommand s uName t), ?_⟩
    rw [runCommand_closes]
    simp

theorem setLogLevel_notMem_outs (aLevel : Nat) (os : List Out) :
    Effect.setLogLevel aLevel ∉ outs os := by
  intro h
  obtain ⟨o, -, ho⟩ := List.mem_map.mp h
  cases ho

theorem runCommand_setLogLevel {u : Str} {t : CmdType} {aLevel : Nat}
    (h : .setLogLevel aLevel ∈ (s.runCommand u t).1) : t = .log := by
  cases t with
  | log => rfl
  | requests =>
    unfold runCommand cmdRequests at h
    dsimp only at h
    split at h
    · exact absurd h (setLogLevel_notMem_outs _ _)
    · exact absurd ((List.mem_cons.mp h).resolve_left nofun) (setLogLevel_notMem_outs _ _)
  | help | current | skip | shutdown =>
    simp [runCommand, cmdHelp, cmdCurrent, cmdSkip, cmdShutdown, setLogLevel_notMem_outs] at h

/-- An answer sets a log level only if it executes `/log`. -/
theorem executed_log {h : RequestHeader} {aLevel : Nat}
    (hmem : .setLogLevel aLevel ∈ (answer urlPath s h).1) : executed urlPath s h = some .log := by
  rcases answer_cases urlPath s h with ⟨-, -, ha⟩ | ⟨-, -, aMsg, ha⟩ |
    ⟨-, -, effects, hwarn, ha⟩ | ⟨t, aMsg, uName, -, hexec, ha⟩
  · rw [ha] at hmem
    exact absurd hmem (setLogLevel_notMem_outs _ _)
  · rw [ha] at hmem
    exact absurd ((List.mem_cons.mp hmem).resolve_left nofun) (setLogLevel_notMem_outs _ _)
  · rw [ha] at hmem
    rcases List.mem_append.mp hmem with hmem | hmem
    · obtain ⟨aMsg, he⟩ := hwarn _ hmem
      cases he
    · exact absurd hmem (setLogLevel_notMem_outs _ _)
  · rw [ha] at hmem
    rw [hexec, runCommand_setLogLevel s ((List.mem_cons.mp hmem).resolve_left nofun)]

theorem errors_differ : HTTP_501 ≠ HTTP_404 ∧ HTTP_501 ≠ HTTP_401 ∧ HTTP_404 ≠ HTTP_401 := by
  decide

theorem Fate.status_inj {f f' : Fate} (hcmd : f.command = f'.command)
    (hstatus : f.status s = f'.status s) : f = f' := by
  obtain ⟨h₁, h₂, h₃⟩ := errors_differ
  cases f with
  | runs t =>
    cases f' with
    | runs t' =>
      cases hcmd
      rfl
    | notGet | unknown | refused => cases hcmd
  | notGet =>
    cases f' with
    | runs t' => cases hcmd
    | notGet => rfl
    | unknown => exact absurd hstatus h₁
    | refused => exact absurd hstatus h₂
  | unknown =>
    cases f' with
    | runs t' => cases hcmd
    | notGet => exact absurd hstatus.symm h₁
    | unknown => rfl
    | refused => exact absurd hstatus h₃
  | refused =>
    cases f' with
    | runs t' => cases hcmd
    | notGet => exact absurd hstatus.symm h₂
    | unknown => exact absurd hstatus.symm h₃
    | refused => rfl

theorem outcome_eq_iff (h h' : RequestHeader) :
    outcome urlPath s h = outcome urlPath s h' ↔ fate urlPath s h = fate urlPath s h' := by
  rw [(outcome_eq urlPath s h).1, (outcome_eq urlPath s h').1]
  constructor
  · intro heq
    obtain ⟨hcmd, hstatus⟩ := Prod.mk.inj heq
    exact Fate.status_inj s hcmd (Option.some.inj hstatus)
  · intro heq
    rw [heq]

/-! ## Deliveries -/

def requestOf (line : Str) (headers : List Str) : Str :=
  (line :: headers).flatMap (· ++ "\r\n".toList) ++ "\r\n".toList

theorem getLast?_requestOf (line : Str) (headers : List Str) :
    (requestOf line headers).getLast? = some '\n' := by
  rw [requestOf, List.getLast?_append_of_ne_nil _ (by decide)]
  rfl

theorem readClients_ne_nil (parse : Str → RequestHeader) (buf d : Str) (ds : List Str) :
    readClients urlPath s parse buf (d :: ds) ≠ [] := List.cons_ne_nil _ _

/-- A request that comes in one delivery is answered once. -/
theorem readClients_whole (parse : Str → RequestHeader) {line : Str} {headers : List Str}
    (hlen : (requestOf line headers).length ≤ MAX_REQUEST_SIZE) :
    readClients urlPath s parse [] [requestOf line headers] = [parse (requestOf line headers)] := by
  rw [readClients, List.nil_append, readInput_complete hlen (getLast?_requestOf line headers)]
  dsimp only
  split <;> rfl

/-- **The command and the status line are those of a single delivery exactly if there is only one,
or the lines in the first one make a header with the fate of the request, which is not to run
`/log`.** -/
theorem deliveries_iff (parse : Str → RequestHeader) {line : Str} {headers : List Str}
    (hlen : (requestOf line headers).length ≤ MAX_REQUEST_SIZE)
    {d : Str} {ds : List Str} (hds : (d :: ds).flatten = requestOf line headers) :
    (readClients urlPath s parse [] (d :: ds)).map (outcome urlPath s) =
        (readClients urlPath s parse [] [requestOf line headers]).map (outcome urlPath s) ↔
      ds = [] ∨ fate urlPath s (parse (readInput d).1) =
          fate urlPath s (parse (requestOf line headers)) ∧
        fate urlPath s (parse (requestOf line headers)) ≠ .runs .log := by
  rw [readClients_whole urlPath s parse hlen, List.map_singleton]
  by_cases hone : ds = []
  · subst hone
    rw [List.flatten_singleton] at hds
    subst hds
    rw [readClients_whole urlPath s parse hlen]
    exact iff_of_true rfl (.inl rfl)
  rw [or_iff_right hone, readClients, List.nil_append]
  dsimp only
  by_cases hlog : fate urlPath s (parse (readInput d).1) = .runs .log
  · -- `/log` leaves the connection open, and the next call sends another status line
    have hopen := (outcome_eq urlPath s (parse (readInput d).1)).2.mpr hlog
    rw [hopen, if_neg Bool.false_ne_true, List.map_cons]
    refine iff_of_false (fun heq => ?_) fun heq => heq.2 (heq.1.symm.trans hlog)
    obtain ⟨d', ds', rfl⟩ := List.exists_cons_of_ne_nil hone
    have hnil := (List.cons.inj heq).2
    exact readClients_ne_nil urlPath s parse _ d' ds' (List.map_eq_nil_iff.mp hnil)
  · have hclosed : (answer urlPath s (parse (readInput d).1)).2 = true := by
      by_contra hopen
      exact hlog ((outcome_eq urlPath s _).2.mp (Bool.eq_false_iff.mpr hopen))
    rw [hclosed, if_pos rfl, List.map_singleton, List.singleton_inj, outcome_eq_iff]
    exact ⟨fun heq => ⟨heq, heq ▸ hlog⟩, fun heq => heq.1⟩

/-- A header by its documented form: method and path stand at the front of the first line, separated
by spaces, and the others have a name and a value. -/
def parseHeader (str : Str) : RequestHeader :=
  let lines := str.splitOn '\n'
  let first := lines.headD []
  let name := "Authorization: ".toList
  let authorization := (lines.tail.find? (name <+: ·)).getD []
  ⟨qsection first ' ' 0 (some 0), qsection first ' ' 1 (some 1),
    (authorization.drop name.length).takeWhile (· ≠ '\r')⟩

/-- A request that is cut in its first line. -/
theorem cut_in_line : ¬ ∀ (parse : Str → RequestHeader) (urlPath : Str → Str) (s : Server)
    (line : Str) (headers : List Str) (d : Str) (ds : List Str),
    (requestOf line headers).length ≤ MAX_REQUEST_SIZE →
      (parse (requestOf line headers)).method = "GET".toList →
      (d :: ds).flatten = requestOf line headers →
      (readClients urlPath s parse [] (d :: ds)).map (outcome urlPath s) =
        (readClients urlPath s parse [] [requestOf line headers]).map (outcome urlPath s) := by
  intro h
  have hcut := h parseHeader id oneUserServer "GET /help HTTP/1.0".toList [] "GET /he".toList
    ["lp HTTP/1.0\r\n\r\n".toList] (by decide) (by decide) (by decide)
  revert hcut
  decide

theorem deliveries_after_headers :
    (readClients id oneUserServer parseHeader []
        ["GET /help HTTP/1.0\r\n".toList, "\r\n".toList]).map (outcome id oneUserServer) =
      (readClients id oneUserServer parseHeader []
        [requestOf "GET /help HTTP/1.0".toList []]).map (outcome id oneUserServer) :=
  (deliveries_iff id oneUserServer parseHeader (by decide) (by decide)).mpr
    (.inr ⟨by decide, by decide⟩)

end Server

end NetDJ.Engine
