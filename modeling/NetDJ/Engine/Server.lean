import NetDJ.Util
import NetDJ.Engine.Report
import NetDJ.Engine.AccessChecker

/-!
# `Server.cpp`: commands and authorization

A call of `HandleCommand` is modelled by what it does, in order (`Effect`), and by what it returns
or throws. `QUrl` is not part of the repository: `urlPath` stands for the path it finds.

* `handleCommand` : the command lookup, the check and the commands;
* `Credentials` : the text is a name of the table and its password, with a colon between them;
* `handleCommand_guarded` : a guarded command runs or is refused, as the check says;
* `checkAuthorization_basicHeader` : the check looks up the first two fields of the decoded text;
* `access_exact_iff` : so the check is exact except for a third field behind an admitted pair.
-/

namespace NetDJ.Engine

inductive CmdType where
  | help | current | requests | log | skip | shutdown
  deriving DecidableEq

structure Command where
  mType : CmdType
  mName : Str
  mAuthLevel : BitVec 32
  mDescription : Str
  deriving DecidableEq

/-- `gCommands`, without the entry that ends it. -/
def gCommands : List Command :=
  [⟨.help, "/help".toList, 0, "This page".toList⟩,
    ⟨.current, "/current.xml".toList, 0, "XML: The currently playing song".toList⟩,
    ⟨.requests, "/requests.xml".toList, 0, "XML: The request list".toList⟩,
    ⟨.log, "/log".toList, 0, "Get log messages (continuous)".toList⟩,
    ⟨.skip, "/skip".toList, 200, "Skip the currently playing song".toList⟩,
    ⟨.shutdown, "/shutdown".toList, 500, "Shutdown NetDJ".toList⟩]

/-- What is streamed to the client: the constants by their names, and other text. -/
inductive Out where
  | HTTP_200 | HTTP_500 | HTTP_HTML | HTTP_XML | HTTP_DATASTART
  | HTML_200_START | HTML_200_END | HTML_500
  | text (s : Str)
  deriving DecidableEq

inductive Effect where
  | out (o : Out)
  | sigMessage (aMsg : Str) (aLevel : Nat) (aClass : EntryClass)
  | sigSkip (aUsername : Str)
  | sigQuit (aUsername : Str)
  /-- `mClients[socket]->SetLogLevel(aLevel)` for the sender's socket. -/
  | setLogLevel (aLevel : Nat)
  deriving DecidableEq

inductive Thrown where
  | cmdInvalid
  | cmdUnauthorized
  deriving DecidableEq

/-- What the commands read: the user table, the XML of the current song, the XML of the request
collection if there is one, and the uninitialised part of the tables of `base64_decode`. -/
structure Server where
  mAccessChecker : SimpleAccessChecker
  songXML : Str
  requestXML : Option Str
  tables : Tables

def basic : Str := "Basic ".toList

namespace Server

/-- `CheckAuthorization`: the answer and the user name. -/
def checkAuthorization (s : Server) (aLevel : BitVec 32) (aAuthString : Str) : Bool × Str :=
  if aLevel = 0 then (true, [])
  else if aAuthString = [] ∨ ¬ basic <+: aAuthString then (false, [])
  else
    let auth := base64Decode s.tables (ascii (aAuthString.drop 6))
    let uName := qsection auth ':' 0 (some 0)
    (s.mAccessChecker.hasAccess uName (qsection auth ':' 1 (some 1)) aLevel, uName)

def outs (os : List Out) : List Effect := os.map .out

def cmdHelp : List Effect :=
  outs [.HTTP_200, .HTTP_HTML, .HTTP_DATASTART, .HTML_200_START, .text "<table>\n".toList,
    .text "  <tr><th>Name</th><th>Description</th></tr>\n".toList] ++
  outs (gCommands.flatMap fun c =>
    [.text "  <tr><td><a href=\"".toList, .text c.mName, .text "\">".toList, .text c.mName,
      .text "</a></td><td>".toList, .text c.mDescription, .text "</td></tr>\n".toList]) ++
  outs [.text "</table>\n".toList, .HTML_200_END]

def cmdCurrent (s : Server) : List Effect :=
  outs [.HTTP_200, .HTTP_XML, .HTTP_DATASTART, .text s.songXML, .text "\n".toList]

def cmdRequests (s : Server) : List Effect :=
  match s.requestXML with
  | some xml => outs [.HTTP_200, .HTTP_XML, .HTTP_DATASTART, .text xml, .text "\n".toList]
  | none =>
    .sigMessage "Could not retrieve request collection!".toList 10 .crit ::
      outs [.HTTP_500, .HTTP_HTML, .HTTP_DATASTART, .HTML_500]

def cmdLog : List Effect :=
  .setLogLevel 999 :: outs [.HTTP_200, .HTTP_XML, .HTTP_DATASTART,
    .text "<log state=\"on\"/>\n".toList, .text "\n".toList]

def cmdSkip (aUsername : Str) : List Effect :=
  outs [.HTTP_200, .HTTP_HTML, .HTTP_DATASTART, .HTML_200_START,
    .text "<p>Skipping song</p>\n".toList, .HTML_200_END] ++ [.sigSkip aUsername]

def cmdShutdown (aUsername : Str) : List Effect :=
  outs [.HTTP_200, .HTTP_HTML, .HTTP_DATASTART, .HTML_200_START,
    .text "<p>Shutting down NetDJ!</p>\n".toList, .HTML_200_END] ++ [.sigQuit aUsername]

/-- The `switch`: what the command does, and whether the connection is closed. -/
def runCommand (s : Server) (uName : Str) : CmdType → List Effect × Bool
  | .help => (cmdHelp, true)
  | .current => (s.cmdCurrent, true)
  | .requests => (s.cmdRequests, true)
  | .log => (cmdLog, false)
  | .shutdown => (cmdShutdown uName, true)
  | .skip => (cmdSkip uName, true)

def shortcut (cmdstr : Str) : Str :=
  if cmdstr = "/".toList ∨ cmdstr = "/index.html".toList ∨ cmdstr = "/index.xml".toList then
    "/help".toList
  else cmdstr

/-- `HandleCommand`, on the path and the `Authorization` value of the request header. -/
def handleCommand (urlPath : Str → Str) (s : Server) (path auth : Str) :
    List Effect × Except Thrown Bool :=
  let cmdstr := shortcut (urlPath path)
  match gCommands.find? (·.mName = cmdstr) with
  | none =>
    ([.sigMessage ("Invalid command: ".toList ++ cmdstr) 70 .warn], .error .cmdInvalid)
  | some cmd =>
    let (allowed, uName) := s.checkAuthorization cmd.mAuthLevel auth
    if allowed then
      let (effects, closeCon) := s.runCommand uName cmd.mType
      (.sigMessage ("Command: '".toList ++ cmdstr ++
          (if uName = [] then [] else "', user='".toList ++ uName ++ "'".toList)) 150 .info ::
        effects,
        .ok closeCon)
    else
      (if uName = [] then [] else
        [.sigMessage ("Unauthorized command: '".toList ++ cmdstr ++ "', user='".toList ++ uName ++
          "'".toList) 50 .warn], .error .cmdUnauthorized)

end Server

/-! ## Guarded commands -/

/-- The call emits `SigSkip` or `SigQuit`. -/
def Runs (r : List Effect × Except Thrown Bool) : Prop :=
  ∃ u, Effect.sigSkip u ∈ r.1 ∨ Effect.sigQuit u ∈ r.1

/-- The call throws `CMDUnauthorized` and emits neither signal. -/
def Refused (r : List Effect × Except Thrown Bool) : Prop :=
  r.2 = .error .cmdUnauthorized ∧ ¬ Runs r

theorem gCommands_lookup : ∀ cmd ∈ gCommands, Server.shortcut cmd.mName = cmd.mName ∧
    gCommands.find? (fun c => c.mName = cmd.mName) = some cmd := by decide

theorem guarded_type : ∀ cmd ∈ gCommands, 0 < cmd.mAuthLevel →
    cmd.mType = .skip ∨ cmd.mType = .shutdown := by decide

namespace Server

theorem runCommand_runs (s : Server) (u : Str) {t : CmdType} (h : t = .skip ∨ t = .shutdown) :
    ∃ v, Effect.sigSkip v ∈ (s.runCommand u t).1 ∨ Effect.sigQuit v ∈ (s.runCommand u t).1 := by
  refine ⟨u, ?_⟩
  rcases h with rfl | rfl
  · exact Or.inl (List.mem_append_right _ (List.mem_singleton_self _))
  · exact Or.inr (List.mem_append_right _ (List.mem_singleton_self _))

theorem handleCommand_guarded (urlPath : Str → Str) (s : Server) (path auth : Str) {cmd : Command}
    (hcmd : cmd ∈ gCommands) (hlevel : 0 < cmd.mAuthLevel) (hpath : urlPath path = cmd.mName) :
    if (s.checkAuthorization cmd.mAuthLevel auth).1 = true then
      Runs (handleCommand urlPath s path auth)
    else Refused (handleCommand urlPath s path auth) := by
  obtain ⟨hshort, hfind⟩ := gCommands_lookup cmd hcmd
  rw [handleCommand]
  simp only [hpath, hshort, hfind]
  split
  · obtain ⟨u, hu⟩ := runCommand_runs s (s.checkAuthorization cmd.mAuthLevel auth).2
      (guarded_type cmd hcmd hlevel)
    exact ⟨u, hu.imp (List.mem_cons_of_mem _) (List.mem_cons_of_mem _)⟩
  · refine ⟨rfl, ?_⟩
    rintro ⟨u, h⟩
    simp only at h
    split at h <;> simp at h

end Server

/-! ## Credentials -/

def basicHeader (c : Str) : Str := basic ++ Base64.encode digit '=' (c.map Char.toNat)

/-- `c` is a user's name and password, with a colon between them, and the user has the level. -/
def Credentials (a : SimpleAccessChecker) (c : Str) (level : BitVec 32) : Prop :=
  ∃ u info, a.mUsers.lookup u = some info ∧ c = u ++ ':' :: info.mPassword ∧ level ≤ info.mLevel

/-- The command runs exactly for the credentials of a user with its level, and is refused
otherwise. -/
def Exact (a : SimpleAccessChecker) (c : Str) (level : BitVec 32)
    (r : List Effect × Except Thrown Bool) : Prop :=
  (Runs r ↔ Credentials a c level) ∧ (¬ Credentials a c level → Refused r)

theorem encode_latin1 {bs : List Nat} (h : ∀ b ∈ bs, b < 256) :
    ∀ c ∈ Base64.encode digit '=' bs, c.toNat < 256 := by
  have hdigit : ∀ n < 64, (digit n).toNat < 256 := by decide +kernel
  intro c hc
  rcases List.mem_append.mp hc with hc | hc
  · obtain ⟨d, hd, rfl⟩ := List.mem_map.mp hc
    exact hdigit d (Base64.sextets_lt bs h d hd)
  · rw [List.eq_of_mem_replicate hc]
    decide

/-- On the header of `c` the check is the lookup of the first two fields of `c`. -/
theorem checkAuthorization_basicHeader (s : Server) {level : BitVec 32} (hlevel : level ≠ 0)
    {c : Str} (hc : ∀ ch ∈ c, ch.toNat < 256) :
    (s.checkAuthorization level (basicHeader c)).1 =
      s.mAccessChecker.hasAccess (qsection c ':' 0 (some 0)) (qsection c ':' 1 (some 1)) level := by
  have hbytes : ∀ b ∈ c.map Char.toNat, b < 256 := by
    intro b hb
    obtain ⟨ch, hch, rfl⟩ := List.mem_map.mp hb
    exact hc ch hch
  have hdrop : (basicHeader c).drop 6 = Base64.encode digit '=' (c.map Char.toNat) := rfl
  have hprefix : basic <+: basicHeader c := List.prefix_append _ _
  have hne : ¬ (basicHeader c = [] ∨ ¬ basic <+: basicHeader c) := by
    rintro (h | h)
    · cases h
    · exact h hprefix
  have hdecode : base64Decode s.tables (ascii ((basicHeader c).drop 6)) = c := by
    rw [hdrop, ascii_eq_self (encode_latin1 hbytes), base64Decode_encode s.tables hbytes,
      List.map_map]
    conv => rhs; rw [← List.map_id c]
    exact List.map_congr_left fun ch _ => Char.ofNat_toNat ch
  rw [Server.checkAuthorization, if_neg hlevel, if_neg hne]
  simp only [hdecode]

theorem hasAccess_of_credentials {a : SimpleAccessChecker} {c : Str} {level : BitVec 32}
    (h : Credentials a c level) :
    c.count ':' = 1 ∧
      a.hasAccess (qsection c ':' 0 (some 0)) (qsection c ':' 1 (some 1)) level = true := by
  obtain ⟨u, info, hu, rfl, hl⟩ := h
  obtain ⟨hname, hpass⟩ := a.fields u info hu
  constructor
  · rw [List.count_append, List.count_cons_self, List.count_eq_zero_of_not_mem hname.2,
      List.count_eq_zero_of_not_mem hpass.2]
  · rw [qsection_zero_append hname.2, qsection_one_append hname.2,
      qsection_zero_of_notMem hpass.2]
    exact (a.hasAccess_iff _ _ _).mpr ⟨info, hu, rfl, hl⟩

/-- With two fields at most, an admitted pair is all of the text. -/
theorem credentials_of_hasAccess {a : SimpleAccessChecker} {c : Str} {level : BitVec 32}
    (hcount : c.count ':' ≤ 1)
    (h : a.hasAccess (qsection c ':' 0 (some 0)) (qsection c ':' 1 (some 1)) level = true) :
    Credentials a c level := by
  obtain ⟨info, hu, hp, hl⟩ := (a.hasAccess_iff _ _ _).mp h
  by_cases hc : ':' ∈ c
  · obtain ⟨u, p, rfl, hu'⟩ := List.eq_append_cons_of_mem hc
    have hp' : ':' ∉ p := by
      rw [List.count_append, List.count_cons_self] at hcount
      exact List.count_eq_zero.mp (by omega)
    rw [qsection_zero_append hu'] at hu
    rw [qsection_one_append hu', qsection_zero_of_notMem hp'] at hp
    exact ⟨u, info, hu, by rw [hp], hl⟩
  · rw [qsection_one_of_notMem hc] at hp
    exact absurd hp (a.fields _ info hu).2.1

/-- **When the check is exact.** The table may come from any user file, the command be any that
needs a level, and the credential text any Latin-1 text. -/
theorem access_exact_iff (lines : List Str) (urlPath : Str → Str) (s : Server) (path c : Str)
    (cmd : Command) (hinit : s.mAccessChecker = SimpleAccessChecker.init lines)
    (hcmd : cmd ∈ gCommands) (hlevel : 0 < cmd.mAuthLevel) (hpath : urlPath path = cmd.mName)
    (hc : ∀ ch ∈ c, ch.toNat < 256 ∧ ch ≠ '\x00') :
    Exact (SimpleAccessChecker.init lines) c cmd.mAuthLevel
        (Server.handleCommand urlPath s path (basicHeader c)) ↔
      c.count ':' ≤ 1 ∨
        (SimpleAccessChecker.init lines).hasAccess (qsection c ':' 0 (some 0))
          (qsection c ':' 1 (some 1)) cmd.mAuthLevel = false := by
  have hguard := Server.handleCommand_guarded urlPath s path (basicHeader c) hcmd hlevel hpath
  rw [checkAuthorization_basicHeader s (fun h => absurd hlevel (by rw [h]; decide))
    (fun ch hch => (hc ch hch).1), hinit] at hguard
  cases haccess : (SimpleAccessChecker.init lines).hasAccess (qsection c ':' 0 (some 0))
      (qsection c ':' 1 (some 1)) cmd.mAuthLevel with
  | true =>
    rw [haccess, if_pos rfl] at hguard
    constructor
    · rintro ⟨hruns, -⟩
      exact Or.inl (hasAccess_of_credentials (hruns.mp hguard)).1.le
    · rintro (hcount | h)
      · have hcred := credentials_of_hasAccess hcount haccess
        exact ⟨⟨fun _ => hcred, fun _ => hguard⟩, fun h => absurd hcred h⟩
      · cases h
  | false =>
    rw [haccess, if_neg Bool.false_ne_true] at hguard
    have hno : ¬ Credentials (SimpleAccessChecker.init lines) c cmd.mAuthLevel := fun h =>
      Bool.false_ne_true (haccess.symm.trans (hasAccess_of_credentials h).2)
    exact ⟨fun _ => Or.inr rfl,
      fun _ => ⟨⟨fun h => absurd h hguard.2, fun h => absurd h hno⟩, fun _ => hguard⟩⟩

def oneUserServer : Server :=
  ⟨SimpleAccessChecker.init ["dj:secret:200".toList], [], none, ⟨fun _ => 0, fun _ => 0⟩⟩

theorem access_exact_dj :
    Exact (SimpleAccessChecker.init ["dj:secret:200".toList]) "dj:secret".toList 200
      (Server.handleCommand id oneUserServer "/skip".toList (basicHeader "dj:secret".toList)) :=
  (access_exact_iff ["dj:secret:200".toList] id oneUserServer "/skip".toList "dj:secret".toList
    ⟨.skip, "/skip".toList, 200, "Skip the currently playing song".toList⟩ rfl (by decide)
    (by decide) rfl (List.forall_iff_forall_mem.mp (by decide))).mpr (.inl (by decide))

/-- With text behind the password the command still runs. -/
theorem skip_with_third_field :
    Runs (Server.handleCommand id oneUserServer "/skip".toList
        (basicHeader "dj:secret:guess".toList)) ∧
      ¬ Credentials oneUserServer.mAccessChecker "dj:secret:guess".toList 200 := by
  constructor
  · refine ⟨"dj".toList, Or.inl ?_⟩
    decide +kernel
  · intro h
    have := (hasAccess_of_credentials h).1
    exact absurd this (by decide)

end NetDJ.Engine
