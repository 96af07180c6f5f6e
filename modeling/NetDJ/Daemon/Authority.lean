import NetDJ.Daemon.HttpThread

/-!
# `main.cc`: who has asked for a command

A connection on which `recv` fails runs the request that the buffer still holds. But no command is
run that no client with the right has asked for.

* `COMMAND.Web` : the commands of the web interface;
* `Connection.Asks` : the request for a command, with the name and the password of a user whose level
  is high enough;
* `lastText_mem` : the text in the buffer is that of a connection, or the one before the first;
* `HttpThread.commands_authorised` : each command of a run has been asked for in this run.
-/

namespace NetDJ.Daemon

/-- A command that users may run without being at the console. -/
def COMMAND.Web (com : COMMAND) : Prop := com.func = .next ∨ com.func = .start ∨ com.func = .stop

theorem findCommand_web {name : Str} {com : COMMAND} (h : findCommand name false = some com) :
    com.Web ∧ cStr name = com.name := by
  have hweb : ∀ c ∈ commands, c.userfunc = true → c.Web := by
    unfold COMMAND.Web
    decide
  have htest := List.find?_some h
  rw [Bool.and_eq_true, Bool.or_false, decide_eq_true_eq] at htest
  exact ⟨hweb com (List.mem_of_find?_eq_some h) htest.2, htest.1⟩

/-- The text holds the name and the password of a user who has the level. -/
def Identifies (users : Users) (level : Int) (str : Str) : Prop :=
  ∃ u p user, Credentials ((cStr str).dropWhile (· == ':')) u p ∧ users.lookup u = some user ∧
    user.password = p ∧ level ≤ user.level

theorem identifies_of_allowed {users : Users} {level : Int} {str userstr : Str}
    (h : (isAccessAllowed users str level userstr).1 = true) : Identifies users level str := by
  obtain ⟨hmatch, user, hlookup, hpassword, hlevel⟩ := (isAccessAllowed_iff _ _ _ _).mp h
  have hnul := nul_notMem_cStr str
  rw [← MyRegex.matchStr_cStr] at hmatch hlookup hpassword
  by_cases hc : ∃ u p, Credentials ((cStr str).dropWhile (· == ':')) u p
  · obtain ⟨u, p, hc⟩ := hc
    obtain ⟨n, -, hup⟩ := matchStr_of_credentials hnul hc
    rw [hup] at hlookup hpassword
    exact ⟨u, p, user, hc, hlookup, hpassword, hlevel⟩
  · rw [matchStr_of_not_credentials hnul fun u p hup => hc ⟨u, p, hup⟩] at hmatch
    exact absurd rfl hmatch

/-- The connection sends a `GET` request for the command, with the name and the password of a user
who may run it, as `base64_decode` reads them on these tables. -/
def Connection.Asks (users : Users) (tables : Tables) (c : Connection) (com : COMMAND) : Prop :=
  let req := (unusedRequest.parseHead c.received).2
  req.command = "GET".toList ∧ req.name.take 9 = cgiBin ∧ cStr (req.name.drop 9) = com.name ∧
    ∃ auth, req.getHeader "Authorization".toList = some auth ∧ auth.take 6 = basic ∧
      Identifies users UserLevel.powerUser.value (base64Decode tables (auth.drop 6))

theorem asks_of_requestCommand {users : Users} {tables : Tables} {c : Connection} {com : COMMAND}
    (h : requestCommand users tables (cStr c.received) = some com) :
    c.Asks users tables com ∧ com.Web := by
  have hauth := authorised_of_requestCommand users tables h
  unfold requestCommand at h
  dsimp only at h
  split at h
  · next hand =>
    obtain ⟨hweb, hname⟩ := findCommand_web h
    have hcommand := (Bool.and_eq_true_iff.mp hand).1
    unfold isCommandRequest at hcommand
    rw [HTTPRequest.parseHead_cStr] at hcommand hname hauth
    simp only [Bool.and_eq_true, decide_eq_true_eq] at hcommand
    refine ⟨⟨hcommand.1.2, hcommand.2, hname, ?_⟩, hweb⟩
    unfold authorised at hauth
    split at hauth
    · cases hauth
    · next auth hheader =>
      rw [Bool.and_eq_true, decide_eq_true_eq] at hauth
      exact ⟨auth, hheader, hauth.1, identifies_of_allowed hauth.2⟩
  · cases h

/-- The text in the buffer is one that was received on a connection, if it is not the one that stood
there at the start. -/
theorem lastText_mem (text : Str) (cs : List Connection) :
    lastText text cs = text ∨ ∃ c ∈ cs, lastText text cs = cStr c.received := by
  induction cs using List.reverseRecOn with
  | nil => exact .inl rfl
  | append_singleton cs c ih =>
    have hkeep : lastText text cs = text ∨
        ∃ c' ∈ cs ++ [c], lastText text cs = cStr c'.received := by
      rcases ih with h | ⟨c', hc', h⟩
      · exact .inl h
      · exact .inr ⟨c', List.mem_append_left _ hc', h⟩
    unfold lastText at hkeep ⊢
    rw [List.foldl_append, List.foldl_cons, List.foldl_nil]
    cases c.poll with
    | false => exact hkeep
    | true =>
      cases hr : c.recv with
      | failed => exact hkeep
      | bytes b =>
        refine .inr ⟨c, List.mem_append_right _ List.mem_cons_self, ?_⟩
        rw [Connection.received, hr]

namespace HttpThread

/-- **Each command that is run in a sequence of connections is one of the web interface, and a
connection of the sequence, that one or an earlier one, has asked for it with the name and the
password of a user who may run it.** Before the first connection the buffer holds no request. -/
theorem commands_authorised {cfg : HttpConfig} {t u : HttpThread} {earlier : List Connection}
    {c : Connection} {com : COMMAND}
    (hstart : ∀ tables, requestCommand cfg.users tables (cStr t.rbuf) = none)
    (h : serveAll cfg t earlier = .ok u) (hcom : commandRun cfg u c = .ok (some com)) :
    com.Web ∧ ∃ c' ∈ earlier ++ [c], c'.Asks cfg.users c.tables com := by
  obtain ⟨u', hu', htext⟩ := serveAll_ok cfg earlier t
  obtain rfl := Except.ok.inj (hu'.symm.trans h)
  rw [commandRun_eq] at hcom
  have hsome := Except.ok.inj hcom
  split at hsome
  · cases hr : c.recv with
    | bytes b =>
      have hown : c.received = b := by rw [Connection.received, hr]
      rw [hr, receive, cStr_append_nul, ← hown] at hsome
      obtain ⟨hasks, hweb⟩ := asks_of_requestCommand hsome
      exact ⟨hweb, c, List.mem_append_right _ List.mem_cons_self, hasks⟩
    | failed =>
      rw [hr, receive, htext] at hsome
      rcases lastText_mem (cStr t.rbuf) earlier with hlast | ⟨c', hc', hlast⟩
      · rw [hlast, hstart] at hsome
        cases hsome
      · rw [hlast] at hsome
        obtain ⟨hasks, hweb⟩ := asks_of_requestCommand hsome
        exact ⟨hweb, c', List.mem_append_left _ hc', hasks⟩
  · cases hsome

theorem commands_authorised_reset : ∃ u, serveAll oneUser idle [stopClient] = .ok u ∧
    commandRun oneUser u resetClient = .ok (some ⟨"stop".toList, .stop, true⟩) ∧
    ∃ c' ∈ [stopClient] ++ [resetClient],
      c'.Asks oneUser.users zeroTables ⟨"stop".toList, .stop, true⟩ := by
  obtain ⟨u, hu, htext⟩ := serveAll_ok oneUser [stopClient] idle
  have hrequest : requestCommand oneUser.users zeroTables (lastText (cStr idle.rbuf) [stopClient]) =
      some ⟨"stop".toList, .stop, true⟩ := by decide +kernel
  have hcom : commandRun oneUser u resetClient = .ok (some ⟨"stop".toList, .stop, true⟩) := by
    rw [commandRun_eq]
    show Except.ok (requestCommand oneUser.users zeroTables (cStr u.rbuf)) = _
    rw [htext, hrequest]
  refine ⟨u, hu, hcom, (commands_authorised (fun tables => ?_) hu hcom).2⟩
  exact requestCommand_nil oneUser.users tables

end HttpThread

end NetDJ.Daemon
