import NetDJ.Daemon.Headers
import NetDJ.Daemon.HttpThread

/-!
# `main.cc`: a client that logs in

From what a browser sends, a user name and a password in Base64 among other headers, to the command
that is run.

* `lookup_last` : the last header of a name is found, whatever the others have in them;
* `mayCommand` : the user has this password, and the level for commands;
* `HttpThread.login` : the command is run exactly if the user may, and else the client is asked.
-/

namespace NetDJ.Daemon

/-! ## The request -/

theorem HTTPRequest.parseURI_name (r : HTTPRequest) :
    r.parseURI.name = r.URI.takeWhile (· ≠ '?') := by
  unfold parseURI
  split
  · next qpos hq =>
    obtain ⟨hlt, hget, hbefore⟩ := List.idxOf?_eq_some_iff.mp hq
    have hcut : r.URI.take qpos ++ '?' :: r.URI.drop (qpos + 1) = r.URI := by
      rw [← hget, List.getElem_cons_drop, List.take_append_drop]
    have hpath : ∀ c ∈ r.URI.take qpos, (decide (c ≠ '?')) = true := by
      intro c hc
      obtain ⟨j, hj, rfl⟩ := List.mem_iff_getElem.mp hc
      rw [List.length_take] at hj
      rw [List.getElem_take]
      exact decide_eq_true (hbefore j (by omega))
    conv_rhs => rw [← hcut]
    rw [List.takeWhile_append_of_pos hpath, List.takeWhile_cons_of_neg (by decide), List.append_nil]
  · next hq =>
    rw [List.idxOf?_eq_none_iff] at hq
    exact (List.takeWhile_eq_self_iff.mpr fun _ hc =>
      decide_eq_true (ne_of_mem_of_not_mem hc hq)).symm

/-- A line of a header with another name has another name. What is between the colons of a value may
become a part of the name, but then there is a colon in it. -/
theorem exists_lines_other {n : Str} (hn : ':' ∉ n) {hs : List Header} (h : ∀ x ∈ hs, x.name ≠ n) :
    ∃ lines, headersText lines = hs.flatMap Header.text ∧ ∀ l ∈ lines, l.name ≠ n := by
  induction hs with
  | nil => exact ⟨[], rfl, nofun⟩
  | cons x hs ih =>
    obtain ⟨hx, hrest⟩ := List.forall_mem_cons.mp h
    obtain ⟨lines, htext, hnames⟩ := ih hrest
    obtain ⟨l, hl, hname⟩ : ∃ l : HeaderLine, l.text = x.text ∧ l.name ≠ n := by
      by_cases hcolon : ':' ∈ x.value.dropLast
      · obtain ⟨l, hl, -, hname⟩ := exists_headerLine (b := ' ' :: x.value) x.name_ne
          (List.cons_ne_nil _ _) x.name_cr (by simp [x.value_cr])
        rw [List.dropLast_cons_of_ne_nil x.value_ne] at hname
        exact ⟨l, hl, fun he => hn (he ▸ hname (List.mem_cons_of_mem _ hcolon))⟩
      · obtain ⟨l, hl, hname, -⟩ := Header.exists_line hcolon
        exact ⟨l, hl, hname ▸ hx⟩
    refine ⟨l :: lines, ?_, List.forall_mem_cons.mpr ⟨hname, hnames⟩⟩
    rw [headersText_cons, hl, htext, List.flatMap_cons]

theorem lookup_last {before after : List Header} {h : Header} (hclean : ':' ∉ h.value.dropLast)
    (hafter : ∀ x ∈ after, x.name ≠ h.name) :
    ∃ lines, headersText lines = (before ++ h :: after).flatMap Header.text ∧
      (headerMap lines).lookup h.name = some h.value := by
  obtain ⟨first, hfirst, -⟩ := exists_lines before
  obtain ⟨l, hl, hname, hvalue⟩ := Header.exists_line hclean
  obtain ⟨last, hlast, hother⟩ := exists_lines_other h.name_colon hafter
  refine ⟨first ++ l :: last, ?_, ?_⟩
  · rw [List.flatMap_append, List.flatMap_cons, ← hfirst, ← hlast, ← hl]
    exact List.flatMap_append
  · have hskip : last.reverse.find? (·.name = h.name) = none := by
      rw [List.find?_eq_none]
      intro x hx
      simpa using hother x (List.mem_reverse.mp hx)
    rw [lookup_headerMap, List.reverse_append, List.reverse_cons, List.append_assoc,
      List.find?_append, hskip, Option.none_or, List.singleton_append,
      List.find?_cons_of_pos (by simpa using hname), Option.map_some, hvalue]

/-! ## The user -/

/-- The user has this password, and the level that the commands need. -/
def mayCommand (users : Users) (u p : Str) : Bool :=
  (users.lookup u).any fun user => user.password = p && user.level ≥ UserLevel.powerUser.value

theorem isAccessAllowed_login (users : Users) {u p : Str} (userstr : Str)
    (hnul : '\x00' ∉ u ++ ':' :: p) (hu : u ≠ []) (hcolon : ':' ∉ u) (hp : p ≠ []) :
    (isAccessAllowed users (u ++ ':' :: p) UserLevel.powerUser.value userstr).1 =
      mayCommand users u p := by
  have hdrop : (u ++ ':' :: p).dropWhile (· == ':') = u ++ ':' :: p := by
    obtain ⟨c, u, rfl⟩ := List.exists_cons_of_ne_nil hu
    have hc : c ≠ ':' := fun he => hcolon (he ▸ List.mem_cons_self)
    exact List.dropWhile_cons_of_neg (by simpa using hc)
  obtain ⟨n, hn, hmatch⟩ := matchStr_of_credentials hnul
    (hdrop.symm ▸ ⟨rfl, hu, hcolon, hp⟩ : Credentials _ u p)
  unfold isAccessAllowed mayCommand
  rw [hmatch]
  dsimp only
  rw [if_neg hn]
  rw [List.getD_cons_zero]
  cases users.lookup u with
  | none => rfl
  | some user => rfl

namespace HttpThread

def credentials (u p : Str) : Str := Base64.encode digit '=' ((u ++ ':' :: p).map Char.toNat)

theorem toNat_lt {u p : Str} (hbytes : ∀ c ∈ u ++ p, c.toNat < 256) :
    ∀ b ∈ (u ++ ':' :: p).map Char.toNat, b < 256 := by
  intro b hb
  obtain ⟨c, hc, rfl⟩ := List.mem_map.mp hb
  rcases List.mem_append.mp hc with hc | hc
  · exact hbytes c (List.mem_append_left _ hc)
  · rcases List.mem_cons.mp hc with rfl | hc
    · decide
    · exact hbytes c (List.mem_append_right _ hc)

theorem base64Decode_credentials (tables : Tables) {u p : Str}
    (hbytes : ∀ c ∈ u ++ p, c.toNat < 256) :
    base64Decode tables (credentials u p) = u ++ ':' :: p := by
  rw [credentials, base64Decode_encode tables (toNat_lt hbytes), List.map_map]
  exact (List.map_congr_left fun c _ => Char.ofNat_toNat c).trans (List.map_id _)

theorem colon_notMem_credentials {u p : Str} (hbytes : ∀ c ∈ u ++ p, c.toNat < 256) :
    ':' ∉ basic ++ credentials u p := by
  have hdigit : ∀ n < 64, digit n ≠ ':' := by decide +kernel
  unfold credentials Base64.encode
  rw [List.mem_append, List.mem_append, not_or, not_or]
  refine ⟨by decide, fun hc => ?_, fun hc => absurd (List.eq_of_mem_replicate hc) (by decide)⟩
  obtain ⟨n, hn, he⟩ := List.mem_map.mp hc
  exact hdigit n (Base64.sextets_lt _ (toNat_lt hbytes) n hn) he

theorem respond_login (cfg : HttpConfig) (tables : Tables) (t : HttpThread) {name code : Str}
    (hget : t.req.command = "GET".toList) (hname : t.req.name = cgiBin ++ name)
    (hauth : t.req.getHeader "Authorization".toList = some (basic ++ code)) :
    ∃ t', respond cfg tables t true =
      let allowed := (isAccessAllowed cfg.users (base64Decode tables code)
        UserLevel.powerUser.value t.cmdbyuser).1
      (t', if allowed then findCommand name false else none,
        if allowed then .redirect else .auth) := by
  have hcgi : t.req.name.take 9 = cgiBin := by
    rw [hname]
    exact List.take_left' rfl
  have hdrop : t.req.name.drop 9 = name := by
    rw [hname]
    exact List.drop_left' rfl
  have hbasic : (basic ++ code).take 6 = basic := List.take_left' rfl
  have hcode : (basic ++ code).drop 6 = code := List.drop_left' rfl
  unfold respond
  rw [if_pos (by rw [hget]; rfl), if_pos hcgi]
  unfold serveCommand
  rw [hauth]
  dsimp only
  rw [if_pos hbasic, hcode]
  cases hallowed : (isAccessAllowed cfg.users (base64Decode tables code)
      UserLevel.powerUser.value t.cmdbyuser).1 with
  | true =>
    rw [if_pos rfl]
    exact ⟨_, by rw [hdrop]; rfl⟩
  | false => exact ⟨_, rfl⟩

/-- **Whoever sends a user name and a password in Base64 runs the command exactly if the users file
has the two with the level for it**, whatever the request has in it besides; if not, the client is
asked for them. -/
theorem login {cfg : HttpConfig} (hlocked : cfg.httpLocked = false) (t : HttpThread)
    {c : Connection} (hpoll : c.poll = true) {l : RequestLine} {before after : List Header}
    {h : Header} {body u p name : Str}
    (hrecv : c.recv = .bytes (requestText l (before ++ h :: after) body))
    (hnul : '\x00' ∉ requestText l (before ++ h :: after) body)
    (hget : l.command = "GET".toList) (hURI : l.URI.takeWhile (· ≠ '?') = cgiBin ++ name)
    (hname : h.name = "Authorization".toList) (hvalue : h.value = basic ++ credentials u p)
    (hlast : ∀ x ∈ after, x.name ≠ h.name) (hu : u ≠ []) (hcolon : ':' ∉ u) (hp : p ≠ [])
    (hbytes : ∀ ch ∈ u ++ p, ch.toNat < 256 ∧ ch ≠ '\x00') :
    ∃ t', serve cfg t c = .ok (t',
      if mayCommand cfg.users u p then findCommand name false else none,
      if mayCommand cfg.users u p then .redirect else .auth) := by
  have hlow : ∀ ch ∈ u ++ p, ch.toNat < 256 := fun ch hch => (hbytes ch hch).1
  have hpair : '\x00' ∉ u ++ ':' :: p := by
    rw [List.mem_append, List.mem_cons, not_or, not_or]
    exact ⟨fun hc => (hbytes _ (List.mem_append_left _ hc)).2 rfl, by decide,
      fun hc => (hbytes _ (List.mem_append_right _ hc)).2 rfl⟩
  have hclean : ':' ∉ h.value.dropLast := fun hc =>
    colon_notMem_credentials hlow (hvalue ▸ List.dropLast_subset _ hc)
  obtain ⟨lines, htext, hlookup⟩ := @lookup_last before after h hclean hlast
  rw [hname, hvalue] at hlookup
  have hparse : t.req.parseHead (cStr (receive t.rbuf c.recv)) =
      ((l.text ++ (before ++ h :: after).flatMap Header.text).length, t.req.afterHead l lines) := by
    rw [hrecv, receive, cStr_append_nul, cStr_eq_self hnul]
    exact parseHead_requestText t.req l hnul htext
  have hserve := serve_of_poll hpoll hlocked t
  dsimp only at hserve
  rw [hparse, decide_eq_true (requestLine_pos l _)] at hserve
  rw [hserve]
  obtain ⟨t', ht'⟩ := respond_login cfg c.tables
    { t with rbuf := receive t.rbuf c.recv, req := t.req.afterHead l lines }
    ((HTTPRequest.parseURI_command _).trans hget) ((HTTPRequest.parseURI_name _).trans hURI) hlookup
  rw [base64Decode_credentials c.tables hlow,
    isAccessAllowed_login cfg.users _ hpair hu hcolon hp] at ht'
  exact ⟨t', congrArg Except.ok ht'⟩

def stopLine : RequestLine :=
  { rootLine with
    URI := "/cgi-bin/stop?now".toList
    URI_ne := by decide
    URI_space := by decide }

def loginHeader : Header :=
  ⟨"Authorization".toList, basic ++ credentials "a".toList "b".toList, by decide, by decide,
    by decide, by decide, by decide, by decide, by decide⟩

/-- A client that is called with a port, and logs in as `a` with the password `b`. -/
def loginClient : Connection :=
  ⟨true, .bytes (requestText stopLine [portHeader, loginHeader] []), zeroTables⟩

theorem login_loginClient : ∃ t', serve oneUser idle loginClient =
    .ok (t', some ⟨"stop".toList, .stop, true⟩, .redirect) :=
  @login oneUser rfl idle loginClient rfl stopLine [portHeader] [] loginHeader [] "a".toList
    "b".toList "stop".toList rfl (by decide) rfl rfl rfl rfl
    (fun _ hx => absurd hx List.not_mem_nil) (by decide) (by decide) (by decide) (by decide)

end HttpThread

end NetDJ.Daemon
