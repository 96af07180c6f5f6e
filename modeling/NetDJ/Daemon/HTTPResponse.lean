import NetDJ.Util
import NetDJ.Daemon.Packet

/-!
# `HTTP.cc`: responses

* `HTTPResponse.parse`, `HTTPResponse.createPacket` : reading and building a response;
* `parseCommand_inv` : the description goes up to the last line end of the text;
* `Returned` : parsing the packet gives the response back;
* `not_returned` : no response is given back.
-/

namespace NetDJ.Daemon

open Ere

structure HTTPResponse extends HTTP where
  version : Str
  /-- An `int`. -/
  status : Int
  description : Str

/-- `atoi` of a text of digits. For a number that is no `int` the standard says nothing. -/
def atoi (s : Str) : Except Abort Int :=
  let n := Nat.ofDigitChars 10 s 0
  if n < 2 ^ 31 then .ok n else .error .undefined

def tmpstat : Nat := 10

namespace HTTPResponse

/-- `HTTPResponse::comreg`, `"^HTTP/([^ ]+) +([[:digit:]]+) *(.*)\r\n"`. -/
def comreg : MyRegex where
  bol := true
  body := cat (chr 'H') [chr 'T', chr 'T', chr 'P', chr '/', group (many1 (but ' ')), spaces1,
    group (many1 Char.isDigit), spaces, group (many fun _ => true), chr '\r', chr '\n']

/-- The constructor without arguments; `PKGVER` is set by the build. -/
def new (PKGVER : Str) : HTTPResponse where
  toHTTP := HTTP.setHeader ⟨∅, [], []⟩ "Server".toList PKGVER
  version := []
  status := 0
  description := []

def ofStatus (PKGVER : Str) (_status : Int) (cont_type : Str) : HTTPResponse :=
  let r := { new PKGVER with version := "1.1".toList, status := _status }
  if cont_type = [] then r
  else { r with toHTTP := r.toHTTP.setHeader "Content-Type".toList cont_type }

def parseCommand (r : HTTPResponse) (st : Str) (pos : Nat) : Except Abort (Nat × HTTPResponse) :=
  let line := comreg.matchStr (st.drop pos)
  if line.1 = 0 then .ok (pos, r)
  else (atoi (line.2.getD 1 [])).map fun status =>
    (pos + line.1,
      { r with version := line.2.getD 0 [], status := status, description := line.2.getD 2 [] })

/-- `HTTP::Parse` of a response. -/
def parse (r : HTTPResponse) (st : Str) (savebody : Bool) : Except Abort (Bool × HTTPResponse) := do
  let (pos, r) ← r.parseCommand st 0
  if pos = 0 then return (false, r)
  else
    let (pos, http) := r.toHTTP.parseHeaders st pos
    let r := { r with toHTTP := http }
    if pos ≠ 0 ∧ savebody then
      let line ← substr st (pos + 1)
      if line.take 2 = crlf then return (true, { r with body := ← substr st (pos + 3) })
      else return (false, r)
    else return (decide (pos ≠ 0), r)

/-- `CreateCommand`, on the text of the status. -/
def commandText (r : HTTPResponse) (status : Str) : Str :=
  'H' :: 'T' :: 'T' :: 'P' :: '/' :: (r.version ++ ' ' :: (status ++ ' ' :: (r.description ++ crlf)))

def setVersion (r : HTTPResponse) (st : Str) : HTTPResponse := { r with version := st }

def setDescription (r : HTTPResponse) (st : Str) : HTTPResponse := { r with description := st }

/-- `version = i`: a string is assigned an `int`, which is taken as a character. -/
def setStatus (r : HTTPResponse) (i : Int) : HTTPResponse := { r with version := [toChar i] }

def createCommand (r : HTTPResponse) : Except Abort Str :=
  (sprintf tmpstat r.status).map r.commandText

def createPacket (r : HTTPResponse) : Except Abort HTTPResponse := do
  let command ← r.createCommand
  let http ← r.toHTTP.createPacket command
  return { r with toHTTP := http }

end HTTPResponse

/-! ## The packet -/

namespace HTTP

theorem withLength_eq_ok {h : HTTP} {headers : StdMap Str Str} (hl : h.withLength = .ok headers) :
    h.body = [] ∧ headers = h.headers ∨ h.body ≠ [] ∧
      headers = h.headers.insert "Content-Length".toList
        (decimal (BitVec.ofNat 32 h.body.length).toInt) := by
  unfold withLength at hl
  split at hl
  · next hb => exact .inl ⟨hb, (Except.ok.inj hl).symm⟩
  · next hb =>
    obtain ⟨len, hs, rfl⟩ := map_eq_ok.mp hl
    obtain ⟨-, rfl⟩ := sprintf_eq_ok.mp hs
    exact .inr ⟨hb, rfl⟩

end HTTP

namespace HTTPResponse

theorem createPacket_eq_ok {r p : HTTPResponse} : r.createPacket = .ok p ↔
    (decimal r.status).length < tmpstat ∧ ∃ headers, r.withLength = .ok headers ∧
      p = { r with headers := headers, packet :=
        r.commandText (decimal r.status) ++ headers.sorted.flatMap headerText ++ crlf ++ r.body } := by
  simp only [createPacket, bind_eq_ok, createCommand, HTTP.createPacket, map_eq_ok, sprintf_eq_ok]
  constructor
  · rintro ⟨command, ⟨s, ⟨hlen, rfl⟩, rfl⟩, http, ⟨headers, hw, rfl⟩, hr⟩
    exact ⟨hlen, headers, hw, (Except.ok.inj hr).symm⟩
  · rintro ⟨hlen, headers, hw, rfl⟩
    exact ⟨_, ⟨_, ⟨hlen, rfl⟩, rfl⟩, _, ⟨headers, hw, rfl⟩, rfl⟩

/-! ## Reading the packet -/

/-- A first line, as `comreg` takes it apart. Its description may have line ends in it. -/
structure StatusLine where
  version : Str
  gap₁ : Str
  status : Str
  gap₂ : Str
  description : Str
  version_ne : version ≠ []
  version_space : ' ' ∉ version
  gap₁_ne : gap₁ ≠ []
  gap₁_space : ∀ ch ∈ gap₁, ch = ' '
  status_ne : status ≠ []
  status_digit : ∀ ch ∈ status, ch.isDigit = true
  gap₂_space : ∀ ch ∈ gap₂, ch = ' '

namespace StatusLine

def body (l : StatusLine) : Str :=
  'H' :: 'T' :: 'T' :: 'P' :: '/' ::
    (l.version ++ (l.gap₁ ++ (l.status ++ (l.gap₂ ++ l.description))))

theorem of_reads {x t : Str} {gs : List (Option Str)} (h : comreg.body.Reads x t gs) :
    ∃ l : StatusLine, x = l.body ++ crlf ∧
      gs = [some l.version, some l.status, some l.description] := by
  obtain ⟨c₁, x₁, rfl, h₁, r₁⟩ := h.one_seq_inv
  obtain ⟨c₂, x₂, rfl, h₂, r₂⟩ := r₁.one_seq_inv
  obtain ⟨c₃, x₃, rfl, h₃, r₃⟩ := r₂.one_seq_inv
  obtain ⟨c₄, x₄, rfl, h₄, r₄⟩ := r₃.one_seq_inv
  obtain ⟨c₅, x₅, rfl, h₅, r₅⟩ := r₄.one_seq_inv
  obtain ⟨version, x₆, gs₁, rfl, hv, r₆, rfl, -⟩ := r₅.group_seq_inv rfl
  obtain ⟨gap₁, x₇, rfl, hg₁, r₇⟩ := r₆.leaf_seq_inv rfl
  obtain ⟨status, x₈, gs₂, rfl, hs, r₈, rfl, -⟩ := r₇.group_seq_inv rfl
  obtain ⟨gap₂, x₉, rfl, hg₂, r₉⟩ := r₈.leaf_seq_inv rfl
  obtain ⟨description, x₁₀, gs₃, rfl, -, r₁₀, rfl, -⟩ := r₉.group_seq_inv rfl
  obtain ⟨c₆, x₁₁, rfl, h₆, r₁₁⟩ := r₁₀.one_seq_inv
  obtain ⟨c₇, h₇, rfl⟩ := splits_one.mp r₁₁.splits
  simp only [beq_iff_eq] at h₁ h₂ h₃ h₄ h₅ h₆ h₇
  subst h₁ h₂ h₃ h₄ h₅ h₆ h₇
  have hv := splits_many1.mp hv
  have hg₁ := splits_many1.mp hg₁
  have hs := splits_many1.mp hs
  refine ⟨⟨version, gap₁, status, gap₂, description, hv.1, but_iff.mp hv.2, hg₁.1, ?_, hs.1, hs.2,
    ?_⟩, ?_, ?_⟩
  · simpa using hg₁.2
  · simpa using splits_many.mp hg₂
  · simp [body, crlf]
  · rw [← r₁₁.groups]
    rfl

theorem splits (l : StatusLine) (t : Str) : comreg.body.Splits (l.body ++ crlf) t := by
  have hspace : ∀ {s : Str}, (∀ ch ∈ s, ch = ' ') → ∀ ch ∈ s, (ch == ' ') = true := fun h ch hch =>
    beq_iff_eq.mpr (h ch hch)
  simp only [body, List.cons_append, List.append_assoc]
  refine .cons rfl (.cons rfl (.cons rfl (.cons rfl (.cons rfl ?_))))
  refine splits_seq.mpr ⟨_, _, rfl, splits_many1.mpr ⟨l.version_ne, but_iff.mpr l.version_space⟩, ?_⟩
  refine splits_seq.mpr ⟨_, _, rfl, splits_many1.mpr ⟨l.gap₁_ne, hspace l.gap₁_space⟩, ?_⟩
  refine splits_seq.mpr ⟨_, _, rfl, splits_many1.mpr ⟨l.status_ne, l.status_digit⟩, ?_⟩
  refine splits_seq.mpr ⟨_, _, rfl, splits_many.mpr (hspace l.gap₂_space), ?_⟩
  exact splits_seq.mpr ⟨_, _, rfl, splits_many.mpr fun _ _ => rfl, (reads_crlf t).splits⟩

end StatusLine

/-- The first line that the parser finds goes up to the last line end. -/
theorem parseCommand_inv {r r₁ : HTTPResponse} {st : Str} {pos : Nat}
    (h : r.parseCommand st 0 = .ok (pos, r₁)) (hpos : pos ≠ 0) :
    ∃ (l : StatusLine) (t : Str), cStr st = l.body ++ crlf ++ t ∧ pos = (l.body ++ crlf).length ∧
      (∀ a b, t ≠ a ++ crlf ++ b) ∧ r₁.version = l.version ∧ r₁.description = l.description := by
  unfold parseCommand MyRegex.matchStr at h
  rw [List.drop_zero] at h
  cases hexec : comreg.exec (cStr st) with
  | none =>
    rw [hexec] at h
    exact absurd (Prod.mk.inj (Except.ok.inj h)).1.symm hpos
  | some m =>
    obtain ⟨n, gs⟩ := m
    obtain ⟨x, t, hst, rfl, hreads, longest⟩ := Regex.reads_of_exec rfl hexec
    obtain ⟨l, rfl, rfl⟩ := StatusLine.of_reads hreads
    rw [hexec, if_neg (by simp [crlf])] at h
    refine ⟨l, t, hst, ?_⟩
    change (atoi l.status).map _ = _ at h
    obtain ⟨status, -, he⟩ := map_eq_ok.mp h
    cases he
    refine ⟨Nat.zero_add _, ?_, rfl, rfl⟩
    rintro a b rfl
    -- the description could take in the line end as well
    have hlonger := longest (l.body ++ crlf ++ a ++ crlf) b (by simp [hst]) <| by
      have h := StatusLine.splits { l with description := l.description ++ crlf ++ a } b
      simpa [StatusLine.body] using h
    simp [crlf] at hlonger

theorem parse_true_inv {r r' : HTTPResponse} {st : Str} (h : r.parse st true = .ok (true, r')) :
    ∃ pos r₁, r.parseCommand st 0 = .ok (pos, r₁) ∧ pos ≠ 0 ∧ r'.version = r₁.version ∧
      r'.description = r₁.description ∧ r'.headers = (r₁.parseHeaders st pos).2.headers := by
  unfold parse at h
  obtain ⟨⟨pos, r₁⟩, hcom, h⟩ := bind_eq_ok.mp h
  refine ⟨pos, r₁, hcom, ?_⟩
  dsimp only at h
  by_cases hpos : pos = 0
  · rw [if_pos hpos] at h
    cases h
  · rw [if_neg hpos] at h
    refine ⟨hpos, ?_⟩
    split at h
    · obtain ⟨line, -, h⟩ := bind_eq_ok.mp h
      split at h
      · obtain ⟨body, -, h⟩ := bind_eq_ok.mp h
        cases h
        exact ⟨rfl, rfl, rfl⟩
      · cases h
    · obtain ⟨-, rfl⟩ := Prod.mk.inj (Except.ok.inj h)
      exact ⟨rfl, rfl, rfl⟩

theorem exec_headerreg_of_no_crlf {t : Str} (h : ∀ a b, t ≠ a ++ crlf ++ b) :
    headerreg.exec t = none := by
  rw [Regex.exec_eq_none rfl]
  rintro x u rfl hx
  obtain ⟨a, b, -, -, -, -, rfl⟩ := of_splits_headerreg hx
  exact h (a ++ ':' :: b) u (by simp)

/-! ## No response is given back -/

/-- A response that can be told from its packet. -/
structure WellFormed (r : HTTPResponse) : Prop where
  version_ne : r.version ≠ []
  version_space : ' ' ∉ r.version
  version_cr : '\r' ∉ r.version
  status : 0 ≤ r.status
  description_cr : '\r' ∉ r.description
  description_space : r.description.head? ≠ some ' '
  names : ∀ name value, r.getHeader name = some value → name ≠ [] ∧ ':' ∉ name ∧ '\r' ∉ name ∧
    name.head? ≠ some ' ' ∧ name.getLast? ≠ some ' '
  values : ∀ name value, r.getHeader name = some value → value ≠ [] ∧ '\r' ∉ value ∧
    value.head? ≠ some ' ' ∧ value.getLast? ≠ some ' '
  body : '\x00' ∉ r.body

/-- Parsing the packet gives the response back, with the headers that the packet has. -/
def Returned (PKGVER : Str) (r : HTTPResponse) : Prop :=
  ∃ p r', r.createPacket = .ok p ∧ (new PKGVER).parse p.packet true = .ok (true, r') ∧
    r'.version = r.version ∧ r'.status = r.status ∧ r'.description = r.description ∧
    (∀ name, r'.getHeader name = p.getHeader name) ∧ r'.body = r.body

def commandLine (r : HTTPResponse) : Str :=
  'H' :: 'T' :: 'T' :: 'P' :: '/' ::
    (r.version ++ ' ' :: (decimal r.status ++ ' ' :: r.description))

theorem cr_notMem_commandLine {r : HTTPResponse} (hversion : '\r' ∉ r.version)
    (hdescription : '\r' ∉ r.description) : '\r' ∉ r.commandLine := by
  have hstatus : '\r' ∉ decimal r.status := fun h => absurd (mem_decimal h) (by decide)
  simp [commandLine, hversion, hdescription, hstatus]

theorem StatusLine.cr_notMem_body {l : StatusLine} (hversion : '\r' ∉ l.version)
    (hdescription : '\r' ∉ l.description) : '\r' ∉ l.body := by
  have hgap₁ : '\r' ∉ l.gap₁ := fun h => absurd (l.gap₁_space _ h) (by decide)
  have hgap₂ : '\r' ∉ l.gap₂ := fun h => absurd (l.gap₂_space _ h) (by decide)
  have hstatus : '\r' ∉ l.status := fun h => absurd (l.status_digit _ h) (by decide)
  simp [body, hversion, hdescription, hgap₁, hgap₂, hstatus]

/-- If the description that was read is a single line, what is behind it has no line end: no header
is read, and so there was none, and no body. But the empty line is a line end. -/
theorem not_single_line (h : HTTP) {r : HTTPResponse} {headers : StdMap Str Str}
    (hlen : r.withLength = .ok headers) (hversion : '\r' ∉ r.version)
    (hdescription : '\r' ∉ r.description) {l : StatusLine} {t : Str}
    (hst : cStr (r.commandLine ++ crlf ++ (headers.sorted.flatMap headerText ++ crlf ++ r.body)) =
      l.body ++ crlf ++ t) (hno : ∀ a b, t ≠ a ++ crlf ++ b) (hlv : l.version = r.version)
    (hld : l.description = r.description)
    (hread : ∀ name, (h.parseHeaders
      (r.commandLine ++ crlf ++ (headers.sorted.flatMap headerText ++ crlf ++ r.body))
      (l.body ++ crlf).length).2.getHeader name = headers.lookup name) : False := by
  set rest := headers.sorted.flatMap headerText ++ crlf ++ r.body with hrest
  obtain ⟨u, hu⟩ : ∃ u, r.commandLine ++ crlf ++ rest = l.body ++ crlf ++ (t ++ u) := by
    obtain ⟨u, hu⟩ := exists_cStr_append (r.commandLine ++ crlf ++ rest)
    exact ⟨u, by rwa [← List.append_assoc (l.body ++ crlf), ← hst]⟩
  obtain ⟨hline, -⟩ := line_unique (cr_notMem_commandLine hversion hdescription)
    (StatusLine.cr_notMem_body (hlv ▸ hversion) (hld ▸ hdescription)) hu
  have hnul : '\x00' ∉ l.body ++ crlf := by
    have h := nul_notMem_cStr (r.commandLine ++ crlf ++ rest)
    rw [hst, List.mem_append, not_or] at h
    exact h.1
  rw [hline] at hst hread
  rw [cStr_append hnul, List.append_cancel_left_eq] at hst
  have hnone : ∀ name, headers.lookup name = none := by
    intro name
    rw [← hread, HTTP.parseHeaders, List.drop_left, hst]
    have htokens := tokens_headers [] (exec_headerreg_of_no_crlf hno)
    rw [headersText, List.flatMap_nil, List.nil_append] at htokens
    rw [htokens]
    rfl
  have hsorted : headers.sorted = [] := by
    refine List.eq_nil_iff_forall_not_mem.mpr fun e he => ?_
    rw [mem_sorted, hnone] at he
    cases he
  have hbody : r.body = [] := by
    rcases HTTP.withLength_eq_ok hlen with ⟨hb, -⟩ | ⟨-, hh⟩
    · exact hb
    · have h := hnone "Content-Length".toList
      rw [hh, AList.lookup_insert] at h
      cases h
  rw [hrest, hsorted, hbody] at hst
  exact hno [] [] hst.symm

/-- **No response is given back.** -/
theorem not_returned (PKGVER : Str) {r : HTTPResponse} (hr : r.WellFormed) :
    ¬ r.Returned PKGVER := by
  rintro ⟨p, r', hp, hparse, hversion, -, hdescription, hheaders, -⟩
  obtain ⟨-, headers, hlen, rfl⟩ := createPacket_eq_ok.mp hp
  obtain ⟨pos, r₁, hcom, hpos, hv, hd, hh⟩ := parse_true_inv hparse
  have hpacket : r.commandText (decimal r.status) ++ headers.sorted.flatMap headerText ++ crlf ++
      r.body = r.commandLine ++ crlf ++ (headers.sorted.flatMap headerText ++ crlf ++ r.body) := by
    simp [commandText, commandLine]
  dsimp only at hcom hh
  rw [hpacket] at hcom hh
  obtain ⟨l, t, hst, rfl, hno, hlv, hld⟩ := parseCommand_inv hcom hpos
  refine not_single_line r₁.toHTTP hlen hr.version_cr hr.description_cr hst hno
    (hlv.symm.trans (hv.symm.trans hversion)) (hld.symm.trans (hd.symm.trans hdescription))
    fun name => ?_
  rw [HTTP.getHeader, ← hh]
  exact hheaders name

def okAnswer : HTTPResponse := ofStatus "x".toList 200 []

theorem okAnswer_wellFormed : okAnswer.WellFormed := by
  have hheader : ∀ name value, okAnswer.getHeader name = some value →
      name = "Server".toList ∧ value = "x".toList := by
    intro name value h
    have hmem := AList.mem_lookup_iff.mp (Option.mem_def.mpr h)
    obtain ⟨rfl, hvalue⟩ := Sigma.mk.inj (List.mem_singleton.mp hmem)
    exact ⟨rfl, eq_of_heq hvalue⟩
  refine ⟨by decide, by decide, by decide, by decide, by decide, by decide, fun name value h => ?_,
    fun name value h => ?_, by decide⟩
  · obtain ⟨rfl, rfl⟩ := hheader name value h
    decide
  · obtain ⟨rfl, rfl⟩ := hheader name value h
    decide

theorem okAnswer_not_returned : ¬ okAnswer.Returned "x".toList :=
  not_returned "x".toList okAnswer_wellFormed

/-- The description takes in the headers, and nothing is left for the empty line. -/
theorem okAnswer_throws : okAnswer.WellFormed ∧ ∃ p, okAnswer.createPacket = .ok p ∧
    (new "x".toList).parse p.packet true = .error .outOfRange :=
  ⟨okAnswer_wellFormed, _, rfl, rfl⟩

end HTTPResponse

end NetDJ.Daemon
