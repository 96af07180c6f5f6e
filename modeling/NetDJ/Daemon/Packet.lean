import NetDJ.Daemon.RequestText
import NetDJ.Daemon.Sprintf

/-!
# `HTTP.cc`: building a packet

* `HTTP.createPacket` : the first line, the headers in the order of their names, and the body;
* `HTTPRequest.createPacket` : the packet of a request;
* `exists_lines_sorted` : the headers that were parsed are printed as lines that are split at the
  same place again;
* `reparse` : printing a request that was parsed, and parsing it again, changes nothing.
-/

namespace NetDJ.Daemon

/-- `it->first + ": " + it->second + "\r\n"`. -/
def headerText (e : Str × Str) : Str := e.1 ++ ':' :: ' ' :: (e.2 ++ crlf)

def tmplen : Nat := 10

namespace HTTP

def setBody (h : HTTP) (str : Str) : HTTP := { h with body := str }

def clearBody (h : HTTP) : HTTP := { h with body := [] }

/-- The headers, with the length of the body unless it is empty; `%d` prints 32 bits of it. -/
def withLength (h : HTTP) : Except Abort (StdMap Str Str) :=
  if h.body = [] then .ok h.headers
  else (sprintf tmplen (BitVec.ofNat 32 h.body.length).toInt).map fun len =>
    h.headers.insert "Content-Length".toList len

/-- `CreatePacket`, on what `CreateCommand` stores in `packet`. -/
def createPacket (h : HTTP) (command : Str) : Except Abort HTTP :=
  h.withLength.map fun headers =>
    { h with
      headers := headers
      packet := command ++ headers.sorted.flatMap headerText ++ crlf ++ h.body }

end HTTP

namespace HTTPRequest

def createCommand (r : HTTPRequest) : Str :=
  r.command ++ ' ' :: (r.URI ++ ' ' :: 'H' :: 'T' :: 'T' :: 'P' :: '/' :: (r.version ++ crlf))

def createPacket (r : HTTPRequest) : Except Abort HTTPRequest :=
  (r.toHTTP.createPacket r.createCommand).map fun h => { r with toHTTP := h }

end HTTPRequest

/-! ## The headers that are printed -/

/-- A name and a value as the parser stores them. -/
def Stored (e : Str × Str) : Prop := ∃ l : HeaderLine, l.name = e.1 ∧ l.value = e.2

theorem Stored.exists_line {e : Str × Str} (h : Stored e) :
    ∃ l : HeaderLine, l.text = headerText e ∧ (l.name, l.value) = e := by
  obtain ⟨l, hname, hvalue⟩ := h
  refine ⟨{ l with gap := 1 }, ?_, Prod.ext hname hvalue⟩
  simp [HeaderLine.text, HeaderLine.body, headerText, hname, hvalue]

theorem exists_lines_of_stored {es : List (Str × Str)} (h : ∀ e ∈ es, Stored e) :
    ∃ lines, headersText lines = es.flatMap headerText ∧
      lines.map (fun l => (l.name, l.value)) = es := by
  induction es with
  | nil => exact ⟨[], rfl, rfl⟩
  | cons e es ih =>
    obtain ⟨he, hes⟩ := List.forall_mem_cons.mp h
    obtain ⟨l, htext, hpair⟩ := he.exists_line
    obtain ⟨lines, htexts, hpairs⟩ := ih hes
    exact ⟨l :: lines, by rw [headersText_cons, htext, htexts, List.flatMap_cons],
      by rw [List.map_cons, hpair, hpairs]⟩

theorem exists_line_of_lookup {lines : List HeaderLine} {name value : Str}
    (h : (headerMap lines).lookup name = some value) :
    ∃ l ∈ lines, l.name = name ∧ l.value = value := by
  rw [headerMap, lookup_foldl_insert, AList.lookup_empty, Option.or_none] at h
  obtain ⟨l, hfind, rfl⟩ := Option.map_eq_some_iff.mp h
  exact ⟨l, List.mem_reverse.mp (List.mem_of_find?_eq_some hfind),
    by simpa using List.find?_some hfind, rfl⟩

theorem headerMap_eq (lines : List HeaderLine) :
    headerMap lines = (lines.map fun l => (l.name, l.value)).foldl (fun m e => m.insert e.1 e.2) ∅ := by
  rw [List.foldl_map]
  rfl

/-- The headers of a parsed request are printed as lines that give the same headers. -/
theorem exists_lines_sorted (lines : List HeaderLine) : ∃ printed,
    headersText printed = (headerMap lines).sorted.flatMap headerText ∧
      ∀ name, (headerMap printed).lookup name = (headerMap lines).lookup name := by
  have hstored : ∀ e ∈ (headerMap lines).sorted, Stored e := by
    intro e he
    obtain ⟨l, -, hname, hvalue⟩ := exists_line_of_lookup (mem_sorted.mp he)
    exact ⟨l, hname, hvalue⟩
  obtain ⟨printed, htext, hpairs⟩ := exists_lines_of_stored hstored
  refine ⟨printed, htext, fun name => ?_⟩
  rw [headerMap_eq printed, hpairs]
  exact lookup_foldl_sorted _ name

/-- No character is printed that was not in the lines, but for the colon, the space and the line
end. -/
theorem nul_notMem_printed {lines : List HeaderLine} (h : '\x00' ∉ headersText lines) :
    '\x00' ∉ (headerMap lines).sorted.flatMap headerText := by
  rw [List.mem_flatMap]
  rintro ⟨e, he, hnul⟩
  obtain ⟨l, hl, hname, hvalue⟩ := exists_line_of_lookup (mem_sorted.mp he)
  refine h (List.mem_flatMap.mpr ⟨l, hl, ?_⟩)
  rw [headerText, ← hname, ← hvalue] at hnul
  simp [crlf] at hnul
  simpa [HeaderLine.text, HeaderLine.body, crlf] using hnul

/-! ## Printing and parsing -/

namespace RequestLine

/-- The line as it is written: one space between the parts. -/
def printed (l : RequestLine) : RequestLine := { l with gap₁ := 0, gap₂ := 0 }

theorem nul_notMem_printed {l : RequestLine} (h : '\x00' ∉ l.text) : '\x00' ∉ l.printed.text := by
  simpa [printed, text] using h

end RequestLine

namespace HTTPRequest

theorem createPacket_of_body {r : HTTPRequest} (hbody : r.body = []) : r.createPacket =
    .ok { r with packet := r.createCommand ++ r.headers.sorted.flatMap headerText ++ crlf } := by
  unfold createPacket HTTP.createPacket HTTP.withLength
  rw [if_pos hbody, hbody]
  simp only [List.append_nil]
  rfl

theorem createCommand_afterHead (r : HTTPRequest) (l : RequestLine) (lines : List HeaderLine) :
    (r.afterHead l lines).createCommand = l.printed.text := by
  simp [createCommand, afterHead, RequestLine.text, RequestLine.printed]

/-- What a request without a body that was parsed is printed as. -/
theorem createPacket_afterHead {r : HTTPRequest} (hbody : r.body = []) (l : RequestLine)
    (lines : List HeaderLine) : (r.afterHead l lines).createPacket =
      .ok { r.afterHead l lines with packet :=
        l.printed.text ++ (headerMap lines).sorted.flatMap headerText ++ crlf } := by
  rw [createPacket_of_body, createCommand_afterHead]
  · rfl
  · simpa [afterHead] using hbody

theorem parse_text (r : HTTPRequest) (l : RequestLine) (lines : List HeaderLine) {t : Str}
    (hnul : '\x00' ∉ l.text ++ headersText lines ++ t) (ht : headerreg.exec t = none) :
    r.parse (l.text ++ headersText lines ++ t) false = .ok (true, r.afterHead l lines) := by
  rw [parse_false, r.parseHead_text l lines hnul ht]
  dsimp only
  rw [decide_eq_true]
  simp [RequestLine.text]

end HTTPRequest

/-- **Printing a request that was parsed, and parsing the packet, gives the same request, which is
printed as the same packet.** -/
theorem reparse (PKGVER : Str) {st : Str} (hnul : '\x00' ∉ st) {r : HTTPRequest}
    (h : (HTTPRequest.new PKGVER).parse st false = .ok (true, r)) :
    ∃ r₁ r₂ r₃, r.createPacket = .ok r₁ ∧
      (HTTPRequest.new PKGVER).parse r₁.packet false = .ok (true, r₂) ∧
      (r₂.command, r₂.URI, r₂.version, r₂.name, r₂.params) =
        (r.command, r.URI, r.version, r.name, r.params) ∧
      (∀ name, r₂.getHeader name = r.getHeader name) ∧
      r₂.createPacket = .ok r₃ ∧ r₃.packet = r₁.packet := by
  set new := HTTPRequest.new PKGVER with hnew
  have hpos : (new.parseHead st).1 ≠ 0 := by
    rw [HTTPRequest.parse_false] at h
    simpa using (Prod.mk.inj (Except.ok.inj h)).1
  obtain ⟨l, lines, t, rfl, ht⟩ := HTTPRequest.exists_head hnul hpos
  rw [new.parse_text l lines hnul ht] at h
  obtain rfl := (Prod.mk.inj (Except.ok.inj h)).2
  simp only [List.mem_append, not_or] at hnul
  obtain ⟨printed, htext, hsame⟩ := exists_lines_sorted lines
  have hpacket : '\x00' ∉ l.printed.text ++ headersText printed ++ crlf := by
    simp only [List.mem_append, not_or, htext]
    exact ⟨⟨RequestLine.nul_notMem_printed hnul.1.1, nul_notMem_printed hnul.1.2⟩, by decide⟩
  refine ⟨_, new.afterHead l.printed printed, _,
    HTTPRequest.createPacket_afterHead rfl l lines, ?_, ?_, hsame,
    HTTPRequest.createPacket_afterHead rfl l.printed printed, ?_⟩
  · rw [← htext]
    exact new.parse_text l.printed printed hpacket (exec_headerreg_crlf [])
  · simp only [HTTPRequest.afterHead, HTTPRequest.parseURI_command, HTTPRequest.parseURI_URI,
      HTTPRequest.parseURI_version]
    rfl
  · show l.printed.printed.text ++ _ ++ crlf = _
    rw [sorted_congr hsame]
    rfl

theorem reparse_host : ∃ r r₁ r₂ r₃,
    (HTTPRequest.new []).parse "GET  / HTTP/1.0\r\nHost:a\r\n\r\n".toList false = .ok (true, r) ∧
      r.createPacket = .ok r₁ ∧
      (HTTPRequest.new []).parse r₁.packet false = .ok (true, r₂) ∧
      (∀ name, r₂.getHeader name = r.getHeader name) ∧
      r₂.createPacket = .ok r₃ ∧ r₃.packet = r₁.packet := by
  obtain ⟨r₁, r₂, r₃, h₁, h₂, -, h₃, h₄, h₅⟩ :=
    @reparse [] "GET  / HTTP/1.0\r\nHost:a\r\n\r\n".toList (by decide) _ rfl
  exact ⟨_, r₁, r₂, r₃, rfl, h₁, h₂, h₃, h₄, h₅⟩

end NetDJ.Daemon
