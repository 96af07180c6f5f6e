import NetDJ.Text
import NetDJ.Lib.Splits

/-!
# `MyRegex.cc` and `HTTP.cc`: requests

`regexec` is `Regex.exec`. The two loops that match, store the groups and move on behind the match
are `Regex.tokens`; no match ends behind the string (`Regex.end_le_of_exec`), so that the `substr` of
the next round is in range.

* `HTTPRequest.parseCommand`, `HTTP.parseHeaders`, `HTTPRequest.parse` : the parser, which works on
  an object that may hold an earlier request;
* `parse_false` : without `savebody` it always returns;
* `parseHead_pos`, `parseHead_congr` : whether a text is accepted, and after a success all but the
  body and the packet, do not depend on that object;
* `parse_forgets` : so no answer of the object depends on what was parsed before.
-/

namespace NetDJ.Daemon

abbrev MyRegex := Regex Char

/-- `MyRegex::Match`: the end of the match, 0 for none, and the texts of the groups. -/
def MyRegex.matchStr (r : MyRegex) (str : Str) : Nat × List Str :=
  match r.exec (cStr str) with
  | some (n, groups) => (n, Regex.texts groups)
  | none => (0, [])

namespace MyRegex

/-- A NUL and what is behind it do not matter. -/
theorem matchStr_cStr (r : MyRegex) (s : Str) : r.matchStr (cStr s) = r.matchStr s := by
  rw [matchStr, cStr_eq_self (nul_notMem_cStr s)]
  rfl

/-- A match ends in front of the first NUL. -/
theorem matchStr_le_cStr (r : MyRegex) (s : Str) : (r.matchStr s).1 ≤ (cStr s).length := by
  unfold matchStr
  split
  · next n gs h => exact r.end_le_of_exec h
  · exact Nat.zero_le _

end MyRegex

section Expressions
open Ere

/-- `[^ ]` and its kind: every character but one. -/
def but (c : Char) : Char → Bool := (· != c)

theorem but_iff {c : Char} {s : Str} : (∀ ch ∈ s, but c ch = true) ↔ c ∉ s := by
  simp only [but, bne_iff_ne]
  exact ⟨fun h hc => h c hc rfl, fun h ch hch he => h (he ▸ hch)⟩

theorem stops_but {c : Char} {s : Str} : Stops (but c) (c :: s) := by
  simp [stops_cons, but]

def spaces : Ere Char := many (· == ' ')

def spaces1 : Ere Char := many1 (· == ' ')

/-- `HTTP::headerreg`, `"^([^\r]+) *: *([^\r]+)\r\n"`. -/
def headerreg : MyRegex where
  bol := true
  body := cat (group (many1 (but '\r')))
    [spaces, chr ':', spaces, group (many1 (but '\r')), chr '\r', chr '\n']

/-- `HTTPRequest::comreg`, `"^([^ ]+) +([^ ]+) +HTTP/([^\r]+)\r\n"`. -/
def comreg : MyRegex where
  bol := true
  body := cat (group (many1 (but ' ')))
    [spaces1, group (many1 (but ' ')), spaces1, chr 'H', chr 'T', chr 'T', chr 'P', chr '/',
      group (many1 (but '\r')), chr '\r', chr '\n']

/-- `HTTPRequest::paramreg`, `"([^=&]+)(=([^&]*))?&?"`. -/
def paramreg : MyRegex where
  bol := false
  body := cat (group (many1 fun c => c != '=' && c != '&'))
    [opt (group (seq (chr '=') (group (many (but '&'))))), opt (chr '&')]

end Expressions

structure HTTP where
  headers : StdMap Str Str
  body : Str
  packet : Str

namespace HTTP

/-- The headers become those of `st` from `pos` on; the value is the position behind them. -/
def parseHeaders (h : HTTP) (st : Str) (pos : Nat) : Nat × HTTP :=
  let lines := headerreg.tokens (cStr (st.drop pos))
  (pos + lines.2,
    { h with
      headers := lines.1.foldl (fun m line => m.insert (line.getD 0 []) (line.getD 1 [])) ∅ })

def getHeader (h : HTTP) (st : Str) : Option Str := h.headers.lookup st

def setHeader (h : HTTP) (hdr val : Str) : HTTP := { h with headers := h.headers.insert hdr val }

end HTTP

structure HTTPRequest extends HTTP where
  command : Str
  URI : Str
  version : Str
  name : Str
  params : StdMap Str Str

namespace HTTPRequest

/-- The constructor; `PKGVER` is set by the build. -/
def new (PKGVER : Str) : HTTPRequest where
  toHTTP := HTTP.setHeader ⟨∅, [], []⟩ "Server".toList PKGVER
  command := []
  URI := []
  version := []
  name := []
  params := ∅

/-- The second half of `ParseCommand`: the name and the parameters of the URI the object holds. -/
def parseURI (r : HTTPRequest) : HTTPRequest :=
  match r.URI.idxOf? '?' with
  | some qpos =>
    { r with
      name := r.URI.take qpos
      params := (paramreg.tokens (cStr (r.URI.drop (qpos + 1)))).1.foldl
        (fun m pmat =>
          m.insert (pmat.getD 0 []) (if pmat.length > 2 then pmat.getD 2 [] else [])) ∅ }
  | none => { r with name := r.URI, params := ∅ }

def parseCommand (r : HTTPRequest) (st : Str) (pos : Nat) : Nat × HTTPRequest :=
  let line := comreg.matchStr (st.drop pos)
  -- without a match the URI of an earlier request is parsed again
  let r := if line.1 = 0 then r else
    { r with command := line.2.getD 0 [], URI := line.2.getD 1 [], version := line.2.getD 2 [] }
  (pos + line.1, r.parseURI)

/-- The first half of `HTTP::Parse`: the headers are read when the request line matched. -/
def parseHead (r : HTTPRequest) (st : Str) : Nat × HTTPRequest :=
  let com := r.parseCommand st 0
  if com.1 = 0 then com
  else
    let hdr := com.2.parseHeaders st com.1
    (hdr.1, { com.2 with toHTTP := hdr.2 })

/-- `HTTP::Parse` of a request. -/
def parse (r : HTTPRequest) (st : Str) (savebody : Bool) : Except Abort (Bool × HTTPRequest) :=
  let (pos, r) := r.parseHead st
  if pos ≠ 0 ∧ savebody then do
    let line ← substr st (pos + 1)
    if line.take 2 = "\r\n".toList then return (true, { r with body := ← substr st (pos + 3) })
    else return (false, r)
  else .ok (pos ≠ 0, r)

def getURIParam (r : HTTPRequest) (st : Str) : Option Str := r.params.lookup st

/-! ## What a request depends on -/

/-- Without `savebody` the parser always returns. -/
theorem parse_false (r : HTTPRequest) (st : Str) :
    r.parse st false = .ok (decide ((r.parseHead st).1 ≠ 0), (r.parseHead st).2) := by
  rw [parse]
  simp

@[simp] theorem parseURI_command (r : HTTPRequest) : r.parseURI.command = r.command := by
  rw [parseURI]
  split <;> rfl

@[simp] theorem parseURI_URI (r : HTTPRequest) : r.parseURI.URI = r.URI := by
  rw [parseURI]
  split <;> rfl

@[simp] theorem parseURI_version (r : HTTPRequest) : r.parseURI.version = r.version := by
  rw [parseURI]
  split <;> rfl

@[simp] theorem parseURI_toHTTP (r : HTTPRequest) : r.parseURI.toHTTP = r.toHTTP := by
  rw [parseURI]
  split <;> rfl

/-- The object after a request line that matched and its headers. -/
theorem parseHead_of_match (r : HTTPRequest) {st : Str} (h : (comreg.matchStr st).1 ≠ 0) :
    let line := (comreg.matchStr st).2
    let r' := { r with
      command := line.getD 0 [], URI := line.getD 1 [], version := line.getD 2 [] }.parseURI
    r.parseHead st = ((r'.parseHeaders st (comreg.matchStr st).1).1,
      { r' with toHTTP := (r'.parseHeaders st (comreg.matchStr st).1).2 }) := by
  simp only [parseHead, parseCommand, List.drop_zero, Nat.zero_add, if_neg h]

theorem parseHead_pos (r : HTTPRequest) (st : Str) :
    (r.parseHead st).1 ≠ 0 ↔ (comreg.matchStr st).1 ≠ 0 := by
  by_cases h : (comreg.matchStr st).1 = 0
  · simp [parseHead, parseCommand, h]
  · rw [parseHead_of_match r h]
    simp [HTTP.parseHeaders, h]

theorem parseHead_cStr (r : HTTPRequest) (st : Str) : r.parseHead (cStr st) = r.parseHead st := by
  have hnul := nul_notMem_cStr st
  have hmatch := comreg.matchStr_cStr st
  have hdrop : cStr ((cStr st).drop (comreg.matchStr st).1) =
      cStr (st.drop (comreg.matchStr st).1) := by
    rw [cStr_drop (comreg.matchStr_le_cStr st),
      cStr_eq_self fun hc => hnul (List.mem_of_mem_drop hc)]
  simp only [parseHead, parseCommand, HTTP.parseHeaders, List.drop_zero, Nat.zero_add, hmatch,
    hdrop]

/-- After a success two objects differ in nothing but what is never parsed. -/
theorem parseHead_congr (r r' : HTTPRequest) {st : Str} (h : (r.parseHead st).1 ≠ 0) :
    (r.parseHead st).2 =
      { (r'.parseHead st).2 with body := r.body, packet := r.packet } := by
  rw [parseHead_pos] at h
  rw [parseHead_of_match r h, parseHead_of_match r' h]
  dsimp only [HTTP.parseHeaders]
  unfold parseURI
  dsimp only
  split <;> rfl

/-- **Parsing forgets the past.** On two objects with any contents the same text is accepted, and
then gives the same command, name and headers. -/
theorem parseHead_agree (r r' : HTTPRequest) {st : Str} (h : (r.parseHead st).1 ≠ 0) :
    (r.parseHead st).2.command = (r'.parseHead st).2.command ∧
      (r.parseHead st).2.name = (r'.parseHead st).2.name ∧
      (r.parseHead st).2.headers = (r'.parseHead st).2.headers := by
  rw [parseHead_congr r r' h]
  exact ⟨rfl, rfl, rfl⟩

/-- **Every answer of a request is about the last text.** On two objects with any contents `Parse`
returns the same, and after a success the objects answer alike. -/
theorem parse_forgets (r r' : HTTPRequest) (st : Str) : ∃ accepted q q',
    r.parse st false = .ok (accepted, q) ∧ r'.parse st false = .ok (accepted, q') ∧
      (accepted = true → q.command = q'.command ∧ q.URI = q'.URI ∧ q.version = q'.version ∧
        q.name = q'.name ∧ (∀ key, q.getURIParam key = q'.getURIParam key) ∧
        ∀ name, q.getHeader name = q'.getHeader name) := by
  have hpos : decide ((r.parseHead st).1 ≠ 0) = decide ((r'.parseHead st).1 ≠ 0) := by
    rw [decide_eq_decide, parseHead_pos, parseHead_pos]
  refine ⟨_, _, _, parse_false r st, hpos ▸ parse_false r' st, fun hacc => ?_⟩
  rw [parseHead_congr r r' (of_decide_eq_true hacc)]
  exact ⟨rfl, rfl, rfl, rfl, fun _ => rfl, fun _ => rfl⟩

end HTTPRequest

end NetDJ.Daemon
