import NetDJ.Daemon.RequestText

/-!
# `HTTP.cc`: what is read of a well-formed request

* `Header`, `requestText` : a request with lines `Name: value`, and its body;
* `headers_read_iff` : the headers are stored as they were sent exactly if no value has a colon
  before its last character;
* `savebody_iff` : with `savebody` a request with a body is refused, and the call throws exactly if
  nothing stands behind the headers.
-/

namespace NetDJ.Daemon

/-- A line `Name: value` of a request. -/
structure Header where
  name : Str
  value : Str
  name_ne : name ≠ []
  name_cr : '\r' ∉ name
  name_colon : ':' ∉ name
  name_space : ' ' ∉ name
  value_ne : value ≠ []
  value_cr : '\r' ∉ value
  value_space : value.head? ≠ some ' '

def Header.text (h : Header) : Str := h.name ++ ':' :: ' ' :: (h.value ++ crlf)

/-- A request with these headers, an empty line and a body. -/
def requestText (l : RequestLine) (hs : List Header) (body : Str) : Str :=
  l.text ++ hs.flatMap Header.text ++ (crlf ++ body)

def lastValue (hs : List Header) (name : Str) : Option Str :=
  (hs.reverse.find? (·.name = name)).map Header.value

/-! ## The headers as lines -/

theorem Header.exists_line {h : Header} (hcolon : ':' ∉ h.value.dropLast) :
    ∃ l : HeaderLine, l.text = h.text ∧ l.name = h.name ∧ l.value = h.value := by
  refine ⟨⟨h.name, 1, h.value, h.name_ne, h.name_cr, h.value_ne, h.value_cr, hcolon,
    fun hsp => absurd hsp h.value_space⟩, ?_, rfl, rfl⟩
  simp [HeaderLine.text, HeaderLine.body, Header.text]

theorem exists_lines_of_clean {hs : List Header} (hclean : ∀ h ∈ hs, ':' ∉ h.value.dropLast) :
    ∃ lines, headersText lines = hs.flatMap Header.text ∧
      lines.map (fun l => (l.name, l.value)) = hs.map fun h => (h.name, h.value) := by
  induction hs with
  | nil => exact ⟨[], rfl, rfl⟩
  | cons h hs ih =>
    obtain ⟨hh, hrest⟩ := List.forall_mem_cons.mp hclean
    obtain ⟨l, htext, hname, hvalue⟩ := Header.exists_line hh
    obtain ⟨lines, htexts, hpairs⟩ := ih hrest
    refine ⟨l :: lines, ?_, ?_⟩
    · rw [headersText_cons, htext, htexts, List.flatMap_cons]
    · rw [List.map_cons, List.map_cons, hpairs, hname, hvalue]

/-- A colon inside a value ends up in a name. -/
theorem exists_lines (hs : List Header) : ∃ lines, headersText lines = hs.flatMap Header.text ∧
    ∀ h ∈ hs, ':' ∈ h.value.dropLast → ∃ l ∈ lines, ':' ∈ l.name := by
  induction hs with
  | nil => exact ⟨[], rfl, nofun⟩
  | cons h hs ih =>
    obtain ⟨l, htext, -, hname⟩ := exists_headerLine (b := ' ' :: h.value) h.name_ne
      (List.cons_ne_nil _ _) h.name_cr (by simp [h.value_cr])
    obtain ⟨lines, htexts, hnames⟩ := ih
    refine ⟨l :: lines, ?_, List.forall_mem_cons.mpr ⟨fun hc => ?_, fun h' hh' hc => ?_⟩⟩
    · rw [headersText_cons, htext, htexts, List.flatMap_cons]
      rfl
    · rw [List.dropLast_cons_of_ne_nil h.value_ne] at hname
      exact ⟨l, List.mem_cons_self, hname (List.mem_cons_of_mem _ hc)⟩
    · obtain ⟨l', hl', hc'⟩ := hnames h' hh' hc
      exact ⟨l', List.mem_cons_of_mem _ hl', hc'⟩

theorem lookup_headerMap (lines : List HeaderLine) (name : Str) :
    (headerMap lines).lookup name =
      ((lines.reverse.find? (·.name = name)).map HeaderLine.value) := by
  rw [headerMap, lookup_foldl_insert]
  simp

theorem lookup_headerMap_eq_lastValue {lines : List HeaderLine} {hs : List Header}
    (h : lines.map (fun l => (l.name, l.value)) = hs.map fun h => (h.name, h.value)) (name : Str) :
    (headerMap lines).lookup name = lastValue hs name := by
  have hfind : ∀ l : List HeaderLine, (l.find? (·.name = name)).map HeaderLine.value =
      ((l.map fun l => (l.name, l.value)).find? (·.1 = name)).map (·.2) := by
    intro l
    rw [List.find?_map, Option.map_map]
    rfl
  rw [lookup_headerMap, hfind, List.map_reverse, h, ← List.map_reverse, List.find?_map,
    Option.map_map]
  rfl

/-! ## Reading the headers -/

/-- What `Parse` makes of a well-formed request. -/
theorem parseHead_requestText (r : HTTPRequest) (l : RequestLine) {hs : List Header} {body : Str}
    (hnul : '\x00' ∉ requestText l hs body) {lines : List HeaderLine}
    (htext : headersText lines = hs.flatMap Header.text) :
    r.parseHead (requestText l hs body) =
      ((l.text ++ hs.flatMap Header.text).length, r.afterHead l lines) := by
  rw [requestText, ← htext] at hnul ⊢
  exact r.parseHead_text l lines hnul (exec_headerreg_crlf body)

theorem requestLine_pos (l : RequestLine) (s : Str) : (l.text ++ s).length ≠ 0 := by
  simp [RequestLine.text]

/-- **The headers of a request are stored as they were sent exactly if no value has a colon before
its last character.** Otherwise a part of the value goes to the name. -/
theorem headers_read_iff (r : HTTPRequest) (l : RequestLine) (hs : List Header)
    (hnul : '\x00' ∉ requestText l hs []) :
    ∃ r', r.parse (requestText l hs []) false = .ok (true, r') ∧
      ((∀ name, r'.getHeader name = lastValue hs name) ↔ ∀ h ∈ hs, ':' ∉ h.value.dropLast) := by
  obtain ⟨lines, htext, hdirty⟩ := exists_lines hs
  have hparse : ∀ lines, headersText lines = hs.flatMap Header.text →
      r.parse (requestText l hs []) false = .ok (true, r.afterHead l lines) := by
    intro lines htext
    rw [HTTPRequest.parse_false, parseHead_requestText r l hnul htext]
    dsimp only
    rw [decide_eq_true (requestLine_pos l _)]
  refine ⟨_, hparse lines htext, fun hall h hh hcolon => ?_, fun hclean name => ?_⟩
  · obtain ⟨line, hline, hc⟩ := hdirty h hh hcolon
    have hname := hall line.name
    rw [HTTP.getHeader] at hname
    have hsome : ((headerMap lines).lookup line.name).isSome := by
      rw [lookup_headerMap, Option.isSome_map, List.find?_isSome]
      exact ⟨line, List.mem_reverse.mpr hline, decide_eq_true rfl⟩
    have hnone : lastValue hs line.name = none := by
      rw [lastValue, Option.map_eq_none_iff, List.find?_eq_none]
      intro h' _ he
      exact h'.name_colon (of_decide_eq_true he ▸ hc)
    rw [hnone] at hname
    change (headerMap lines).lookup line.name = none at hname
    rw [hname] at hsome
    cases hsome
  · obtain ⟨lines', htext', hpairs⟩ := exists_lines_of_clean hclean
    have he := (hparse lines htext).symm.trans (hparse lines' htext')
    rw [Except.ok.injEq, Prod.mk.injEq] at he
    rw [he.2]
    exact lookup_headerMap_eq_lastValue hpairs name

def rootLine : RequestLine where
  command := "GET".toList
  gap₁ := 0
  URI := "/".toList
  gap₂ := 0
  version := "1.0".toList
  command_ne := by decide
  command_space := by decide
  URI_ne := by decide
  URI_space := by decide
  version_ne := by decide
  version_cr := by decide

def hostHeader : Header :=
  ⟨"Host".toList, "a".toList, by decide, by decide, by decide, by decide, by decide, by decide,
    by decide⟩

def portHeader : Header :=
  ⟨"Host".toList, "a:80".toList, by decide, by decide, by decide, by decide, by decide, by decide,
    by decide⟩

theorem headers_read_host : ∃ r',
    (HTTPRequest.new []).parse (requestText rootLine [hostHeader] []) false = .ok (true, r') ∧
      ∀ name, r'.getHeader name = lastValue [hostHeader] name := by
  obtain ⟨r', h, hiff⟩ := headers_read_iff (.new []) rootLine [hostHeader] (by decide)
  exact ⟨r', h, hiff.mpr (by decide)⟩

/-- The host with a port is stored under the name `Host: a`. -/
theorem port_split : ∃ r',
    (HTTPRequest.new []).parse (requestText rootLine [portHeader] []) false = .ok (true, r') ∧
      lastValue [portHeader] "Host".toList = some "a:80".toList ∧
      r'.getHeader "Host".toList = none ∧ r'.getHeader "Host: a".toList = some "80".toList :=
  ⟨_, rfl, by decide, by decide, by decide⟩

/-! ## Keeping the body -/

/-- A line with a colon inside. -/
def IsHeader (x : Str) : Prop :=
  ∃ a b, a ≠ [] ∧ b ≠ [] ∧ '\r' ∉ a ∧ '\r' ∉ b ∧ x = a ++ ':' :: (b ++ crlf)

/-- A request line and header lines, and nothing behind them. -/
def HeadOnly (st : Str) : Prop :=
  ∃ (l : RequestLine) (xs : List Str), (∀ x ∈ xs, IsHeader x) ∧ st = l.text ++ xs.flatten

theorem isHeader_text (l : HeaderLine) : IsHeader l.text := by
  refine ⟨l.name, List.replicate l.gap ' ' ++ l.value, l.name_ne,
    List.append_ne_nil_of_right_ne_nil _ l.value_ne, l.name_cr, by simp [l.value_cr], ?_⟩
  simp [HeaderLine.text, HeaderLine.body]

theorem exists_headersText {xs : List Str} (h : ∀ x ∈ xs, IsHeader x) :
    ∃ lines, headersText lines = xs.flatten := by
  induction xs with
  | nil => exact ⟨[], rfl⟩
  | cons x xs ih =>
    obtain ⟨⟨a, b, ha, hb, har, hbr, rfl⟩, hrest⟩ := List.forall_mem_cons.mp h
    obtain ⟨l, hl, -⟩ := exists_headerLine ha hb har hbr
    obtain ⟨lines, hlines⟩ := ih hrest
    exact ⟨l :: lines, by rw [headersText_cons, hl, hlines, List.flatten_cons]⟩

theorem headOnly_iff {st : Str} :
    HeadOnly st ↔ ∃ (l : RequestLine) (lines : List HeaderLine), st = l.text ++ headersText lines := by
  constructor
  · rintro ⟨l, xs, hxs, rfl⟩
    obtain ⟨lines, hlines⟩ := exists_headersText hxs
    exact ⟨l, lines, by rw [hlines]⟩
  · rintro ⟨l, lines, rfl⟩
    refine ⟨l, lines.map HeaderLine.text, List.forall_mem_map.mpr fun l _ => isHeader_text l, ?_⟩
    rw [headersText, List.flatMap_def]

theorem exec_headerreg_nil : headerreg.exec [] = none := by
  rw [Regex.exec_eq_none rfl]
  intro x t he hx
  obtain ⟨a, b, ha, -, -, -, rfl⟩ := of_splits_headerreg hx
  simp [ha] at he

namespace HTTPRequest

/-- With `savebody` the call looks for the empty line one character too far. -/
theorem parse_true (r : HTTPRequest) (st : Str) : r.parse st true =
    if (r.parseHead st).1 = 0 then .ok (false, (r.parseHead st).2)
    else if st.length ≤ (r.parseHead st).1 then .error .outOfRange
    else if (st.drop ((r.parseHead st).1 + 1)).take 2 = crlf then
      .ok (true, { (r.parseHead st).2 with body := st.drop ((r.parseHead st).1 + 3) })
    else .ok (false, (r.parseHead st).2) := by
  have hcrlf : "\r\n".toList = crlf := rfl
  rw [parse, hcrlf]
  cases h : r.parseHead st with
  | mk pos r' =>
    dsimp only
    by_cases hpos : pos = 0
    · rw [if_neg (by simp [hpos]), if_pos hpos, decide_eq_false (by simp [hpos])]
    · rw [if_pos ⟨hpos, rfl⟩, if_neg hpos]
      by_cases hend : st.length ≤ pos
      · rw [substr, if_neg (by omega), if_pos hend]
        rfl
      · rw [substr, if_pos (by omega), if_neg hend]
        show (if _ then _ else _) = _
        split
        · next hline =>
          have hlen := congrArg List.length hline
          rw [List.length_take, List.length_drop] at hlen
          have hbody : pos + 3 ≤ st.length := by
            change _ = 2 at hlen
            omega
          rw [substr, if_pos hbody]
          rfl
        · rfl

/-- The call returns unless the header loop ends at the end of the text. -/
theorem parse_true_ok_iff (r : HTTPRequest) (st : Str) : (∃ res, r.parse st true = .ok res) ↔
    ((r.parseHead st).1 ≠ 0 → (r.parseHead st).1 < st.length) := by
  rw [parse_true]
  split
  · next h => exact ⟨fun _ hne => absurd h hne, fun _ => ⟨_, rfl⟩⟩
  · next h =>
    split
    · next hend => exact ⟨nofun, fun hlt => absurd (hlt h) (by omega)⟩
    · next hend =>
      refine ⟨fun _ _ => by omega, fun _ => ?_⟩
      split
      · exact ⟨_, rfl⟩
      · exact ⟨_, rfl⟩

theorem headOnly_iff_parseHead (r : HTTPRequest) {st : Str} (hnul : '\x00' ∉ st) :
    HeadOnly st ↔ (r.parseHead st).1 ≠ 0 ∧ (r.parseHead st).1 = st.length := by
  rw [headOnly_iff]
  constructor
  · rintro ⟨l, lines, rfl⟩
    have hhead := r.parseHead_text l lines (t := []) (by rwa [List.append_nil]) exec_headerreg_nil
    rw [List.append_nil] at hhead
    rw [hhead]
    exact ⟨requestLine_pos l _, rfl⟩
  · rintro ⟨hpos, hend⟩
    obtain ⟨l, lines, t, rfl, ht⟩ := exists_head hnul hpos
    rw [r.parseHead_text l lines hnul ht, @List.length_append _ _ t] at hend
    obtain rfl : t = [] := List.length_eq_zero_iff.mp (by omega)
    exact ⟨l, lines, by rw [List.append_nil]⟩

theorem parseHead_le (r : HTTPRequest) {st : Str} (hnul : '\x00' ∉ st) :
    (r.parseHead st).1 ≤ st.length := by
  by_cases hpos : (r.parseHead st).1 = 0
  · omega
  · obtain ⟨l, lines, t, rfl, ht⟩ := exists_head hnul hpos
    rw [r.parseHead_text l lines hnul ht, @List.length_append _ _ t]
    exact Nat.le_add_right _ _

end HTTPRequest

/-! ## With `savebody` -/

theorem parse_requestText (r : HTTPRequest) (l : RequestLine) {hs : List Header} {body : Str}
    (hnul : '\x00' ∉ requestText l hs body) :
    ∃ r', r.parse (requestText l hs body) true = .ok (false, r') := by
  obtain ⟨lines, htext, -⟩ := exists_lines hs
  have hdrop : (requestText l hs body).drop ((l.text ++ hs.flatMap Header.text).length + 1) =
      '\n' :: body := by
    rw [← List.drop_drop, requestText, List.drop_left]
    rfl
  rw [r.parse_true, parseHead_requestText r l hnul htext]
  dsimp only
  rw [if_neg (requestLine_pos l _), if_neg, hdrop, if_neg]
  · exact ⟨_, rfl⟩
  · intro he
    exact absurd (List.cons.inj he).1 (by decide)
  · rw [requestText, List.length_append]
    simp [crlf]

/-- A request with an empty line and a body, and without colons and spaces in its values. -/
def IsRequest (st : Str) : Prop :=
  ∃ (l : RequestLine) (hs : List Header) (body : Str),
    (∀ h ∈ hs, ':' ∉ h.value ∧ ' ' ∉ h.value) ∧ st = requestText l hs body

/-- `Parse(st, true)` returns, and accepts a request and keeps its body. -/
structure KeepsBody (r : HTTPRequest) (st : Str) : Prop where
  body : ∀ (l : RequestLine) (hs : List Header) (body : Str),
    (∀ h ∈ hs, ':' ∉ h.value ∧ ' ' ∉ h.value) → st = requestText l hs body →
      ∃ r', r.parse st true = .ok (true, r') ∧ r'.body = body
  returns : ∃ res, r.parse st true = .ok res

/-- **With `savebody` the call does what it should for no request with an empty line**, and for
another text exactly if something stands behind the headers. -/
theorem savebody_iff (r : HTTPRequest) {st : Str} (hnul : '\x00' ∉ st) :
    KeepsBody r st ↔ ¬ IsRequest st ∧ ¬ HeadOnly st := by
  have hreturns : (∃ res, r.parse st true = .ok res) ↔ ¬ HeadOnly st := by
    have hle := r.parseHead_le hnul
    rw [r.parse_true_ok_iff, r.headOnly_iff_parseHead hnul, not_and]
    refine imp_congr_right fun _ => ?_
    omega
  constructor
  · intro h
    refine ⟨?_, hreturns.mp h.returns⟩
    rintro ⟨l, hs, body, hvalues, rfl⟩
    obtain ⟨r', hr', -⟩ := h.body l hs body hvalues rfl
    obtain ⟨r'', hr''⟩ := parse_requestText r l hnul
    rw [hr''] at hr'
    cases hr'
  · rintro ⟨hrequest, hhead⟩
    exact ⟨fun l hs body hvalues hst => absurd ⟨l, hs, body, hvalues, hst⟩ hrequest,
      hreturns.mpr hhead⟩

theorem savebody_host :
    ¬ KeepsBody (.new []) (requestText rootLine [hostHeader] "x".toList) := fun h =>
  ((savebody_iff (.new []) (by decide)).mp h).1
    ⟨rootLine, [hostHeader], "x".toList, by decide, rfl⟩

/-- The body is not found, and a text that stops behind its headers makes `substr` throw. -/
theorem body_refused :
    (∃ r', (HTTPRequest.new []).parse (requestText rootLine [hostHeader] "x".toList) true =
      .ok (false, r')) ∧
    (HTTPRequest.new []).parse (rootLine.text ++ hostHeader.text) true = .error .outOfRange :=
  ⟨⟨_, rfl⟩, rfl⟩

end NetDJ.Daemon
