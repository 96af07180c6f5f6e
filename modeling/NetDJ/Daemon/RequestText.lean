import NetDJ.Daemon.HTTP

/-!
# `HTTP.cc`: the texts that the parser takes apart

* `RequestLine`, `exec_comreg`, `exists_requestLine` : the texts that `comreg` matches, each in one
  way;
* `HeaderLine`, `exec_headerreg`, `exists_headerLine` : the texts that `headerreg` matches; the name
  goes up to the last colon that has something behind it;
* `tokens_headers`, `exists_headers` : the loop over the headers;
* `parseHead_text`, `exists_head` : what `Parse` makes of the first part of a request.
-/

namespace NetDJ.Daemon

open Ere

def crlf : Str := ['\r', '\n']

/-! ## Characters of a class -/

theorem spaces_iff {s : Str} : (∀ ch ∈ s, (ch == ' ') = true) ↔ s = List.replicate s.length ' ' := by
  simp [List.eq_replicate_iff]

theorem isSpace_replicate (n : Nat) : ∀ ch ∈ List.replicate n ' ', (ch == ' ') = true := by
  simp

theorem stops_space {s t : Str} (hne : s ≠ []) (hs : ' ' ∉ s) : Stops (· == ' ') (s ++ t) := by
  cases s with
  | nil => exact absurd rfl hne
  | cons c s =>
    rw [List.cons_append, stops_cons]
    simpa using fun h : c = ' ' => hs (h ▸ List.mem_cons_self)

theorem line_unique {x x' t t' : Str} (hx : '\r' ∉ x) (hx' : '\r' ∉ x')
    (h : x ++ crlf ++ t = x' ++ crlf ++ t') : x = x' ∧ t = t' := by
  rw [List.append_assoc, List.append_assoc] at h
  have hstops : ∀ s, Stops (but '\r') (crlf ++ s) := fun _ => stops_but
  obtain ⟨rfl, he⟩ := (hstops t).unique (hstops t') (but_iff.mpr hx) (but_iff.mpr hx') h
  exact ⟨rfl, List.append_cancel_left he⟩

theorem reads_crlf (t : Str) : (cat (chr '\r') [chr '\n']).Reads crlf t [] :=
  .one_seq rfl (.of_splits (splits_one.mpr ⟨'\n', rfl, rfl⟩) rfl)

/-! ## The request line -/

/-- A text that `comreg` matches: the command, the URI and the version, with `gap₁ + 1` and
`gap₂ + 1` spaces between them. -/
structure RequestLine where
  command : Str
  gap₁ : Nat
  URI : Str
  gap₂ : Nat
  version : Str
  command_ne : command ≠ []
  command_space : ' ' ∉ command
  URI_ne : URI ≠ []
  URI_space : ' ' ∉ URI
  version_ne : version ≠ []
  version_cr : '\r' ∉ version

namespace RequestLine

def text (l : RequestLine) : Str :=
  l.command ++ (List.replicate (l.gap₁ + 1) ' ' ++ (l.URI ++ (List.replicate (l.gap₂ + 1) ' ' ++
    'H' :: 'T' :: 'T' :: 'P' :: '/' :: (l.version ++ crlf))))

theorem reads_comreg (l : RequestLine) (t : Str) :
    comreg.body.Reads l.text t [some l.command, some l.URI, some l.version] := by
  refine .group_many1_seq l.command_ne (but_iff.mpr l.command_space) stops_but ?_
  refine .many1_seq (List.cons_ne_nil _ _) (isSpace_replicate _)
    (stops_space l.URI_ne l.URI_space) ?_
  refine .group_many1_seq l.URI_ne (but_iff.mpr l.URI_space) stops_but ?_
  refine .many1_seq (List.cons_ne_nil _ _) (isSpace_replicate _) (stops_cons.mpr rfl) ?_
  refine .one_seq rfl (.one_seq rfl (.one_seq rfl (.one_seq rfl (.one_seq rfl ?_))))
  exact .group_many1_seq l.version_ne (but_iff.mpr l.version_cr) stops_but (reads_crlf t)

theorem of_splits {x t : Str} (h : comreg.body.Splits x t) : ∃ l : RequestLine, x = l.text := by
  simp only [comreg, cat, spaces1, chr, splits_seq, splits_group, splits_many1, splits_one,
    beq_iff_eq, but_iff] at h
  obtain ⟨c, _, rfl, ⟨hc, hcs⟩, s₁, _, rfl, ⟨hs₁, hs₁'⟩, u, _, rfl, ⟨hu, hus⟩, s₂, _, rfl,
    ⟨hs₂, hs₂'⟩, _, _, rfl, ⟨_, rfl, rfl⟩, _, _, rfl, ⟨_, rfl, rfl⟩, _, _, rfl, ⟨_, rfl, rfl⟩, _, _,
    rfl, ⟨_, rfl, rfl⟩, _, _, rfl, ⟨_, rfl, rfl⟩, v, _, rfl, ⟨hv, hvr⟩, _, _, rfl, ⟨_, rfl, rfl⟩, _,
    rfl, rfl⟩ := h
  have spaces : ∀ s : Str, s ≠ [] → (∀ ch ∈ s, ch = ' ') →
      s = List.replicate (s.length - 1 + 1) ' ' := by
    intro s hne hs
    rw [Nat.sub_add_cancel (List.length_pos_iff.mpr hne)]
    exact List.eq_replicate_of_mem hs
  refine ⟨⟨c, s₁.length - 1, u, s₂.length - 1, v, hc, hcs, hu, hus, hv, hvr⟩, ?_⟩
  rw [text, ← spaces s₁ hs₁ hs₁', ← spaces s₂ hs₂ hs₂']
  rfl

theorem text_unique {l l' : RequestLine} {t t' : Str} (h : l.text ++ t = l'.text ++ t') :
    l.text = l'.text ∧ t = t' := by
  have space : ∀ (n : Nat) (s : Str), Stops (but ' ') (List.replicate (n + 1) ' ' ++ s) :=
    fun _ _ => stops_but
  simp only [text, List.append_assoc, List.cons_append] at h
  obtain ⟨hc, h⟩ := (space _ _).unique (space _ _) (but_iff.mpr l.command_space)
    (but_iff.mpr l'.command_space) h
  obtain ⟨hg₁, h⟩ := (stops_space l.URI_ne l.URI_space).unique
    (stops_space l'.URI_ne l'.URI_space) (isSpace_replicate _) (isSpace_replicate _) h
  obtain ⟨hu, h⟩ := (space _ _).unique (space _ _) (but_iff.mpr l.URI_space)
    (but_iff.mpr l'.URI_space) h
  obtain ⟨hg₂, h⟩ := (stops_cons.mpr rfl : Stops (· == ' ') ('H' :: _)).unique
    (stops_cons.mpr rfl) (isSpace_replicate _) (isSpace_replicate _) h
  simp only [List.cons.injEq, true_and] at h
  obtain ⟨hv, ht⟩ := line_unique l.version_cr l'.version_cr
    ((List.append_assoc _ _ _).trans (h.trans (List.append_assoc _ _ _).symm))
  exact ⟨by rw [text, text, hc, hg₁, hu, hg₂, hv], ht⟩

end RequestLine

theorem exec_comreg (l : RequestLine) (t : Str) :
    comreg.exec (l.text ++ t) = some (l.text.length, [some l.command, some l.URI, some l.version]) := by
  refine Regex.exec_reads (l.reads_comreg t) fun y u he hy => ?_
  obtain ⟨l', rfl⟩ := RequestLine.of_splits hy
  rw [(RequestLine.text_unique he).1]

theorem exists_requestLine {s : Str} (h : comreg.exec s ≠ none) :
    ∃ (l : RequestLine) (t : Str), s = l.text ++ t := by
  obtain ⟨⟨n, gs⟩, hs⟩ := Option.ne_none_iff_exists'.mp h
  obtain ⟨x, t, rfl, -, hx, -⟩ := Regex.reads_of_exec rfl hs
  obtain ⟨l, rfl⟩ := RequestLine.of_splits hx.splits
  exact ⟨l, t, rfl⟩

/-! ## Header lines -/

/-- A text that `headerreg` matches: a name up to the last colon that has something behind it,
`gap` spaces, and a value. -/
structure HeaderLine where
  name : Str
  gap : Nat
  value : Str
  name_ne : name ≠ []
  name_cr : '\r' ∉ name
  value_ne : value ≠ []
  value_cr : '\r' ∉ value
  value_colon : ':' ∉ value.dropLast
  value_space : value.head? = some ' ' → value = [' ']

namespace HeaderLine

def body (l : HeaderLine) : Str := l.name ++ ':' :: (List.replicate l.gap ' ' ++ l.value)

def text (l : HeaderLine) : Str := l.body ++ crlf

theorem body_cr (l : HeaderLine) : '\r' ∉ l.body := by
  simp [body, l.name_cr, l.value_cr]

theorem splits_tail {x t : Str}
    (h : (cat spaces [chr ':', spaces, group (many1 (but '\r')), chr '\r', chr '\n']).Splits x t) :
    ∃ s b, (∀ ch ∈ s, ch = ' ') ∧ b ≠ [] ∧ '\r' ∉ b ∧ x = s ++ ':' :: (b ++ crlf) := by
  simp only [cat, spaces, chr, splits_seq, splits_group, splits_many, splits_many1, splits_one,
    beq_iff_eq, but_iff] at h
  obtain ⟨s, _, rfl, hs, _, _, rfl, ⟨_, rfl, rfl⟩, s', _, rfl, hs', v, _, rfl, ⟨hv, hvr⟩, _, _, rfl,
    ⟨_, rfl, rfl⟩, _, rfl, rfl⟩ := h
  have hcr : '\r' ∉ s' := fun hc => absurd (hs' _ hc) (by decide)
  refine ⟨s, s' ++ v, hs, List.append_ne_nil_of_right_ne_nil _ hv, ?_, ?_⟩
  · rw [List.mem_append, not_or]
    exact ⟨hcr, hvr⟩
  · rw [List.append_assoc]
    rfl

/-- A longer name would leave a colon inside the value. -/
theorem name_longest (l : HeaderLine) {y s b : Str} (hb : b ≠ [])
    (he : y ++ (s ++ ':' :: b) = l.body) : y.length ≤ l.name.length := by
  by_contra hlt
  have hcolon : ':' ∉ List.replicate l.gap ' ' := by simp
  rw [body, List.append_eq_append_iff] at he
  rcases he with ⟨a, hname, -⟩ | ⟨a, rfl, ha⟩
  · rw [hname, List.length_append] at hlt
    omega
  · cases a with
    | nil => simp at hlt
    | cons c a =>
      rw [List.cons_append, List.cons.injEq, ← List.append_assoc, List.append_eq_append_iff] at ha
      rcases ha.2 with ⟨d, -, hd⟩ | ⟨d, hgap, hd⟩
      · refine l.value_colon ?_
        rw [hd, List.dropLast_append_of_ne_nil (List.cons_ne_nil _ _),
          List.dropLast_cons_of_ne_nil hb]
        simp
      · cases d with
        | nil =>
          refine l.value_colon ?_
          rw [← List.nil_append l.value, ← hd, List.dropLast_cons_of_ne_nil hb]
          exact List.mem_cons_self
        | cons c' d =>
          rw [List.cons_append, List.cons.injEq] at hd
          rw [hgap, ← hd.1] at hcolon
          simp at hcolon

theorem reads_gap (l : HeaderLine) (t : Str) :
    (cat spaces [group (many1 (but '\r')), chr '\r', chr '\n']).Reads
      (List.replicate l.gap ' ' ++ (l.value ++ crlf)) t [some l.value] := by
  have hvalue : (cat (group (many1 (but '\r'))) [chr '\r', chr '\n']).Reads (l.value ++ crlf) t
      [some l.value] :=
    .group_many1_seq l.value_ne (but_iff.mpr l.value_cr) stops_but (reads_crlf t)
  refine .seq (.of_splits (splits_many.mpr (isSpace_replicate _)) rfl) hvalue
    fun y' z' he hy' hz' => ?_
  by_cases hsp : l.value.head? = some ' '
  · simp only [cat, chr, splits_seq, splits_group, splits_many1, splits_one] at hz'
    obtain ⟨v, _, rfl, ⟨hv, -⟩, _, _, rfl, ⟨_, -, rfl⟩, _, -, rfl⟩ := hz'
    have hlen := congrArg List.length he
    have hpos := List.length_pos_iff.mpr hv
    rw [l.value_space hsp] at hlen
    simp [crlf] at hlen ⊢
    omega
  · refine Stops.length_le ?_ he (splits_many.mp hy')
    cases hval : l.value with
    | nil => exact absurd hval l.value_ne
    | cons c v =>
      rw [hval] at hsp
      rw [List.cons_append, stops_cons]
      simpa using hsp

theorem reads_headerreg (l : HeaderLine) (t : Str) :
    headerreg.body.Reads l.text t [some l.name, some l.value] := by
  have htail : (cat spaces [chr ':', spaces, group (many1 (but '\r')), chr '\r', chr '\n']).Reads
      (':' :: (List.replicate l.gap ' ' ++ (l.value ++ crlf))) t [some l.value] :=
    .many_seq (y := []) nofun (stops_cons.mpr rfl) (.one_seq rfl (l.reads_gap t))
  have htext : l.text = l.name ++ ':' :: (List.replicate l.gap ' ' ++ (l.value ++ crlf)) := by
    simp [text, body]
  rw [htext]
  refine .seq (.group_many1 l.name_ne (but_iff.mpr l.name_cr)) htail fun y' z' he hy' hz' => ?_
  obtain ⟨s, b, hs, hb, hbr, rfl⟩ := splits_tail hz'
  have hy : '\r' ∉ y' := but_iff.mp (splits_many1.mp hy').2
  have hsr : '\r' ∉ s := fun hc => absurd (hs _ hc) (by decide)
  have hline : (y' ++ (s ++ ':' :: b)) ++ crlf ++ [] = l.body ++ crlf ++ [] := by
    simpa [body] using he
  exact l.name_longest hb (line_unique (by simp [hy, hsr, hbr]) l.body_cr hline).1

end HeaderLine

theorem of_splits_headerreg {x t : Str} (h : headerreg.body.Splits x t) :
    ∃ a b, a ≠ [] ∧ b ≠ [] ∧ '\r' ∉ a ∧ '\r' ∉ b ∧ x = a ++ ':' :: (b ++ crlf) := by
  obtain ⟨a, z, rfl, ha, hz⟩ := splits_seq.mp h
  obtain ⟨hne, hcr⟩ := splits_many1.mp (splits_group.mp ha)
  obtain ⟨s, b, hs, hb, hbr, rfl⟩ := HeaderLine.splits_tail hz
  refine ⟨a ++ s, b, List.append_ne_nil_of_left_ne_nil hne _, hb, ?_, hbr, ?_⟩
  · rw [List.mem_append, not_or]
    exact ⟨but_iff.mp hcr, fun hc => absurd (hs _ hc) (by decide)⟩
  · rw [List.append_assoc]

theorem exists_of_mem_dropLast {c : Char} {s : Str} (h : c ∈ s.dropLast) :
    ∃ a b, b ≠ [] ∧ s = a ++ c :: b := by
  obtain ⟨a, b, hsplit⟩ := List.append_of_mem h
  have hs : s ≠ [] := by
    rintro rfl
    cases h
  refine ⟨a, b ++ [s.getLast hs], by simp, ?_⟩
  rw [← List.cons_append, ← List.append_assoc, ← hsplit, List.dropLast_append_getLast]

/-- Without a further colon the name ends at the given one. -/
theorem exists_headerLine_of_notMem {a b : Str} (ha : a ≠ []) (hb : b ≠ []) (har : '\r' ∉ a)
    (hbr : '\r' ∉ b) (hcolon : ':' ∉ b.dropLast) :
    ∃ l : HeaderLine, l.text = a ++ ':' :: (b ++ crlf) ∧ l.name = a := by
  have htake : b.takeWhile (· == ' ') = List.replicate (b.takeWhile (· == ' ')).length ' ' :=
    spaces_iff.mp fun _ hc => List.mem_takeWhile_imp (p := (· == ' ')) hc
  have hcut := List.takeWhile_append_dropWhile (p := (· == ' ')) (l := b)
  by_cases hrest : b.dropWhile (· == ' ') = []
  · -- nothing but spaces: the last one is the value
    rw [hrest, List.append_nil] at hcut
    rw [hcut] at htake
    have hb' : b = List.replicate (b.length - 1) ' ' ++ [' '] := by
      rw [← List.replicate_succ', Nat.sub_add_cancel (List.length_pos_iff.mpr hb)]
      exact htake
    refine ⟨⟨a, b.length - 1, [' '], ha, har, by simp, by simp, by simp, by simp⟩, ?_, rfl⟩
    conv_rhs => rw [hb']
    simp [HeaderLine.text, HeaderLine.body]
  · have hsub : b.dropWhile (· == ' ') ⊆ b := (List.dropWhile_sublist _).subset
    refine ⟨⟨a, (b.takeWhile (· == ' ')).length, b.dropWhile (· == ' '), ha, har, hrest,
      fun h => hbr (hsub h), fun h => hcolon ?_, fun h => ?_⟩, ?_, rfl⟩
    · rw [← hcut, List.dropLast_append_of_ne_nil hrest]
      exact List.mem_append_right _ h
    · have hhead := List.head?_dropWhile_not (· == ' ') b
      rw [h] at hhead
      simp at hhead
    · conv_rhs => rw [← hcut, htake]
      simp [HeaderLine.text, HeaderLine.body]

/-- Every text with a colon inside is a header line, and a colon further on is in its name. -/
theorem exists_headerLine {a b : Str} (ha : a ≠ []) (hb : b ≠ []) (har : '\r' ∉ a)
    (hbr : '\r' ∉ b) : ∃ l : HeaderLine, l.text = a ++ ':' :: (b ++ crlf) ∧ a <+: l.name ∧
      (':' ∈ b.dropLast → ':' ∈ l.name) := by
  induction hn : b.length using Nat.strong_induction_on generalizing a b with
  | _ n ih =>
    by_cases hcolon : ':' ∈ b.dropLast
    · obtain ⟨b₁, b₂, hb₂, rfl⟩ := exists_of_mem_dropLast hcolon
      simp only [List.mem_append, List.mem_cons, not_or] at hbr
      have hlen : b₂.length < n := by
        rw [← hn]
        simp
        omega
      obtain ⟨l, hl, hpre, -⟩ := ih _ hlen (a := a ++ ':' :: b₁)
        (List.append_ne_nil_of_left_ne_nil ha _) hb₂ (by simp [har, hbr.1]) hbr.2.2 rfl
      refine ⟨l, ?_, (List.prefix_append _ _).trans hpre, fun _ => hpre.subset (by simp)⟩
      rw [hl]
      simp
    · obtain ⟨l, hl, rfl⟩ := exists_headerLine_of_notMem ha hb har hbr hcolon
      exact ⟨l, hl, List.prefix_rfl, fun h => absurd h hcolon⟩

theorem exec_headerreg (l : HeaderLine) (t : Str) :
    headerreg.exec (l.text ++ t) = some (l.text.length, [some l.name, some l.value]) := by
  refine Regex.exec_reads (l.reads_headerreg t) fun y u he hy => ?_
  obtain ⟨a, b, -, -, ha, hb, rfl⟩ := of_splits_headerreg hy
  have hline : (a ++ ':' :: b) ++ crlf ++ u = l.body ++ crlf ++ t := by
    simpa [HeaderLine.text] using he
  have hx := (line_unique (by simp [ha, hb]) l.body_cr hline).1
  have hlen := congrArg List.length hx
  simp [HeaderLine.text] at hlen ⊢
  omega

/-- Where `headerreg` does not match, no header line begins. -/
theorem exists_headerLine_of_exec {s : Str} (h : headerreg.exec s ≠ none) :
    ∃ (l : HeaderLine) (t : Str), s = l.text ++ t := by
  obtain ⟨⟨n, gs⟩, hs⟩ := Option.ne_none_iff_exists'.mp h
  obtain ⟨x, t, rfl, -, hx, -⟩ := Regex.reads_of_exec rfl hs
  obtain ⟨a, b, ha, hb, har, hbr, rfl⟩ := of_splits_headerreg hx.splits
  obtain ⟨l, hl, -⟩ := exists_headerLine ha hb har hbr
  exact ⟨l, t, by rw [hl]⟩

theorem exec_headerreg_crlf (t : Str) : headerreg.exec (crlf ++ t) = none := by
  rw [Regex.exec_eq_none rfl]
  intro x u he hx
  obtain ⟨a, b, ha, -, har, -, rfl⟩ := of_splits_headerreg hx
  cases a with
  | nil => exact ha rfl
  | cons c a =>
    rw [List.cons_append, List.cons_append] at he
    exact har ((List.cons.inj he).1 ▸ List.mem_cons_self)

/-! ## The loop over the headers -/

def headersText (lines : List HeaderLine) : Str := lines.flatMap HeaderLine.text

theorem headersText_cons (l : HeaderLine) (lines : List HeaderLine) :
    headersText (l :: lines) = l.text ++ headersText lines := rfl

theorem HeaderLine.text_length (l : HeaderLine) : ∃ n, l.text.length = n + 1 :=
  ⟨l.body.length + 1, by simp [text, crlf]⟩

theorem tokens_headers (lines : List HeaderLine) {t : Str} (ht : headerreg.exec t = none) :
    headerreg.tokens (headersText lines ++ t) =
      (lines.map fun l => [l.name, l.value], (headersText lines).length) := by
  induction lines with
  | nil =>
    rw [headersText, List.flatMap_nil, List.nil_append, Regex.tokens_eq, ht]
    rfl
  | cons l lines ih =>
    obtain ⟨n, hn⟩ := l.text_length
    rw [headersText_cons, List.append_assoc, Regex.tokens_eq, exec_headerreg, hn]
    dsimp only
    rw [← hn, List.drop_left, ih, hn, List.length_append, hn]
    rfl

/-- Every text begins with header lines, which the loop ends behind. -/
theorem exists_headers (s : Str) :
    ∃ lines t, s = headersText lines ++ t ∧ headerreg.exec t = none := by
  induction hn : s.length using Nat.strong_induction_on generalizing s with
  | _ n ih =>
    by_cases hs : headerreg.exec s = none
    · exact ⟨[], s, rfl, hs⟩
    · obtain ⟨l, u, rfl⟩ := exists_headerLine_of_exec hs
      obtain ⟨k, hk⟩ := l.text_length
      rw [List.length_append] at hn
      obtain ⟨lines, t, rfl, ht⟩ := ih u.length (by omega) u rfl
      exact ⟨l :: lines, t, by rw [headersText_cons, List.append_assoc], ht⟩

/-! ## The first part of a request -/

/-- The headers that are stored for these lines. -/
def headerMap (lines : List HeaderLine) : StdMap Str Str :=
  lines.foldl (fun m l => m.insert l.name l.value) ∅

namespace HTTPRequest

/-- The object after this request line and these headers. -/
def afterHead (r : HTTPRequest) (l : RequestLine) (lines : List HeaderLine) : HTTPRequest :=
  { { r with command := l.command, URI := l.URI, version := l.version }.parseURI with
    headers := headerMap lines }

theorem parseHead_text (r : HTTPRequest) (l : RequestLine) (lines : List HeaderLine) {t : Str}
    (hnul : '\x00' ∉ l.text ++ headersText lines ++ t) (ht : headerreg.exec t = none) :
    r.parseHead (l.text ++ headersText lines ++ t) =
      ((l.text ++ headersText lines).length, r.afterHead l lines) := by
  have hline : comreg.matchStr (l.text ++ headersText lines ++ t) =
      (l.text.length, [l.command, l.URI, l.version]) := by
    rw [MyRegex.matchStr, cStr_eq_self hnul, List.append_assoc, exec_comreg]
    rfl
  have hlen : l.text.length ≠ 0 := by simp [RequestLine.text]
  have hrest : '\x00' ∉ headersText lines ++ t := by
    rw [List.append_assoc, List.mem_append, not_or] at hnul
    exact hnul.2
  rw [parseHead_of_match r (by rw [hline]; exact hlen), hline]
  dsimp only
  rw [HTTP.parseHeaders, List.append_assoc, List.drop_left, cStr_eq_self hrest,
    tokens_headers lines ht, List.foldl_map, List.length_append]
  rfl

theorem exists_head {r : HTTPRequest} {st : Str} (hnul : '\x00' ∉ st) (h : (r.parseHead st).1 ≠ 0) :
    ∃ l lines t, st = RequestLine.text l ++ headersText lines ++ t ∧ headerreg.exec t = none := by
  rw [parseHead_pos, MyRegex.matchStr, cStr_eq_self hnul] at h
  have hexec : comreg.exec st ≠ none := by
    intro hnone
    rw [hnone] at h
    exact h rfl
  obtain ⟨l, u, rfl⟩ := exists_requestLine hexec
  obtain ⟨lines, t, rfl, ht⟩ := exists_headers u
  exact ⟨l, lines, t, (List.append_assoc _ _ _).symm, ht⟩

end HTTPRequest

end NetDJ.Daemon
