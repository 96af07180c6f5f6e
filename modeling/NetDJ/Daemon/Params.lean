import NetDJ.Daemon.Headers
import NetDJ.Daemon.RequestLoops
import NetDJ.Daemon.RequestText

/-!
# `HTTP.cc`: the parameters of a URI

* `Param`, `queryText` : a key alone or `key=value`, and a list of them joined by `&`;
* `Param.reads_paramreg` : what `paramreg` matches of an item, with the separator behind it;
* `tokens_query` : the loop takes the list apart, item by item;
* `params_read` : so every key has the value that was sent last.
-/

namespace NetDJ.Daemon

open Ere

/-- A parameter as a client sends it: a key alone, or a key and a value. -/
structure Param where
  key : Str
  value : Option Str
  key_ne : key ≠ []
  key_eq : '=' ∉ key
  key_amp : '&' ∉ key
  value_amp : ∀ v ∈ value, '&' ∉ v

namespace Param

/-- What stands behind the key. -/
def assign (p : Param) : Str := p.value.elim [] ('=' :: ·)

def text (p : Param) : Str := p.key ++ p.assign

/-- The groups of `paramreg` behind the key. -/
def assignGroups (p : Param) : List (Option Str) :=
  p.value.elim [none, none] fun v => [some ('=' :: v), some v]

end Param

/-- `(=([^&]*))?`. -/
def assignreg : Ere Char := opt (group (seq (chr '=') (group (many (but '&')))))

/-- What comes behind an item: a separator, or the end. -/
structure Behind (a t : Str) : Prop where
  eq : a = ['&'] ∨ a = [] ∧ t = []

namespace Behind
variable {a t : Str}

theorem stops (h : Behind a t) : Stops (but '&') a := by
  rcases h.eq with rfl | ⟨rfl, -⟩
  · exact stops_but
  · exact nofun

theorem reads (h : Behind a t) : (opt (chr '&')).Reads a t [] := by
  refine .of_splits (splits_opt.mpr ?_) rfl
  rcases h.eq with rfl | ⟨rfl, -⟩
  · exact .inr (splits_one.mpr ⟨'&', rfl, rfl⟩)
  · exact .inl rfl

end Behind

/-- No separator is taken for a part of a value. -/
theorem splits_assignreg {x t : Str} (h : assignreg.Splits x t) : '&' ∉ x := by
  simp only [assignreg, chr, splits_opt, splits_group, splits_seq, splits_one, splits_many,
    but_iff, beq_iff_eq] at h
  rcases h with rfl | ⟨_, v, rfl, ⟨_, rfl, rfl⟩, hv⟩
  · exact List.not_mem_nil
  · simpa using hv

theorem Param.reads_assignreg (p : Param) {a t : Str} (h : Behind a t) :
    assignreg.Reads p.assign (a ++ t) p.assignGroups := by
  have hstops : Stops (but '&') (a ++ t) := by
    rcases h.eq with rfl | ⟨rfl, rfl⟩
    · exact stops_but
    · exact nofun
  unfold assign assignGroups
  cases hv : p.value with
  | none =>
    refine .opt_nil fun hsplit => ?_
    obtain ⟨_, _, hnil, hone, -⟩ := splits_seq.mp (splits_group.mp hsplit)
    obtain ⟨c, -, rfl⟩ := splits_one.mp hone
    cases hnil
  | some v =>
    refine .opt (.group (.one_seq rfl (.group ?_)))
    exact .of_splits (splits_many.mpr (but_iff.mpr (p.value_amp v hv))) rfl

theorem Param.reads_paramreg (p : Param) {a t : Str} (h : Behind a t) :
    paramreg.body.Reads (p.text ++ a) t (some p.key :: p.assignGroups) := by
  have hrest : (seq assignreg (opt (chr '&'))).Reads (p.assign ++ a) t (p.assignGroups ++ []) :=
    .seq (p.reads_assignreg h) h.reads fun y' z' he hy' _ =>
      h.stops.length_le he (but_iff.mpr (splits_assignreg hy'))
  have hstops : Stops (fun c => c != '=' && c != '&') (p.assign ++ a) := by
    unfold assign
    cases p.value with
    | some v => exact stops_cons.mpr rfl
    | none =>
      rcases h.eq with rfl | ⟨rfl, -⟩
      · exact stops_cons.mpr rfl
      · exact nofun
  rw [List.append_nil] at hrest
  rw [text, List.append_assoc]
  refine .group_many1_seq p.key_ne (fun c hc => ?_) hstops hrest
  rw [Bool.and_eq_true, bne_iff_ne, bne_iff_ne]
  exact ⟨fun he => p.key_eq (he ▸ hc), fun he => p.key_amp (he ▸ hc)⟩

/-- A match goes up to the first separator at most. -/
theorem splits_paramreg {x t : Str} (h : paramreg.body.Splits x t) :
    ∃ y a, x = y ++ a ∧ '&' ∉ y ∧ a.length ≤ 1 := by
  obtain ⟨k, _, rfl, hk, hrest⟩ := splits_seq.mp h
  obtain ⟨e, a, rfl, he, ha⟩ := splits_seq.mp hrest
  refine ⟨k ++ e, a, (List.append_assoc _ _ _).symm, ?_, ?_⟩
  · rw [List.mem_append, not_or]
    refine ⟨fun hc => ?_, splits_assignreg he⟩
    simpa using (splits_many1.mp (splits_group.mp hk)).2 '&' hc
  · rcases splits_opt.mp ha with rfl | ha
    · exact Nat.zero_le _
    · obtain ⟨c, -, rfl⟩ := splits_one.mp ha
      exact le_rfl

theorem exec_paramreg (p : Param) {a t : Str} (h : Behind a t) :
    paramreg.exec (p.text ++ a ++ t) =
      some ((p.text ++ a).length, some p.key :: p.assignGroups) := by
  refine Regex.exec_reads (p.reads_paramreg h) fun y u he hy => ?_
  rcases h.eq with rfl | ⟨rfl, rfl⟩
  · obtain ⟨y, b, rfl, hamp, hb⟩ := splits_paramreg hy
    have hstops : Stops (but '&') ('&' :: t) := stops_but
    rw [List.append_assoc, List.append_assoc] at he
    have hlen := hstops.length_le he (but_iff.mpr hamp)
    rw [List.length_append, List.length_append, List.length_singleton]
    omega
  · have hlen := congrArg List.length he
    simp only [List.append_nil, List.length_append] at hlen ⊢
    omega

/-! ## The loop over the parameters -/

def queryText (items : List Param) : Str := ['&'].intercalate (items.map Param.text)

/-- The texts that the loop gets for an item. -/
def Param.texts (p : Param) : List Str := Regex.texts (some p.key :: p.assignGroups)

theorem tokens_query (items : List Param) :
    (paramreg.tokens (queryText items)).1 = items.map Param.texts := by
  have item : ∀ (p : Param) {a t : Str}, Behind a t →
      (paramreg.tokens (p.text ++ a ++ t)).1 = p.texts :: (paramreg.tokens t).1 := by
    intro p a t h
    obtain ⟨c, k, hk⟩ := List.exists_cons_of_ne_nil p.key_ne
    have hlen : (p.text ++ a).length = (k ++ p.assign ++ a).length + 1 := by
      simp [Param.text, hk]
    rw [Regex.tokens_eq, exec_paramreg p h, hlen]
    dsimp only
    rw [← hlen, List.drop_left]
    rfl
  match items with
  | [] => rfl
  | [p] =>
    have hlast := item p ⟨.inr ⟨rfl, rfl⟩⟩
    rw [List.append_nil, List.append_nil] at hlast
    rw [queryText, List.map_singleton, List.intercalate_singleton, hlast]
    rfl
  | p :: q :: items =>
    have hquery : queryText (p :: q :: items) = p.text ++ ['&'] ++ queryText (q :: items) := by
      simp [queryText, List.intercalate_cons_cons]
    rw [hquery, item p ⟨.inl rfl⟩, tokens_query (q :: items)]
    rfl

/-- The value of the last item with that key, empty for a key alone. -/
def lastParam (items : List Param) (key : Str) : Option Str :=
  (items.reverse.find? (·.key = key)).map fun p => p.value.getD []

theorem putParam_texts (params : StdMap Str Str) (p : Param) :
    HTTPRequest.putParam params p.texts = params.insert p.key (p.value.getD []) := by
  unfold HTTPRequest.putParam Param.texts Param.assignGroups
  cases p.value with
  | none => rfl
  | some v => rfl

/-- **Every parameter of a request is read as it was sent**, the last one for each key, and no
other. -/
theorem params_read (r : HTTPRequest) (l : RequestLine) {path t : Str} {items : List Param}
    (hURI : l.URI = path ++ '?' :: queryText items) (hpath : '?' ∉ path)
    (hnul : '\x00' ∉ l.text) : ∃ r', r.parse (l.text ++ t) false = .ok (true, r') ∧
      r'.name = path ∧ ∀ key, r'.getURIParam key = lastParam items key := by
  obtain ⟨lines, u, hlines, hu⟩ := exists_headers (cStr t)
  have hstr : cStr (l.text ++ t) = l.text ++ headersText lines ++ u := by
    rw [cStr_append hnul, hlines, List.append_assoc]
  have hhead : r.parseHead (l.text ++ t) =
      ((l.text ++ headersText lines).length, r.afterHead l lines) := by
    rw [← r.parseHead_cStr, hstr]
    exact r.parseHead_text l lines (hstr ▸ nul_notMem_cStr _) hu
  have hidx : l.URI.idxOf? '?' = some path.length := by
    rw [hURI, List.idxOf?_eq_some_iff]
    refine ⟨by simp, by simp, fun j hj he => hpath ?_⟩
    rw [List.getElem_append_left hj] at he
    exact he ▸ List.getElem_mem hj
  have hquery : '\x00' ∉ queryText items := by
    intro hc
    refine hnul ?_
    simp [RequestLine.text, hURI, hc]
  have hdrop : l.URI.drop (path.length + 1) = queryText items := by
    rw [hURI, ← List.drop_drop, List.drop_left]
    rfl
  refine ⟨r.afterHead l lines, ?_, ?_, fun key => ?_⟩
  · rw [HTTPRequest.parse_false, hhead]
    dsimp only
    rw [decide_eq_true]
    simp [RequestLine.text]
  · show (HTTPRequest.parseURI { r with
      command := l.command, URI := l.URI, version := l.version }).name = path
    rw [HTTPRequest.parseURI, hidx]
    show l.URI.take path.length = path
    rw [hURI, List.take_left]
  · show (HTTPRequest.parseURI { r with
      command := l.command, URI := l.URI, version := l.version }).params.lookup key = _
    rw [HTTPRequest.parseURI_params hidx, hdrop, cStr_eq_self hquery, tokens_query, List.foldl_map]
    simp only [putParam_texts]
    rw [lookup_foldl_insert, AList.lookup_empty, Option.or_none]
    rfl

def queryLine : RequestLine :=
  { rootLine with URI := "/?a=b=c&k".toList, URI_ne := by decide, URI_space := by decide }

theorem params_read_two : ∃ r', (HTTPRequest.new []).parse queryLine.text false = .ok (true, r') ∧
    r'.getURIParam "a".toList = some "b=c".toList ∧ r'.getURIParam "k".toList = some [] ∧
      r'.getURIParam "b".toList = none := by
  have hURI : queryLine.URI = "/".toList ++ '?' :: queryText
      [⟨"a".toList, some "b=c".toList, by decide, by decide, by decide, by decide⟩,
        ⟨"k".toList, none, by decide, by decide, by decide, by decide⟩] := by decide
  obtain ⟨r', hparse, -, hparam⟩ := params_read (.new []) queryLine (t := []) hURI (by decide)
    (by decide)
  rw [List.append_nil] at hparse
  exact ⟨r', hparse, hparam _, hparam _, hparam _⟩

end NetDJ.Daemon
