import NetDJ.Lib.Loop
import NetDJ.Daemon.HTTP

/-!
# `HTTP.cc`: the loops of `Parse`, round by round

Each round takes the rest of the string with `substr`, matches, and goes on behind the match. A
position outside the string would be an exception, and a round that stays where it is would be
repeated for ever.

* `HTTP.headerRound`, `HTTPRequest.paramRound` : a round of the loop over the headers, and of the
  loop over the parameters of a URI;
* `Advances` : the loop stays in the string and each round moves on;
* `pulls_tokens` : the matches of such a loop are `Regex.tokens`;
* `loops_end` : both loops advance and end, on any text and any earlier URI.
-/

namespace NetDJ.Daemon

open Loop

/-- `Match(st.substr(pos), ..)`: the groups and the position behind the match, `none` for 0. -/
def MyRegex.pull (r : MyRegex) (st : Str) (pos : Nat) : Except Abort (Option (List Str × Nat)) :=
  (substr st pos).map fun s =>
    let line := r.matchStr s
    if line.1 = 0 then none else some (line.2, pos + line.1)

/-- `headers[line[0]] = line[1]`. -/
def HTTP.putHeader (headers : StdMap Str Str) (line : List Str) : StdMap Str Str :=
  headers.insert (line.getD 0 []) (line.getD 1 [])

/-- A round of the loop in `ParseHeaders`. -/
def HTTP.headerRound (st : Str) :
    Nat × StdMap Str Str → Except Abort (Option (Nat × StdMap Str Str)) :=
  round (headerreg.pull st) fun headers line => .ok (putHeader headers line)

/-- `params[pmat[0]] = pmat[2]`, or the empty value where there is none. -/
def HTTPRequest.putParam (params : StdMap Str Str) (pmat : List Str) : StdMap Str Str :=
  params.insert (pmat.getD 0 []) (if pmat.length > 2 then pmat.getD 2 [] else [])

/-- A round of the loop in `ParseCommand`. -/
def HTTPRequest.paramRound (URI : Str) :
    Nat × StdMap Str Str → Except Abort (Option (Nat × StdMap Str Str)) :=
  round (paramreg.pull URI) fun params pmat => .ok (putParam params pmat)

/-- Wherever the loop comes by, its position lies in the string, so that `substr` does not throw,
and a round that leads on moves it by at least one. -/
def Advances {α : Type} (next : Nat × α → Except Abort (Option (Nat × α))) (st : Str)
    (s : Nat × α) : Prop :=
  ∀ t, Visits next s t → t.1 ≤ st.length ∧ ∃ o, next t = .ok o ∧ ∀ t' ∈ o, t.1 < t'.1

namespace MyRegex

variable (r : MyRegex) {st : Str} {pos : Nat}

theorem matchStr_le (s : Str) : (r.matchStr s).1 ≤ s.length :=
  (r.matchStr_le_cStr s).trans (List.takeWhile_sublist _).length_le

theorem pull_of_le (h : pos ≤ st.length) : r.pull st pos = .ok
    (if (r.matchStr (st.drop pos)).1 = 0 then none
      else some ((r.matchStr (st.drop pos)).2, pos + (r.matchStr (st.drop pos)).1)) := by
  rw [pull, substr, if_pos h]
  rfl

theorem pull_cases (h : pos ≤ st.length) : r.pull st pos = .ok none ∨
    ∃ line pos', r.pull st pos = .ok (some (line, pos')) ∧ pos < pos' ∧ pos' ≤ st.length := by
  rw [r.pull_of_le h]
  split
  · exact .inl rfl
  · next hne =>
    have hle := r.matchStr_le (st.drop pos)
    rw [List.length_drop] at hle
    exact .inr ⟨_, _, rfl, by omega, by omega⟩

theorem advances {α : Type} (put : α → List Str → α) (h : pos ≤ st.length) (a : α) :
    Advances (round (r.pull st) fun a line => .ok (put a line)) st (pos, a) := by
  intro t ht
  have hin : t.1 ≤ st.length := by
    refine ht.keeps (I := fun t => t.1 ≤ st.length) (fun s s' hs hnext => ?_) h
    rcases r.pull_cases hs with hnone | ⟨line, pos', hsome, -, hle⟩
    · rw [round_of_dry hnone] at hnext
      cases hnext
    · rw [round_of_pull hsome rfl] at hnext
      cases hnext
      exact hle
  refine ⟨hin, ?_⟩
  rcases r.pull_cases hin with hnone | ⟨line, pos', hsome, hlt, -⟩
  · exact ⟨none, round_of_dry hnone _, nofun⟩
  · refine ⟨some (pos', put t.2 line), round_of_pull hsome rfl, ?_⟩
    rintro t' ⟨⟩
    exact hlt

theorem matchStr_eq_zero {s : Str} (h : r.exec (cStr s) = none ∨ ∃ gs, r.exec (cStr s) = some (0, gs)) :
    (r.matchStr s).1 = 0 := by
  rcases h with h | ⟨gs, h⟩ <;> rw [matchStr, h]

theorem pulls_tokens (h : pos ≤ st.length) :
    Pulls (r.pull st) pos (r.tokens (cStr (st.drop pos))).1
      (pos + (r.tokens (cStr (st.drop pos))).2) := by
  induction hn : st.length - pos using Nat.strong_induction_on generalizing pos with
  | _ n ih =>
    rw [Regex.tokens_eq]
    split
    · next he =>
      refine .nil ?_
      rw [r.pull_of_le h, if_pos (r.matchStr_eq_zero (.inl he))]
    · next he =>
      refine .nil ?_
      rw [r.pull_of_le h, if_pos (r.matchStr_eq_zero (.inr ⟨_, he⟩))]
    · next k gs he =>
      have hstr := r.end_le_of_exec he
      have hlen : (cStr (st.drop pos)).length ≤ (st.drop pos).length :=
        (List.takeWhile_sublist _).length_le
      rw [List.length_drop] at hlen
      have hmatch : r.matchStr (st.drop pos) = (k + 1, Regex.texts gs) := by
        rw [matchStr, he]
      have hle : pos + (k + 1) ≤ st.length := by omega
      have hrest := ih (st.length - (pos + (k + 1))) (by omega) hle rfl
      rw [← List.drop_drop, cStr_drop hstr, Nat.add_assoc] at hrest
      refine .cons ?_ hrest
      rw [r.pull_of_le h, hmatch, if_neg (Nat.succ_ne_zero k)]

/-- The loop over the matches ends, as the fold over them does. -/
theorem ends_tokens {α : Type} (put : α → List Str → α) (h : pos ≤ st.length) (a : α) :
    Ends (round (r.pull st) fun a line => .ok (put a line)) (pos, a)
      (.ok (pos + (r.tokens (cStr (st.drop pos))).2,
        (r.tokens (cStr (st.drop pos))).1.foldl put a)) :=
  (ends_round_ok_iff (r.pulls_tokens h)).mpr rfl

end MyRegex

namespace HTTPRequest

theorem parseURI_params {r : HTTPRequest} {qpos : Nat} (h : r.URI.idxOf? '?' = some qpos) :
    r.parseURI.params =
      (paramreg.tokens (cStr (r.URI.drop (qpos + 1)))).1.foldl putParam ∅ := by
  rw [parseURI, h]
  rfl

/-- **The loops of `Parse` stay in their strings and end**, whatever the object held: the parameter
loop, which also runs on the URI of an earlier request, and the header loop. -/
theorem loops_end (r : HTTPRequest) (st : Str) :
    let com := r.parseCommand st 0
    let hdr := com.2.parseHeaders st com.1
    (∀ qpos, com.2.URI.idxOf? '?' = some qpos →
      Advances (paramRound com.2.URI) com.2.URI (qpos + 1, ∅) ∧
        ∃ pos, Ends (paramRound com.2.URI) (qpos + 1, ∅) (.ok (pos, com.2.params))) ∧
    Advances (HTTP.headerRound st) st (com.1, ∅) ∧
    Ends (HTTP.headerRound st) (com.1, ∅) (.ok (hdr.1, hdr.2.headers)) ∧
    ∃ accepted q, r.parse st false = .ok (accepted, q) := by
  have hcom : (r.parseCommand st 0).1 ≤ st.length := by
    have hle := comreg.matchStr_le (st.drop 0)
    simpa [parseCommand] using hle
  refine ⟨fun qpos hq => ?_, headerreg.advances HTTP.putHeader hcom ∅,
    headerreg.ends_tokens HTTP.putHeader hcom ∅, _, _, r.parse_false st⟩
  obtain ⟨hlt, -⟩ := List.idxOf?_eq_some_iff.mp hq
  have hparams : (r.parseCommand st 0).2.params = (paramreg.tokens
      (cStr ((r.parseCommand st 0).2.URI.drop (qpos + 1)))).1.foldl putParam ∅ := by
    rw [parseCommand, parseURI_URI] at hq ⊢
    exact parseURI_params hq
  rw [hparams]
  exact ⟨paramreg.advances putParam hlt ∅, _, paramreg.ends_tokens putParam hlt ∅⟩

end HTTPRequest

end NetDJ.Daemon
