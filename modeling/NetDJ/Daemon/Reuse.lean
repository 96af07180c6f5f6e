import NetDJ.Lib.Machine
import NetDJ.Daemon.HTTPResponse

/-!
# A response object that is used again and again

`http_thread` keeps its response objects and builds a packet from them for one client after the
other.

* `Reused.step` : the setters and `CreatePacket` on one object, with what they were given last;
* `Sends` : the packet that is built is the one that was asked for;
* `Kept` : no call has spoilt the object;
* `Tracks.sends_iff` : what one packet depends on;
* `packets_sent_iff` : all packets of a run.
-/

namespace NetDJ.Daemon

structure Given where
  version : Str
  status : Int
  description : Str
  headers : StdMap Str Str
  body : Str
  /-- The status that was set after the version. -/
  replaced : Option Int
  /-- A packet with a body has been built. -/
  sized : Bool

def contentLength : Str := "Content-Length".toList

namespace Given

def line (g : Given) : Str :=
  'H' :: 'T' :: 'T' :: 'P' :: '/' ::
    (g.version ++ ' ' :: (decimal g.status ++ ' ' :: (g.description ++ crlf)))

/-- The headers that the calls ask for: the length of the body unless it is empty. -/
def header (g : Given) (name : Str) : Option Str :=
  if name = contentLength then if g.body = [] then none else some (decimal g.body.length)
  else g.headers.lookup name

/-- Nothing has spoilt the object, which was built with the status `built`: a status that was set
is that one and has left the version as it was, the status fits its buffer, and no length is left
over from a body. -/
structure Kept (built : Int) (g : Given) : Prop where
  version : ∀ i, g.replaced = some i → g.version = [toChar i]
  status : g.status = built
  fits : (decimal built).length < tmpstat
  length : g.sized = true → g.body ≠ []

end Given

/-- The object, and what it was given. -/
structure Reused where
  obj : HTTPResponse
  given : Given

namespace Reused

inductive Act where
  | setVersion (st : Str)
  | setStatus (i : Int)
  | setDescription (st : Str)
  | setHeader (hdr val : Str)
  | setBody (str : Str)
  | clearBody
  | createPacket

/-- `Content-Length` is not set by hand, and bodies are below 10^9 bytes. -/
def Act.Fair : Act → Prop
  | setHeader hdr _ => hdr ≠ contentLength
  | setBody str => str.length < 10 ^ 9
  | _ => True

def step (s : Reused) : Act → Option Reused
  | .setVersion st =>
    some ⟨s.obj.setVersion st, { s.given with version := st, replaced := none }⟩
  | .setStatus i => some ⟨s.obj.setStatus i, { s.given with status := i, replaced := some i }⟩
  | .setDescription st => some ⟨s.obj.setDescription st, { s.given with description := st }⟩
  | .setHeader hdr val =>
    some ⟨{ s.obj with toHTTP := s.obj.toHTTP.setHeader hdr val },
      { s.given with headers := s.given.headers.insert hdr val }⟩
  | .setBody str =>
    some ⟨{ s.obj with toHTTP := s.obj.toHTTP.setBody str }, { s.given with body := str }⟩
  | .clearBody =>
    some ⟨{ s.obj with toHTTP := s.obj.toHTTP.clearBody }, { s.given with body := [] }⟩
  | .createPacket =>
    match s.obj.createPacket with
    | .ok p => some ⟨p, { s.given with sized := s.given.sized || !s.given.body.isEmpty }⟩
    | .error _ => none

/-- An object as a constructor leaves it. -/
def Constructed (r : HTTPResponse) : Prop :=
  ∃ PKGVER, r = .new PKGVER ∨ ∃ _status cont_type, r = .ofStatus PKGVER _status cont_type

def start (r : HTTPResponse) : Reused :=
  ⟨r, ⟨r.version, r.status, r.description, r.headers, r.body, none, false⟩⟩

/-- `CreatePacket` builds the packet that the calls ask for. -/
def Sends (s : Reused) : Prop :=
  ∃ p, s.obj.createPacket = .ok p ∧ (∀ name, p.getHeader name = s.given.header name) ∧
    p.packet = s.given.line ++ p.headers.sorted.flatMap headerText ++ crlf ++ s.given.body

/-! ## The object and what it was given -/

/-- The object follows what it was given, but for the status, which stays that of the constructor
and takes the place of the version, and for a length that stays. -/
structure Tracks (built : Int) (s : Reused) : Prop where
  version : s.obj.version = s.given.replaced.elim s.given.version fun i => [toChar i]
  status : s.obj.status = built
  description : s.obj.description = s.given.description
  headers : ∀ name, name ≠ contentLength → s.obj.getHeader name = s.given.headers.lookup name
  length : (s.obj.getHeader contentLength).isSome = s.given.sized
  body : s.obj.body = s.given.body
  small : s.given.body.length < 10 ^ 9

theorem tracks_start {r : HTTPResponse} (hr : Constructed r) : Tracks r.status (start r) := by
  have hserver : contentLength ≠ "Server".toList := by decide
  have htype : contentLength ≠ "Content-Type".toList := by decide
  have hnew : ∀ PKGVER, (HTTPResponse.new PKGVER).getHeader contentLength = none := fun PKGVER =>
    (AList.lookup_insert_ne hserver).trans (AList.lookup_empty _)
  obtain ⟨hnone, hbody⟩ : r.getHeader contentLength = none ∧ r.body = [] := by
    obtain ⟨PKGVER, rfl | ⟨_status, cont_type, rfl⟩⟩ := hr
    · exact ⟨hnew PKGVER, rfl⟩
    · unfold HTTPResponse.ofStatus
      split
      · exact ⟨hnew PKGVER, rfl⟩
      · exact ⟨(AList.lookup_insert_ne htype).trans (hnew PKGVER), rfl⟩
  refine ⟨rfl, rfl, rfl, fun _ _ => rfl, ?_, rfl, ?_⟩
  · show (r.getHeader contentLength).isSome = false
    rw [hnone]
    rfl
  · show r.body.length < 10 ^ 9
    rw [hbody]
    decide

theorem withLength_of_small {h : HTTP} (hsmall : h.body.length < 10 ^ 9) :
    h.withLength = .ok (if h.body = [] then h.headers
      else h.headers.insert contentLength (decimal h.body.length)) := by
  have hint : (BitVec.ofNat 32 h.body.length).toInt = h.body.length := by
    rw [BitVec.toInt_eq_toNat_of_lt] <;> simp <;> omega
  have hfits : (decimal h.body.length).length < tmplen :=
    Nat.lt_succ_of_le (length_decimal_le (by decide) hsmall)
  unfold HTTP.withLength
  split
  · rfl
  · rw [hint, sprintf_eq_ok.mpr ⟨hfits, rfl⟩]
    rfl

theorem Tracks.step {built : Int} {s s' : Reused} {a : Act} (ha : a.Fair) (hs : Tracks built s)
    (h : s.step a = some s') : Tracks built s' := by
  cases a with
  | setVersion st =>
    cases h
    exact { hs with version := rfl }
  | setStatus i =>
    cases h
    exact { hs with version := rfl }
  | setDescription st =>
    cases h
    exact { hs with description := rfl }
  | setHeader hdr val =>
    cases h
    refine { hs with headers := fun name hname => ?_, length := ?_ }
    · show (s.obj.headers.insert hdr val).lookup name = (s.given.headers.insert hdr val).lookup name
      by_cases hn : name = hdr
      · rw [hn, AList.lookup_insert, AList.lookup_insert]
      · rw [AList.lookup_insert_ne hn, AList.lookup_insert_ne hn]
        exact hs.headers name hname
    · rw [← hs.length]
      exact congrArg _ (AList.lookup_insert_ne (Ne.symm ha))
  | setBody str =>
    cases h
    exact { hs with body := rfl, small := ha }
  | clearBody =>
    cases h
    exact { hs with body := rfl, small := Nat.pow_pos (by decide) }
  | createPacket =>
    cases hp : s.obj.createPacket with
    | error e =>
      rw [Reused.step, hp] at h
      cases h
    | ok p =>
      rw [Reused.step, hp] at h
      cases h
      obtain ⟨-, headers, hlen, rfl⟩ := HTTPResponse.createPacket_eq_ok.mp hp
      rw [withLength_of_small (hs.body ▸ hs.small), hs.body] at hlen
      obtain rfl := Except.ok.inj hlen
      refine { hs with headers := fun name hname => ?_, length := ?_ }
      · rw [← hs.headers name hname, HTTP.getHeader]
        dsimp only
        split
        · rfl
        · exact AList.lookup_insert_ne hname
      · rw [HTTP.getHeader]
        dsimp only
        split
        · next hb =>
          rw [hb, List.isEmpty_nil, Bool.not_true, Bool.or_false]
          exact hs.length
        · next hb => simp [hb]

theorem line_inj {v v' : Str} {i j : Int} (h : v ++ ' ' :: decimal i = v' ++ ' ' :: decimal j) :
    v = v' ∧ i = j := by
  have hspace : ∀ n, ' ' ∉ (decimal n).reverse := fun n hn =>
    absurd (mem_decimal (List.mem_reverse.mp hn)) (by decide)
  have h := congrArg List.reverse h
  simp only [List.reverse_append, List.reverse_cons, List.append_assoc, List.cons_append,
    List.nil_append] at h
  obtain ⟨hdec, hv⟩ := stops_but.unique stops_but (but_iff.mpr (hspace i)) (but_iff.mpr (hspace j)) h
  exact ⟨List.reverse_inj.mp (List.cons.inj hv).2, decimal_inj (List.reverse_inj.mp hdec)⟩

/-- The first line is the one that was asked for if the version and the status are. -/
theorem Tracks.line_iff {built : Int} {s : Reused} (hs : Tracks built s) :
    s.obj.commandText (decimal s.obj.status) = s.given.line ↔
      (∀ i, s.given.replaced = some i → s.given.version = [toChar i]) ∧ s.given.status = built := by
  constructor
  · intro h
    have hline : s.obj.version ++ ' ' :: decimal s.obj.status =
        s.given.version ++ ' ' :: decimal s.given.status := by
      refine @List.append_cancel_right _ _ (' ' :: (s.given.description ++ crlf)) _ ?_
      simpa [HTTPResponse.commandText, Given.line, hs.description] using h
    obtain ⟨hversion, hstatus⟩ := line_inj hline
    refine ⟨fun i hi => ?_, hstatus.symm.trans hs.status⟩
    rw [← hversion, hs.version, hi]
    rfl
  · rintro ⟨hversion, hstatus⟩
    have hv : s.obj.version = s.given.version := by
      rw [hs.version]
      cases hi : s.given.replaced with
      | none => rfl
      | some i => exact (hversion i hi).symm
    rw [HTTPResponse.commandText, Given.line, hv, hs.description, hstatus, hs.status]

/-- The headers are those that were asked for unless an empty body finds a length. -/
theorem Tracks.headers_iff {built : Int} {s : Reused} (hs : Tracks built s) {headers : StdMap Str Str}
    (h : s.obj.toHTTP.withLength = .ok headers) :
    (∀ name, headers.lookup name = s.given.header name) ↔
      (s.given.sized = true → s.given.body ≠ []) := by
  rw [withLength_of_small (hs.body ▸ hs.small)] at h
  obtain rfl := Except.ok.inj h
  rw [hs.body]
  constructor
  · intro hheader hsized hbody
    have hnone := hheader contentLength
    rw [if_pos hbody, Given.header, if_pos rfl, if_pos hbody] at hnone
    have hlen : s.obj.getHeader contentLength = none := hnone
    rw [← hs.length, hlen] at hsized
    cases hsized
  · intro hsized name
    rw [Given.header]
    by_cases hname : name = contentLength
    · rw [if_pos hname, hname]
      split
      · next hb =>
        have hlen := hs.length
        rw [Bool.eq_false_iff.mpr fun h => hsized h hb] at hlen
        exact Option.not_isSome_iff_eq_none.mp (Bool.eq_false_iff.mp hlen)
      · exact AList.lookup_insert _
    · rw [if_neg hname, ← hs.headers name hname]
      split
      · rfl
      · exact AList.lookup_insert_ne hname

/-- **The packet is the one that was asked for exactly if nothing has spoilt the object.** -/
theorem Tracks.sends_iff {built : Int} {s : Reused} (hs : Tracks built s) :
    s.Sends ↔ s.given.Kept built := by
  constructor
  · rintro ⟨p, hp, hheader, hpacket⟩
    obtain ⟨hfits, headers, hlen, rfl⟩ := HTTPResponse.createPacket_eq_ok.mp hp
    dsimp only at hpacket
    rw [hs.body, List.append_left_inj, List.append_left_inj, List.append_left_inj] at hpacket
    obtain ⟨hversion, hstatus⟩ := hs.line_iff.mp hpacket
    exact ⟨hversion, hstatus, hs.status ▸ hfits, (hs.headers_iff hlen).mp hheader⟩
  · rintro ⟨hversion, hstatus, hfits, hsized⟩
    have hlen := withLength_of_small (h := s.obj.toHTTP) (hs.body ▸ hs.small)
    refine ⟨_, HTTPResponse.createPacket_eq_ok.mpr ⟨hs.status ▸ hfits, _, hlen, rfl⟩,
      (hs.headers_iff hlen).mpr hsized, ?_⟩
    dsimp only
    rw [hs.line_iff.mpr ⟨hversion, hstatus⟩, hs.body]

/-- **A run sends the packets that were asked for exactly if nothing has spoilt the object when a
packet is built.** -/
theorem packets_sent_iff {r : HTTPResponse} (hr : Constructed r) {acts : List Act}
    (hacts : ∀ a ∈ acts, a.Fair) :
    (∀ t, Machine.Takes step (start r) acts t .createPacket → t.Sends) ↔
      ∀ t, Machine.Takes step (start r) acts t .createPacket → t.given.Kept r.status := by
  refine forall_congr' fun t => imp_congr_right fun ht => ?_
  exact (Machine.takes_invariant (fun _ _ _ ha hs hstep => hs.step ha hstep) hacts
    (tracks_start hr) ht).sends_iff

/-- A page that is sent once. -/
theorem okAnswer_sent : ∃ t, Machine.Takes step (start HTTPResponse.okAnswer)
    [.setBody ['a'], .createPacket] t .createPacket ∧ t.Sends := by
  have hfair : ∀ a ∈ [Act.setBody ['a'], .createPacket], a.Fair := by
    simp [Act.Fair]
  refine ⟨_, ⟨[.setBody ['a']], [], rfl, rfl⟩,
    (packets_sent_iff ⟨"x".toList, .inr ⟨200, [], rfl⟩⟩ hfair).mpr ?_ _
      ⟨[.setBody ['a']], [], rfl, rfl⟩⟩
  intro t ht
  simp only [Machine.takes_cons, Machine.not_takes_nil, reduceCtorEq, and_false, false_or,
    and_true] at ht
  obtain ⟨s', hs, rfl | ⟨_, -, ⟨⟩⟩⟩ := ht
  cases hs
  exact ⟨nofun, rfl, by decide, nofun⟩

/-- The length of the first page stays when the second one is empty. -/
theorem length_stays : ¬ ∀ t, Machine.Takes step (start HTTPResponse.okAnswer)
    [.setBody ['a'], .createPacket, .setBody [], .createPacket] t .createPacket → t.Sends := by
  intro h
  obtain ⟨p, hp, hheader, -⟩ := h _ ⟨[.setBody ['a'], .createPacket, .setBody []], [], rfl, rfl⟩
  obtain rfl := Except.ok.inj hp
  exact absurd (hheader contentLength) (by decide)

end Reused

end NetDJ.Daemon
