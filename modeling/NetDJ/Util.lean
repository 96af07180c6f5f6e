import NetDJ.Text
import NetDJ.Lib.Base64
import Mathlib.Tactic.Linarith

/-!
# `util.cc` and `util.cpp`: Base64

Both programs have the same `base64_decode`, which returns the decoded characters as a
`std::string` and as the Latin-1 characters of a `QString`. Its two tables are automatic arrays,
filled at the alphabet's positions only: what else they hold is the parameter `Tables`.

* `base64Decode` : the function;
* `base64Decode_digits` : on digits of the alphabet it computes `Base64.octets`;
* `base64Decode_encode` : it undoes the padded encoding, whatever the tables held;
* `base64Decode_congr` : on digits and `=` it does not depend on what the tables held.
-/

namespace NetDJ

/-- `alphabet[]`, with the NUL that ends the literal. -/
def alphabet : Str :=
  "ABCDEFGHIJKLMNOPQRSTUVWXYZabcdefghijklmnopqrstuvwxyz0123456789+/\x00".toList

/-- A `char` as an array index. It is signed: the codes from 128 on are negative. -/
def charIndex (c : Char) : Int := if c.toNat < 128 then c.toNat else (c.toNat : Int) - 256

/-- An `int` stored as a `char`. -/
def toChar (n : Int) : Char := Char.ofNat (n % 256).toNat

/-- `inalphabet` and `decoder`, with what lies around them in memory. -/
structure Tables where
  inalphabet : Int → Int
  decoder : Int → Int

def Tables.set (t : Tables) (c : Char × Nat) : Tables :=
  ⟨Function.update t.inalphabet (charIndex c.1) 1, Function.update t.decoder (charIndex c.1) c.2⟩

/-- The loop that fills the tables, from the last character of the alphabet to the first. -/
def Tables.fill (t : Tables) : Tables := alphabet.zipIdx.reverse.foldl Tables.set t

/-- `res`, `bits` and `char_count`. `bits` stays far below the range of `int`. -/
structure Decoder where
  res : Str
  bits : Int
  charCount : Nat

/-- The body of the loop. -/
def Decoder.put (t : Tables) (d : Decoder) (c : Char) : Decoder :=
  if t.inalphabet (charIndex c) = 0 then d
  else
    let bits := d.bits + t.decoder (charIndex c)
    if d.charCount + 1 = 4 then
      ⟨d.res ++ [toChar (bits / 2 ^ 16), toChar (bits / 2 ^ 8), toChar bits], 0, 0⟩
    else ⟨d.res, bits * 2 ^ 6, d.charCount + 1⟩

/-- The `switch` behind the loop. -/
def Decoder.finish (d : Decoder) : Str :=
  match d.charCount with
  | 2 => d.res ++ [toChar (d.bits / 2 ^ 10)]
  | 3 => d.res ++ [toChar (d.bits / 2 ^ 16), toChar (d.bits / 2 ^ 8)]
  | _ => d.res

/-- The characters the loop reads: up to the NUL or the first `=`. -/
def base64Text (str : Str) : Str := str.takeWhile fun c => c ≠ '\x00' ∧ c ≠ '='

def base64Decode (t : Tables) (str : Str) : Str :=
  ((base64Text str).foldl (Decoder.put t.fill) ⟨[], 0, 0⟩).finish

/-! ## The filled tables -/

def digit (n : Nat) : Char := alphabet.getD n '\x00'

def isDigit64 (c : Char) : Bool := (alphabet.take 64).contains c

theorem foldl_set_of_notMem (l : List (Char × Nat)) (t : Tables) (i : Int)
    (h : ∀ x ∈ l, charIndex x.1 ≠ i) :
    (l.foldl Tables.set t).inalphabet i = t.inalphabet i ∧
      (l.foldl Tables.set t).decoder i = t.decoder i := by
  induction l generalizing t with
  | nil => exact ⟨rfl, rfl⟩
  | cons x l ih =>
    have hx : i ≠ charIndex x.1 := (h x List.mem_cons_self).symm
    obtain ⟨h₁, h₂⟩ := ih (t.set x) fun y hy => h y (List.mem_cons_of_mem x hy)
    rw [List.foldl_cons, h₁, h₂]
    exact ⟨Function.update_of_ne hx _ _, Function.update_of_ne hx _ _⟩

theorem foldl_set_of_mem (l : List (Char × Nat)) (t : Tables)
    (h : (l.map fun x => charIndex x.1).Nodup) (x : Char × Nat) (hx : x ∈ l) :
    (l.foldl Tables.set t).inalphabet (charIndex x.1) = 1 ∧
      (l.foldl Tables.set t).decoder (charIndex x.1) = x.2 := by
  induction l generalizing t with
  | nil => exact absurd hx List.not_mem_nil
  | cons y l ih =>
    rw [List.map_cons, List.nodup_cons] at h
    rcases List.mem_cons.mp hx with rfl | hx
    · obtain ⟨h₁, h₂⟩ := foldl_set_of_notMem l (t.set x) (charIndex x.1) fun z hz hzx =>
        h.1 (List.mem_map.mpr ⟨z, hz, hzx⟩)
      rw [List.foldl_cons, h₁, h₂]
      exact ⟨Function.update_self _ _ _, Function.update_self _ _ _⟩
    · exact ih (t.set y) h.2 hx

theorem alphabet_indices_nodup :
    (alphabet.zipIdx.reverse.map fun x => charIndex x.1).Nodup := by decide +kernel

theorem fill_digit (t : Tables) {n : Nat} (hn : n < 64) :
    t.fill.inalphabet (charIndex (digit n)) = 1 ∧ t.fill.decoder (charIndex (digit n)) = n := by
  refine foldl_set_of_mem _ t alphabet_indices_nodup (digit n, n) ?_
  rw [List.mem_reverse, List.mem_zipIdx_iff_getElem?, digit, List.getD_eq_getElem?_getD]
  have hlen : n < alphabet.length := lt_of_lt_of_le hn (by decide)
  rw [List.getElem?_eq_getElem hlen, Option.getD_some]

theorem digit_ne : ∀ n < 64, digit n ≠ '\x00' ∧ digit n ≠ '=' := by decide +kernel

theorem exists_digit {c : Char} (h : isDigit64 c = true) : ∃ n < 64, digit n = c := by
  rw [isDigit64, List.contains_iff_mem, List.mem_take_iff_getElem] at h
  obtain ⟨n, hn, rfl⟩ := h
  refine ⟨n, lt_of_lt_of_le hn (Nat.min_le_left _ _), ?_⟩
  rw [digit, List.getD_eq_getElem?_getD, List.getElem?_eq_getElem]
  rfl

theorem exists_digits {s : Str} (h : ∀ c ∈ s, isDigit64 c = true) :
    ∃ ds : List Nat, (∀ d ∈ ds, d < 64) ∧ ds.map digit = s := by
  induction s with
  | nil => exact ⟨[], fun _ hd => absurd hd List.not_mem_nil, rfl⟩
  | cons c s ih =>
    obtain ⟨n, hn, hc⟩ := exists_digit (h c List.mem_cons_self)
    obtain ⟨ds, hds, hs⟩ := ih fun x hx => h x (List.mem_cons_of_mem c hx)
    refine ⟨n :: ds, fun d hd => ?_, by rw [List.map_cons, hc, hs]⟩
    rcases List.mem_cons.mp hd with rfl | hd
    · exact hn
    · exact hds d hd

/-! ## Decoding digits -/

/-- What a digit with the value `n` does. -/
def Decoder.add (d : Decoder) (n : Int) : Decoder :=
  let bits := d.bits + n
  if d.charCount + 1 = 4 then
    ⟨d.res ++ [toChar (bits / 2 ^ 16), toChar (bits / 2 ^ 8), toChar bits], 0, 0⟩
  else ⟨d.res, bits * 2 ^ 6, d.charCount + 1⟩

/-- The value of a character that the table takes for a digit. -/
def Tables.value (t : Tables) (c : Char) : Option Int :=
  if t.inalphabet (charIndex c) = 0 then none else some (t.decoder (charIndex c))

theorem put_eq (t : Tables) (d : Decoder) (c : Char) : d.put t c = (t.value c).elim d d.add := by
  unfold Decoder.put Tables.value
  split <;> rfl

theorem foldl_put (t : Tables) (s : Str) (d : Decoder) :
    s.foldl (Decoder.put t) d = (s.filterMap t.value).foldl Decoder.add d := by
  induction s generalizing d with
  | nil => rfl
  | cons c s ih =>
    rw [List.foldl_cons, put_eq, ih, List.filterMap_cons]
    cases t.value c <;> rfl

theorem value_digit (t : Tables) {n : Nat} (hn : n < 64) : t.fill.value (digit n) = some (n : Int) := by
  obtain ⟨h₁, h₂⟩ := fill_digit t hn
  rw [Tables.value, h₁, h₂, if_neg one_ne_zero]

theorem values_digits (t : Tables) {ds : List Nat} (h : ∀ d ∈ ds, d < 64) :
    (ds.map digit).filterMap t.fill.value = ds.map fun d : Nat => (d : Int) := by
  rw [List.filterMap_map, ← List.filterMap_eq_map]
  exact List.filterMap_congr fun d hd => value_digit t (h d hd)

theorem toChar_eq {x : Int} {n : Nat} (h : x % 256 = n) : toChar x = Char.ofNat n := by
  rw [toChar, h, Int.toNat_natCast]

theorem foldl_add_four (res : Str) {a b c d : Nat} (ha : a < 64) (hb : b < 64) (hc : c < 64)
    (hd : d < 64) : [(a : Int), b, c, d].foldl Decoder.add ⟨res, 0, 0⟩ =
      ⟨res ++ (Base64.octets [a, b, c, d]).map Char.ofNat, 0, 0⟩ := by
  simp only [List.foldl_cons, List.foldl_nil, Decoder.add, Nat.reduceAdd, Nat.reduceEqDiff,
    if_false, if_true, Base64.octets, List.map_cons, List.map_nil]
  rw [toChar_eq (n := a * 4 + b / 16) (by omega), toChar_eq (n := b % 16 * 16 + c / 4) (by omega),
    toChar_eq (n := c % 4 * 64 + d) (by omega)]

theorem foldl_add_groups {ds : List Nat} (hlen : 4 ∣ ds.length) (h : ∀ d ∈ ds, d < 64)
    (res : Str) : (ds.map fun d : Nat => (d : Int)).foldl Decoder.add ⟨res, 0, 0⟩ =
      ⟨res ++ (Base64.octets ds).map Char.ofNat, 0, 0⟩ := by
  revert h res
  refine Base64.groups_induction (P := fun ds => (∀ d ∈ ds, d < 64) → ∀ res : Str,
      (ds.map fun d : Nat => (d : Int)).foldl Decoder.add ⟨res, 0, 0⟩ =
        ⟨res ++ (Base64.octets ds).map Char.ofNat, 0, 0⟩)
    (fun _ res => by simp [Base64.octets]) (fun a b c d ds ih h res => ?_) ds hlen
  have hgroup := foldl_add_four res (h a (by simp)) (h b (by simp)) (h c (by simp))
    (h d (by simp))
  show (ds.map fun d : Nat => (d : Int)).foldl Decoder.add
    ([(a : Int), b, c, d].foldl Decoder.add ⟨res, 0, 0⟩) = _
  rw [hgroup, ih fun x hx => h x (by simp [hx])]
  simp [Base64.octets]

/-- The loop and the `switch`, started between two groups of four digits. -/
theorem foldl_add_digits : ∀ (ds : List Nat) (res : Str), (∀ d ∈ ds, d < 64) →
    ((ds.map fun d : Nat => (d : Int)).foldl Decoder.add ⟨res, 0, 0⟩).finish =
      res ++ (Base64.octets ds).map Char.ofNat
  | a :: b :: c :: d :: ds, res, h => by
    have hgroup := foldl_add_four res (h a (by simp)) (h b (by simp)) (h c (by simp))
      (h d (by simp))
    show ((ds.map fun d : Nat => (d : Int)).foldl Decoder.add
      ([(a : Int), b, c, d].foldl Decoder.add ⟨res, 0, 0⟩)).finish = _
    rw [hgroup, foldl_add_digits ds _ fun x hx => h x (by simp [hx])]
    simp [Base64.octets]
  | [a, b, c], res, h => by
    have ha := h a (by simp)
    have hb := h b (by simp)
    have hc := h c (by simp)
    simp only [List.map_cons, List.map_nil, List.foldl_cons, List.foldl_nil, Decoder.add,
      Nat.reduceAdd, Nat.reduceEqDiff, if_false, Base64.octets, Decoder.finish]
    rw [toChar_eq (n := a * 4 + b / 16) (by omega),
      toChar_eq (n := b % 16 * 16 + c / 4) (by omega)]
  | [a, b], res, h => by
    have ha := h a (by simp)
    have hb := h b (by simp)
    simp only [List.map_cons, List.map_nil, List.foldl_cons, List.foldl_nil, Decoder.add,
      Nat.reduceAdd, Nat.reduceEqDiff, if_false, Base64.octets, Decoder.finish]
    rw [toChar_eq (n := a * 4 + b / 16) (by omega)]
  | [a], res, _ => by simp [Decoder.add, Base64.octets, Decoder.finish]
  | [], res, _ => by simp [Base64.octets, Decoder.finish]

theorem foldl_put_digits (t : Tables) {ds : List Nat} (h : ∀ d ∈ ds, d < 64) :
    ((ds.map digit).foldl (Decoder.put t.fill) ⟨[], 0, 0⟩).finish =
      (Base64.octets ds).map Char.ofNat := by
  rw [foldl_put, values_digits t h, foldl_add_digits ds [] h, List.nil_append]

/-- The loop stops in front of a padding character and at the end of the text. -/
theorem base64Text_digits {ds : List Nat} (h : ∀ d ∈ ds, d < 64) (k : Nat) :
    base64Text (ds.map digit ++ List.replicate k '=') = ds.map digit := by
  have hpos : ∀ c ∈ ds.map digit, decide (c ≠ '\x00' ∧ c ≠ '=') = true := by
    intro c hc
    obtain ⟨d, hd, rfl⟩ := List.mem_map.mp hc
    exact decide_eq_true (digit_ne d (h d hd))
  rw [base64Text, List.takeWhile_append_of_pos hpos]
  cases k with
  | zero => simp
  | succ k => simp [List.replicate_succ]

theorem base64Decode_digits (t : Tables) {ds : List Nat} (h : ∀ d ∈ ds, d < 64) (k : Nat) :
    base64Decode t (ds.map digit ++ List.replicate k '=') = (Base64.octets ds).map Char.ofNat := by
  rw [base64Decode, base64Text_digits h, foldl_put_digits t h]

/-- **Decoding undoes the padded encoding**, whatever the tables held. -/
theorem base64Decode_encode (t : Tables) {bs : List Nat} (h : ∀ b ∈ bs, b < 256) :
    base64Decode t (Base64.encode digit '=' bs) = bs.map Char.ofNat := by
  rw [Base64.encode, base64Decode_digits t (Base64.sextets_lt bs h), Base64.octets_sextets bs h]

/-- On digits and `=` nothing is read that was not filled in. -/
theorem base64Decode_congr (t t' : Tables) {str : Str}
    (h : ∀ c ∈ str, isDigit64 c = true ∨ c = '=') : base64Decode t str = base64Decode t' str := by
  have hdigits : ∀ c ∈ base64Text str, isDigit64 c = true := by
    intro c hc
    have hne : c ≠ '\x00' ∧ c ≠ '=' := by simpa using List.mem_takeWhile_imp hc
    exact (h c ((List.takeWhile_sublist _).subset hc)).resolve_right hne.2
  obtain ⟨ds, hds, heq⟩ := exists_digits hdigits
  rw [base64Decode, base64Decode, ← heq, foldl_put_digits t hds, foldl_put_digits t' hds]

end NetDJ
