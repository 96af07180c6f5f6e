import NetDJ.Util

/-!
# `base64_decode` on encodings and on any text

* `Bounded` : `bits` stays below 2^24;
* `base64Decode_undoes` : decoding undoes encoding, with and without the padding, and is bounded;
* `Defined` : the call reads nothing but what was filled in, as far as its result shows;
* `Readable`, `defined_iff` : the texts for which that is so.
-/

namespace NetDJ

/-! ## The accumulator -/

def decoding (t : Tables) (s : Str) : Decoder := s.foldl (Decoder.put t.fill) ⟨[], 0, 0⟩

/-- `bits` stays below 2^24, behind each character and when a digit has been added. -/
def Bounded (t : Tables) (text : Str) : Prop :=
  ∀ s, s <+: text → (0 ≤ (decoding t s).bits ∧ (decoding t s).bits < 2 ^ 24) ∧
    ∀ c n, s ++ [c] <+: text → t.fill.value c = some n →
      0 ≤ (decoding t s).bits + n ∧ (decoding t s).bits + n < 2 ^ 24

/-- `bits` holds the digits since the last group, with room for one more. -/
structure Decoder.Fits (d : Decoder) : Prop where
  count : d.charCount < 4
  nonneg : 0 ≤ d.bits
  below : d.bits + 64 ≤ 64 ^ (d.charCount + 1)

namespace Decoder.Fits

theorem group (res : Str) : Decoder.Fits ⟨res, 0, 0⟩ :=
  ⟨Nat.zero_lt_succ _, le_rfl, by simp⟩

variable {d : Decoder} (hd : d.Fits)
include hd

theorem add_lt {n : Nat} (hn : n < 64) : d.bits + n < 2 ^ 24 := by
  have hpow : (64 : Int) ^ (d.charCount + 1) ≤ 64 ^ 4 :=
    pow_le_pow_right₀ (by decide) hd.count
  have := hd.below
  omega

theorem add {n : Nat} (hn : n < 64) : (d.add n).Fits := by
  obtain ⟨hcount, hnonneg, hbelow⟩ := hd
  unfold Decoder.add
  dsimp only
  split
  · exact group _
  · refine ⟨by dsimp only; omega, by dsimp only; omega, ?_⟩
    dsimp only
    rw [pow_succ]
    omega

end Decoder.Fits

theorem fits_decoding (t : Tables) {s : Str} (h : ∀ c ∈ s, isDigit64 c = true) :
    (decoding t s).Fits := by
  obtain ⟨ds, hds, rfl⟩ := exists_digits h
  rw [decoding, foldl_put, values_digits t hds]
  have hall : ∀ (ds : List Nat) (d : Decoder), (∀ n ∈ ds, n < 64) → d.Fits →
      ((ds.map fun d : Nat => (d : Int)).foldl Decoder.add d).Fits := by
    intro ds
    induction ds with
    | nil => exact fun _ _ hd => hd
    | cons n ds ih =>
      intro d hds hd
      obtain ⟨hn, hds⟩ := List.forall_mem_cons.mp hds
      exact ih _ hds (hd.add hn)
  exact hall ds _ hds (.group [])

theorem bounded_digits (t : Tables) {text : Str} (h : ∀ c ∈ text, isDigit64 c = true) :
    Bounded t text := by
  intro s hs
  have hfits := fits_decoding t fun c hc => h c (hs.subset hc)
  have hnonneg := hfits.nonneg
  refine ⟨⟨hnonneg, ?_⟩, fun c n hc hvalue => ?_⟩
  · simpa using hfits.add_lt (n := 0) (by decide)
  · obtain ⟨m, hm, rfl⟩ := exists_digit (h c (hc.subset (by simp)))
    rw [value_digit t hm] at hvalue
    obtain rfl := Option.some.inj hvalue
    exact ⟨by omega, hfits.add_lt hm⟩

theorem isDigit64_digit : ∀ n < 64, isDigit64 (digit n) = true := by decide +kernel

/-- **Decoding undoes encoding**, with and without the padding, and is bounded meanwhile. -/
theorem base64Decode_undoes (t : Tables) {bs : List Nat} (h : ∀ b ∈ bs, b < 256) {str : Str}
    (hstr : str = Base64.encode digit '=' bs ∨ str = (Base64.sextets bs).map digit) :
    base64Decode t str = bs.map Char.ofNat ∧ Bounded t (base64Text str) := by
  have hlt := Base64.sextets_lt bs h
  obtain ⟨k, rfl⟩ : ∃ k, str = (Base64.sextets bs).map digit ++ List.replicate k '=' := by
    rcases hstr with rfl | rfl
    · exact ⟨_, rfl⟩
    · exact ⟨0, (List.append_nil _).symm⟩
  rw [base64Decode_digits t hlt, Base64.octets_sextets bs h, base64Text_digits hlt]
  refine ⟨rfl, bounded_digits t fun c hc => ?_⟩
  obtain ⟨n, hn, rfl⟩ := List.mem_map.mp hc
  exact isDigit64_digit n (hlt n hn)

/-- Two bytes, of which one is 0, without the padding. -/
theorem base64Decode_two :
    base64Decode ⟨fun _ => 0, fun _ => 0⟩ "AP8".toList = [Char.ofNat 0, Char.ofNat 255] :=
  (@base64Decode_undoes _ [0, 255] (by decide) _ (.inr (by decide))).1

/-! ## Any text -/

/-- What an array of `char`s can hold. -/
def Tables.Chars (t : Tables) : Prop :=
  ∀ i, (-128 ≤ t.inalphabet i ∧ t.inalphabet i < 128) ∧ -128 ≤ t.decoder i ∧ t.decoder i < 128

/-- The values of the digits in a text, all other characters being skipped. -/
def digitValues (s : Str) : List Nat := (s.filter isDigit64).map alphabet.idxOf

/-- The call stays inside its tables, and its result is that of the digits, whatever the tables
held. -/
structure Defined (str : Str) : Prop where
  index : ∀ c ∈ base64Text str, 0 ≤ charIndex c ∧ charIndex c ≤ 255
  independent : ∀ t t' : Tables, t.Chars → t'.Chars → base64Decode t str = base64Decode t' str
  decoded : ∀ t : Tables, t.Chars →
    base64Decode t str = (Base64.octets (digitValues (base64Text str))).map Char.ofNat

/-- What the loop reads are characters below 128, of which the last one may be no digit if it stands
behind complete groups. -/
structure Readable (str : Str) : Prop where
  ascii : ∀ c ∈ base64Text str, c.toNat < 128
  digits : ∃ s last, base64Text str = s ++ last ∧ (∀ c ∈ s, isDigit64 c = true) ∧
    (last = [] ∨ last.length = 1 ∧ 4 ∣ s.length)

/-! ### The values of the characters -/

theorem idxOf_digit : ∀ n < 64, alphabet.idxOf (digit n) = n := by decide +kernel

theorem ascii_alphabet : ∀ c ∈ alphabet, c.toNat < 128 := by decide +kernel

theorem isDigit64_of_mem_alphabet : ∀ c ∈ alphabet, c = '\x00' ∨ isDigit64 c = true := by
  decide +kernel

theorem idxOf_lt {c : Char} (h : isDigit64 c = true) : alphabet.idxOf c < 64 := by
  obtain ⟨n, hn, rfl⟩ := exists_digit h
  rwa [idxOf_digit n hn]

theorem digit_idxOf {c : Char} (h : isDigit64 c = true) : digit (alphabet.idxOf c) = c := by
  obtain ⟨n, hn, rfl⟩ := exists_digit h
  rw [idxOf_digit n hn]

theorem value_of_digit (t : Tables) {c : Char} (h : isDigit64 c = true) :
    t.fill.value c = some (alphabet.idxOf c : Int) := by
  conv_lhs => rw [← digit_idxOf h]
  exact value_digit t (idxOf_lt h)

/-- A byte has the index of a character of the alphabet only if it is that character. -/
theorem charIndex_inj {c c' : Char} (hc : c.toNat < 256) (hc' : c'.toNat < 128)
    (h : charIndex c = charIndex c') : c = c' := by
  unfold charIndex at h
  rw [if_pos hc'] at h
  refine Char.toNat_inj.mp ?_
  split at h <;> omega

/-- A byte that is no digit has the value that the table happened to hold. -/
theorem value_of_not_digit (t : Tables) {c : Char} (hbyte : c.toNat < 256) (hnul : c ≠ '\x00')
    (h : isDigit64 c = false) : t.fill.value c = t.value c := by
  have hne : ∀ x ∈ alphabet.zipIdx.reverse, charIndex x.1 ≠ charIndex c := by
    intro x hx he
    have hmem : x.1 ∈ alphabet := List.fst_mem_of_mem_zipIdx (List.mem_reverse.mp hx)
    obtain rfl := charIndex_inj hbyte (ascii_alphabet _ hmem) he.symm
    rcases isDigit64_of_mem_alphabet _ hmem with hx | hx
    · exact hnul hx
    · rw [hx] at h
      cases h
  obtain ⟨h₁, h₂⟩ := foldl_set_of_notMem _ t _ hne
  rw [Tables.value, Tables.value, Tables.fill, h₁, h₂]

theorem digitValues_append (s s' : Str) :
    digitValues (s ++ s') = digitValues s ++ digitValues s' := by
  simp [digitValues]

theorem digitValues_lt (s : Str) : ∀ d ∈ digitValues s, d < 64 := by
  intro d hd
  obtain ⟨c, hc, rfl⟩ := List.mem_map.mp hd
  exact idxOf_lt (List.mem_filter.mp hc).2

theorem length_digitValues {s : Str} (h : ∀ c ∈ s, isDigit64 c = true) :
    (digitValues s).length = s.length := by
  rw [digitValues, List.length_map, List.filter_eq_self.mpr h]

theorem values_of_digits (t : Tables) {s : Str} (h : ∀ c ∈ s, isDigit64 c = true) :
    s.filterMap t.fill.value = (digitValues s).map fun d : Nat => (d : Int) := by
  rw [digitValues, List.filter_eq_self.mpr h, List.map_map, ← List.filterMap_eq_map]
  exact List.filterMap_congr fun c hc => value_of_digit t (h c hc)

/-! ### Texts that are read as they should be -/

theorem base64Decode_of_digits (t : Tables) {str : Str}
    (h : ∀ c ∈ base64Text str, isDigit64 c = true) :
    base64Decode t str = (Base64.octets (digitValues (base64Text str))).map Char.ofNat := by
  rw [base64Decode, foldl_put, values_of_digits t h, foldl_add_digits _ _ (digitValues_lt _),
    List.nil_append]

/-- A character behind complete groups leaves the result as it is, whatever its value. -/
theorem base64Decode_of_last (t : Tables) {str s : Str} {c : Char}
    (htext : base64Text str = s ++ [c]) (h : ∀ c ∈ s, isDigit64 c = true) (hlen : 4 ∣ s.length) :
    base64Decode t str = (Base64.octets (digitValues (base64Text str))).map Char.ofNat := by
  have hgroups : 4 ∣ (digitValues s).length := by rwa [length_digitValues h]
  have hoctets : Base64.octets (digitValues (s ++ [c])) = Base64.octets (digitValues s) := by
    rw [digitValues_append, Base64.octets_append hgroups]
    cases hc : isDigit64 c <;> simp [digitValues, hc, Base64.octets]
  rw [base64Decode, htext, hoctets, List.foldl_append, foldl_put t.fill s, values_of_digits t h,
    foldl_add_groups hgroups (digitValues_lt s), List.foldl_cons, List.foldl_nil, put_eq]
  cases t.fill.value c <;> rfl

theorem Readable.defined {str : Str} (h : Readable str) : Defined str := by
  have hdecoded : ∀ t, base64Decode t str =
      (Base64.octets (digitValues (base64Text str))).map Char.ofNat := by
    intro t
    obtain ⟨s, last, htext, hs, rfl | ⟨hlast, hlen⟩⟩ := h.digits
    · rw [List.append_nil] at htext
      exact base64Decode_of_digits t (htext ▸ hs)
    · obtain ⟨c, rfl⟩ := List.length_eq_one_iff.mp hlast
      exact base64Decode_of_last t htext hs hlen
  refine ⟨fun c hc => ?_, fun t t' _ _ => (hdecoded t).trans (hdecoded t').symm,
    fun t _ => hdecoded t⟩
  have := h.ascii c hc
  rw [charIndex, if_pos this]
  omega

/-! ### Texts that are not -/

def counting (v : Int) : Tables := ⟨fun _ => 1, fun _ => v⟩

theorem chars_counting {v : Nat} (hv : v < 64) : (counting v).Chars := fun _ => by
  dsimp only [counting]
  omega

/-- The value of a character under such tables. -/
def countedValue (v : Nat) (c : Char) : Nat := if isDigit64 c then alphabet.idxOf c else v

theorem countedValue_lt {v : Nat} (hv : v < 64) (c : Char) : countedValue v c < 64 := by
  unfold countedValue
  split
  · next h => exact idxOf_lt h
  · exact hv

theorem base64Decode_counting {v : Nat} (hv : v < 64) {str : Str}
    (hbytes : ∀ c ∈ str, c.toNat < 256) : base64Decode (counting v) str =
      (Base64.octets ((base64Text str).map (countedValue v))).map Char.ofNat := by
  have hvalue : ∀ c ∈ base64Text str,
      (counting v).fill.value c = some (countedValue v c : Int) := by
    intro c hc
    have hbyte := hbytes c ((List.takeWhile_sublist _).subset hc)
    have hnul : c ≠ '\x00' ∧ c ≠ '=' := by simpa using List.mem_takeWhile_imp hc
    unfold countedValue
    cases h : isDigit64 c with
    | true => exact value_of_digit _ h
    | false => exact value_of_not_digit _ hbyte hnul.1 h
  have hvalues : (base64Text str).filterMap (counting v).fill.value =
      ((base64Text str).map (countedValue v)).map fun d : Nat => (d : Int) := by
    rw [List.map_map, ← List.filterMap_eq_map]
    exact List.filterMap_congr hvalue
  rw [base64Decode, foldl_put, hvalues, foldl_add_digits, List.nil_append]
  intro d hd
  obtain ⟨c, -, rfl⟩ := List.mem_map.mp hd
  exact countedValue_lt hv c

theorem map_ofNat_inj {bs bs' : List Nat} (h : ∀ b ∈ bs, b < 256) (h' : ∀ b ∈ bs', b < 256)
    (he : bs.map Char.ofNat = bs'.map Char.ofNat) : bs = bs' := by
  have hbyte : ∀ b < 256, (Char.ofNat b).toNat = b := by decide +kernel
  have hback : ∀ {bs : List Nat}, (∀ b ∈ bs, b < 256) →
      (bs.map Char.ofNat).map Char.toNat = bs := by
    intro bs hbs
    rw [List.map_map]
    exact (List.map_congr_left fun b hb => hbyte b (hbs b hb)).trans (List.map_id bs)
  rw [← hback h, he, hback h']

section Defined
variable {str : Str} (hbytes : ∀ c ∈ str, c.toNat < 256) (h : Defined str)
include hbytes h

/-- The characters that are no digits count for nothing. -/
theorem octets_countedValue {v : Nat} (hv : v < 64) :
    Base64.octets ((base64Text str).map (countedValue v)) =
      Base64.octets (digitValues (base64Text str)) := by
  have hdecoded := h.decoded (counting v) (chars_counting hv)
  rw [base64Decode_counting hv hbytes] at hdecoded
  refine map_ofNat_inj (Base64.octets_lt _ fun d hd => ?_)
    (Base64.octets_lt _ (digitValues_lt _)) hdecoded
  obtain ⟨c, -, rfl⟩ := List.mem_map.mp hd
  exact countedValue_lt hv c

theorem length_base64Text : (base64Text str).length = (digitValues (base64Text str)).length ∨
    (base64Text str).length = (digitValues (base64Text str)).length + 1 ∧
      4 ∣ (digitValues (base64Text str)).length := by
  have hle : (digitValues (base64Text str)).length ≤ (base64Text str).length := by
    rw [digitValues, List.length_map]
    exact List.length_filter_le _ _
  have hlen := congrArg List.length (octets_countedValue hbytes h (v := 0) (by decide))
  rw [Base64.length_octets, Base64.length_octets, List.length_map] at hlen
  set k := (digitValues (base64Text str)).length
  rcases Nat.eq_or_lt_of_le hle with heq | hlt
  · exact .inl heq.symm
  · exact .inr ⟨by omega, k - 3 * k / 4, by omega⟩

/-- The character that is no digit is the last one: in front of it, its value would be decoded. -/
theorem isDigit64_of_defined {s : Str} {c : Char} (htext : base64Text str = s ++ [c])
    (hlen : 4 ∣ s.length) : ∀ c ∈ s, isDigit64 c = true := by
  have hoctets : ∀ v, Base64.octets ((s ++ [c]).map (countedValue v)) =
      Base64.octets (s.map (countedValue v)) := by
    intro v
    rw [List.map_append, Base64.octets_append (by rwa [List.length_map])]
    simp [Base64.octets]
  have hsextets : ∀ v < 64, Base64.sextets (Base64.octets (digitValues (base64Text str))) =
      s.map (countedValue v) := by
    intro v hv
    rw [← octets_countedValue hbytes h hv, htext, hoctets]
    refine Base64.sextets_octets (by rwa [List.length_map]) fun d hd => ?_
    obtain ⟨x, -, rfl⟩ := List.mem_map.mp hd
    exact countedValue_lt hv x
  intro x hx
  have hsame := List.map_inj_left.mp
    ((hsextets 0 (by decide)).symm.trans (hsextets 1 (by decide))) x hx
  unfold countedValue at hsame
  by_contra hdigit
  rw [if_neg hdigit, if_neg hdigit] at hsame
  cases hsame

theorem Defined.readable : Readable str := by
  refine ⟨fun c hc => ?_, ?_⟩
  · have hindex := (h.index c hc).1
    have hbyte := hbytes c ((List.takeWhile_sublist _).subset hc)
    unfold charIndex at hindex
    split at hindex
    · assumption
    · omega
  · rcases length_base64Text hbytes h with hlen | ⟨hlen, hgroups⟩
    · refine ⟨base64Text str, [], (List.append_nil _).symm, ?_, .inl rfl⟩
      rw [digitValues, List.length_map] at hlen
      exact List.length_filter_eq_length_iff.mp hlen.symm
    · obtain htext | ⟨s, c, htext⟩ := List.eq_nil_or_concat (base64Text str)
      · rw [htext] at hlen
        cases hlen
      · rw [List.concat_eq_append] at htext
        have hs : s.length = (digitValues (base64Text str)).length := by
          rw [htext, List.length_append, List.length_singleton, ← htext] at hlen
          exact Nat.add_right_cancel hlen
        rw [← hs] at hgroups
        exact ⟨s, [c], htext, isDigit64_of_defined hbytes h htext hgroups, .inr ⟨rfl, hgroups⟩⟩

end Defined

/-- **Decoding is defined exactly on texts of digits**, and on those with one character more behind
complete groups. -/
theorem defined_iff {str : Str} (hbytes : ∀ c ∈ str, c.toNat < 256) :
    Defined str ↔ Readable str :=
  ⟨Defined.readable hbytes, Readable.defined⟩

theorem defined_padded : Defined "QUI=".toList :=
  (defined_iff (by decide)).mpr ⟨by decide, "QUI".toList, [], by decide, by decide, .inl rfl⟩

/-- A space in front of the digits counts as a digit if the tables say so. -/
theorem space_undefined : ¬ Defined " QQ==".toList := fun h =>
  absurd (h.independent (counting 0) (counting 1) (chars_counting (v := 0) (by decide))
    (chars_counting (v := 1) (by decide))) (by decide +kernel)

end NetDJ
