import Mathlib.Data.List.Basic

/-!
# Base64 as a number format

Bytes and sextets are natural numbers below 256 and 64; three bytes make four sextets.

* `Base64.sextets` : the sextets of a string of bytes, the last one or two bytes filled with zeros;
* `Base64.octets` : the bytes of a string of sextets, the bits left over dropped;
* `octets_sextets`, `sextets_octets` : decoding undoes encoding, and encoding undoes decoding;
* `groups_induction`, `octets_append` : groups of four sextets are decoded one after the other;
* `Base64.encode` : the sextets as digits, padded to a multiple of four.
-/

namespace Base64

/-- The sextets of a string of bytes. -/
def sextets : List Nat → List Nat
  | a :: b :: c :: bs =>
    a / 4 :: (a % 4 * 16 + b / 16) :: (b % 16 * 4 + c / 64) :: c % 64 :: sextets bs
  | [a, b] => [a / 4, a % 4 * 16 + b / 16, b % 16 * 4]
  | [a] => [a / 4, a % 4 * 16]
  | [] => []

/-- The bytes of a string of sextets. -/
def octets : List Nat → List Nat
  | a :: b :: c :: d :: ds =>
    (a * 4 + b / 16) :: (b % 16 * 16 + c / 4) :: (c % 4 * 64 + d) :: octets ds
  | [a, b, c] => [a * 4 + b / 16, b % 16 * 16 + c / 4]
  | [a, b] => [a * 4 + b / 16]
  | _ => []

theorem sextets_lt : ∀ bs : List Nat, (∀ b ∈ bs, b < 256) → ∀ d ∈ sextets bs, d < 64
  | a :: b :: c :: bs, h, d, hd => by
    have ha := h a (by simp)
    have hb := h b (by simp)
    simp only [sextets, List.mem_cons] at hd
    rcases hd with rfl | rfl | rfl | rfl | hd
    · omega
    · omega
    · have hc := h c (by simp)
      omega
    · omega
    · exact sextets_lt bs (fun x hx => h x (by simp [hx])) d hd
  | [a, b], h, d, hd => by
    have ha := h a (by simp)
    have hb := h b (by simp)
    simp only [sextets, List.mem_cons, List.not_mem_nil, or_false] at hd
    omega
  | [a], h, d, hd => by
    have ha := h a (by simp)
    simp only [sextets, List.mem_cons, List.not_mem_nil, or_false] at hd
    omega
  | [], _, d, hd => absurd hd List.not_mem_nil

/-- **Decoding undoes encoding**, for bytes of any number. -/
theorem octets_sextets : ∀ bs : List Nat, (∀ b ∈ bs, b < 256) → octets (sextets bs) = bs
  | a :: b :: c :: bs, h => by
    have ha := h a (by simp)
    have hb := h b (by simp)
    have hc := h c (by simp)
    have ih := octets_sextets bs fun x hx => h x (by simp [hx])
    simp only [sextets, octets, ih, List.cons.injEq, and_true]
    omega
  | [a, b], h => by
    have ha := h a (by simp)
    have hb := h b (by simp)
    simp only [sextets, octets, List.cons.injEq, and_true]
    omega
  | [a], h => by
    have ha := h a (by simp)
    simp only [sextets, octets, List.cons.injEq, and_true]
    omega
  | [], _ => rfl

/-- Sextets in groups of four. -/
theorem groups_induction {P : List Nat → Prop} (nil : P [])
    (group : ∀ a b c d ds, P ds → P (a :: b :: c :: d :: ds)) :
    ∀ ds : List Nat, 4 ∣ ds.length → P ds
  | a :: b :: c :: d :: ds, h =>
    group a b c d ds (groups_induction nil group ds ((Nat.dvd_add_iff_left (Nat.dvd_refl 4)).mpr h))
  | [_, _, _], h | [_, _], h | [_], h => by simp at h
  | [], _ => nil

/-- **Encoding undoes decoding** in groups of four sextets. -/
theorem sextets_octets {ds : List Nat} (hlen : 4 ∣ ds.length) (h : ∀ d ∈ ds, d < 64) :
    sextets (octets ds) = ds := by
  revert h
  refine groups_induction (P := fun ds => (∀ d ∈ ds, d < 64) → sextets (octets ds) = ds)
    (fun _ => rfl) (fun a b c d ds ih h => ?_) ds hlen
  have ha := h a (by simp)
  have hb := h b (by simp)
  have hc := h c (by simp)
  have hd := h d (by simp)
  simp only [octets, sextets, ih fun x hx => h x (by simp [hx]), List.cons.injEq, and_true]
  omega

theorem octets_append {ds : List Nat} (hlen : 4 ∣ ds.length) (es : List Nat) :
    octets (ds ++ es) = octets ds ++ octets es :=
  groups_induction (P := fun ds => octets (ds ++ es) = octets ds ++ octets es) rfl
    (fun a b c d ds ih => by simp [octets, ih]) ds hlen

theorem length_octets : ∀ ds : List Nat, (octets ds).length = 3 * ds.length / 4
  | a :: b :: c :: d :: ds => by
    simp only [octets, List.length_cons, length_octets ds]
    omega
  | [_, _, _] | [_, _] | [_] | [] => by simp [octets]

theorem octets_lt : ∀ ds : List Nat, (∀ d ∈ ds, d < 64) → ∀ b ∈ octets ds, b < 256
  | a :: b :: c :: d :: ds, h, x, hx => by
    have ha := h a (by simp)
    have hd := h d (by simp)
    simp only [octets, List.mem_cons] at hx
    rcases hx with rfl | rfl | rfl | hx
    · have hb := h b (by simp)
      omega
    · have hc := h c (by simp)
      omega
    · omega
    · exact octets_lt ds (fun y hy => h y (by simp [hy])) x hx
  | [a, b, c], h, x, hx => by
    have ha := h a (by simp)
    have hb := h b (by simp)
    have hc := h c (by simp)
    simp only [octets, List.mem_cons, List.not_mem_nil, or_false] at hx
    omega
  | [a, b], h, x, hx => by
    have ha := h a (by simp)
    have hb := h b (by simp)
    simp only [octets, List.mem_cons, List.not_mem_nil, or_false] at hx
    omega
  | [_], _, _, hx | [], _, _, hx => absurd hx List.not_mem_nil

/-- How many padding characters follow the digits of `n` bytes. -/
def padding (n : Nat) : Nat := (3 - n % 3) % 3

/-- The padded encoding in the given digits. -/
def encode {χ : Type*} (digit : Nat → χ) (pad : χ) (bs : List Nat) : List χ :=
  (sextets bs).map digit ++ List.replicate (padding bs.length) pad

end Base64
