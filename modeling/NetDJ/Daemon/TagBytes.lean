import Mathlib.Algebra.GroupWithZero.Nat
import NetDJ.Daemon.ID3Tag

/-!
# `ID3Tag.cc`: the tag, byte by byte

`InitFromFile` goes to the last 128 bytes of the file with two calls of `fseek`, and reads each
field with a loop that runs to its end and one that runs back over spaces. The first loop looks at a
byte before it looks at the bound, so that it may look at the byte behind the field.

* `Stream` : the file and the place in it;
* `scan`, `trim`, `readField` : the loops, on a buffer in which no other byte may be read;
* `readField_eq` : they come to an end inside the buffer, and give `ID3Tag.field`;
* `initFromBytes_eq` : so the whole call is `ID3Tag.initFromFile`;
* `Slot` : a text in a field, filled up with zeros and spaces;
* `tag_decoded` : what is read of any file, and that the texts of the slots are read back.
-/

namespace NetDJ.Daemon

structure Stream where
  content : Str
  pos : Nat

namespace Stream

def seekEnd (fin : Stream) : Stream := { fin with pos := fin.content.length }

/-- `fseek(fin, off, SEEK_SET)`: in front of the file there is no place to go to. -/
def seekSet (fin : Stream) (off : Int) : Stream :=
  if 0 ≤ off then { fin with pos := off.toNat } else fin

def read (fin : Stream) (size : Nat) : Option Str :=
  let rest := fin.content.drop fin.pos
  if size ≤ rest.length then some (rest.take size) else none

end Stream

namespace ID3Tag

def readByte (id3buf : Str) (i : Nat) : Except Abort Char :=
  match id3buf[i]? with
  | some c => .ok c
  | none => .error .undefined

def scan (id3buf : Str) (off size j : Nat) : Except Abort Nat :=
  match readByte id3buf (off + j) with
  | .error a => .error a
  | .ok c => if c ≠ '\x00' ∧ j < size then scan id3buf off size (j + 1) else .ok j
  termination_by size - j

def trim (id3buf : Str) (off : Nat) : Nat → Except Abort Nat
  | 0 => .ok 0
  | j + 1 =>
    match readByte id3buf (off + j) with
    | .error a => .error a
    | .ok c => if c = '\x00' ∨ c = ' ' then trim id3buf off j else .ok (j + 1)

def assign (id3buf : Str) (off j : Nat) : Except Abort Str :=
  if off + j ≤ id3buf.length then .ok ((id3buf.drop off).take j) else .error .undefined

def readField (id3buf : Str) (off size : Nat) : Except Abort Str := do
  let j ← scan id3buf off size 0
  let j ← trim id3buf off j
  assign id3buf off j

/-- The loop over `maxsize`: the fields, and `off` behind them. -/
def readFields (id3buf : Str) : Nat → List Nat → Except Abort (List Str × Nat)
  | off, [] => .ok ([], off)
  | off, size :: sizes => do
    let tag ← readField id3buf off size
    let (tags, off) ← readFields id3buf (off + size) sizes
    .ok (tag :: tags, off)

/-- `InitFromFile`, on what the file has in it, if it opens. -/
def initFromBytes (t : ID3Tag) (content : Option Str) : Except Abort (ID3Tag × Bool) :=
  match content with
  | none => .ok (t, false)
  | some bytes =>
    let fin := Stream.seekEnd ⟨bytes, 0⟩
    let fin := fin.seekSet (fin.pos - 128)
    match fin.read 128 with
    | none => .ok (t, false)
    | some id3buf =>
      if id3buf.take 3 = "TAG".toList then do
        let (tags, off) ← readFields id3buf 3 maxsize
        let styleid ← readByte id3buf off
        .ok (⟨tags ++ [findStyle styleid.toNat]⟩, true)
      else .ok (t, false)

/-! ## The loops -/

section Loops
variable {id3buf : Str} {off size j : Nat}

theorem readByte_of_lt {i : Nat} (h : i < id3buf.length) : readByte id3buf i = .ok id3buf[i] := by
  rw [readByte, List.getElem?_eq_getElem h]

theorem scan_eq (hbuf : off + size < id3buf.length) (hj : j ≤ size) : scan id3buf off size j =
    .ok (j + (((id3buf.drop (off + j)).take (size - j)).takeWhile (· ≠ '\x00')).length) := by
  induction hk : size - j generalizing j with
  | zero =>
    rw [scan, readByte_of_lt (by omega)]
    dsimp only
    rw [if_neg (by omega)]
    simp
  | succ k ih =>
    have hdrop : id3buf.drop (off + j) = id3buf[off + j] :: id3buf.drop (off + (j + 1)) :=
      List.drop_eq_getElem_cons (by omega)
    rw [scan, readByte_of_lt (by omega), hdrop, List.take_succ_cons]
    dsimp only
    by_cases hc : id3buf[off + j] = '\x00'
    · simp [hc]
    · rw [if_pos ⟨hc, by omega⟩, ih (by omega) (by omega), List.takeWhile_cons_of_pos (by simp [hc]),
        List.length_cons]
      congr 1
      omega

/-- What is left when zeros and spaces at the end of a text are gone. -/
def trimmed (text : Str) : Str := (text.reverse.dropWhile fun c => c = '\x00' ∨ c = ' ').reverse

theorem trimmed_front (text : Str) : trimmed text <+: text := by
  have h := List.dropWhile_suffix (l := text.reverse) fun c => decide (c = '\x00' ∨ c = ' ')
  simpa [trimmed] using List.reverse_prefix.mpr h

theorem trim_eq (hbuf : off + j ≤ id3buf.length) :
    trim id3buf off j = .ok (trimmed ((id3buf.drop off).take j)).length := by
  induction j with
  | zero => simp [trim, trimmed]
  | succ j ih =>
    have hlen : j < (id3buf.drop off).length := by
      rw [List.length_drop]
      omega
    have htake : (id3buf.drop off).take (j + 1) = (id3buf.drop off).take j ++ [id3buf[off + j]] := by
      rw [List.take_succ_eq_append_getElem hlen, List.getElem_drop]
    rw [trim, readByte_of_lt (by omega), htake]
    dsimp only
    by_cases hc : id3buf[off + j] = '\x00' ∨ id3buf[off + j] = ' '
    · rw [if_pos hc, ih (by omega)]
      simp [trimmed, hc]
    · have hmin : min j (id3buf.length - off) = j := by omega
      rw [if_neg hc]
      simp [trimmed, hc, hmin]

theorem readField_eq (hbuf : off + size < id3buf.length) :
    readField id3buf off size = .ok (field id3buf off size) := by
  let text := ((id3buf.drop off).take size).takeWhile (· ≠ '\x00')
  have hfront : text <+: id3buf.drop off :=
    (List.takeWhile_prefix _).trans (List.take_prefix size _)
  have htext : (id3buf.drop off).take text.length = text := (List.prefix_iff_eq_take.mp hfront).symm
  have hle : off + text.length ≤ id3buf.length := by
    have := hfront.length_le
    rw [List.length_drop] at this
    have hpos : off < id3buf.length := by omega
    omega
  have hscan := scan_eq hbuf (Nat.zero_le size)
  rw [Nat.add_zero, Nat.zero_add, Nat.sub_zero] at hscan
  change _ = Except.ok text.length at hscan
  have htrim : trim id3buf off text.length = .ok (trimmed text).length := by
    rw [trim_eq hle, htext]
  have hshort := (trimmed_front text).length_le
  have hassign : (id3buf.drop off).take (trimmed text).length = trimmed text :=
    (List.prefix_iff_eq_take.mp ((trimmed_front text).trans hfront)).symm
  simp only [readField, hscan, htrim, bind, Except.bind, assign, hassign]
  rw [if_pos (by omega)]
  rfl

theorem readFields_eq (sizes : List Nat) (off : Nat) (hbuf : off + sizes.sum < id3buf.length) :
    readFields id3buf off sizes = .ok (fields id3buf off sizes, off + sizes.sum) := by
  induction sizes generalizing off with
  | nil => rfl
  | cons size sizes ih =>
    rw [List.sum_cons] at hbuf
    simp only [readFields, readField_eq (show off + size < id3buf.length by omega),
      ih (off + size) (by omega), bind, Except.bind, fields, List.sum_cons, Nat.add_assoc]

end Loops

/-- The two calls of `fseek` go to the last 128 bytes, or to the end of a shorter file. -/
theorem seek_last (bytes : Str) :
    (Stream.seekEnd ⟨bytes, 0⟩).seekSet ((Stream.seekEnd ⟨bytes, 0⟩).pos - 128) =
      ⟨bytes, if 128 ≤ bytes.length then bytes.length - 128 else bytes.length⟩ := by
  show (if (0 : Int) ≤ (bytes.length : Int) - 128 then
    (⟨bytes, ((bytes.length : Int) - 128).toNat⟩ : Stream) else ⟨bytes, bytes.length⟩) = _
  by_cases hlen : 128 ≤ bytes.length
  · have hpos : ((bytes.length : Int) - 128).toNat = bytes.length - 128 := by omega
    rw [if_pos (by omega), if_pos hlen, hpos]
  · rw [if_neg (by omega), if_neg hlen]

theorem read_last (bytes : Str) : ((Stream.seekEnd ⟨bytes, 0⟩).seekSet
    ((Stream.seekEnd ⟨bytes, 0⟩).pos - 128)).read 128 =
      if 128 ≤ bytes.length then some (bytes.drop (bytes.length - 128)) else none := by
  rw [seek_last, Stream.read]
  dsimp only
  by_cases hlen : 128 ≤ bytes.length
  · have hall : (bytes.drop (bytes.length - 128)).length = 128 := by
      rw [List.length_drop]
      omega
    rw [if_pos hlen, if_pos hlen, if_pos hall.ge, List.take_of_length_le hall.le]
  · rw [if_neg hlen, if_neg hlen]
    simp

theorem tag_eq {id3buf : Str} (hbuf : id3buf.length = 128) :
    (do
      let (tags, off) ← readFields id3buf 3 maxsize
      let styleid ← readByte id3buf off
      .ok (⟨tags ++ [findStyle styleid.toNat]⟩, true) : Except Abort (ID3Tag × Bool)) =
    .ok (⟨fields id3buf 3 maxsize ++ [findStyle (id3buf.getD 127 '\x00').toNat]⟩, true) := by
  have hsum : maxsize.sum = 124 := rfl
  have hfields : readFields id3buf 3 maxsize = .ok (fields id3buf 3 maxsize, 3 + maxsize.sum) :=
    readFields_eq maxsize 3 (by omega)
  have hstyle : readByte id3buf (3 + maxsize.sum) = .ok (id3buf.getD 127 '\x00') := by
    rw [hsum, readByte_of_lt (by omega), List.getD_eq_getElem?_getD,
      List.getElem?_eq_getElem (by omega), Option.getD_some]
  rw [hfields]
  simp only [bind, Except.bind, hstyle]

/-- No byte outside the buffer is read, and the call does what `initFromFile` says. -/
theorem initFromBytes_eq (t : ID3Tag) (content : Option Str) :
    t.initFromBytes content = .ok (t.initFromFile content) := by
  cases content with
  | none => rfl
  | some bytes =>
    rw [initFromBytes, initFromFile]
    simp only [read_last]
    by_cases hlen : 128 ≤ bytes.length
    · have hbuf : (bytes.drop (bytes.length - 128)).length = 128 := by
        rw [List.length_drop]
        omega
      simp only [hlen, if_true, true_and]
      split
      · exact tag_eq hbuf
      · rfl
    · simp only [hlen, if_false, false_and]

/-! ## What is read -/

/-- The text of a slot: up to the first zero, and without the spaces at its end. -/
def slotText (slot : Str) : Str := ((cStr slot).reverse.dropWhile (· = ' ')).reverse

def slot (id3buf : Str) (off size : Nat) : Str := (id3buf.drop off).take size

theorem field_eq (id3buf : Str) (off size : Nat) :
    field id3buf off size = slotText (slot id3buf off size) := by
  have hdrop : ∀ l : Str, '\x00' ∉ l →
      (l.dropWhile fun c => c = '\x00' ∨ c = ' ') = l.dropWhile (· = ' ') := by
    intro l hl
    induction l with
    | nil => rfl
    | cons c l ih =>
      rw [List.mem_cons, not_or] at hl
      rw [List.dropWhile_cons, List.dropWhile_cons, ih hl.2]
      simp [Ne.symm hl.1]
  show ((cStr (slot id3buf off size)).reverse.dropWhile _).reverse = _
  rw [hdrop, slotText]
  exact fun h => nul_notMem_cStr _ (List.mem_reverse.mp h)

end ID3Tag

/-- A text in a slot, filled up with zeros and spaces. -/
structure Slot where
  text : Str
  pad : Str
  text_nul : '\x00' ∉ text
  text_space : text.getLast? ≠ some ' '
  pad_fill : ∀ c ∈ pad, c = '\x00' ∨ c = ' '

namespace Slot

def bytes (s : Slot) : Str := s.text ++ s.pad

def size (s : Slot) : Nat := s.bytes.length

theorem slotText_bytes (s : Slot) : ID3Tag.slotText s.bytes = s.text := by
  have hpad : ∀ c ∈ (cStr s.pad).reverse, decide (c = ' ') = true := by
    intro c hc
    have hmem := List.mem_reverse.mp hc
    rcases s.pad_fill c ((List.takeWhile_sublist _).subset hmem) with rfl | rfl
    · exact absurd hmem (nul_notMem_cStr s.pad)
    · rfl
  have htext : s.text.reverse.dropWhile (· = ' ') = s.text.reverse := by
    rw [List.dropWhile_eq_self_iff]
    intro hlen hc
    refine s.text_space ?_
    rw [← List.head?_reverse, List.head?_eq_getElem?, List.getElem?_eq_getElem hlen]
    exact congrArg some (of_decide_eq_true hc)
  rw [ID3Tag.slotText, bytes, cStr_append s.text_nul, List.reverse_append,
    List.dropWhile_append_of_pos hpad, htext, List.reverse_reverse]

/-- The fields of slots that stand one behind the other. -/
theorem fields_bytes (front : Str) (slots : List Slot) (back : Str) :
    ID3Tag.fields (front ++ slots.flatMap bytes ++ back) front.length (slots.map size) =
      slots.map text := by
  induction slots generalizing front with
  | nil => rfl
  | cons s slots ih =>
    have hsplit : front ++ (s :: slots).flatMap bytes ++ back =
        front ++ (s.bytes ++ (slots.flatMap bytes ++ back)) := by
      simp
    have hslot : ID3Tag.slot (front ++ (s.bytes ++ (slots.flatMap bytes ++ back))) front.length
        s.size = s.bytes := by
      rw [ID3Tag.slot, List.drop_left, size, List.take_left]
    have hnext : front.length + s.size = (front ++ s.bytes).length := by
      rw [List.length_append, size]
    have hrest : front ++ (s.bytes ++ (slots.flatMap bytes ++ back)) =
        front ++ s.bytes ++ slots.flatMap bytes ++ back := by
      simp
    rw [hsplit, List.map_cons, List.map_cons, ID3Tag.fields, ID3Tag.field_eq, hslot,
      s.slotText_bytes, hnext, hrest, ih]

end Slot

/-- The last 128 bytes of a file are a tag. -/
def IsTag (bytes : Str) : Prop :=
  128 ≤ bytes.length ∧ (bytes.drop (bytes.length - 128)).take 3 = "TAG".toList

namespace ID3Tag

theorem initFromFile_of_tag (t : ID3Tag) {bytes : Str} (h : IsTag bytes) :
    t.initFromFile (some bytes) = (⟨fields (bytes.drop (bytes.length - 128)) 3 maxsize ++
      [findStyle ((bytes.drop (bytes.length - 128)).getD 127 '\x00').toNat]⟩, true) := if_pos h

theorem initFromFile_of_no_tag (t : ID3Tag) {content : Option Str}
    (h : ∀ bytes ∈ content, ¬ IsTag bytes) : t.initFromFile content = (t, false) := by
  cases content with
  | none => rfl
  | some bytes => exact if_neg (h bytes rfl)

/-- **The tag at the end of a file is decoded exactly**, and without one nothing is assigned; no byte
outside the buffer is read. The texts of five slots are read back from any file that ends in them. -/
theorem tag_decoded (t : ID3Tag) :
    (∀ bytes, IsTag bytes → let id3buf := bytes.drop (bytes.length - 128)
      t.initFromBytes (some bytes) = .ok (⟨[slotText (slot id3buf 3 30),
        slotText (slot id3buf 33 30), slotText (slot id3buf 63 30), slotText (slot id3buf 93 4),
        slotText (slot id3buf 97 30), findStyle (id3buf.getD 127 '\x00').toNat]⟩, true)) ∧
      (∀ content, (∀ bytes ∈ content, ¬ IsTag bytes) → t.initFromBytes content = .ok (t, false)) ∧
      ∀ (front : Str) (slots : List Slot) (style : Char), slots.map Slot.size = maxsize →
        t.initFromBytes (some (front ++ ("TAG".toList ++ slots.flatMap Slot.bytes ++ [style]))) =
          .ok (⟨slots.map Slot.text ++ [findStyle style.toNat]⟩, true) := by
  refine ⟨fun bytes h => ?_, fun content h => ?_, fun front slots style hsize => ?_⟩
  · rw [initFromBytes_eq, t.initFromFile_of_tag h]
    simp only [fields, maxsize, field_eq, List.cons_append, List.nil_append]
  · rw [initFromBytes_eq, t.initFromFile_of_no_tag h]
  · have hbytes : (slots.flatMap Slot.bytes).length = 124 := by
      rw [List.length_flatMap]
      exact congrArg List.sum hsize
    have hlen : ("TAG".toList ++ slots.flatMap Slot.bytes ++ [style]).length = 128 := by
      simp [hbytes]
    have hlast : (front ++ ("TAG".toList ++ slots.flatMap Slot.bytes ++ [style])).drop
        ((front ++ ("TAG".toList ++ slots.flatMap Slot.bytes ++ [style])).length - 128) =
          "TAG".toList ++ slots.flatMap Slot.bytes ++ [style] := by
      rw [List.length_append, hlen, Nat.add_sub_cancel, List.drop_left]
    have htag : IsTag (front ++ ("TAG".toList ++ slots.flatMap Slot.bytes ++ [style])) := by
      refine ⟨by rw [List.length_append, hlen]; omega, ?_⟩
      rw [hlast, List.append_assoc]
      rfl
    have hstyle : ("TAG".toList ++ slots.flatMap Slot.bytes ++ [style]).getD 127 '\x00' = style := by
      simp [List.getD_eq_getElem?_getD, hbytes]
    have hfields := Slot.fields_bytes "TAG".toList slots [style]
    rw [hsize] at hfields
    change fields _ 3 maxsize = _ at hfields
    rw [initFromBytes_eq, t.initFromFile_of_tag htag, hlast, hstyle, hfields]

end ID3Tag

end NetDJ.Daemon
