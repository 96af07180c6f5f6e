import NetDJ.Daemon.IndexXml

/-!
# `main.cc`: how long `/index.xml` gets

* `Record.Slim` : an element has few fields, with short names;
* `length_xmlText_lt` : so the document is not much longer than the texts in it;
* `PageFile.Short` : names and owners are short, and so are then all texts of the file.
-/

namespace NetDJ.Daemon

open Markup

theorem length_flatMap_le {α β : Type*} {l : List α} {f : α → List β} {m : Nat}
    (h : ∀ x ∈ l, (f x).length ≤ m) : (l.flatMap f).length ≤ l.length * m := by
  rw [List.length_flatMap]
  have hsum := List.sum_le_card_nsmul (l.map fun x => (f x).length) m (by simpa using h)
  simpa using hsum

theorem length_fieldText (f : Str × Str) :
    (fieldText f).length = 2 * f.1.length + f.2.length + 10 := by
  have h := congrArg List.length (fieldText_append f [])
  simp only [List.length_append, List.length_cons, List.length_nil] at h
  omega

/-- A tag and eleven fields at most, with short names. -/
structure Record.Slim (r : Record) : Prop where
  tag : r.tag.length ≤ 40
  fields : r.fields.length ≤ 11
  names : ∀ f ∈ r.fields, f.1.length ≤ 11

theorem Record.Slim.length_text_le {r : Record} (hr : r.Slim) {m : Nat}
    (h : ∀ f ∈ r.fields, f.2.length ≤ m) : r.text.length ≤ 100 + 11 * (m + 32) := by
  have hfields : (r.fields.flatMap fieldText).length ≤ r.fields.length * (m + 32) := by
    apply length_flatMap_le
    intro f hf
    have hname := hr.names f hf
    have htext := h f hf
    rw [length_fieldText]
    omega
  have hmul := Nat.mul_le_mul_right (m + 32) hr.fields
  have htag := hr.tag
  have hend : (tagName r.tag).length ≤ r.tag.length := (List.takeWhile_sublist _).length_le
  have hlen := congrArg List.length (r.text_append [])
  simp only [List.length_append, List.length_cons, List.length_nil] at hlen
  omega

theorem slim_of_names {r : Record} (htag : r.tag.length ≤ 40) (hfields : r.fields.length ≤ 11)
    (hnames : ∀ n ∈ r.fields.map Prod.fst, n ∈ fieldNames) : r.Slim := by
  have hshort : ∀ n ∈ fieldNames, n.length ≤ 11 := by decide +kernel
  exact ⟨htag, hfields, fun f hf => hshort f.1 (hnames f.1 (List.mem_map_of_mem hf))⟩

theorem currentsong_slim (f : PageFile) (size : Str) : (currentsong f size).Slim :=
  slim_of_names (by decide +kernel : "currentsong".toList.length ≤ 40) (Nat.le_succ 10)
    (currentsong_names f size)

theorem list_slim (dir : PageList) (size : Str) : (list dir size).Slim :=
  slim_of_names (by decide +kernel : "list".toList.length ≤ 40) (by decide : 3 ≤ 11)
    (list_names dir size)

theorem songRecord_slim {e : (Str × PageFile) × Nat} (h : e.2 ≤ 10) : (songRecord e).Slim := by
  refine slim_of_names ?_ (Nat.le_refl 11) (songRecord_names e)
  have hplace : (decimal e.2).length < 10 := decimal_songno h
  have h₁ : "song id=\"".toList.length ≤ 9 := by decide +kernel
  have h₂ : "\"".toList.length ≤ 1 := by decide +kernel
  show ("song id=\"".toList ++ decimal e.2 ++ "\"".toList).length ≤ 40
  rw [List.length_append, List.length_append]
  omega

theorem place_le {p : Page} {e : (Str × PageFile) × Nat} (he : e ∈ p.listed.zipIdx 1) :
    e.2 ≤ 10 := by
  have hlen : p.listed.length ≤ 10 := List.length_take_le _ _
  have hlt := List.snd_lt_add_of_mem_zipIdx he
  omega

theorem records_slim (p : Page) : ∀ r ∈ records p, r.Slim := by
  intro r hr
  rcases List.mem_cons.mp hr with rfl | hr
  · exact currentsong_slim _ _
  rcases List.mem_append.mp hr with hr | hr
  · obtain ⟨e, he, rfl⟩ := List.mem_map.mp hr
    exact songRecord_slim (place_le he)
  · obtain ⟨dir, -, rfl⟩ := List.mem_map.mp hr
    exact list_slim dir _

theorem length_records_le (p : Page) : (records p).length ≤ 14 := by
  have hlen : p.listed.length ≤ 10 := List.length_take_le _ _
  have hlists : p.lists.length = 3 := rfl
  simp [records, hlists]
  omega

def xmlText (p : Page) : Str := replaceIllegal (xbufText (records p))

theorem length_xmlText_lt {p : Page} (h : ∀ r ∈ records p, ∀ f ∈ r.fields, f.2.length ≤ 10 ^ 6) :
    (xmlText p).length < 10 ^ 9 := by
  have htexts : ((records p).flatMap Record.text).length ≤
      (records p).length * (100 + 11 * (10 ^ 6 + 32)) :=
    length_flatMap_le fun r hr => (records_slim p r hr).length_text_le (h r hr)
  have hmul := Nat.mul_le_mul_right (100 + 11 * (10 ^ 6 + 32)) (length_records_le p)
  unfold xmlText replaceIllegal
  rw [List.length_map]
  have hxml : ("<".toList ++ xmlTag ++ ">\n<".toList ++ netdjTag ++ ">\n".toList).length ≤ 300 := by
    decide +kernel
  have hend : "</netdj>\n".toList.length ≤ 9 := by decide +kernel
  rw [xbufText, List.length_append, List.length_append]
  omega

theorem length_getFilenameNoType_le (f : File) : f.getFilenameNoType.length ≤ f.name.length := by
  have hname : f.getFilename.length ≤ f.name.length := by
    unfold File.getFilename
    rw [List.length_reverse]
    exact (List.takeWhile_sublist _).length_le.trans (by rw [List.length_reverse])
  unfold File.getFilenameNoType
  dsimp only
  split
  · rw [List.length_reverse, List.length_tail]
    have hdrop := (List.dropWhile_sublist (· ≠ '.') (l := f.getFilename.reverse)).length_le
    rw [List.length_reverse] at hdrop
    omega
  · exact hname

/-- A name and an owner of a million characters at most. -/
structure PageFile.Short (f : PageFile) : Prop where
  name : f.file.name.length ≤ 10 ^ 6
  owner : f.getOwner.length ≤ 10 ^ 6

theorem PageFile.Short.texts {f : PageFile} (hf : f.Short) :
    (∀ s ∈ f.texts, s.length ≤ 10 ^ 6) ∧ f.id3tag.getStyle.length ≤ 10 ^ 6 := by
  have htag : ∀ i, (f.id3tag.tags.getD i []).length ≤ 10 ^ 6 := fun i =>
    (ID3Tag.length_tag_le f.content i).trans (by decide)
  have hname := (length_getFilenameNoType_le f.file).trans hf.name
  refine ⟨?_, htag 5⟩
  simp only [PageFile.texts, List.forall_mem_cons]
  exact ⟨hname, htag 1, htag 2, htag 0, htag 4, htag 3, nofun⟩

end NetDJ.Daemon
