import NetDJ.Daemon.Directory
import NetDJ.Lib.IStream

/-!
# `Directory.cc`: the list file of a share

In file mode `Update` goes through the list file with `while (f) { f.getline(..); .. }`. The pass
that meets the end of the file, or a line that does not fit the buffer, works on what `getline` left
in the buffer.

* `Directory.Update` : the call, with the content of the list file;
* `Directory.update_listLines` : so `Os.lines` are the buffers of the passes;
* `hasMp3Ending_iff` : the test of the ending, for a name of four characters or more;
* `list_loaded_iff` : when the new list is that of the file.
-/

namespace NetDJ.Daemon

open Loop IStream

namespace Directory

def bufferSize : Nat := 4096

def listRound (os : Os) :
    IStream × (Directory × File) → Except Abort (Option (IStream × (Directory × File))) :=
  round (whileGood Abort bufferSize) fun s line => readLine os s (cStr line)

def LoadFile (d : Directory) (os : Os) (content : Option Str) (r : Except Abort Directory) : Prop :=
  let (fobj, _) := (File.new os.memory []).setName os.stat d.dirname
  if d.lastupdate = 0 ∨ d.lastupdate < fobj.getCtime os.stat then
    let d := { d with lastupdate := fobj.getCtime os.stat, list := [] }
    match content with
    | none => r = .ok d
    | some content => ∃ s, Ends (listRound os) (ofText content, (d, fobj)) s ∧ r = s.map (·.2.1)
  else r = .ok d

def Update (d : Directory) (os : Os) (content : Option Str) (r : Except Abort Directory) : Prop :=
  if d.fromfile then d.LoadFile os content r else r = d.update os

def listLines (content : Str) : List Str :=
  ((lines content).takeWhile (FitsIn bufferSize) ++ [lastPass bufferSize (lines content)]).map cStr

/-- The lines of the list file are the buffers of the passes. -/
theorem update_listLines (d : Directory) (os : Os) (content : Option Str)
    (hfile : d.fromfile = true) (r : Except Abort Directory) :
    d.Update os content r ↔ r = d.update { os with lines := content.map listLines } := by
  rw [Update, if_pos hfile, update, if_pos hfile, LoadFile, loadFile]
  dsimp only
  split
  · cases content with
    | none => rfl
    | some content =>
      obtain ⟨j, hpulls⟩ := pulls_whileGood (ε := Abort) (by decide : 0 < bufferSize) content
      simp only [listRound, ends_round_iff hpulls, exists_eq_left, Option.map_some]
      rw [listLines, List.foldlM_map]
      have hmap : ∀ x : Except Abort (Directory × File),
          (x.map fun b => (j, b)).map (·.2.1) = x.map (·.1) := by
        intro x
        cases x <;> rfl
      rw [hmap]
      rfl
  · rfl

end Directory

/-! ## The ending -/

theorem toLower_eq_iff {c d : Char} (hd : d.toNat < 65) : c.toLower = d ↔ c = d := by
  unfold Char.toLower
  split
  · next h =>
    have hlow : 65 ≤ c.toNat := h.1
    have hhigh : c.toNat ≤ 90 := h.2
    refine iff_of_false (fun he => ?_) fun he => ?_
    · have hsum : (c.toNat + 32) % 2 ^ 32 = d.toNat := congrArg Char.toNat he
      omega
    · rw [he] at hlow
      omega
  · rfl

theorem hasMp3Ending_append (u : Str) {a b c e : Char} (hend : '\x00' ∉ [a, b, c, e]) :
    hasMp3Ending (u ++ [a, b, c, e]) = strstr [a, b.toLower, c.toLower, e] ".mp3".toList := by
  have hlen : 4 ≤ (u ++ [a, b, c, e]).length := by simp
  have hdrop : (u ++ [a, b, c, e]).drop ((u ++ [a, b, c, e]).length - 4) = [a, b, c, e] := by
    rw [List.length_append]
    exact List.drop_left' (Nat.add_sub_cancel _ _).symm
  have hok := isMp3_of_long hlen
  rw [isMp3, endingStart, if_pos hlen, substr, if_pos (Nat.sub_le _ _), hdrop] at hok
  have hsame := Except.ok.inj hok
  dsimp only at hsame
  rw [cStr_eq_self hend] at hsame
  exact hsame.symm

/-- The last four characters, in any case, are those of `.mp3`. -/
theorem hasMp3Ending_iff {fname : Str} (hlen : 4 ≤ fname.length) (hnul : '\x00' ∉ fname) :
    hasMp3Ending fname = true ↔ ".mp3".toList <:+ fname.map Char.toLower := by
  obtain ⟨u, a, b, c, e, rfl⟩ : ∃ u a b c e, fname = u ++ [a, b, c, e] := by
    have hdrop : (fname.drop (fname.length - 4)).length = 4 := by
      rw [List.length_drop]
      omega
    obtain ⟨a, b, c, e, hs⟩ := List.length_eq_four.mp hdrop
    exact ⟨fname.take (fname.length - 4), a, b, c, e, by rw [← hs, List.take_append_drop]⟩
  have hend : '\x00' ∉ [a, b, c, e] := fun h => hnul (List.mem_append_right u h)
  have hsuffix : ".mp3".toList <:+ (u ++ [a, b, c, e]).map Char.toLower ↔
      [a, b, c, e].map Char.toLower = ".mp3".toList := by
    rw [List.map_append]
    constructor
    · rintro ⟨t, ht⟩
      exact (List.append_inj' ht rfl).2.symm
    · intro h
      rw [← h]
      exact List.suffix_append _ _
  have hdot : a.toLower = '.' ↔ a = '.' := toLower_eq_iff (by decide)
  have hthree : e.toLower = '3' ↔ e = '3' := toLower_eq_iff (by decide)
  have htext : ".mp3".toList = ['.', 'm', 'p', '3'] := rfl
  have hstrstr : strstr [a, b.toLower, c.toLower, e] ['.', 'm', 'p', '3'] = true ↔
      '.' = a ∧ 'm' = b.toLower ∧ 'p' = c.toLower ∧ '3' = e := by
    simp [strstr]
  rw [hasMp3Ending_append u hend, hsuffix, htext, hstrstr]
  simp only [List.map_cons, List.map_nil, List.cons.injEq, and_true, hdot, hthree]
  rw [eq_comm, @eq_comm _ 'm', @eq_comm _ 'p', @eq_comm _ '3']

/-! ## The loop over the lines -/

/-- The line names a file that is there and no directory, and ends in `.mp3`, in any case. -/
def isSong (stat : Str → Option Stat) (line : Str) : Bool :=
  (regular stat line).isSome && decide (".mp3".toList <:+ line.map Char.toLower)

/-- The line names a file that is there, and is too short for the test of the ending. -/
def tooShort (stat : Str → Option Stat) (line : Str) : Bool :=
  (regular stat line).isSome && decide (line.length < 4)

def songOf (stat : Str → Option Stat) (line : Str) : Option (Str × Stat) :=
  (regular stat line).bind fun st => if isSong stat line then some (line, st) else none

/-- A file that is there and passes the test of the ending, as it is stored. -/
def mp3Of (stat : Str → Option Stat) (line : Str) : Option (Str × Stat) :=
  (regular stat line).bind fun st => if hasMp3Ending line then some (line, st) else none

namespace Directory

theorem readLine_of_tooShort {os : Os} {line : Str} (h : tooShort os.stat line = true)
    (s : Directory × File) : readLine os s line = .error .outOfRange := by
  obtain ⟨hst, hlen⟩ := (Bool.and_eq_true _ _).mp h
  obtain ⟨st, hst⟩ := Option.isSome_iff_exists.mp hst
  rw [readLine, File.setName_of_regular hst]
  dsimp only
  rw [if_pos rfl, pushMp3, isMp3_of_short (of_decide_eq_true hlen)]
  rfl

theorem readLine_of_not_tooShort {os : Os} {line : Str} (h : ¬ tooShort os.stat line = true)
    (s : Directory × File) :
    ∃ fobj, readLine os s line = .ok (s.1.push (mp3Of os.stat line).toList, fobj) := by
  obtain ⟨d, fobj⟩ := s
  unfold readLine mp3Of
  dsimp only
  cases hst : regular os.stat line with
  | none =>
    rw [File.setName_of_not_regular hst]
    exact ⟨_, congrArg (fun d' => Except.ok (d', _)) (push_nil d).symm⟩
  | some st =>
    have hlen : 4 ≤ line.length := by
      rw [tooShort, hst] at h
      simpa using h
    rw [File.setName_of_regular hst, Option.bind_some]
    dsimp only
    rw [if_pos rfl, pushMp3, isMp3_of_long hlen]
    cases hmp3 : hasMp3Ending line with
    | false =>
      exact ⟨⟨fobj.id, line, st, true⟩,
        congrArg (fun d' => Except.ok (d', _)) (push_nil d).symm⟩
    | true => exact ⟨⟨d.nextfileid, line, st, true⟩, rfl⟩

/-- The loop appends the files that pass the test of the ending, if no line is too short. -/
theorem foldlM_readLine_mp3_iff (os : Os) {ls : List Str} (s : Directory × File) (d' : Directory) :
    (ls.foldlM (readLine os) s).map (·.1) = .ok d' ↔
      (∀ l ∈ ls, ¬ tooShort os.stat l = true) ∧ s.1.push (ls.filterMap (mp3Of os.stat)) = d' := by
  induction ls generalizing s with
  | nil =>
    rw [List.filterMap_nil, push_nil]
    exact ⟨fun h => ⟨nofun, Except.ok.inj h⟩, fun h => congrArg _ h.2⟩
  | cons l ls ih =>
    rw [List.foldlM_cons, List.forall_mem_cons]
    by_cases hshort : tooShort os.stat l = true
    · rw [readLine_of_tooShort hshort]
      exact iff_of_false nofun fun h => h.1.1 hshort
    · obtain ⟨fobj, hread⟩ := readLine_of_not_tooShort hshort s
      have hpush : (s.1.push (mp3Of os.stat l).toList).push (ls.filterMap (mp3Of os.stat)) =
          s.1.push ((l :: ls).filterMap (mp3Of os.stat)) := by
        rw [List.filterMap_cons]
        cases mp3Of os.stat l with
        | none => rw [Option.toList_none, push_nil]
        | some x => rw [Option.toList_some, push_cons]
      rw [hread, and_iff_right hshort, ← hpush]
      exact ih (s.1.push (mp3Of os.stat l).toList, fobj)

theorem mp3Of_eq {stat : Str → Option Stat} {line : Str} (hnul : '\x00' ∉ line)
    (h : ¬ tooShort stat line = true) : mp3Of stat line = songOf stat line := by
  unfold mp3Of songOf
  cases hst : regular stat line with
  | none => rfl
  | some st =>
    have hlen : 4 ≤ line.length := by
      rw [tooShort, hst] at h
      simpa using h
    have hsong : isSong stat line = hasMp3Ending line := by
      rw [Bool.eq_iff_iff, hasMp3Ending_iff hlen hnul, isSong, hst]
      exact decide_eq_true_iff
    rw [Option.bind_some, Option.bind_some, hsong]

theorem foldlM_readLine_iff (os : Os) {ls : List Str} (hnul : ∀ l ∈ ls, '\x00' ∉ l)
    (s : Directory × File) (d' : Directory) :
    (ls.foldlM (readLine os) s).map (·.1) = .ok d' ↔
      (∀ l ∈ ls, ¬ tooShort os.stat l = true) ∧ s.1.push (ls.filterMap (songOf os.stat)) = d' := by
  rw [foldlM_readLine_mp3_iff]
  refine and_congr_right fun hlong => ?_
  rw [List.filterMap_congr fun l hl => mp3Of_eq (hnul l hl) (hlong l hl)]

end Directory

theorem map_songOf (stat : Str → Option Stat) (ls : List Str) :
    (ls.filterMap (songOf stat)).map (·.1) = ls.filter (isSong stat) := by
  induction ls with
  | nil => rfl
  | cons l ls ih =>
    rw [List.filter_cons]
    split
    · next hsong =>
      obtain ⟨st, hst⟩ := Option.isSome_iff_exists.mp ((Bool.and_eq_true _ _).mp hsong).1
      have hl : songOf stat l = some (l, st) := by
        rw [songOf, hst, Option.bind_some, if_pos hsong]
      rw [List.filterMap_cons_some hl, List.map_cons, ih]
    · next hsong =>
      have hl : songOf stat l = none := by
        rw [songOf]
        simp only [if_neg hsong, Option.bind_fun_none]
      rw [List.filterMap_cons_none hl, ih]

/-- The numbers of the songs go on from the counter, as long as it does not run over. -/
theorem numbered_eq_zipIdx_iff {id : BitVec 32} {l : List (Str × Stat)} {names : List Str} :
    (numbered id l).map (fun f => (f.name, f.id.toNat)) = names.zipIdx id.toNat ↔
      l.map (·.1) = names ∧ id.toNat + names.length ≤ 2 ^ 32 := by
  induction l generalizing id names with
  | nil =>
    cases names with
    | nil => exact iff_of_true rfl ⟨rfl, id.isLt.le⟩
    | cons n names => exact iff_of_false nofun fun h => nomatch h.1
  | cons x l ih =>
    cases names with
    | nil => exact iff_of_false nofun fun h => nomatch h.1
    | cons n names =>
      have hlt := id.isLt
      rw [List.zipIdx_cons, List.map_cons, List.length_cons]
      show (x.1, id.toNat) :: (numbered (id + 1) l).map _ = _ ↔ _
      rw [List.cons_eq_cons, List.cons_eq_cons, Prod.mk.injEq, and_iff_left rfl, and_assoc]
      refine and_congr_right fun _ => ?_
      by_cases hover : id.toNat + 1 < 2 ^ 32
      · have hnext : (id + 1).toNat = id.toNat + 1 := by
          rw [BitVec.toNat_add]
          exact Nat.mod_eq_of_lt hover
        rw [← hnext, ih, hnext, Nat.add_assoc, Nat.add_comm 1]
      · -- the number behind the last one of 32 bits is 0
        cases l with
        | nil =>
          cases names with
          | nil => exact iff_of_true rfl ⟨rfl, by rw [List.length_nil]; omega⟩
          | cons m names => exact iff_of_false nofun fun h => nomatch h.1
        | cons y l =>
          cases names with
          | nil => exact iff_of_false nofun fun h => nomatch h.1
          | cons m names =>
            refine iff_of_false (fun h => ?_) fun h => ?_
            · have hid : (id + 1).toNat = id.toNat + 1 := (Prod.mk.inj (List.cons.inj h).1).2
              exact hover (hid ▸ (id + 1).isLt)
            · have hlen := h.2
              rw [List.length_cons] at hlen
              omega

/-! ## The whole file -/

namespace Directory
variable {d : Directory} {os : Os} {content : Str}

/-- The list file is read: for the first time, or since it has changed. -/
def Reloads (d : Directory) (os : Os) : Prop :=
  d.lastupdate = 0 ∨
    d.lastupdate < ((File.new os.memory []).setName os.stat d.dirname).1.getCtime os.stat

def cleared (d : Directory) (os : Os) : Directory :=
  { d with
    lastupdate := ((File.new os.memory []).setName os.stat d.dirname).1.getCtime os.stat
    list := [] }

theorem nul_notMem_listLines (hnul : '\x00' ∉ content) :
    ∀ l ∈ (lines content).takeWhile (FitsIn bufferSize) ++ [lastPass bufferSize (lines content)],
      '\x00' ∉ l := by
  have hline : ∀ l ∈ lines content, '\x00' ∉ l :=
    fun l hl hc => hnul ((notMem_of_mem_lines hl).2 hc)
  intro l hl
  rcases List.mem_append.mp hl with hl | hl
  · exact hline l ((List.takeWhile_sublist _).subset hl)
  · rw [List.mem_singleton.mp hl]
    rcases lastPass_cases bufferSize (lines content) with hlast | ⟨-, l', hl', hsub⟩
    · rw [hlast]
      exact List.not_mem_nil
    · exact fun hc => hline l' hl' (hsub hc)

theorem lastPass_not_tooShort (stat : Str → Option Stat) (ls : List Str) :
    ¬ tooShort stat (lastPass bufferSize ls) = true := by
  rcases lastPass_cases bufferSize ls with hlast | ⟨hlen, -⟩
  · rw [hlast]
    exact Bool.false_ne_true
  · rw [tooShort, hlen, Bool.and_eq_true]
    exact fun h => absurd h.2 (by decide)

theorem update_ok_iff (hfile : d.fromfile = true) (hload : d.Reloads os)
    (hnul : '\x00' ∉ content) (d' : Directory) : d.Update os (some content) (.ok d') ↔
      (∀ l ∈ (lines content).takeWhile (FitsIn bufferSize), ¬ tooShort os.stat l = true) ∧
        (d.cleared os).push (((lines content).takeWhile (FitsIn bufferSize) ++
          [lastPass bufferSize (lines content)]).filterMap (songOf os.stat)) = d' := by
  have hcut : listLines content = (lines content).takeWhile (FitsIn bufferSize) ++
      [lastPass bufferSize (lines content)] :=
    (List.map_congr_left fun l hl => cStr_eq_self (nul_notMem_listLines hnul l hl)).trans
      (List.map_id _)
  have hfold := foldlM_readLine_iff os (nul_notMem_listLines hnul)
    (d.cleared os, ((File.new os.memory []).setName os.stat d.dirname).1) d'
  rw [List.forall_mem_append, List.forall_mem_singleton,
    and_iff_left (lastPass_not_tooShort os.stat _)] at hfold
  rw [← hfold, update_listLines d os _ hfile, update, if_pos hfile, loadFile]
  dsimp only
  unfold Reloads at hload
  rw [if_pos hload, Option.map_some, hcut, eq_comm]
  rfl

/-- **The new list is that of the file** exactly if no line in front of the first one that does not
fit is too short, this one and the ones behind it name the same songs as what fits of it does, and
the numbers do not run over. -/
theorem list_loaded_iff (hfile : d.fromfile = true) (hload : d.Reloads os)
    (hnul : '\x00' ∉ content) :
    (∃ d', d.Update os (some content) (.ok d') ∧ d'.list.map (fun f => (f.name, f.id.toNat)) =
      ((lines content).filter (isSong os.stat)).zipIdx d.nextfileid.toNat) ↔
    (∀ l ∈ (lines content).takeWhile (FitsIn bufferSize), ¬ tooShort os.stat l = true) ∧
      [lastPass bufferSize (lines content)].filter (isSong os.stat) =
        ((lines content).dropWhile (FitsIn bufferSize)).filter (isSong os.stat) ∧
      d.nextfileid.toNat + ((lines content).filter (isSong os.stat)).length ≤ 2 ^ 32 := by
  simp only [update_ok_iff hfile hload hnul, and_assoc, exists_and_left, exists_eq_left']
  refine and_congr_right fun _ => ?_
  show (numbered d.nextfileid _).map _ = _ ↔ _
  rw [numbered_eq_zipIdx_iff, map_songOf, List.filter_append]
  refine and_congr_left fun _ => ?_
  conv_lhs =>
    rhs
    rw [← List.takeWhile_append_dropWhile (p := FitsIn bufferSize) (l := lines content)]
  rw [List.filter_append, List.append_cancel_left_eq]

def listShare : Directory :=
  ⟨"s".toList, "Share".toList, "/l".toList, 7, 0, [], false, true⟩

def listOs : Os where
  readdir := none
  stat := fun path =>
    if path ∈ ["/a.MP3".toList, "/b.mp3".toList, "/b".toList, "/l".toList] then some ⟨false, 5⟩
    else if path = "/d.mp3".toList then some ⟨true, 5⟩ else none
  lines := none
  time := 9
  sort := .insertion
  memory := ⟨0, [], .zero, false⟩

/-- The directory and the song that is not there are left out. -/
theorem list_loaded_two : ∃ d',
    listShare.Update listOs (some "/b.mp3\n/c.mp3\n/d.mp3\n/a.MP3\n".toList) (.ok d') ∧
      d'.list.map (fun f => (f.name, f.id.toNat)) = [("/b.mp3".toList, 7), ("/a.MP3".toList, 8)] := by
  have hload : listShare.Reloads listOs := .inl rfl
  have hnul : '\x00' ∉ "/b.mp3\n/c.mp3\n/d.mp3\n/a.MP3\n".toList := by decide
  obtain ⟨d', hread, hlist⟩ := (list_loaded_iff rfl hload hnul).mpr
    ⟨by decide, by decide, by decide⟩
  exact ⟨d', hread, hlist.trans (by decide)⟩

/-- A file with a short name stands in the list. -/
theorem list_throws : ¬ ∃ d',
    listShare.Update listOs (some "/b\n/b.mp3\n".toList) (.ok d') := by
  have hload : listShare.Reloads listOs := .inl rfl
  rintro ⟨d', hread⟩
  have hshort := ((update_ok_iff rfl hload (by decide) d').mp hread).1
  exact hshort "/b".toList (by decide) (by decide)

end Directory

end NetDJ.Daemon
