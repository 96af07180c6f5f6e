import NetDJ.Daemon.Progress
import NetDJ.Daemon.Sprintf

/-!
# `Directory.cc`: the numbers of the songs

A list gives each song the next number of its counter, an `int`.

* `Directory.mem_listed` : the songs of a list are those it had and those that `Update` numbers;
* `Directory.Counted` : the counter is small, and so are the numbers and the size of the list;
* `Directory.Counted.call` : a call that numbers few songs keeps that, and the song it hands out has
  a small number.
-/

namespace NetDJ.Daemon

namespace Directory
variable {d d' : Directory} {os : Os}

theorem mem_listed {f : File} (h : f ∈ d.listed os) :
    f ∈ d.list ∨ f ∈ numbered d.nextfileid (d.fresh os) := by
  by_cases hfile : d.fromfile = true
  · unfold listed at h
    unfold fresh
    rw [if_pos hfile] at h ⊢
    split at h
    · next hload =>
      rw [if_pos hload]
      exact .inr h
    · exact .inl h
  · exact List.mem_append.mp
      ((listed_perm (Bool.eq_false_of_not_eq_true hfile) os).mem_iff.mp h)

theorem length_listed_le (d : Directory) (os : Os) :
    (d.listed os).length ≤ d.list.length + (d.fresh os).length := by
  by_cases hfile : d.fromfile = true
  · unfold listed fresh
    rw [if_pos hfile, if_pos hfile]
    split
    · rw [length_numbered]
      exact Nat.le_add_left _ _
    · exact Nat.le_add_right _ _
  · rw [(listed_perm (Bool.eq_false_of_not_eq_true hfile) os).length_eq, List.length_append,
      length_numbered]

/-- The counter is still small, the list is no longer than it says, and the ids are narrow. -/
structure Counted (d : Directory) : Prop where
  counter : d.nextfileid.toNat < 10 ^ 9
  length : d.list.length ≤ d.nextfileid.toNat
  ids : ∀ f ∈ d.list, Narrow f.id.toInt

theorem narrow_of_toNat {x : BitVec 32} (h : x.toNat < 10 ^ 9) : Narrow x.toInt := by
  rw [BitVec.toInt_eq_toNat_of_lt (by omega)]
  exact narrow_of_lt h

theorem toNat_counter {x : BitVec 32} {k : Nat} (h : x.toNat + k < 10 ^ 9) :
    (x + BitVec.ofNat 32 k).toNat = x.toNat + k := by
  rw [BitVec.toNat_add, BitVec.toNat_ofNat]
  omega

theorem narrow_numbered {id : BitVec 32} {l : List (Str × Stat)} (h : id.toNat + l.length < 10 ^ 9)
    {f : File} (hf : f ∈ numbered id l) : Narrow f.id.toInt := by
  have hmem : f.id ∈ (numbered id l).map (·.id) := List.mem_map_of_mem hf
  rw [ids_numbered] at hmem
  obtain ⟨k, hk, hid⟩ := List.mem_map.mp hmem
  rw [List.mem_range] at hk
  rw [← hid]
  apply narrow_of_toNat
  rw [toNat_counter (by omega)]
  omega

theorem Counted.update (hd : d.Counted)
    (hfew : d.nextfileid.toNat + (d.fresh os).length < 10 ^ 9) (h : d.update os = .ok d') :
    d'.Counted := by
  obtain ⟨-, hid, hlist, -⟩ := of_update h
  have hlen := length_listed_le d os
  have hcounter : d'.nextfileid.toNat = d.nextfileid.toNat + (d.fresh os).length := by
    rw [hid, toNat_counter hfew]
  refine ⟨by omega, ?_, fun f hf => ?_⟩
  · have := hd.length
    rw [hlist]
    omega
  · rw [hlist] at hf
    rcases mem_listed hf with hf | hf
    · exact hd.ids f hf
    · exact narrow_numbered hfew hf

end Directory

namespace Call
variable {c : Call} {d e : Directory} {os : Os} {song : Option File}

theorem run_eq_map (hc : ∀ rand, c ≠ .getSong rand) (d : Directory) (os : Os) :
    c.run d os = (d.update os).map fun d => (d, none) := by
  cases c with
  | getSong rand => exact absurd rfl (hc rand)
  | update => rfl
  | empty =>
    rw [run, Directory.empty]
    cases d.update os <;> rfl
  | getSize =>
    rw [run, Directory.getSize]
    cases d.update os <;> rfl

/-- What a call hands out has been on the list behind its `Update`, and so has what it leaves. -/
theorem of_run (h : c.run d os = .ok (e, song)) : ∃ d', d.update os = .ok d' ∧
    e.nextfileid = d'.nextfileid ∧ e.list.Sublist d'.list ∧ ∀ f ∈ song, f ∈ d'.list := by
  by_cases hc : ∀ rand, c ≠ .getSong rand
  · rw [run_eq_map hc] at h
    obtain ⟨d', hd, he⟩ := map_eq_ok.mp h
    cases he
    exact ⟨_, hd, rfl, List.Sublist.refl _, nofun⟩
  · simp only [not_forall, not_not] at hc
    obtain ⟨rand, rfl⟩ := hc
    obtain ⟨d', hd, hres⟩ := Directory.of_getSong h
    refine ⟨d', hd, ?_⟩
    obtain ⟨-, rfl, rfl⟩ | ⟨song, rfl, ⟨-, rest, hl, rfl⟩ | ⟨-, hpick, rfl⟩⟩ := hres
    · exact ⟨rfl, List.Sublist.refl _, nofun⟩
    · rw [hl]
      refine ⟨rfl, List.sublist_cons_self _ _, fun f hf => ?_⟩
      obtain rfl := Option.some.inj hf
      exact List.mem_cons_self
    · refine ⟨rfl, List.Sublist.refl _, fun f hf => ?_⟩
      obtain rfl := Option.some.inj hf
      exact List.mem_of_getElem? hpick

end Call

theorem Directory.Counted.call {c : Call} {d e : Directory} {os : Os} {song : Option File}
    (hd : d.Counted) (hfew : d.nextfileid.toNat + (d.fresh os).length < 10 ^ 9)
    (h : c.run d os = .ok (e, song)) : e.Counted ∧ ∀ f ∈ song, Narrow f.id.toInt := by
  obtain ⟨d', hupd, hid, hsub, hsong⟩ := Call.of_run h
  have hd' := hd.update hfew hupd
  refine ⟨⟨?_, ?_, fun f hf => hd'.ids f (hsub.subset hf)⟩, fun f hf => hd'.ids f (hsong f hf)⟩
  · rw [hid]
    exact hd'.counter
  · rw [hid]
    exact hsub.length_le.trans hd'.length

end NetDJ.Daemon
