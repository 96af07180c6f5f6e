import NetDJ.Lib.Turns
import NetDJ.Daemon.Playlist

/-!
# What `GetEntries` shows is what comes next

The web page shows the front of a playlist. Each scan sorts the whole list anew, with a sort that is
not stable, but a song that is found later has a later ctime.

* `Playlist.steps_of_run` : a run moves the feed of the list;
* `Playlist.shown_next` : the songs on a page are the next ones, up to those of one second.
-/

namespace NetDJ.Daemon

namespace Playlist

variable {dirname : Str}

theorem Good.steps {s t : Playlist} {op : Op dirname} (hs : Good dirname s)
    (h : s.step op = some t) :
    Relation.ReflTransGen (Feed.Step (.upTo Int) ctime File.name) s.feed t.feed := by
  obtain rfl | ⟨o, -, hc, song, rest, hl, rfl⟩ := step_cases hs.reads h
  · exact .refl
  · have hscan := Relation.ReflTransGen.single (hs.absorb hc)
    cases song with
    | none =>
      obtain rfl : rest = (s.scan o).dir.list := hl
      have hsame : ((s.scan o).take none (s.scan o).dir.list).feed = (s.scan o).feed := by
        unfold Playlist.take feed
        rw [Option.toList_none, List.append_nil]
      exact hsame ▸ hscan
    | some f => exact hscan.tail (Feed.Step.take (s.scan o).feed f rest hl.symm)

theorem steps_of_run {s t : Playlist} {ops : List (Op dirname)} (hs : Good dirname s)
    (h : Machine.run step s ops = some t) :
    Relation.ReflTransGen (Feed.Step (.upTo Int) ctime File.name) s.feed t.feed := by
  induction ops generalizing s with
  | nil =>
    cases h
    exact .refl
  | cons op ops ih =>
    obtain ⟨u, hstep, hrun⟩ := Option.bind_eq_some_iff.mp h
    exact (hs.steps hstep).trans (ih (hs.step hstep) hrun)

/-- **The songs that `GetEntries` shows are handed out next, whatever is found in between: nothing
else comes before they are through, they come in the order of their ctimes, and as they are shown if
no two songs of the list have the same.** -/
theorem shown_next {d : Directory} (hd : Reads dirname d) {clock : Int} {s t : Playlist}
    {before after : List (Op dirname)}
    (hbefore : Machine.run step (start d clock) before = some s)
    (hafter : Machine.run step s after = some t) (max : Nat) :
    ∃ later, t.returned = s.returned ++ later ∧
      (∀ f ∈ later.take s.dir.list.length, f ∈ s.dir.list) ∧
      (later.take (s.dir.getEntries max).length).map (·.stat_buf.st_ctime) =
        ((s.dir.getEntries max).take later.length).map (·.stat_buf.st_ctime) ∧
      ((s.dir.list.map (·.stat_buf.st_ctime)).Nodup →
        later.take (s.dir.getEntries max).length =
          (s.dir.getEntries max).take later.length) := by
  have hs := good_of_run (good_start hd clock) hbefore
  obtain ⟨ht, later, new, hsince⟩ := Feed.exists_since hs.ordered (steps_of_run hs hafter)
  have hshown : s.dir.getEntries max = s.dir.list.take max := if_pos hs.reads.playlist
  have hlen : (s.dir.list.take max).length ≤ s.dir.list.length := List.length_take_le' max _
  have hfront : s.dir.list.take (s.dir.list.take max).length = s.dir.list.take max := by
    rw [List.length_take, ← List.take_take, List.take_length]
  rw [hshown]
  refine ⟨later, hsince.taken, fun f hf => hsince.mem_of_mem_take hs.ordered ht hf, ?_, ?_⟩
  · have hkeys := hsince.keys_eq hs.ordered ht hlen
    change _ = ((s.dir.list.take _).take _).map ctime at hkeys
    rw [hfront] at hkeys
    exact hkeys
  · intro hdiffer
    have heq := hsince.take_eq hs.ordered ht hlen hdiffer
    change _ = (s.dir.list.take _).take _ at heq
    rw [hfront] at heq
    exact heq

/-- The older of two songs is shown, and comes next. -/
theorem shown_next_twoSongs : ∃ s t,
    Machine.run step (start queue 0) [.call .getSize twoSongs] = some s ∧
    Machine.run step s [.call (.getSong 0) twoSongs] = some t ∧
    (s.dir.getEntries 1).map File.name = ["/q/a.MP3".toList] ∧
    t.returned.map File.name = ["/q/a.MP3".toList] ∧
    ∃ later, t.returned = s.returned ++ later ∧
      later.take 1 = (s.dir.getEntries 1).take later.length := by
  have hq : Reads "/q/".toList queue := ⟨rfl, rfl, rfl, by decide⟩
  refine ⟨_, _, rfl, rfl, by decide, by decide, ?_⟩
  obtain ⟨later, htaken, -, -, hdiffer⟩ := @shown_next _ queue hq 0 _ _ [.call .getSize twoSongs]
    [.call (.getSong 0) twoSongs] rfl rfl 1
  exact ⟨later, htaken, hdiffer (by decide)⟩

end Playlist

end NetDJ.Daemon
