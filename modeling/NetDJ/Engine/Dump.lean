import NetDJ.Engine.Configuration
import NetDJ.Engine.Levels

/-!
# `Configuration.cpp`, `main.cpp`: settings from the command line, and `--dump`

* `Configuration.getInteger`, `getBool`, `setInteger`, `setBool` : settings as numbers and truth
  values;
* `Configuration.dump` : the lines that `--dump` prints, as C strings;
* `mainConfig` : the settings of a process;
* `Written` : names and values that a line can set;
* `Printable` : what a C string can hold;
* `dump_reads` : a process that reads the dump of another one has its settings exactly if they can
  be printed and no name begins with `#`, which reads as a comment.
-/

namespace NetDJ.Engine

/-- What `cout` prints of a `QString`, which is converted to `const char *`. -/
def printed (s : Str) : Str := cStr (ascii s)

namespace Configuration

def getString (c : Configuration) (str : Str) : Str := (c.mConfig.lookup str).getD []

def getInteger (c : Configuration) (str : Str) : Int := toInt (c.getString str)

def getBool (c : Configuration) (str : Str) : Bool :=
  c.getInteger str = 1 || c.getString str = "true".toList

def setString (c : Configuration) (str val : Str) : Configuration := ⟨c.mConfig.insert str val⟩

def setBool (c : Configuration) (str : Str) (val : Bool) : Configuration :=
  c.setString str (if val then "true".toList else "false".toList)

/-- `SetInteger`, with `QString::setNum`. -/
def setInteger (c : Configuration) (str : Str) (val : Int) : Configuration :=
  c.setString str (Daemon.decimal val)

def line (e : Str × Str) : Str :=
  printed e.1 ++ " = ".toList ++ if e.2 = [] then "<null>".toList else printed e.2

def dump (c : Configuration) : List Str := (StdMap.sorted c.mConfig).map line

end Configuration

/-- The settings of a process with the options `--port` and `--daemon`, 0 where they are not given;
`none` if there is no configuration file. -/
def mainConfig (env : ConfFiles) (port daemon : Int) : Option Configuration :=
  let (ok, gConfig) := Configuration.new.init env []
  if ok then
    let gConfig := if port ≠ 0 then gConfig.setInteger "SERVER_PORT".toList port else gConfig
    some (if daemon ≠ 0 then gConfig.setBool "DAEMON_MODE".toList true else gConfig)
  else none

/-! ## What is set -/

/-- A line can set the name to the value. -/
structure Settable (k v : Str) : Prop where
  name_ne : k ≠ []
  name_eq : '=' ∉ k
  name_strip : stripWhiteSpace k = k
  value_ne : v ≠ []
  value_strip : stripWhiteSpace v = v

/-- Every setting but the directory could come from a line, and every default is set. -/
structure Written (c : Configuration) : Prop where
  settable : ∀ k v, k ≠ "CONFIG_DIR".toList → c.mConfig.lookup k = some v → Settable k v
  default : ∀ k, k ≠ "CONFIG_DIR".toList → c.mConfig.lookup k = none → defValue k = none

/-- What a C string can hold. -/
def Printable (s : Str) : Prop := ∀ c ∈ s, c.toNat < 256 ∧ c ≠ '\x00'

instance (s : Str) : Decidable (Printable s) := inferInstanceAs (Decidable (∀ c ∈ s, _))

theorem settable_default : ∀ e ∈ gDefValues, e.1 ≠ [] ∧ '=' ∉ e.1 ∧ stripWhiteSpace e.1 = e.1 ∧
    e.2 ≠ [] ∧ stripWhiteSpace e.2 = e.2 := by decide

theorem printable_default : ∀ e ∈ gDefValues, e.1.head? ≠ some '#' ∧ Printable e.1 ∧
    Printable e.2 := by decide

theorem mem_of_defValue {k v : Str} (h : defValue k = some v) : (k, v) ∈ gDefValues := by
  obtain ⟨e, he, rfl⟩ := Option.map_eq_some_iff.mp h
  obtain rfl : e.1 = k := by simpa using List.find?_some he
  exact List.mem_of_find?_eq_some he

theorem exists_pad (s : Str) : ∃ ws ws', s = ws ++ stripWhiteSpace s ++ ws' ∧
    (∀ c ∈ ws, isSpace c = true) ∧ ∀ c ∈ ws', isSpace c = true := by
  set t := s.dropWhile isSpace with ht
  refine ⟨s.takeWhile isSpace, (t.reverse.takeWhile isSpace).reverse, ?_,
    fun c hc => List.mem_takeWhile_imp hc,
    fun c hc => List.mem_takeWhile_imp (List.mem_reverse.mp hc)⟩
  have hback : stripWhiteSpace s ++ (t.reverse.takeWhile isSpace).reverse = t := by
    rw [stripWhiteSpace, ← List.reverse_append, List.takeWhile_append_dropWhile,
      List.reverse_reverse]
  rw [List.append_assoc, hback, ht, List.takeWhile_append_dropWhile]

theorem stripWhiteSpace_idem (s : Str) : stripWhiteSpace (stripWhiteSpace s) = stripWhiteSpace s := by
  obtain ⟨ws, ws', hs, hws, hws'⟩ := exists_pad s
  conv_rhs => rw [hs]
  exact (stripWhiteSpace_pad hws hws').symm

theorem head_stripWhiteSpace {c : Char} (h : isSpace c = false) (s : Str) :
    (stripWhiteSpace (c :: s)).head? = some c := by
  obtain ⟨ws, ws', hs, hws, hws'⟩ := exists_pad (c :: s)
  cases ws with
  | cons x ws =>
    obtain rfl := (List.cons.inj hs).1
    rw [hws c List.mem_cons_self] at h
    cases h
  | nil =>
    rw [List.nil_append] at hs
    cases hstrip : stripWhiteSpace (c :: s) with
    | nil =>
      rw [hstrip, List.nil_append] at hs
      rw [hws' c (hs ▸ List.mem_cons_self)] at h
      cases h
    | cons x t =>
      rw [hstrip] at hs
      rw [(List.cons.inj hs).1]
      rfl

theorem isSpace_of_stripped {c : Char} {s : Str} (h : stripWhiteSpace (c :: s) = c :: s) :
    isSpace c = false := by
  by_contra hc
  rw [Bool.not_eq_false] at hc
  have hpad := @stripWhiteSpace_pad [c] s [] (by simpa using hc) (by simp)
  have hle : (stripWhiteSpace s).length ≤ s.length := by
    unfold stripWhiteSpace
    rw [List.length_reverse]
    refine (List.dropWhile_sublist _).length_le.trans ?_
    rw [List.length_reverse]
    exact (List.dropWhile_sublist _).length_le
  rw [List.append_nil, List.singleton_append, h] at hpad
  rw [← hpad, List.length_cons] at hle
  omega

theorem Sets.settable {line k v : Str} (h : Sets line k v) : Settable k v := by
  obtain ⟨-, hk, hv, a, b, -, ha, rfl, rfl⟩ := h
  exact ⟨hk, fun hmem => ha (stripWhiteSpace_subset a hmem), stripWhiteSpace_idem a, hv,
    stripWhiteSpace_idem b⟩

theorem written_init {env : ConfFiles} {c : Configuration}
    (h : Configuration.new.init env [] = (true, c)) : Written c := by
  have hc : c = (Configuration.new.init env []).2 := by rw [h]
  cases hopen : env.open with
  | none =>
    rw [Configuration.init, hopen] at h
    cases h
  | some file =>
    obtain ⟨name, lines⟩ := file
    have hlookup : ∀ k, k ≠ "CONFIG_DIR".toList →
        c.mConfig.lookup k = (lastEntry entry lines k).or (defValue k) := by
      intro k hk
      rw [hc, Configuration.new.init_lookup hopen [] hk,
        show Configuration.new.mConfig.lookup k = none from AList.lookup_empty k, Option.or_none]
    refine ⟨fun k v hk hv => ?_, fun k hk hnone => ?_⟩
    · rw [hlookup k hk, Option.or_eq_some_iff] at hv
      rcases hv with hv | ⟨-, hv⟩
      · obtain ⟨line, -, hentry⟩ := exists_of_lastEntry hv
        exact (entry_eq_some.mp hentry).settable
      · obtain ⟨hname, heq, hstrip, hvalue, hvstrip⟩ := settable_default _ (mem_of_defValue hv)
        exact ⟨hname, heq, hstrip, hvalue, hvstrip⟩
    · rw [hlookup k hk] at hnone
      exact (Option.or_eq_none_iff.mp hnone).2

theorem Written.setString {c : Configuration} (hc : Written c) {k v : Str} (h : Settable k v) :
    Written (c.setString k v) := by
  refine ⟨fun k' v' hk' hv => ?_, fun k' hk' hnone => ?_⟩
  · by_cases hk : k' = k
    · subst hk
      rw [Configuration.setString, AList.lookup_insert] at hv
      cases hv
      exact h
    · rw [Configuration.setString, AList.lookup_insert_ne hk] at hv
      exact hc.settable k' v' hk' hv
  · by_cases hk : k' = k
    · subst hk
      rw [Configuration.setString, AList.lookup_insert] at hnone
      cases hnone
    · rw [Configuration.setString, AList.lookup_insert_ne hk] at hnone
      exact hc.default k' hk' hnone

theorem settable_decimal {k : Str} (hk : k ≠ [] ∧ '=' ∉ k ∧ stripWhiteSpace k = k) (n : Int) :
    Settable k (Daemon.decimal n) := by
  exact ⟨hk.1, hk.2.1, hk.2.2, Daemon.decimal_ne_nil n, stripWhiteSpace_eq_self isSpace_decimal⟩

theorem written_main {env : ConfFiles} {port daemon : Int} {c : Configuration}
    (h : mainConfig env port daemon = some c) : Written c := by
  unfold mainConfig at h
  cases hinit : Configuration.new.init env [] with
  | mk ok c₀ =>
    rw [hinit] at h
    obtain ⟨hok, he⟩ := Option.ite_none_right_eq_some.mp h
    rw [hok] at hinit
    have hc₀ := written_init hinit
    have hport : Written (if port ≠ 0 then c₀.setInteger "SERVER_PORT".toList port else c₀) := by
      split
      · exact hc₀.setString (settable_decimal (by decide) port)
      · exact hc₀
    cases he
    split
    · exact hport.setString ⟨by decide, by decide, by decide, by decide, by decide⟩
    · exact hport

/-! ## The dump -/

theorem Printable.printed_eq {s : Str} (h : Printable s) : printed s = s := by
  rw [printed, ascii_eq_self fun c hc => (h c hc).1, cStr_eq_self fun hc => (h _ hc).2 rfl]

theorem printable_printed (s : Str) : Printable (printed s) := by
  intro c hc
  refine ⟨?_, ne_of_mem_of_not_mem hc (nul_notMem_cStr _)⟩
  obtain ⟨x, -, rfl⟩ := List.mem_map.mp ((List.takeWhile_subset _) hc)
  split
  · assumption
  · decide

theorem printable_line (e : Str × Str) : Printable (Configuration.line e) := by
  intro c hc
  rcases List.mem_append.mp hc with hc | hc
  · rcases List.mem_append.mp hc with hc | hc
    · exact printable_printed e.1 c hc
    · exact (show Printable " = ".toList by decide) c hc
  · split at hc
    · exact (show Printable "<null>".toList by decide) c hc
    · exact printable_printed e.2 c hc

theorem eq_notMem_printed {s : Str} (h : '=' ∉ s) : '=' ∉ printed s := by
  intro hc
  obtain ⟨x, hx, he⟩ := List.mem_map.mp ((List.takeWhile_subset _) hc)
  split at he
  · exact h (he ▸ hx)
  · exact absurd he (by decide)

theorem head_printed {x c : Char} {t s : Str} (h : printed (x :: t) = c :: s) : c = x ∨ c = '?' := by
  have hmap : (ascii (x :: t)).head? = some c := by
    obtain ⟨t', ht⟩ := exists_cStr_append (ascii (x :: t))
    rw [ht, show cStr (ascii (x :: t)) = c :: s from h]
    rfl
  rw [ascii, List.map_cons, List.head?_cons, Option.some.injEq] at hmap
  split at hmap
  · exact .inl hmap.symm
  · exact .inr hmap.symm

theorem line_eq (e : Str × Str) : Configuration.line e = (printed e.1 ++ [' ']) ++ '=' ::
    (' ' :: if e.2 = [] then "<null>".toList else printed e.2) := by
  unfold Configuration.line
  rw [List.append_assoc, List.append_assoc]
  rfl

/-- What a line of the dump makes: the setting it was printed from, unless it reads as a comment. -/
theorem entry_line {k v : Str} (h : Settable k v) (hk : Printable k) (hv : Printable v) :
    entry (Configuration.line (k, v)) = if k.head? = some '#' then none else some (k, v) := by
  have hline : Configuration.line (k, v) = (k ++ [' ']) ++ '=' :: ([' '] ++ v) := by
    rw [line_eq, if_neg h.value_ne, hk.printed_eq, hv.printed_eq]
    rfl
  have hhead : (Configuration.line (k, v)).head? = k.head? := by
    rw [hline, List.append_assoc, List.head?_append_of_ne_nil _ h.name_ne]
  split
  · next hcomment =>
    unfold entry
    dsimp only
    rw [if_neg]
    exact fun hnot => hnot.1 (.inr (hhead.trans hcomment))
  · next hcomment =>
    rw [entry_eq_some]
    refine ⟨by rwa [hhead], h.name_ne, h.value_ne, _, _, hline, ?_, ?_, ?_⟩
    · simp [h.name_eq]
    · have hpad := @stripWhiteSpace_pad [] k [' '] (by simp) (by decide)
      rw [List.nil_append] at hpad
      rw [hpad, h.name_strip]
    · have hpad := @stripWhiteSpace_pad [' '] v [] (by decide) (by simp)
      rw [List.append_nil] at hpad
      rw [hpad, h.value_strip]

/-- The line of a name sets what is printed of the name, and no other one. -/
theorem entry_line_key {e : Str × Str} {k v : Str} (hname : '=' ∉ e.1)
    (h : entry (Configuration.line e) = some (k, v)) : k = stripWhiteSpace (printed e.1) := by
  obtain ⟨-, -, -, a, b, hline, ha, rfl, -⟩ := entry_eq_some.mp h
  have hsplit := congrArg (fun s => qsection s '=' 0 (some 0)) (hline.symm.trans (line_eq e))
  rw [qsection_zero_append ha, qsection_zero_append (by simp [eq_notMem_printed hname])] at hsplit
  have hpad := @stripWhiteSpace_pad [] (printed e.1) [' '] (by simp) (by decide)
  rw [List.nil_append] at hpad
  rw [hsplit, hpad]

/-- What is set from a line of the dump is printable, and its name begins with no `#`. -/
theorem printable_entry {e : Str × Str} {k v : Str} (hname : '=' ∉ e.1)
    (hstrip : stripWhiteSpace e.1 = e.1) (h : entry (Configuration.line e) = some (k, v)) :
    k.head? ≠ some '#' ∧ Printable k ∧ Printable v := by
  have hkey := entry_line_key hname h
  obtain ⟨hhead, hk, -, a, b, hline, -, ha, rfl⟩ := entry_eq_some.mp h
  have hmem := printable_line e
  rw [hline] at hmem
  refine ⟨?_, fun c hc => ?_, fun c hc => ?_⟩
  · cases hp : printed e.1 with
    | nil =>
      rw [hp] at hkey
      exact absurd hkey hk
    | cons c s =>
      -- the name is stripped, so that its first character stands at the front of the line
      have hspace : isSpace c = false := by
        cases he : e.1 with
        | nil =>
          rw [he] at hp
          cases hp
        | cons x t =>
          rw [he] at hp hstrip
          rcases head_printed hp with rfl | rfl
          · exact isSpace_of_stripped hstrip
          · decide
      rw [hkey, hp, head_stripWhiteSpace hspace]
      rwa [line_eq, hp] at hhead
  · exact hmem c (List.mem_append_left _ (stripWhiteSpace_subset a (ha ▸ hc)))
  · exact hmem c (List.mem_append_right _ (List.mem_cons_of_mem _ (stripWhiteSpace_subset b hc)))

theorem Written.stripped {c : Configuration} (hc : Written c) {e : Str × Str}
    (he : e ∈ StdMap.sorted c.mConfig) : '=' ∉ e.1 ∧ stripWhiteSpace e.1 = e.1 := by
  by_cases hdir : e.1 = "CONFIG_DIR".toList
  · rw [hdir]
    decide
  · have hset := hc.settable e.1 e.2 hdir (mem_sorted.mp he)
    exact ⟨hset.name_eq, hset.name_strip⟩

section Dump
variable {env' : ConfFiles} {c : Configuration} {name k v : Str}

/-- Every name but that of the directory can be printed. -/
def PrintableNames (c : Configuration) : Prop :=
  ∀ k v, k ≠ "CONFIG_DIR".toList → c.mConfig.lookup k = some v → Printable k

/-- The line of a name sets this name only, if all names can be printed. -/
theorem entry_line_ne (hc : Written c) (hnames : PrintableNames c) {e : Str × Str}
    (he : e ∈ StdMap.sorted c.mConfig) (hne : e.1 ≠ k) :
    ∀ x ∈ entry (Configuration.line e), x.1 ≠ k := by
  intro x hx hxk
  obtain ⟨hname, hstrip⟩ := hc.stripped he
  have hprint : Printable e.1 := by
    by_cases hdir : e.1 = "CONFIG_DIR".toList
    · rw [hdir]
      decide
    · exact hnames e.1 e.2 hdir (mem_sorted.mp he)
  have hkey := entry_line_key hname hx
  rw [hprint.printed_eq, hstrip] at hkey
  exact hne (hkey.symm.trans hxk)

theorem lastEntry_dump (hc : Written c) (hnames : PrintableNames c) (hk : k ≠ "CONFIG_DIR".toList)
    (hv : ∀ v, c.mConfig.lookup k = some v → Printable v) :
    lastEntry entry c.dump k = if k.head? = some '#' then none else c.mConfig.lookup k := by
  have hother : ∀ l : List (Str × Str), (∀ e ∈ l, e ∈ StdMap.sorted c.mConfig) →
      (∀ e ∈ l, e.1 ≠ k) → ∀ line ∈ l.map Configuration.line, ∀ x ∈ entry line, x.1 ≠ k := by
    intro l hl hne line hline
    obtain ⟨e, he, rfl⟩ := List.mem_map.mp hline
    exact entry_line_ne hc hnames (hl e he) (hne e he)
  cases hlookup : c.mConfig.lookup k with
  | none =>
    rw [ite_self]
    refine lastEntry_eq_none_iff.mpr (hother _ (fun e he => he) ?_)
    rintro e he rfl
    rw [mem_sorted, hlookup] at he
    cases he
  | some v =>
    have hmem : (k, v) ∈ StdMap.sorted c.mConfig := mem_sorted.mpr hlookup
    obtain ⟨before, after, hsplit⟩ := List.append_of_mem hmem
    have hnodup := nodup_sorted c.mConfig
    rw [hsplit, List.map_append, List.map_cons, List.nodup_middle, List.nodup_cons,
      List.mem_append, not_or] at hnodup
    have hbefore : ∀ line ∈ before.map Configuration.line, ∀ x ∈ entry line, x.1 ≠ k :=
      hother before (fun e he => hsplit ▸ List.mem_append_left _ he)
        fun e he heq => hnodup.1.1 (List.mem_map.mpr ⟨e, he, heq⟩)
    have hafter : ∀ line ∈ after.map Configuration.line, ∀ x ∈ entry line, x.1 ≠ k :=
      hother after (fun e he => hsplit ▸ List.mem_append_right _ (List.mem_cons_of_mem _ he))
        fun e he heq => hnodup.1.2 (List.mem_map.mpr ⟨e, he, heq⟩)
    have hentry := entry_line (hc.settable k v hk hlookup) (hnames k v hk hlookup) (hv v hlookup)
    rw [Configuration.dump, hsplit, List.map_append, List.map_cons]
    split
    · next hcomment =>
      rw [if_pos hcomment] at hentry
      refine lastEntry_eq_none_iff.mpr fun line hline => ?_
      rcases List.mem_append.mp hline with hline | hline
      · exact hbefore line hline
      · rcases List.mem_cons.mp hline with rfl | hline
        · rw [hentry]
          exact nofun
        · exact hafter line hline
    · next hcomment =>
      rw [if_neg hcomment] at hentry
      exact lastEntry_split hentry hafter

theorem init_lookup_dump (hopen : env'.open = some (name, c.dump)) (hk : k ≠ "CONFIG_DIR".toList) :
    (Configuration.new.init env' []).2.mConfig.lookup k =
      (lastEntry entry c.dump k).or (defValue k) := by
  rw [Configuration.new.init_lookup hopen [] hk,
    show Configuration.new.mConfig.lookup k = none from AList.lookup_empty k, Option.or_none]

/-- What a process that reads the dump has set a name to can be printed. -/
theorem printable_of_init (hc : Written c) (hopen : env'.open = some (name, c.dump))
    (hk : k ≠ "CONFIG_DIR".toList)
    (hv : (Configuration.new.init env' []).2.mConfig.lookup k = some v) :
    k.head? ≠ some '#' ∧ Printable k ∧ Printable v := by
  rw [init_lookup_dump hopen hk, Option.or_eq_some_iff] at hv
  rcases hv with hv | ⟨-, hv⟩
  · obtain ⟨line, hline, hentry⟩ := exists_of_lastEntry hv
    obtain ⟨e, he, rfl⟩ := List.mem_map.mp hline
    obtain ⟨hname, hstrip⟩ := hc.stripped he
    exact printable_entry hname hstrip hentry
  · exact printable_default _ (mem_of_defValue hv)

theorem lookup_dump (hc : Written c) (hnames : PrintableNames c)
    (hopen : env'.open = some (name, c.dump)) (hk : k ≠ "CONFIG_DIR".toList)
    (hv : ∀ v, c.mConfig.lookup k = some v → Printable v) :
    (Configuration.new.init env' []).2.mConfig.lookup k =
      if k.head? = some '#' then none else c.mConfig.lookup k := by
  rw [init_lookup_dump hopen hk, lastEntry_dump hc hnames hk hv]
  split
  · next hcomment =>
    cases hdef : defValue k with
    | none => rfl
    | some v => exact absurd hcomment (printable_default _ (mem_of_defValue hdef)).1
  · cases hlookup : c.mConfig.lookup k with
    | none => exact hc.default k hk hlookup
    | some v => rfl

end Dump

theorem main_options {env : ConfFiles} {port daemon : Int} {c : Configuration}
    (h : mainConfig env port daemon = some c) :
    (port ≠ 0 → c.mConfig.lookup "SERVER_PORT".toList = some (Daemon.decimal port)) ∧
      (daemon ≠ 0 → c.mConfig.lookup "DAEMON_MODE".toList = some "true".toList) := by
  unfold mainConfig at h
  obtain ⟨-, he⟩ := Option.ite_none_right_eq_some.mp h
  cases he
  refine ⟨fun hport => ?_, fun hdaemon => ?_⟩
  · rw [if_pos hport]
    split
    · exact (AList.lookup_insert_ne (by decide)).trans (AList.lookup_insert _)
    · exact AList.lookup_insert _
  · rw [if_pos hdaemon]
    exact AList.lookup_insert _

theorem printable_decimal (n : Int) : Printable (Daemon.decimal n) := by
  have hall : Printable "-0123456789".toList := by decide
  exact fun c hc => hall c (Daemon.mem_decimal hc)

/-- **A process that reads the dump of another one has all its settings exactly if they can be
printed and no name begins with `#`. The options of the command line are among them.** -/
theorem dump_reads {env env' : ConfFiles} {port daemon : Int} {c : Configuration} {name : Str}
    (hmain : mainConfig env port daemon = some c) (hopen : env'.open = some (name, c.dump)) :
    ∃ c', mainConfig env' 0 0 = some c' ∧
      ((∀ k ≠ "CONFIG_DIR".toList, c'.mConfig.lookup k = c.mConfig.lookup k) ↔
        ∀ k v, k ≠ "CONFIG_DIR".toList → c.mConfig.lookup k = some v →
          k.head? ≠ some '#' ∧ Printable k ∧ Printable v) ∧
      (PrintableNames c →
        (port ≠ 0 → -2 ^ 31 ≤ port → port < 2 ^ 31 →
          c'.getInteger "SERVER_PORT".toList = port) ∧
        (daemon ≠ 0 → c'.getBool "DAEMON_MODE".toList = true)) := by
  have hc := written_main hmain
  obtain ⟨hport, hdaemon⟩ := main_options hmain
  refine ⟨(Configuration.new.init env' []).2, ?_, ⟨fun h k v hk hv => ?_, fun h k hk => ?_⟩,
    fun hnames => ⟨fun hne hlo hhi => ?_, fun hne => ?_⟩⟩
  · unfold mainConfig Configuration.init
    rw [hopen]
    rfl
  · exact printable_of_init hc hopen hk ((h k hk).trans hv)
  · rw [lookup_dump hc (fun k v hk hv => (h k v hk hv).2.1) hopen hk
      fun v hv => (h k v hk hv).2.2]
    split
    · next hcomment =>
      cases hlookup : c.mConfig.lookup k with
      | none => rfl
      | some v => exact absurd hcomment (h k v hk hlookup).1
    · rfl
  · have hprint : ∀ v, c.mConfig.lookup "SERVER_PORT".toList = some v → Printable v := by
      intro v hv
      rw [hport hne] at hv
      cases hv
      exact printable_decimal port
    unfold Configuration.getInteger Configuration.getString
    rw [lookup_dump hc hnames hopen (by decide) hprint, if_neg (by decide), hport hne]
    exact toInt_decimal hlo hhi
  · have hprint : ∀ v, c.mConfig.lookup "DAEMON_MODE".toList = some v → Printable v := by
      intro v hv
      rw [hdaemon hne] at hv
      cases hv
      decide
    unfold Configuration.getBool Configuration.getString
    rw [lookup_dump hc hnames hopen (by decide) hprint, if_neg (by decide), hdaemon hne]
    exact Bool.or_true _

/-- The dump of a process with a port of its own is the file of another one; but a name of the
stream that cannot be printed is not that of the other one. -/
theorem dump_reads_port : ∃ c, mainConfig (homeFile ["STREAM_NAME = \u0100".toList]) 80 0 = some c ∧
    ∃ c', mainConfig (homeFile c.dump) 0 0 = some c' ∧
      ¬ (∀ k ≠ "CONFIG_DIR".toList, c'.mConfig.lookup k = c.mConfig.lookup k) := by
  refine ⟨_, rfl, ?_⟩
  obtain ⟨c', hc', hsame, -⟩ := @dump_reads (homeFile ["STREAM_NAME = \u0100".toList]) (homeFile _)
    80 0 _ "/root/.netdj.conf".toList rfl rfl
  refine ⟨c', hc', fun h => ?_⟩
  have hprint := (hsame.mp h "STREAM_NAME".toList "\u0100".toList (by decide) (by decide)).2.2
  exact absurd hprint (by decide)

end NetDJ.Engine
