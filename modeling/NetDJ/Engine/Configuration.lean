import NetDJ.Engine.QString

/-!
# `Configuration.cpp`: the settings of the engine

* `Configuration.init` : the defaults, the loop over the lines, and the directory of the file;
* `Sets` : the grammar of a line that sets a name;
* `entry_eq_some` : the lines that the loop takes are those of the grammar;
* `init_lookup` : what a name has after `Init`;
* `ConfItem`, `Setting.sets` : lines as they are written, with white space, comments and errors;
* `init_reads` : every name has the value of its last setting.
-/

namespace NetDJ.Engine

/-- `gDefValues`, without the entry that ends it. -/
def gDefValues : List (Str × Str) :=
  [("SERVER_PORT".toList, "7676".toList),
    ("SHARE_DIR".toList, "/usr/share/mp3/share".toList),
    ("REQUEST_DIR".toList, "/usr/share/mp3/request".toList),
    ("USER_LIST_FILE".toList, "netdj-users".toList),
    ("UPDATE_BEFORE_TRANSMIT".toList, "false".toList),
    ("STREAM_HOST".toList, "127.0.0.1".toList),
    ("STREAM_PORT".toList, "8000".toList),
    ("STREAM_MOUNT".toList, "netdj".toList),
    ("STREAM_USER".toList, "source".toList),
    ("STREAM_PASSWD".toList, "hackme".toList),
    ("STREAM_NAME".toList, "NetDJ".toList),
    ("STREAM_GENRE".toList, "Mixed".toList),
    ("STREAM_DESCR".toList, "NetDJ Streaming Channel".toList),
    ("STREAM_PUBLIC".toList, "false".toList),
    ("DAEMON_MODE".toList, "false".toList),
    ("DAEMON_CHANGE_USER".toList, "false".toList),
    ("DAEMON_GROUP".toList, "nobody".toList),
    ("DAEMON_USER".toList, "nobody".toList)]

/-- What `Init` finds outside: two names set by the build, `getenv("HOME")`, and the lines of the
files that open. -/
structure ConfFiles where
  NETDJ_CONF_FILENAME : Str
  NETDJ_ETCDIR : Str
  HOME : Option Str
  lines : Str → Option (List Str)

def ConfFiles.open (env : ConfFiles) : Option (Str × List Str) :=
  [".".toList ++ env.NETDJ_CONF_FILENAME,
    env.HOME.getD [] ++ "/.".toList ++ env.NETDJ_CONF_FILENAME,
    env.NETDJ_ETCDIR ++ "/".toList ++ env.NETDJ_CONF_FILENAME].findSome? fun name =>
      (env.lines name).map fun lines => (name, lines)

/-- `QFileInfo::dirPath`. -/
def dirPath (name : Str) : Str :=
  if '/' ∈ name then
    match (name.reverse.dropWhile (· ≠ '/')).tail.reverse with
    | [] => "/".toList
    | dir => dir
  else ".".toList

structure Configuration where
  mConfig : StdMap Str Str

/-- The variables of the loop, and the numbers and texts of the lines it has complained about. -/
structure ConfLoop where
  mConfig : StdMap Str Str
  i : Nat
  cerr : List (Nat × Str)

namespace Configuration

def new : Configuration := ⟨∅⟩

def defaults (c : Configuration) : StdMap Str Str :=
  gDefValues.foldl (fun m e => m.insert e.1 e.2) c.mConfig

def initLine (s : ConfLoop) (line : Str) : ConfLoop :=
  if line = [] ∨ line.head? = some '#' then s
  else
    let name := stripWhiteSpace (qsection line '=' 0 (some 0))
    let value := stripWhiteSpace (qsection line '=' 1 none)
    if name ≠ [] ∧ value ≠ [] then
      { s with mConfig := s.mConfig.insert name value, i := s.i + 1 }
    else { s with cerr := s.cerr ++ [(s.i, line)], i := s.i + 1 }

/-- `Init`. Its argument is not used. -/
def init (c : Configuration) (env : ConfFiles) (_aFilename : Str) : Bool × Configuration :=
  match env.open with
  | none => (false, ⟨c.defaults⟩)
  | some (name, lines) =>
    let s := lines.foldl initLine ⟨c.defaults, 1, []⟩
    (true, ⟨s.mConfig.insert "CONFIG_DIR".toList (dirPath name)⟩)

end Configuration

/-! ## The lines -/

/-- The line sets the name `k` to `v`: it is no comment, and around its first `=` it has `k` and
`v`, up to white space, and neither is empty. -/
def Sets (line k v : Str) : Prop :=
  line.head? ≠ some '#' ∧ k ≠ [] ∧ v ≠ [] ∧
    ∃ a b, line = a ++ '=' :: b ∧ '=' ∉ a ∧ stripWhiteSpace a = k ∧ stripWhiteSpace b = v

def entry (line : Str) : Option (Str × Str) :=
  let name := stripWhiteSpace (qsection line '=' 0 (some 0))
  let value := stripWhiteSpace (qsection line '=' 1 none)
  if ¬ (line = [] ∨ line.head? = some '#') ∧ name ≠ [] ∧ value ≠ [] then some (name, value)
  else none

theorem initLine_mConfig (s : ConfLoop) (line : Str) :
    (Configuration.initLine s line).mConfig = StdMap.put s.mConfig (entry line) := by
  unfold Configuration.initLine entry
  by_cases hline : line = [] ∨ line.head? = some '#'
  · simp [hline, StdMap.put]
  · dsimp only
    rw [if_neg hline]
    split
    · next hset =>
      rw [if_pos ⟨hline, hset⟩]
      rfl
    · next hset =>
      rw [if_neg fun h => hset h.2]
      rfl

theorem foldl_initLine_mConfig (lines : List Str) (s : ConfLoop) :
    (lines.foldl Configuration.initLine s).mConfig =
      lines.foldl (fun m line => StdMap.put m (entry line)) s.mConfig := by
  induction lines generalizing s with
  | nil => rfl
  | cons line lines ih => rw [List.foldl_cons, List.foldl_cons, ih, initLine_mConfig]

/-- The loop takes the lines of the grammar. -/
theorem entry_eq_some {line k v : Str} : entry line = some (k, v) ↔ Sets line k v := by
  unfold entry Sets
  dsimp only
  by_cases hmem : '=' ∈ line
  · obtain ⟨a, b, rfl, ha⟩ := List.eq_append_cons_of_mem hmem
    have hsplit : ∀ a' b', a ++ '=' :: b = a' ++ '=' :: b' ∧ '=' ∉ a' ↔ a' = a ∧ b' = b := by
      intro a' b'
      constructor
      · rintro ⟨he, ha'⟩
        have h := congrArg (List.splitOn '=') he
        rw [List.splitOn_append_cons_self_of_not_mem ha,
          List.splitOn_append_cons_self_of_not_mem ha'] at h
        obtain rfl := (List.cons.inj h).1
        exact ⟨rfl, (List.cons.inj (List.append_cancel_left he)).2.symm⟩
      · rintro ⟨rfl, rfl⟩
        exact ⟨rfl, ha⟩
    rw [qsection_zero_append ha, qsection_rest_append ha]
    simp only [← and_assoc, hsplit, Option.ite_none_right_eq_some, Option.some.injEq,
      Prod.mk.injEq]
    simp only [and_assoc, exists_and_left, exists_eq_left]
    constructor
    · rintro ⟨hhead, hk, hv, rfl, rfl⟩
      exact ⟨fun h => hhead (.inr h), hk, hv, rfl, rfl⟩
    · rintro ⟨hhead, hk, hv, rfl, rfl⟩
      exact ⟨by simpa using hhead, hk, hv, rfl, rfl⟩
  · rw [qsection_rest_of_notMem hmem]
    refine iff_of_false (by simp [stripWhiteSpace]) ?_
    rintro ⟨-, -, -, a, b, rfl, -⟩
    simp at hmem

def defValue (k : Str) : Option Str := (gDefValues.find? (·.1 = k)).map (·.2)

namespace Configuration

theorem lookup_defaults (c : Configuration) (k : Str) :
    c.defaults.lookup k = (defValue k).or (c.mConfig.lookup k) := by
  have hlast : ∀ e ∈ gDefValues, gDefValues.reverse.find? (·.1 = e.1) = some e := by decide
  have hfind : gDefValues.reverse.find? (·.1 = k) = gDefValues.find? (·.1 = k) := by
    cases h : gDefValues.find? (·.1 = k) with
    | none => simpa [List.find?_eq_none] using h
    | some e =>
      obtain rfl : e.1 = k := by simpa using List.find?_some h
      exact hlast e (List.mem_of_find?_eq_some h)
  rw [defaults, lookup_foldl_insert, hfind, defValue]

theorem init_lookup (c : Configuration) {env : ConfFiles} {name : Str} {lines : List Str}
    (hopen : env.open = some (name, lines)) (aFilename : Str) {k : Str}
    (hk : k ≠ "CONFIG_DIR".toList) : (c.init env aFilename).2.mConfig.lookup k =
      (lastEntry entry lines k).or ((defValue k).or (c.mConfig.lookup k)) := by
  rw [init, hopen]
  dsimp only
  rw [AList.lookup_insert_ne hk, foldl_initLine_mConfig, lookup_foldl_put, lookup_defaults]

end Configuration

/-! ## Lines as they are written -/

/-- A name and a value with white space around them. -/
structure Setting where
  name : Str
  value : Str
  front : Str
  gap₁ : Str
  gap₂ : Str
  back : Str
  name_ne : name ≠ []
  name_eq : '=' ∉ name
  name_strip : stripWhiteSpace name = name
  value_ne : value ≠ []
  value_strip : stripWhiteSpace value = value
  front_space : ∀ c ∈ front, isSpace c = true
  gap₁_space : ∀ c ∈ gap₁, isSpace c = true
  gap₂_space : ∀ c ∈ gap₂, isSpace c = true
  back_space : ∀ c ∈ back, isSpace c = true
  comment : (front ++ name).head? ≠ some '#'

def Setting.text (s : Setting) : Str :=
  (s.front ++ s.name ++ s.gap₁) ++ '=' :: (s.gap₂ ++ s.value ++ s.back)

/-- A line of a configuration file: a setting, a comment, or a line with something missing. A blank
line has no `=`. -/
inductive ConfItem where
  | setting (s : Setting)
  | comment (rest : Str)
  | noEquals (line : Str) (h : '=' ∉ line)
  | noName (ws rest : Str) (h : ∀ c ∈ ws, isSpace c = true)
  | noValue (name ws : Str) (hname : '=' ∉ name) (h : ∀ c ∈ ws, isSpace c = true)

namespace ConfItem

def text : ConfItem → Str
  | setting s => s.text
  | comment rest => '#' :: rest
  | noEquals line _ => line
  | noName ws rest _ => ws ++ '=' :: rest
  | noValue name ws _ _ => name ++ '=' :: ws

/-- What a line is to set. -/
def pair : ConfItem → Option (Str × Str)
  | setting s => some (s.name, s.value)
  | comment _ | noEquals _ _ | noName _ _ _ | noValue _ _ _ _ => none

end ConfItem

theorem notMem_of_space {ws : Str} (h : ∀ c ∈ ws, isSpace c = true) : '=' ∉ ws := fun hc =>
  absurd (h '=' hc) (by decide)

theorem Setting.sets (s : Setting) : Sets s.text s.name s.value := by
  refine ⟨?_, s.name_ne, s.value_ne, _, _, rfl, ?_, ?_, ?_⟩
  · have hne : s.front ++ s.name ≠ [] := List.append_ne_nil_of_right_ne_nil _ s.name_ne
    rw [text, List.append_assoc, List.head?_append_of_ne_nil _ hne]
    exact s.comment
  · simp [s.name_eq, notMem_of_space s.front_space, notMem_of_space s.gap₁_space]
  · rw [stripWhiteSpace_pad s.front_space s.gap₁_space, s.name_strip]
  · rw [stripWhiteSpace_pad s.gap₂_space s.back_space, s.value_strip]

theorem entry_text (x : ConfItem) : entry x.text = x.pair := by
  cases x with
  | setting s => exact entry_eq_some.mpr s.sets
  | comment rest => simp [entry, ConfItem.text, ConfItem.pair]
  | noEquals line h => simp [entry, ConfItem.text, ConfItem.pair, qsection_rest_of_notMem h,
      stripWhiteSpace]
  | noName ws rest h => simp [entry, ConfItem.text, ConfItem.pair,
      qsection_zero_append (notMem_of_space h), stripWhiteSpace_space h]
  | noValue name ws hname h => simp [entry, ConfItem.text, ConfItem.pair,
      qsection_rest_append hname, stripWhiteSpace_space h]

/-- **Every name has the value of its last line**, or else its default, or none; and what has been
written with any white space, between comments and lines that are wrong, is read back. -/
theorem init_reads {env : ConfFiles} {name : Str} {lines : List Str}
    (hopen : env.open = some (name, lines)) (aFilename : Str) {k : Str}
    (hk : k ≠ "CONFIG_DIR".toList) :
    let c := (Configuration.new.init env aFilename).2
    (∀ before line after v, lines = before ++ line :: after → Sets line k v →
        (∀ l ∈ after, ∀ v', ¬ Sets l k v') → c.mConfig.lookup k = some v) ∧
      ((∀ l ∈ lines, ∀ v, ¬ Sets l k v) → c.mConfig.lookup k = defValue k) ∧
      ∀ items : List ConfItem, lines = items.map ConfItem.text →
        c.mConfig.lookup k = (lastEntry ConfItem.pair items k).or (defValue k) := by
  have hlookup := Configuration.new.init_lookup hopen aFilename hk
  have hnew : Configuration.new.mConfig.lookup k = none := AList.lookup_empty k
  rw [hnew, Option.or_none] at hlookup
  have hother : ∀ l : Str, (∀ v, ¬ Sets l k v) → ∀ e ∈ entry l, e.1 ≠ k := by
    rintro l hl ⟨k', v⟩ he rfl
    exact hl v (entry_eq_some.mp he)
  refine ⟨fun before line after v hlines hsets hafter => ?_, fun hnone => ?_, fun items hitems => ?_⟩
  · rw [hlookup, hlines, lastEntry_split (entry_eq_some.mpr hsets) fun l hl => hother l (hafter l hl)]
    rfl
  · rw [hlookup, lastEntry_eq_none_iff.mpr fun l hl => hother l (hnone l hl)]
    rfl
  · have hentry : entry ∘ ConfItem.text = ConfItem.pair := funext entry_text
    rw [hlookup, hitems, lastEntry, List.filterMap_map, hentry, ← lastEntry]

def homeFile (lines : List Str) : ConfFiles where
  NETDJ_CONF_FILENAME := "netdj.conf".toList
  NETDJ_ETCDIR := "/etc".toList
  HOME := some "/root".toList
  lines := fun name => if name = "/root/.netdj.conf".toList then some lines else none

/-- The second value of a name counts, and it has an `=` in it. -/
theorem init_reads_twice : ((Configuration.new.init
    (homeFile ["A=1".toList, " A\t= x=y ".toList, "A=".toList, "#A=2".toList]) []).2.mConfig.lookup
      "A".toList) = some "x=y".toList := by
  have hrest : ∀ l ∈ ["A=".toList, "#A=2".toList], entry l = none := by decide
  have hopen (lines : List Str) : (homeFile lines).open = some ("/root/.netdj.conf".toList, lines) :=
    rfl
  refine (init_reads (hopen _) [] (by decide)).1 ["A=1".toList] " A\t= x=y ".toList
    ["A=".toList, "#A=2".toList] _ rfl (entry_eq_some.mp (by decide)) fun l hl v hsets => ?_
  rw [← entry_eq_some, hrest l hl] at hsets
  cases hsets

end NetDJ.Engine
