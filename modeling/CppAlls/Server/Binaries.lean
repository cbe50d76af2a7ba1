import CppAlls.Server.Discovery
import CppAlls.Server.PlainYaml

namespace CppAlls
set_option autoImplicit true

open Failing Tables

namespace Files

variable {Y : YamlCpp} (F : Files Y)

/-- The application types that a binary exports, none if it cannot be opened. -/
def exported (p : String) : List String :=
  match F.symbols p with
  | .ok apps => apps
  | .error _ => []

def searchedMembers (p : String) : List String := (F.members p).1.filter fun m => !F.isSkipped m

/-- The binaries that are searched for an entry. -/
def entryBinaries (p : String) : List String :=
  F.searchedMembers p ++
    match (F.members p).2 with
    | some _ => []
    | none => if F.isFile p then [p] else []

def foundIn (binaries : List String) : List (String × String) :=
  binaries.flatMap fun p => (F.exported p).map (·, p)

/-- The entries of `core: binaries`, with the exception that reading one of them may throw. -/
def binaryEntries (config : Y.Node) : Except ServerExn (List (Except ServerExn String)) := do
  let core ← Y.index config "core"
  let bins ← Y.index core "binaries"
  if ← Y.isScalar bins then return [Y.asString bins]
  else if ← Y.isSequence bins then return (Y.elements bins).map Y.asString
  else if !Y.isDefined bins then return [.ok "./apps/"]
  else throw (.errorRuntime ("Invalid configuration for `core: binaries:` section. Binaries must " ++
    "be a sinle path to binaries or a sequence of paths [path1, path2]"))

def searchEntries (configPath : String) (entries : List (Except ServerExn String)) :
    FailM ServerExn AppToPath Unit :=
  entries.forM fun entry => FailM.ofExcept entry >>= F.findAppsInEntry configPath

theorem foundIn_nil : F.foundIn [] = [] := rfl

theorem foundIn_cons (p : String) (ps : List String) :
    F.foundIn (p :: ps) = (F.exported p).map (·, p) ++ F.foundIn ps := List.flatMap_cons

theorem foundIn_append (ps ps' : List String) :
    F.foundIn (ps ++ ps') = F.foundIn ps ++ F.foundIn ps' := List.flatMap_append

theorem emplaceAll_eq (apps : List String) (p : String) (m : AppToPath) :
    emplaceAll apps p m = m.emplaceEach (apps.map (·, p)) := by
  rw [emplaceAll, Table.emplaceEach, List.foldl_map]

theorem searchInBinary_on (p : String) (m : AppToPath) :
    (F.searchInBinary p).on m = (.ok (), m.emplaceEach ((F.exported p).map (·, p))) := by
  rw [searchInBinary, exported]
  cases F.symbols p with
  | ok apps => rw [← emplaceAll_eq]; rfl
  | error e => rfl

theorem searchEach_on (ms : List String) (m : AppToPath) :
    (ms.forM fun p => if F.isSkipped p then return else F.searchInBinary p).on m =
      (.ok (), m.emplaceEach (F.foundIn (ms.filter fun p => !F.isSkipped p))) := by
  induction ms generalizing m with
  | nil => rfl
  | cons p ms ih =>
    rw [List.forM_eq_forM] at ih ⊢
    rw [List.forM_cons]
    by_cases hp : F.isSkipped p = true
    · rw [if_pos hp, FailM.on_bind_ok (FailM.on_pure _ _), ih, List.filter_cons_of_neg]
      rw [hp]
      exact Bool.false_ne_true
    · rw [if_neg hp, FailM.on_bind_ok (F.searchInBinary_on p m), ih, List.filter_cons_of_pos,
        foundIn_cons, Table.emplaceEach_append]
      rw [Bool.eq_false_iff.mpr hp]
      rfl

/-- What one entry adds to the map, and how its search ends. -/
theorem findAppsInEntry_on (configPath entry : String) (m : AppToPath) :
    (F.findAppsInEntry configPath entry).on m =
      (match (F.members (F.resolve configPath entry)).2 with
        | some e => .error e
        | none => .ok (),
        m.emplaceEach (F.foundIn (F.entryBinaries (F.resolve configPath entry)))) := by
  rw [findAppsInEntry, entryBinaries, searchedMembers]
  generalize F.resolve configPath entry = p
  generalize F.members p = listing
  obtain ⟨ms, e⟩ := listing
  rw [FailM.on_bind_ok (F.searchEach_on ms m)]
  cases e with
  | some e =>
    dsimp only
    rw [List.append_nil]
    rfl
  | none =>
    dsimp only
    by_cases hp : F.isFile p = true
    · rw [if_pos hp, if_pos hp, F.searchInBinary_on, foundIn_append, Table.emplaceEach_append,
        foundIn_cons]
      rw [foundIn_nil, List.append_nil]
    · rw [if_neg hp, if_neg hp, List.append_nil]
      rfl

theorem searchEntries_singleton (configPath : String) (entry : Except ServerExn String) :
    F.searchEntries configPath [entry] = FailM.ofExcept entry >>= F.findAppsInEntry configPath := by
  rw [searchEntries, List.forM_eq_forM, List.forM_cons]
  exact bind_pure _

theorem searchEntries_map (configPath : String) (nodes : List Y.Node) :
    F.searchEntries configPath (nodes.map Y.asString) = nodes.forM fun v =>
      FailM.ofExcept (Y.asString v) >>= F.findAppsInEntry configPath := by
  rw [searchEntries, List.forM_eq_forM, List.forM_map, List.forM_eq_forM]

theorem fillAppsToPath_eq (configPath : String) (config : Y.Node) :
    F.fillAppsToPath configPath config = (do
      let apps ← FailM.ofExcept (F.symbols F.thisLineLocation)
      modify (emplaceAll apps F.thisLineLocation)
      let entries ← FailM.ofExcept (binaryEntries config)
      F.searchEntries configPath entries) := by
  rw [fillAppsToPath]
  apply bind_congr
  intro apps
  apply bind_congr
  intro _
  rw [binaryEntries, FailM.ofExcept_bind]
  apply bind_congr
  intro core
  rw [FailM.ofExcept_bind]
  apply bind_congr
  intro bins
  rw [FailM.ofExcept_bind]
  apply bind_congr
  intro scalar
  cases scalar with
  | true => exact (F.searchEntries_singleton configPath _).symm
  | false =>
    change _ = FailM.ofExcept (Y.isSequence bins >>= _) >>= _
    rw [FailM.ofExcept_bind]
    apply bind_congr
    intro sequence
    cases sequence with
    | true => exact (F.searchEntries_map configPath _).symm
    | false =>
      cases Y.isDefined bins with
      | true => rfl
      | false => exact (F.searchEntries_singleton configPath (.ok "./apps/")).symm

theorem mem_foundIn : (t, p) ∈ F.foundIn ps ↔ p ∈ ps ∧ t ∈ F.exported p := by
  rw [foundIn, List.mem_flatMap]
  constructor
  · intro h
    obtain ⟨b, hb, ht⟩ := h
    obtain ⟨t', ht', he⟩ := List.mem_map.mp ht
    cases he
    exact ⟨hb, ht'⟩
  · intro h
    exact ⟨p, h.1, List.mem_map.mpr ⟨t, h.2, rfl⟩⟩

theorem mem_foundIn_fst : t ∈ (F.foundIn ps).map Prod.fst ↔ ∃ p ∈ ps, t ∈ F.exported p := by
  rw [List.mem_map]
  constructor
  · intro h
    obtain ⟨⟨t', p⟩, hm, rfl⟩ := h
    exact ⟨p, F.mem_foundIn.mp hm⟩
  · intro h
    obtain ⟨p, hp⟩ := h
    exact ⟨(t, p), F.mem_foundIn.mpr hp, rfl⟩

/-- The type is exported by the regular file, or by a member of the directory of which the file system
says that it is no directory. -/
def Exports (p t : String) : Prop :=
  (∃ b ∈ F.searchedMembers p, t ∈ F.exported b) ∨ F.isFile p = true ∧ t ∈ F.exported p

theorem exports_iff (h : (F.members p).2 = none) :
    F.Exports p t ↔ ∃ b ∈ F.entryBinaries p, t ∈ F.exported b := by
  rw [Exports, entryBinaries, h]
  cases F.isFile p with
  | true => simp [or_and_right, exists_or]
  | false => simp

/-- All applications of the core library, of the named files and of the members of the named
directories are in the map, in front of those of no other binary. -/
structure Covers (configPath : String) (entries : List String) (m m' : AppToPath) : Prop where
  registered : ∀ t, t ∈ m' ↔ t ∈ m ∨ t ∈ F.exported F.thisLineLocation ∨
    ∃ entry ∈ entries, F.Exports (F.resolve configPath entry) t
  binary : ∀ t p, m'.lookup t = some p → m.lookup t = some p ∨ t ∈ F.exported p

/-- `core: binaries` is an entry or a sequence of entries. -/
inductive NamesBinaries (config : Y.Node) : List String → Prop where
  | single : Y.index config "core" = .ok core → Y.index core "binaries" = .ok bins →
      Y.isScalar bins = .ok true → Y.asString bins = .ok entry → NamesBinaries config [entry]
  | sequence : Y.index config "core" = .ok core → Y.index core "binaries" = .ok bins →
      Y.isScalar bins = .ok false → Y.isSequence bins = .ok true →
      (Y.elements bins).map Y.asString = entries.map .ok → NamesBinaries config entries

theorem NamesBinaries.binaryEntries_eq {config : Y.Node} {entries : List String}
    (h : NamesBinaries config entries) :
    binaryEntries config = .ok (entries.map .ok) := by
  rw [binaryEntries]
  cases h with
  | single hcore hbins hscalar hentry =>
    rw [hcore]
    change (Y.index _ "binaries" >>= _) = _
    rw [hbins]
    change (Y.isScalar _ >>= _) = _
    rw [hscalar]
    exact congrArg (fun r => Except.ok [r]) hentry
  | sequence hcore hbins hscalar hsequence hentries =>
    rw [hcore]
    change (Y.index _ "binaries" >>= _) = _
    rw [hbins]
    change (Y.isScalar _ >>= _) = _
    rw [hscalar]
    change (Y.isSequence _ >>= _) = _
    rw [hsequence, ← hentries]
    rfl

theorem searchEntries_cons (configPath entry : String) (entries : List (Except ServerExn String))
    (m : AppToPath) : (F.searchEntries configPath (.ok entry :: entries)).on m =
      match (F.members (F.resolve configPath entry)).2 with
      | some e => (.error e,
          m.emplaceEach (F.foundIn (F.entryBinaries (F.resolve configPath entry))))
      | none => (F.searchEntries configPath entries).on
          (m.emplaceEach (F.foundIn (F.entryBinaries (F.resolve configPath entry)))) := by
  have hentry : (FailM.ofExcept (.ok entry) >>= F.findAppsInEntry configPath).on m =
      (F.findAppsInEntry configPath entry).on m := FailM.on_bind_ok (FailM.on_ofExcept _ _)
  rw [searchEntries, List.forM_eq_forM, List.forM_cons, FailM.on_bind, hentry,
    F.findAppsInEntry_on]
  cases (F.members (F.resolve configPath entry)).2 <;> rfl

theorem searchEntries_covers {configPath : String} {entries : List String}
    (h : ∀ entry ∈ entries, (F.members (F.resolve configPath entry)).2 = none) (m : AppToPath) :
    (F.searchEntries configPath (entries.map .ok)).on m = (.ok (), m.emplaceEach
      (F.foundIn (entries.flatMap fun entry => F.entryBinaries (F.resolve configPath entry)))) := by
  induction entries generalizing m with
  | nil => rfl
  | cons entry entries ih =>
    rw [List.map_cons, searchEntries_cons, h entry List.mem_cons_self, List.flatMap_cons,
      foundIn_append, Table.emplaceEach_append]
    exact ih (fun e he => h e (List.mem_cons_of_mem _ he)) _

theorem searchEntries_returns {configPath : String} {entries : List String} {m : AppToPath}
    (h : (F.searchEntries configPath (entries.map .ok)).on m = (.ok (), m')) :
    ∀ entry ∈ entries, (F.members (F.resolve configPath entry)).2 = none := by
  induction entries generalizing m with
  | nil =>
    intro entry he
    cases he
  | cons entry entries ih =>
    rw [List.map_cons, searchEntries_cons] at h
    cases hm : (F.members (F.resolve configPath entry)).2 with
    | some e =>
      rw [hm] at h
      cases h
    | none =>
      rw [hm] at h
      intro e he
      rcases List.mem_cons.mp he with rfl | he
      · exact hm
      · exact ih h e he

theorem fillAppsToPath_search (configPath : String) (config : Y.Node) (m : AppToPath) :
    (F.fillAppsToPath configPath config).on m =
      match F.symbols F.thisLineLocation, binaryEntries config with
      | .ok core, .ok entries => (F.searchEntries configPath entries).on
          (m.emplaceEach (core.map (·, F.thisLineLocation)))
      | .ok core, .error e => (.error e, m.emplaceEach (core.map (·, F.thisLineLocation)))
      | .error e, _ => (.error e, m) := by
  rw [fillAppsToPath_eq]
  cases F.symbols F.thisLineLocation with
  | error e => rfl
  | ok core => cases binaryEntries config <;> simp only [← emplaceAll_eq] <;> rfl

theorem fillAppsToPath_names {config : Y.Node} {entries : List String}
    (hnames : NamesBinaries config entries) (configPath : String) (m : AppToPath) :
    (F.fillAppsToPath configPath config).on m =
      match F.symbols F.thisLineLocation with
      | .ok core => (F.searchEntries configPath (entries.map .ok)).on
          (m.emplaceEach (core.map (·, F.thisLineLocation)))
      | .error e => (.error e, m) := by
  rw [fillAppsToPath_search, hnames.binaryEntries_eq]
  cases F.symbols F.thisLineLocation <;> rfl

theorem covers_of_found {configPath : String} {entries : List String} (m : AppToPath)
    (h : ∀ entry ∈ entries, (F.members (F.resolve configPath entry)).2 = none) :
    F.Covers configPath entries m ((m.emplaceEach
      ((F.exported F.thisLineLocation).map (·, F.thisLineLocation))).emplaceEach
        (F.foundIn (entries.flatMap fun entry => F.entryBinaries (F.resolve configPath entry)))) := by
  have hentries (t : String) : (∃ p ∈ entries.flatMap fun entry =>
      F.entryBinaries (F.resolve configPath entry), t ∈ F.exported p) ↔
        ∃ entry ∈ entries, F.Exports (F.resolve configPath entry) t := by
    constructor
    · intro hp
      obtain ⟨p, hp, ht⟩ := hp
      obtain ⟨entry, he, hp⟩ := List.mem_flatMap.mp hp
      exact ⟨entry, he, (F.exports_iff (h entry he)).mpr ⟨p, hp, ht⟩⟩
    · intro he
      obtain ⟨entry, he, ht⟩ := he
      obtain ⟨p, hp, ht⟩ := (F.exports_iff (h entry he)).mp ht
      exact ⟨p, List.mem_flatMap.mpr ⟨entry, he, hp⟩, ht⟩
  have hfst : ((F.exported F.thisLineLocation).map (·, F.thisLineLocation)).map Prod.fst =
      F.exported F.thisLineLocation := by
    rw [List.map_map]
    exact List.map_id _
  constructor
  · intro t
    rw [Table.mem_emplaceEach, Table.mem_emplaceEach, mem_foundIn_fst, hentries, hfst, or_assoc]
  · intro t p hp
    rw [Table.lookup_emplaceEach, Table.lookup_emplaceEach] at hp
    rcases Option.or_eq_some_iff.mp hp with hp | ⟨_, hp⟩
    · rcases Option.or_eq_some_iff.mp hp with hp | ⟨_, hp⟩
      · exact .inl hp
      · obtain ⟨t', ht', he⟩ := List.mem_map.mp (Table.mem_of_lookup hp)
        cases he
        exact .inr ht'
    · exact .inr (F.mem_foundIn.mp (Table.mem_of_lookup hp)).2

/-- The search opens a `directory_iterator` on every entry, also on one that names a file. -/
theorem discovery_covers_iff (configPath : String) {config : Y.Node} {entries : List String}
    (hnames : NamesBinaries config entries)
    (hiterator : ∀ p, (F.isDirectory p).1 = false → ∃ e, F.members p = ([], some e)) :
    (∀ m, ∃ m', (F.fillAppsToPath configPath config).on m = (.ok (), m') ∧
      F.Covers configPath entries m m') ↔
        (∃ core, F.symbols F.thisLineLocation = .ok core) ∧
          ∀ entry ∈ entries, (F.isDirectory (F.resolve configPath entry)).1 = true ∧
            (F.members (F.resolve configPath entry)).2 = none := by
  constructor
  · intro h
    obtain ⟨m', hon, _⟩ := h ∅
    rw [F.fillAppsToPath_names hnames] at hon
    cases hcore : F.symbols F.thisLineLocation with
    | error e =>
      rw [hcore] at hon
      cases hon
    | ok core =>
      rw [hcore] at hon
      refine ⟨⟨core, rfl⟩, ?_⟩
      intro entry he
      have hnone := F.searchEntries_returns hon entry he
      refine ⟨?_, hnone⟩
      apply Classical.byContradiction
      intro hd
      obtain ⟨e, hmembers⟩ := hiterator _ (Bool.eq_false_iff.mpr hd)
      rw [hmembers] at hnone
      cases hnone
  · intro h m
    obtain ⟨⟨core, hcore⟩, hentries⟩ := h
    have hnone : ∀ entry ∈ entries, (F.members (F.resolve configPath entry)).2 = none :=
      fun entry he => (hentries entry he).2
    have hexported : F.exported F.thisLineLocation = core := by rw [exported, hcore]
    refine ⟨_, ?_, F.covers_of_found m hnone⟩
    rw [F.fillAppsToPath_names hnames, hcore, hexported]
    exact F.searchEntries_covers hnone _

end Files

/-- A directory with one plugin in it. -/
def pluginFiles : Files plainYaml where
  loadFile _ := .ok .undefined
  isRelative _ := false
  parentPath p := p
  join _ q := q
  isDirectory p := (p == "/plugins", false)
  isRegularFile p := (p == "/plugins/echo.so", false)
  members p := if p == "/plugins" then (["/plugins/echo.so"], none) else
    ([], some (.std "Not a directory"))
  symbols p := if p == "/plugins/echo.so" then .ok ["echo"] else .ok ["cpp_logger"]
  thisLineLocation := "libcore.so"
  programDirectory := "."

def binariesConfig (entry : String) : PlainNode :=
  .map [("core", .map [("binaries", .scalar entry)])]

theorem binariesConfig_names (entry : String) :
    Files.NamesBinaries (Y := plainYaml) (binariesConfig entry) [entry] :=
  .single rfl rfl rfl rfl

theorem pluginFiles_iterator (p : String) (h : (pluginFiles.isDirectory p).1 = false) :
    ∃ e, pluginFiles.members p = ([], some e) := by
  have hp : (p == "/plugins") = false := h
  refine ⟨.std "Not a directory", ?_⟩
  simp only [pluginFiles, hp, Bool.false_eq_true, ↓reduceIte]

theorem plugin_directory_covered :
    (∀ m, ∃ m', (pluginFiles.fillAppsToPath "server.yaml" (binariesConfig "/plugins")).on m =
      (.ok (), m') ∧ pluginFiles.Covers "server.yaml" ["/plugins"] m m') ↔
        (∃ core, pluginFiles.symbols pluginFiles.thisLineLocation = .ok core) ∧
          ∀ entry ∈ ["/plugins"],
            (pluginFiles.isDirectory (pluginFiles.resolve "server.yaml" entry)).1 = true ∧
              (pluginFiles.members (pluginFiles.resolve "server.yaml" entry)).2 = none :=
  pluginFiles.discovery_covers_iff "server.yaml" (binariesConfig_names "/plugins")
    pluginFiles_iterator

/-- The plugin itself is an entry that throws. -/
theorem plugin_file_not_covered :
    ¬ ∀ m, ∃ m', (pluginFiles.fillAppsToPath "server.yaml"
      (binariesConfig "/plugins/echo.so")).on m = (.ok (), m') ∧
        pluginFiles.Covers "server.yaml" ["/plugins/echo.so"] m m' := by
  intro h
  obtain ⟨m', hon, _⟩ := h ∅
  rw [pluginFiles.fillAppsToPath_names (binariesConfig_names _)] at hon
  have hnone := pluginFiles.searchEntries_returns hon _ List.mem_cons_self
  cases hnone

end CppAlls
