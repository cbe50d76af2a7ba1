import CppAlls.Server.Binaries
import CppAlls.Server.Reload

namespace CppAlls
set_option autoImplicit true

open Failing Tables

namespace Files

variable {Y : YamlCpp} (F : Files Y)

/-- The same files, with other enumerations of the directories. -/
def withMembers (members : String → List String × Option ServerExn) : Files Y :=
  { F with members := members }

/-- The same members of each directory in another order. -/
structure Reorders (members : String → List String × Option ServerExn) : Prop where
  perm : ∀ p, (members p).1.Perm (F.members p).1
  ending : ∀ p, (members p).2 = (F.members p).2

/-- In every order of the members the search ends in the same way, with the same map. -/
def OrderIndependent (configPath : String) (config : Y.Node) (m : AppToPath) : Prop :=
  ∀ members, F.Reorders members →
    (((F.withMembers members).fillAppsToPath configPath config).on m).1 =
      ((F.fillAppsToPath configPath config).on m).1 ∧
    (((F.withMembers members).fillAppsToPath configPath config).on m).2.toFinmap =
      ((F.fillAppsToPath configPath config).on m).2.toFinmap

/-- No new type is exported by two of the binaries in the directory. -/
def SingleSource (known : String → Prop) (p : String) : Prop :=
  ∀ t, ¬ known t → ∀ b ∈ F.searchedMembers p, ∀ b' ∈ F.searchedMembers p,
    t ∈ F.exported b → t ∈ F.exported b' → b = b'

/-- Each directory that the search comes to has one binary for each type that is new there. -/
def Unambiguous (configPath : String) : (String → Prop) → List (Except ServerExn String) → Prop
  | _, [] => True
  | _, .error _ :: _ => True
  | known, .ok entry :: entries => F.SingleSource known (F.resolve configPath entry) ∧
      ((F.members (F.resolve configPath entry)).2 = none →
        Unambiguous configPath (fun t => known t ∨ F.Exports (F.resolve configPath entry) t) entries)

variable {F} {members : String → List String × Option ServerExn}

theorem Reorders.searchedMembers (h : F.Reorders members) (p : String) :
    ((F.withMembers members).searchedMembers p).Perm (F.searchedMembers p) :=
  (h.perm p).filter _

/-- One entry, in two orders. -/
theorem Reorders.entry (h : F.Reorders members) {m m' : AppToPath} {p : String}
    (hsource : F.SingleSource (· ∈ m) p) (hm : ∀ t, m'.lookup t = m.lookup t) (t : String) :
    (m'.emplaceEach ((F.withMembers members).foundIn
      ((F.withMembers members).entryBinaries p))).lookup t =
        (m.emplaceEach (F.foundIn (F.entryBinaries p))).lookup t := by
  have hperm : (F.foundIn ((F.withMembers members).searchedMembers p)).Perm
      (F.foundIn (F.searchedMembers p)) := (h.searchedMembers p).flatMap_right _
  have hsearched : (m'.emplaceEach (F.foundIn ((F.withMembers members).searchedMembers p))).lookup t =
      (m.emplaceEach (F.foundIn (F.searchedMembers p))).lookup t := by
    rw [Table.lookup_emplaceEach_congr (hm t)]
    apply Table.lookup_emplaceEach_perm hperm
    intro b b' ht hb hb'
    obtain ⟨hb, hx⟩ := F.mem_foundIn.mp (hperm.mem_iff.mp hb)
    obtain ⟨hb', hx'⟩ := F.mem_foundIn.mp (hperm.mem_iff.mp hb')
    exact hsource t ht b hb b' hb' hx hx'
  have hfound : (F.withMembers members).foundIn ((F.withMembers members).entryBinaries p) =
      F.foundIn ((F.withMembers members).entryBinaries p) := rfl
  rw [hfound, entryBinaries, entryBinaries, foundIn_append, foundIn_append,
    Table.emplaceEach_append, Table.emplaceEach_append]
  have hending : ((F.withMembers members).members p).2 = (F.members p).2 := h.ending p
  rw [hending]
  exact Table.lookup_emplaceEach_congr hsearched _

theorem mem_entry {m : AppToPath} {p : String} (h : (F.members p).2 = none) :
    (fun t => t ∈ m ∨ F.Exports p t) = (· ∈ m.emplaceEach (F.foundIn (F.entryBinaries p))) := by
  funext t
  rw [Table.mem_emplaceEach, mem_foundIn_fst, exports_iff F h]

variable {configPath : String} {entries : List (Except ServerExn String)}

/-- All entries, in two orders. -/
theorem Reorders.searchEntries (h : F.Reorders members) {m m' : AppToPath}
    (hu : F.Unambiguous configPath (· ∈ m) entries) (hm : ∀ t, m'.lookup t = m.lookup t) :
    (((F.withMembers members).searchEntries configPath entries).on m').1 =
      ((F.searchEntries configPath entries).on m).1 ∧
    ∀ t, (((F.withMembers members).searchEntries configPath entries).on m').2.lookup t =
      ((F.searchEntries configPath entries).on m).2.lookup t := by
  induction entries generalizing m m' with
  | nil => exact ⟨rfl, hm⟩
  | cons entry entries ih =>
    cases entry with
    | error e => exact ⟨rfl, hm⟩
    | ok entry =>
      obtain ⟨hsource, hrest⟩ := hu
      have hentry := h.entry hsource hm
      have hending : ((F.withMembers members).members (F.resolve configPath entry)).2 =
          (F.members (F.resolve configPath entry)).2 := h.ending _
      have hresolve : (F.withMembers members).resolve configPath entry =
          F.resolve configPath entry := rfl
      rw [searchEntries_cons, searchEntries_cons, hresolve, hending]
      cases hnone : (F.members (F.resolve configPath entry)).2 with
      | some e => exact ⟨rfl, hentry⟩
      | none =>
        have hu' := hrest hnone
        rw [mem_entry hnone] at hu'
        exact ih hu' hentry

theorem searchEntries_collects (F : Files Y) (configPath : String)
    (entries : List (Except ServerExn String)) : Collects (F.searchEntries configPath entries) := by
  apply Collects.forM
  exact fun entry => (Collects.ofExcept entry).bind fun e => F.findAppsInEntry_collects configPath e

/-- The enumeration with one member of a directory in front. -/
def inFront (F : Files Y) (p b : String) (q : String) : List String × Option ServerExn :=
  if q = p then (b :: (F.members p).1.erase b, (F.members p).2) else F.members q

theorem inFront_reorders {p b : String} (hb : b ∈ (F.members p).1) : F.Reorders (F.inFront p b) := by
  constructor
  · intro q
    by_cases hq : q = p
    · subst hq
      rw [inFront, if_pos rfl]
      exact (List.perm_cons_erase hb).symm
    · rw [inFront, if_neg hq]
  · intro q
    by_cases hq : q = p
    · subst hq
      rw [inFront, if_pos rfl]
    · rw [inFront, if_neg hq]

/-- The binary that comes first keeps the type. -/
theorem first_binary_wins {entry b t : String} {m : AppToPath} (ht : t ∉ m)
    (hb : b ∈ F.searchedMembers (F.resolve configPath entry)) (hx : t ∈ F.exported b)
    (entries : List (Except ServerExn String)) :
    (((F.withMembers (F.inFront (F.resolve configPath entry) b)).searchEntries configPath
      (.ok entry :: entries)).on m).2.lookup t = some b := by
  obtain ⟨hmember, hskipped⟩ := List.mem_filter.mp hb
  generalize hp : F.resolve configPath entry = p at hmember
  have hfirst : ∃ rest, (F.withMembers (F.inFront p b)).entryBinaries p = b :: rest := by
    have hsearched : (F.withMembers (F.inFront p b)).searchedMembers p =
        b :: ((F.members p).1.erase b).filter fun m => !F.isSkipped m := by
      change ((F.inFront p b p).1.filter fun m => !F.isSkipped m) = _
      rw [inFront, if_pos rfl]
      exact List.filter_cons_of_pos hskipped
    rw [entryBinaries, hsearched]
    exact ⟨_, rfl⟩
  obtain ⟨rest, hfirst⟩ := hfirst
  have hentry : (m.emplaceEach ((F.withMembers (F.inFront p b)).foundIn
      ((F.withMembers (F.inFront p b)).entryBinaries p))).lookup t = some b := by
    rw [hfirst, foundIn_cons, Table.lookup_emplaceEach, AList.lookup_eq_none.mpr ht,
      List.lookup_append, Table.lookup_map_pair]
    rw [if_pos]
    · rfl
    · exact hx
  have hresolve : (F.withMembers (F.inFront p b)).resolve configPath entry = p := hp
  rw [searchEntries_cons, hresolve]
  split
  · exact hentry
  · obtain ⟨r, found, hon⟩ := searchEntries_collects (F.withMembers (F.inFront p b)) configPath entries
    rw [hon]
    exact Table.lookup_emplaceEach_of_lookup hentry

/-- A search whose map never depends on the order comes to no directory with two binaries for a new
type. -/
theorem unambiguous_of_independent {m : AppToPath}
    (h : ∀ members, F.Reorders members → ∀ t,
      (((F.withMembers members).searchEntries configPath entries).on m).2.lookup t =
        ((F.searchEntries configPath entries).on m).2.lookup t) :
    F.Unambiguous configPath (· ∈ m) entries := by
  induction entries generalizing m with
  | nil => trivial
  | cons entry entries ih =>
    cases entry with
    | error e => trivial
    | ok entry =>
      have hsource : F.SingleSource (· ∈ m) (F.resolve configPath entry) := by
        intro t ht b hb b' hb' hx hx'
        have hfirst := first_binary_wins ht hb hx entries
        have hfirst' := first_binary_wins ht hb' hx' entries
        rw [h _ (inFront_reorders (List.mem_filter.mp hb).1)] at hfirst
        rw [h _ (inFront_reorders (List.mem_filter.mp hb').1)] at hfirst'
        exact Option.some.inj (hfirst.symm.trans hfirst')
      refine ⟨hsource, ?_⟩
      intro hnone
      rw [mem_entry hnone]
      apply ih
      intro members hr t
      have hending : ((F.withMembers members).members (F.resolve configPath entry)).2 = none :=
        (hr.ending _).trans hnone
      have hsame := h members hr t
      have hresolve : (F.withMembers members).resolve configPath entry =
          F.resolve configPath entry := rfl
      rw [searchEntries_cons, searchEntries_cons, hresolve, hending, hnone] at hsame
      obtain ⟨r, found, hon⟩ := searchEntries_collects (F.withMembers members) configPath entries
      rw [← hsame, hon, hon]
      exact Table.lookup_emplaceEach_congr (hr.entry hsource (fun _ => rfl) t).symm _

theorem known_core (m : AppToPath) (core : List String) (p : String) :
    (fun t => t ∈ m ∨ t ∈ core) = (· ∈ m.emplaceEach (core.map (·, p))) := by
  funext t
  have hfst : (core.map (·, p)).map Prod.fst = core := by
    rw [List.map_map]
    exact List.map_id _
  rw [Table.mem_emplaceEach, hfst]

/-- The condition for a whole search: what the core library exports is known first. -/
theorem order_independent_iff (F : Files Y) (configPath : String) (config : Y.Node) (m : AppToPath) :
    F.OrderIndependent configPath config m ↔ ∀ core entries,
      F.symbols F.thisLineLocation = .ok core → binaryEntries config = .ok entries →
        F.Unambiguous configPath (fun t => t ∈ m ∨ t ∈ core) entries := by
  constructor
  · intro h core entries hcore hentries
    rw [known_core m core F.thisLineLocation]
    apply unambiguous_of_independent
    intro members hr t
    obtain ⟨_, hsame⟩ := h members hr
    have hcore' : (F.withMembers members).symbols (F.withMembers members).thisLineLocation =
        .ok core := hcore
    rw [fillAppsToPath_search, fillAppsToPath_search, hcore', hcore, hentries] at hsame
    exact Table.toFinmap_eq_iff.mp hsame t
  · intro h members hr
    have hcore' : (F.withMembers members).symbols (F.withMembers members).thisLineLocation =
        F.symbols F.thisLineLocation := rfl
    rw [fillAppsToPath_search, fillAppsToPath_search, hcore', Table.toFinmap_eq_iff]
    cases hcore : F.symbols F.thisLineLocation with
    | error e => exact ⟨rfl, fun _ => rfl⟩
    | ok core =>
      cases hentries : binaryEntries config with
      | error e => exact ⟨rfl, fun _ => rfl⟩
      | ok entries =>
        have hu := h core entries hcore hentries
        rw [known_core m core F.thisLineLocation] at hu
        exact hr.searchEntries hu fun _ => rfl

/-- A reload that enumerates the directories in another order finds the binaries of the running
server. -/
theorem OrderIndependent.reload_accepts {F : Files Y} {config : Y.Node} {m : AppToPath} {s : Server}
    (h : F.OrderIndependent configPath config ∅) (hm : F.newAppToPath configPath config = .ok m)
    (hs : s.appToPath.toFinmap = m.toFinmap) (hr : F.Reorders members) :
    ∃ m', (F.withMembers members).newAppToPath configPath config = .ok m' ∧
      ¬ Server.ChangedBinaries m' s := by
  obtain ⟨hend, hmap⟩ := h members hr
  rw [newAppToPath] at hm ⊢
  generalize (F.fillAppsToPath configPath config).on ∅ = x at hm hend hmap
  generalize ((F.withMembers members).fillAppsToPath configPath config).on ∅ = x' at hend hmap ⊢
  obtain ⟨r, m₁⟩ := x
  obtain ⟨r', m₂⟩ := x'
  cases r with
  | error e => cases hm
  | ok _ =>
    cases hm
    cases hend
    refine ⟨m₂, rfl, ?_⟩
    intro hchanged
    exact hchanged.2 (hmap.trans hs.symm)

end Files

/-- A directory with two versions of a plugin. -/
def versionedFiles : Files plainYaml :=
  { pluginFiles with
    members := fun p => if p == "/plugins" then (["/plugins/echo.1.so", "/plugins/echo.2.so"], none)
      else ([], some (.std "Not a directory"))
    symbols := fun p => if p == "libcore.so" then .ok ["cpp_logger"] else .ok ["echo"] }

/-- The versions change places. -/
theorem versions_order_dependent :
    ¬ versionedFiles.OrderIndependent "server.yaml" (binariesConfig "/plugins") ∅ := by
  intro h
  have hb : "/plugins/echo.2.so" ∈ (versionedFiles.members "/plugins").1 := by decide
  have hsame := Table.toFinmap_eq_iff.mp (h _ (Files.inFront_reorders hb)).2 "echo"
  exact absurd hsame (by decide)

end CppAlls
