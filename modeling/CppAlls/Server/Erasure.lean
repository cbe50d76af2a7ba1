import CppAlls.Server.Journal

namespace CppAlls
set_option autoImplicit true

open Failing Tables Machines Recording

namespace Logged

variable {Y : YamlCpp} {E : Surroundings Y} {L : Loggers Y}

section Search

variable {l : Log}

theorem searchInBinary_erases (p : String) :
    Erases (searchInBinary E L l p) (E.searchInBinary p) := by
  rw [searchInBinary, Files.searchInBinary]
  cases E.symbols p with
  | ok apps => exact .beside _
  | error e => exact fun _ => ⟨rfl, rfl⟩

theorem findAppsInEntry_erases (configPath entry : String) :
    Erases (findAppsInEntry E L l configPath entry) (E.findAppsInEntry configPath entry) := by
  rw [findAppsInEntry, Files.findAppsInEntry]
  generalize E.members (E.resolve configPath entry) = listing
  obtain ⟨ms, e⟩ := listing
  apply Erases.bind
  · apply Erases.forM
    intro m
    by_cases hm : E.isSkipped m = true
    · rw [if_pos hm, if_pos hm]
      exact .pure ()
    · rw [if_neg hm, if_neg hm]
      exact searchInBinary_erases m
  · intro _
    have hfile : Erases (if E.isFile (E.resolve configPath entry) then
          searchInBinary E L l (E.resolve configPath entry) else pure ())
        (if E.isFile (E.resolve configPath entry) then
          E.searchInBinary (E.resolve configPath entry) else pure ()) := by
      by_cases hp : E.isFile (E.resolve configPath entry) = true
      · rw [if_pos hp, if_pos hp]
        exact searchInBinary_erases _
      · rw [if_neg hp, if_neg hp]
        exact .pure ()
    cases e with
    | some e => exact (Erases.throw e).bind fun _ => hfile
    | none => exact hfile

theorem fillAppsToPath_erases (configPath : String) (config : Y.Node) :
    Erases (fillAppsToPath E L l configPath config) (E.fillAppsToPath configPath config) := by
  apply (Erases.ofExcept _).bind
  intro apps
  apply (Erases.beside _).bind
  intro _
  apply (Erases.ofExcept _).bind
  intro core
  apply (Erases.ofExcept _).bind
  intro bins
  apply (Erases.ofExcept _).bind
  intro scalar
  cases scalar with
  | true => exact (Erases.ofExcept _).bind fun entry => findAppsInEntry_erases _ entry
  | false =>
    apply (Erases.ofExcept _).bind
    intro sequence
    cases sequence with
    | true =>
      apply Erases.forM
      exact fun v => (Erases.ofExcept _).bind fun entry => findAppsInEntry_erases _ entry
    | false =>
      by_cases hd : (!Y.isDefined bins) = true
      · simp only [if_pos hd]
        exact findAppsInEntry_erases _ _
      · simp only [if_neg hd]
        exact .throw _

end Search

theorem startInstanceFrom_erases (path appType : String) (appNode : Y.Node) (is : Instances) :
    Erases (startInstanceFrom E L path appType appNode is)
      (Server.startInstanceFrom E path appType appNode is) := by
  apply (Erases.ofExcept _).bind
  intro _
  apply (Erases.beside _).bind
  intro s
  apply (Erases.beside _).bind
  intro _
  apply (Erases.ofExcept _).bind
  intro name
  apply Erases.note_bind
  apply (Erases.beside _).bind
  intro _
  apply (Erases.ofExcept _).bind
  intro instanceName
  by_cases hin : instanceName ∈ is
  · rw [if_pos hin, if_pos hin]
    exact (Erases.throw _).bind fun _ => .pure _
  · rw [if_neg hin, if_neg hin]
    exact .pure _

theorem startInstance_erases (appNode : Y.Node) (m : AppToPath) (is : Instances) :
    Erases (startInstance E L appNode m is) (Server.startInstance E appNode m is) := by
  apply (Erases.ofExcept _).bind
  intro appType
  cases m.lookup appType with
  | none => exact .throw _
  | some path => exact startInstanceFrom_erases path appType appNode is

theorem instanceConstruct_erases (config : String) :
    Erases (instanceConstruct E L config) (Server.instanceConstruct E config) := by
  apply (Erases.ofExcept _).bind
  intro appNode
  apply (Erases.beside _).bind
  intro s
  apply (startInstance_erases appNode _ _).bind
  intro x
  apply (Erases.beside _).bind
  exact fun _ => .pure _

theorem startApps_erases (appNodes : List Y.Node) :
    Erases (startApps E L appNodes) (Server.startApps E appNodes) := by
  induction appNodes with
  | nil => exact .pure ()
  | cons appNode appNodes ih =>
    apply (Erases.beside _).bind
    intro s
    apply (startInstance_erases appNode _ _).bind
    intro x
    apply (Erases.beside _).bind
    exact fun _ => ih

theorem reloadApp_erases (m : AppToPath) (is : Instances) (appNode : Y.Node) :
    Erases (reloadApp E L m is appNode) (Server.reloadApp E m is appNode) := by
  apply (Erases.ofExcept _).bind
  intro name
  apply (Erases.beside _).bind
  intro s
  cases s.instances.lookup name with
  | some app =>
    apply Erases.note_bind
    apply (Erases.beside _).bind
    exact fun _ => .pure _
  | none =>
    apply (startInstance_erases appNode m is).bind
    rintro ⟨is', a⟩
    simp only []
    cases is'.lookup name with
    | some app => exact (Erases.beside _).bind fun _ => .pure _
    | none => exact .throw _

theorem reloadApps_erases (m : AppToPath) (is : Instances) (appNodes : List Y.Node) :
    Erases (reloadApps E L m is appNodes) (Server.reloadApps E m is appNodes) := by
  induction appNodes generalizing is with
  | nil => exact .pure _
  | cons appNode appNodes ih => exact (reloadApp_erases m is appNode).bind fun is' => ih is'

theorem takeOver_keeps (x : Server × Journal) : ((takeOver L).on x).2.1 = x.1 := by
  rw [takeOver, FailM.on_bind_ok (FailM.on_get _)]
  simp only []
  rw [FailM.on_bind_ok (FailM.on_set _ _)]
  cases (x.2.reset L x.1.log).1 with
  | none => rfl
  | some e => rfl

/-- A logger that throws while it takes over changes the outcome of `init_logger`, not the state. -/
theorem initLogger_tracks (config : Y.Node) :
    Tracks (initLogger E L config) (Server.initLogger E config) := by
  apply Tracks.get_bind
  intro old
  apply (Erases.beside _).tracks.bind_keeps
  intro _ y
  by_cases hold : old.log = .delayedLogger
  · rw [if_pos hold]
    exact takeOver_keeps y
  · rw [if_neg hold]
    rfl

theorem searchPart_erases (l : Log) (path : String) (config : Y.Node) :
    Erases ((fillAppsToPath E L l path config).part
        (fun x : Server × Journal => (x.1.appToPath, x.2))
        (fun x y => ({ x.1 with appToPath := y.1 }, y.2)))
      ((E.fillAppsToPath path config).part (fun s => s.appToPath)
        (fun s m => { s with appToPath := m })) := by
  intro x
  obtain ⟨hr, hm⟩ := fillAppsToPath_erases (L := L) (l := l) path config (x.1.appToPath, x.2)
  rw [FailM.on_part, FailM.on_part, hr, hm]
  exact ⟨rfl, rfl⟩

theorem start_tracks (path : String) : Tracks (start E L path) (Server.start E path) := by
  apply Tracks.bind (.beside _)
  intro _
  apply Tracks.bind (.ofExcept _)
  intro config
  apply Tracks.get_bind
  intro s
  apply Tracks.bind (searchPart_erases s.log path config)
  intro _
  apply Tracks.bind (.ofExcept _)
  intro apps
  apply Tracks.bind (startApps_erases _)
  exact fun _ => initLogger_tracks config

theorem newAppToPath_erases (configPath : String) (config : Y.Node) :
    Erases (newAppToPath E L configPath config)
      (FailM.ofExcept (E.newAppToPath configPath config)) := by
  intro x
  obtain ⟨hr, hm⟩ := fillAppsToPath_erases (E := E) (L := L) (l := x.1.log) configPath config (∅, x.2)
  rw [newAppToPath, FailM.on_bind_ok (FailM.on_get _)]
  simp only []
  rw [FailM.on_bind_ok (FailM.on_set _ _), FailM.on_bind, FailM.on_ofExcept, FailM.on_ofExcept,
    Files.newAppToPath]
  generalize (fillAppsToPath E L x.1.log configPath config).on (∅, x.2) = p at hr hm ⊢
  generalize (E.fillAppsToPath configPath config).on ∅ = q at hr hm ⊢
  obtain ⟨r, m, j⟩ := p
  obtain ⟨r', m'⟩ := q
  subst hr hm
  cases r with
  | ok _ => exact ⟨rfl, rfl⟩
  | error e => exact ⟨rfl, rfl⟩

theorem reload_tracks : Tracks (reload E L) (Server.reload E) := by
  apply Tracks.bind (.beside _)
  intro s
  apply Tracks.bind (.ofExcept _)
  intro config
  apply Tracks.bind (newAppToPath_erases _ _)
  intro m
  apply Tracks.bind (.beside _)
  intro _
  apply Tracks.bind (.ofExcept _)
  intro apps
  apply Tracks.bind (reloadApps_erases _ _ _)
  intro is
  apply Tracks.bind (.beside _)
  intro s
  apply Tracks.bind (.beside _)
  intro _
  apply Tracks.bind (.beside _)
  intro _
  exact (initLogger_tracks config).bind_keeps fun _ _ => rfl

theorem reloadFrom_tracks (path : Option String) :
    Tracks (reloadFrom E L path) (Server.reloadFrom E path) :=
  Tracks.bind (.beside _) fun _ => reload_tracks

end Logged

/-- A call leaves the server as if nothing were logged, whatever the loggers do. -/
theorem loggedMachine_next (x : Server × Journal) (i : LoggedInput Y) :
    ((loggedMachine Y).next x i).1 = (serverMachine Y).next x.1 i.input := by
  obtain ⟨i, L⟩ := i
  cases i with
  | start E path => exact Logged.start_tracks path x
  | stop E => rfl
  | reload E path => exact Logged.reloadFrom_tracks path x
  | construct E config =>
    have h := (Logged.instanceConstruct_erases (E := E) (L := L) config).tracks
    exact h.bind_keeps (fun _ _ => rfl) x
  | free name => rfl

theorem reachable_server {x : Server × Journal}
    (h : (loggedMachine Y).Reachable (fun _ _ => True) x) :
    (serverMachine Y).Reachable (fun _ _ => True) x.1 := by
  apply h.invariant .init
  intro x i hx _ _
  rw [loggedMachine_next]
  exact hx.step trivial trivial

/-- A run of calls leaves the server in the state in which it would be if nothing were logged,
whatever the loggers do. How a call ends is another matter: with a logger that throws as it takes
over, `start` or `reload` throws. -/
theorem logged_run_refines (is : List (LoggedInput Y)) :
    (is.foldl (loggedMachine Y).next (loggedMachine Y).init).1 =
      (is.map LoggedInput.input).foldl (serverMachine Y).next (serverMachine Y).init := by
  have hrun (x : Server × Journal) : (is.foldl (loggedMachine Y).next x).1 =
      (is.map LoggedInput.input).foldl (serverMachine Y).next x.1 := by
    induction is generalizing x with
    | nil => rfl
    | cons i is ih =>
      rw [List.foldl_cons, List.map_cons, List.foldl_cons, ih, loggedMachine_next]
  exact hrun _

end CppAlls
