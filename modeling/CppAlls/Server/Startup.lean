import CppAlls.Server.Dependencies
import CppAlls.Server.Orphans
import CppAlls.Server.Replay

namespace CppAlls
set_option autoImplicit true

open Failing Tables Interaction Machines

theorem AppBody.resolving_outcome {last : Option ServerExn} {is : Instances} {names : List String} :
    (AppBody.resolving last names).outcome is = none ↔
      last = none ∧ ∀ name ∈ names, cStr name ∈ is := by
  induction names with
  | nil =>
    constructor
    · exact fun h => ⟨h, fun _ hname => by cases hname⟩
    · exact fun h => h.1
  | cons name names ih =>
    rw [resolving, outcome, List.forall_mem_cons]
    cases hin : is.lookup (cStr name) with
    | none =>
      constructor
      · intro h
        cases h
      · intro h
        exact absurd h.2.1 (AList.lookup_eq_none.mp hin)
    | some app =>
      have hmem : cStr name ∈ is := AList.lookup_isSome.mp (hin ▸ rfl)
      constructor
      · intro h
        obtain ⟨hlast, hnames⟩ := ih.mp h
        exact ⟨hlast, hmem, hnames⟩
      · intro h
        exact ih.mpr ⟨h.1, h.2.2⟩

/-- The applications resolve the names of their nodes when they are started, and then end with the
given outcome. -/
structure StartsResolving {Y : YamlCpp} (E : Surroundings Y) (names : Y.Node → List String)
    (last : Y.Node → Option ServerExn) : Prop where
  start : ∀ app appType n, E.start app appType n = .resolving (last n) (names n)

namespace Server

variable {Y : YamlCpp} {E : Surroundings Y} {s s' : Server} {known : Instances} {m : AppToPath}
  {names : Y.Node → List String} {last : Y.Node → Option ServerExn}

theorem Creates.startName_iff {appNode : Y.Node} (h : Creates E m appNode appType name) :
    StartName appNode name' ↔ name' = name := by
  constructor
  · intro h'
    obtain ⟨appType', htype, hname⟩ := h'
    cases h.typed.symm.trans htype
    cases h.named.symm.trans hname
    rfl
  · rintro rfl
    exact ⟨appType, h.typed, h.named⟩

/-- The nodes can be started one after the other: each of them can be created, under a name of its
own, and resolves no names but those that are known and those of the nodes before it. -/
structure Orderly (E : Surroundings Y) (names : Y.Node → List String)
    (last : Y.Node → Option ServerExn) (m : AppToPath) (known : Instances)
    (appNodes : List Y.Node) : Prop where
  creates : ∀ n ∈ appNodes, ∃ appType name, Creates E m n appType name
  returns : ∀ n ∈ appNodes, last n = none
  fresh : ∀ n ∈ appNodes, ∀ name, StartName n name → name ∉ known
  distinct : appNodes.Pairwise fun n n' => ∀ name, StartName n name → ¬ StartName n' name
  resolved : ∀ before n behind, appNodes = before ++ n :: behind → ∀ name ∈ names n,
    cStr name ∈ known ∨ ∃ n' ∈ before, StartName n' (cStr name)

theorem orderly_nil : Orderly E names last m known [] where
  creates _ hn := by cases hn
  returns _ hn := by cases hn
  fresh _ hn := by cases hn
  distinct := .nil
  resolved before _ _ he := by cases before <;> cases he

theorem orderly_cons {appNode : Y.Node} {appNodes : List Y.Node}
    (h : Creates E m appNode appType name) (app : Nat) :
    Orderly E names last m known (appNode :: appNodes) ↔
      (last appNode = none ∧ name ∉ known ∧ ∀ x ∈ names appNode, cStr x ∈ known) ∧
        Orderly E names last m (known.emplace name app) appNodes := by
  have hname : StartName appNode name := h.startName_iff.mpr rfl
  constructor
  · intro ho
    obtain ⟨hother, hdistinct⟩ := List.pairwise_cons.mp ho.distinct
    refine ⟨⟨ho.returns _ (.head _), ho.fresh _ (.head _) name hname, ?_⟩, ?_, ?_, ?_, hdistinct, ?_⟩
    · intro x hx
      rcases ho.resolved [] appNode appNodes rfl x hx with hk | ⟨_, hn, _⟩
      · exact hk
      · cases hn
    · exact fun n hn => ho.creates n (.tail _ hn)
    · exact fun n hn => ho.returns n (.tail _ hn)
    · intro n hn name' hname' hk
      rcases Table.mem_emplace.mp hk with hk | rfl
      · exact ho.fresh n (.tail _ hn) name' hname' hk
      · exact hother n hn name' hname hname'
    · intro before n behind he x hx
      rcases ho.resolved (appNode :: before) n behind (congrArg _ he) x hx with hk | ⟨n', hn', hx'⟩
      · exact .inl (Table.mem_emplace.mpr (.inl hk))
      · rcases List.mem_cons.mp hn' with rfl | hn'
        · exact .inl (Table.mem_emplace.mpr (.inr (h.startName_iff.mp hx')))
        · exact .inr ⟨n', hn', hx'⟩
  · rintro ⟨⟨hlast, hnot, hdeps⟩, ho⟩
    constructor
    · intro n hn
      rcases List.mem_cons.mp hn with rfl | hn
      · exact ⟨appType, name, h⟩
      · exact ho.creates n hn
    · intro n hn
      rcases List.mem_cons.mp hn with rfl | hn
      · exact hlast
      · exact ho.returns n hn
    · intro n hn name' hname' hk
      rcases List.mem_cons.mp hn with rfl | hn
      · rw [h.startName_iff.mp hname'] at hk
        exact hnot hk
      · exact ho.fresh n hn name' hname' (Table.mem_emplace.mpr (.inl hk))
    · refine List.pairwise_cons.mpr ⟨?_, ho.distinct⟩
      intro n hn name' hname' hn'
      exact ho.fresh n hn name' hn' (Table.mem_emplace.mpr (.inr (h.startName_iff.mp hname')))
    · intro before n behind he x hx
      cases before with
      | nil =>
        cases he
        exact .inl (hdeps x hx)
      | cons n₀ before =>
        obtain ⟨rfl, rfl⟩ := List.cons.inj he
        rcases ho.resolved before n behind rfl x hx with hk | ⟨n', hn', hx'⟩
        · rcases Table.mem_emplace.mp hk with hk | hk
          · exact .inl hk
          · exact .inr ⟨appNode, .head _, h.startName_iff.mpr hk⟩
        · exact .inr ⟨n', .tail _ hn', hx'⟩

/-- The applications of the nodes were constructed in order, and registered under their names. -/
structure StartedAll (appNodes : List Y.Node) (s s' : Server) : Prop where
  lookup : ∀ name app, s'.instances.lookup name = some app ↔
    s.instances.lookup name = some app ∨
      ∃ i n, appNodes[i]? = some n ∧ StartName n name ∧ app = s.objects.length + i
  objects : ∃ types, s'.objects = s.objects ++ types ∧
    List.Forall₂ (fun n appType => typeOf n = .ok appType) appNodes types

theorem StartedAll.nil (s : Server) : StartedAll (Y := Y) [] s s where
  lookup name app := by
    constructor
    · exact .inl
    · rintro (h | ⟨_, _, hi, _⟩)
      · exact h
      · cases hi
  objects := ⟨[], (List.append_nil _).symm, .nil⟩

theorem StartedAll.cons {appNode : Y.Node} {appNodes : List Y.Node}
    (h : Starts E appNode m s.instances s appType name)
    (hall : StartedAll appNodes (added E s appType name appNode) s') :
    StartedAll (appNode :: appNodes) s s' := by
  obtain ⟨types, hobj, htypes⟩ := hall.objects
  have hlen : (added E s appType name appNode).objects.length = s.objects.length + 1 :=
    List.length_append
  constructor
  · intro name' app
    rw [hall.lookup, hlen]
    constructor
    · rintro (hn | ⟨i, n, hi, hn, rfl⟩)
      · rcases Table.lookup_of_emplace hn with hn | ⟨rfl, rfl⟩
        · exact .inl hn
        · exact .inr ⟨0, appNode, rfl, h.startName_iff.mpr rfl, rfl⟩
      · exact .inr ⟨i + 1, n, hi, hn, Nat.add_right_comm _ 1 i⟩
    · rintro (hn | ⟨i, n, hi, hn, rfl⟩)
      · exact .inl (Table.lookup_emplace_of_lookup hn)
      · cases i with
        | zero =>
          cases hi
          rw [h.startName_iff.mp hn]
          exact .inl (Table.lookup_emplace_self h.lookup_none)
        | succ i => exact .inr ⟨i, n, hi, hn, (Nat.add_right_comm _ 1 i).symm⟩
  · refine ⟨appType :: types, ?_, .cons h.typed htypes⟩
    rw [hobj, List.append_cons]
    rfl

theorem starts_iff (hE : StartsResolving E names last) {appNode : Y.Node}
    (h : Creates E m appNode appType name) : Starts E appNode m s.instances s appType name ↔
      last appNode = none ∧ name ∉ s.instances ∧ ∀ x ∈ names appNode, cStr x ∈ s.instances := by
  have hbody : (startBody E s appType appNode).outcome s.instances = none ↔
      last appNode = none ∧ ∀ x ∈ names appNode, cStr x ∈ s.instances := by
    rw [startBody, hE.start]
    exact AppBody.resolving_outcome
  constructor
  · intro hst
    obtain ⟨hlast, hdeps⟩ := hbody.mp hst.returns
    exact ⟨hlast, hst.fresh, hdeps⟩
  · rintro ⟨hlast, hnot, hdeps⟩
    exact ⟨h, hbody.mpr ⟨hlast, hdeps⟩, hnot⟩

theorem startApps_orderly (hE : StartsResolving E names last) (appNodes : List Y.Node) :
    (startApps E appNodes).Wp (fun r s' =>
      (r = .ok () ↔ Orderly E names last s.appToPath s.instances appNodes) ∧
        (r = .ok () → StartedAll appNodes s s')) s := by
  induction appNodes generalizing s with
  | nil => exact FailM.Wp.pure ⟨⟨fun _ => orderly_nil, fun _ => rfl⟩, fun _ => .nil s⟩
  | cons appNode appNodes ih =>
    apply startApps_cons_wp
    · intro appType name hst
      apply ih.mono
      rintro r s₁ ⟨hiff, hall⟩
      refine ⟨?_, fun hr => (hall hr).cons hst⟩
      rw [hiff, orderly_cons hst.toCreates s.objects.length]
      exact (and_iff_right ((starts_iff hE hst.toCreates).mp hst)).symm
    · intro e s₁ hlaunch
      refine ⟨⟨(fun hr => by cases hr), ?_⟩, fun hr => by cases hr⟩
      intro ho
      obtain ⟨appType, name, hc⟩ := ho.creates appNode (.head _)
      have hst := (starts_iff hE hc).mpr ((orderly_cons hc 0).mp ho).1
      exact absurd hst (hlaunch.not_starts appType name)

/-- No logger is configured, or one of the nodes is a logger of the configured name. -/
def LoggerConfigured (E : Surroundings Y) (config : Y.Node) (appNodes : List Y.Node) : Prop :=
  ∃ core logger, Y.index config "core" = .ok core ∧ Y.index core "logger" = .ok logger ∧
    (Y.isDefined logger = true → ∃ name n appType, Y.asString logger = .ok name ∧ n ∈ appNodes ∧
      StartName n (cStr name) ∧ typeOf n = .ok appType ∧ E.isLogger appType = true)

/-- The type of an application is that of the node it was constructed for. -/
theorem newObject_any {appNodes : List Y.Node} {types : List String} {n : Y.Node}
    (hobj : s'.objects = s.objects ++ types)
    (htypes : List.Forall₂ (fun n appType => typeOf n = .ok appType) appNodes types)
    (hi : appNodes[i]? = some n) (p : String → Bool) :
    (s'.objects[s.objects.length + i]?).any p = true ↔
      ∃ appType, typeOf n = .ok appType ∧ p appType = true := by
  obtain ⟨hlt, rfl⟩ := List.getElem?_eq_some_iff.mp hi
  have hlt' : i < types.length := htypes.length_eq ▸ hlt
  have htype := htypes.get hlt hlt'
  rw [hobj, List.getElem?_append_right (Nat.le_add_right _ _), Nat.add_sub_cancel_left,
    List.getElem?_eq_getElem hlt', Option.any_some]
  constructor
  · exact fun hp => ⟨_, htype, hp⟩
  · rintro ⟨appType, ht, hp⟩
    cases ht.symm.trans htype
    exact hp

/-- After a start from an empty registry `app::get` finds the loggers among the nodes. -/
theorem StartedAll.logger_iff {appNodes : List Y.Node} (h : StartedAll appNodes s s')
    (hempty : s.instances = ∅) :
    (∃ app, s'.find name = some app ∧ (s'.objects[app]?).any isLogger = true) ↔
      ∃ n appType, n ∈ appNodes ∧ StartName n (cStr name) ∧ typeOf n = .ok appType ∧
        isLogger appType = true := by
  obtain ⟨types, hobj, htypes⟩ := h.objects
  have hnone (app : Nat) : s.instances.lookup (cStr name) ≠ some app := by
    rw [hempty]
    exact nofun
  constructor
  · rintro ⟨app, hfind, hlog⟩
    rcases (h.lookup _ _).mp hfind with hn | ⟨i, n, hi, hn, rfl⟩
    · exact absurd hn (hnone app)
    · obtain ⟨appType, ht⟩ := (newObject_any hobj htypes hi isLogger).mp hlog
      exact ⟨n, appType, List.mem_of_getElem? hi, hn, ht⟩
  · rintro ⟨n, appType, hmem, hn, ht⟩
    obtain ⟨i, hi⟩ := List.getElem?_of_mem hmem
    refine ⟨s.objects.length + i, ?_, ?_⟩
    · exact (h.lookup _ _).mpr (.inr ⟨i, n, hi, hn, rfl⟩)
    · exact (newObject_any hobj htypes hi isLogger).mpr ⟨appType, ht⟩

theorem StartedAll.namesLogger_iff {appNodes : List Y.Node} (h : StartedAll appNodes s s')
    (hempty : s.instances = ∅) (config : Y.Node) :
    NamesLogger E config s' ↔ LoggerConfigured E config appNodes := by
  rw [Server.namesLogger_iff]
  constructor
  · rintro ⟨core, logger, hcore, hlogger, hnamed⟩
    refine ⟨core, logger, hcore, hlogger, fun hdef => ?_⟩
    obtain ⟨name, hname, happ⟩ := hnamed hdef
    obtain ⟨n, appType, hn⟩ := (h.logger_iff hempty).mp happ
    exact ⟨name, n, appType, hname, hn⟩
  · rintro ⟨core, logger, hcore, hlogger, hnamed⟩
    refine ⟨core, logger, hcore, hlogger, fun hdef => ?_⟩
    obtain ⟨name, n, appType, hname, hn⟩ := hnamed hdef
    exact ⟨name, hname, (h.logger_iff hempty).mpr ⟨n, appType, hn⟩⟩

/-- What a start from an empty registry needs in order to return. -/
def Startable (E : Surroundings Y) (names : Y.Node → List String)
    (last : Y.Node → Option ServerExn) (path : String) (known : AppToPath) : Prop :=
  ∃ config m apps, E.readConfig path = .ok config ∧
    (E.fillAppsToPath path config).on known = (.ok (), m) ∧
    Y.index config "applications" = .ok apps ∧
    Orderly E names last m ∅ (Y.elements apps) ∧ LoggerConfigured E config (Y.elements apps)

/-- The registry holds the applications of the nodes under their names, numbered from `first` on. -/
def RegistryOf (first : Nat) (appNodes : List Y.Node) (is : Instances) : Prop :=
  ∀ name app, is.lookup name = some app ↔
    ∃ i n, appNodes[i]? = some n ∧ StartName n name ∧ app = first + i

/-- The server reads its configuration, whose nodes are as `P` says with the binaries found, and the
configured logger is among them. -/
def ReadsNodes (E : Surroundings Y) (P : AppToPath → List Y.Node → Prop) (path : String)
    (known : AppToPath) : Prop :=
  ∃ config m apps, E.readConfig path = .ok config ∧
    (E.fillAppsToPath path config).on known = (.ok (), m) ∧
    Y.index config "applications" = .ok apps ∧
    P m (Y.elements apps) ∧ LoggerConfigured E config (Y.elements apps)

/-- When `P` is what the loop of `start` needs, it is what `start` needs of the nodes. -/
theorem start_of_loop {P : AppToPath → List Y.Node → Prop} (path : String)
    (hempty : s.instances = ∅)
    (hloop : ∀ m appNodes, E.configuredApps path = .ok appNodes →
      (startApps E appNodes).Wp (fun r s' =>
          (r = .ok () ↔ P m appNodes) ∧ (r = .ok () → StartedAll appNodes s s'))
        { s with configPath := path, appToPath := m }) :
    (start E path).Wp (fun r s' =>
      (r = .ok () ↔ ReadsNodes E P path s.appToPath) ∧
        (r = .ok () → ∃ appNodes, E.configuredApps path = .ok appNodes ∧
          RegistryOf s.objects.length appNodes s'.instances)) s := by
  apply FailM.Wp.modify_bind
  apply FailM.Wp.ofExcept_bind
  · intro config hconfig
    cases hfill : (E.fillAppsToPath path config).on s.appToPath with
    | mk r m =>
      have hpart : ((E.fillAppsToPath path config).part (fun s : Server => s.appToPath)
          (fun s m => { s with appToPath := m })).on { s with configPath := path } =
          (r, { s with configPath := path, appToPath := m }) := by
        rw [FailM.on_part, hfill]
      cases r with
      | error e =>
        refine FailM.Wp.bind_error hpart ⟨⟨nofun, ?_⟩, nofun⟩
        rintro ⟨config', m', _, hconfig', hfill', _⟩
        cases hconfig.symm.trans hconfig'
        cases hfill.symm.trans hfill'
      | ok _ =>
        apply FailM.Wp.bind_ok hpart
        apply FailM.Wp.ofExcept_bind
        · intro apps happs
          have hopens : ReadsNodes E P path s.appToPath ↔
              P m (Y.elements apps) ∧ LoggerConfigured E config (Y.elements apps) := by
            constructor
            · rintro ⟨config', m', apps', hconfig', hfill', happs', h⟩
              cases hconfig.symm.trans hconfig'
              cases hfill.symm.trans hfill'
              cases happs.symm.trans happs'
              exact h
            · exact fun h => ⟨config, m, apps, hconfig, hfill, happs, h⟩
          have hnodes := configuredApps_eq hconfig happs
          rw [hopens]
          apply FailM.Wp.andThen (hloop m (Y.elements apps) hnodes)
          · rintro _ s₁ ⟨ho, hall⟩
            have hall := hall rfl
            apply (initLogger_returns_iff config s₁).mono
            rintro r s₂ ⟨his, hlog⟩
            rw [hall.namesLogger_iff hempty] at hlog
            refine ⟨hlog.trans (and_iff_right (ho.mp rfl)).symm, ?_⟩
            intro _
            refine ⟨Y.elements apps, hnodes, ?_⟩
            intro name app
            rw [his, hall.lookup]
            apply or_iff_right
            rw [hempty]
            exact nofun
          · rintro e s₁ ⟨ho, _⟩
            refine ⟨⟨nofun, ?_⟩, nofun⟩
            intro h
            cases ho.mpr h.1
        · intro e he
          refine ⟨⟨nofun, ?_⟩, nofun⟩
          rintro ⟨config', _, _, hconfig', _, happs, _⟩
          cases hconfig.symm.trans hconfig'
          cases he.symm.trans happs
  · intro e he
    refine ⟨⟨nofun, ?_⟩, nofun⟩
    rintro ⟨config, _, _, hconfig, _⟩
    cases he.symm.trans hconfig

theorem start_outcome (hE : StartsResolving E names last) (path : String)
    (hempty : s.instances = ∅) :
    (start E path).Wp (fun r s' =>
      (r = .ok () ↔ Startable E names last path s.appToPath) ∧
        (r = .ok () → ∃ appNodes, E.configuredApps path = .ok appNodes ∧
          RegistryOf s.objects.length appNodes s'.instances)) s := by
  apply start_of_loop path hempty
  intro m appNodes _
  apply (startApps_orderly hE appNodes).mono
  intro r s' ⟨hiff, hall⟩
  exact ⟨hempty ▸ hiff, fun hr => ⟨(hall hr).lookup, (hall hr).objects⟩⟩

theorem start_logged {L : Loggers Y} {x : Server × Journal} (hE : StartsResolving E names last)
    (path : String) (hempty : x.1.instances = ∅) (hL : Logged.Replays L x) :
    (Logged.start E L path).Wp (fun r y =>
      (r = .ok () ↔ Startable E names last path x.1.appToPath) ∧
        (r = .ok () → ∃ appNodes, E.configuredApps path = .ok appNodes ∧
          RegistryOf x.1.objects.length appNodes y.1.instances)) x :=
  Logged.wp_of_ends (Logged.start_ends path) (Logged.start_tracks path) hL
    (start_outcome hE path hempty)

/-- A start from an empty registry, with a logger that does not throw for the records that it takes
over, returns exactly when each configured application can be created under a name of its own,
resolves only names of applications that are configured before it, and the configured logger is one
of them. The registry is then the configured applications in order. -/
theorem start_returns_iff (E : Surroundings Y) (L : Loggers Y) (names : Y.Node → List String)
    (last : Y.Node → Option ServerExn) (hE : StartsResolving E names last) (path : String)
    (x : Server × Journal) (hempty : x.1.instances = ∅) (hL : Logged.Replays L x) :
    (((Logged.start E L path).on x).1 = .ok () ↔ Startable E names last path x.1.appToPath) ∧
      ∀ x', (Logged.start E L path).on x = (.ok (), x') → ∃ appNodes,
        E.configuredApps path = .ok appNodes ∧
          RegistryOf x.1.objects.length appNodes x'.1.instances := by
  obtain ⟨hiff, hreg⟩ := start_logged hE path hempty hL
  refine ⟨hiff, ?_⟩
  intro x' hon
  rw [hon] at hreg
  exact hreg rfl

/-- The echo application resolves the logger, which has to come first. -/
theorem logger_before_echo :
    Startable (loggingSurroundings (loggerConfig [loggerNode, echoNode])) plainNames
        (fun _ => none) "config.yaml" ∅ ∧
      ¬ Startable (loggingSurroundings (loggerConfig [echoNode, loggerNode])) plainNames
        (fun _ => none) "config.yaml" ∅ := by
  have hL : Logged.Replays (plainLoggers none) ({}, {}) := fun _ _ _ _ => rfl
  constructor
  · apply (start_returns_iff _ (plainLoggers none) _ _ ⟨fun _ _ _ => rfl⟩ "config.yaml" ({}, {})
      rfl hL).1.mp
    decide +kernel
  · intro h
    have hret := (start_returns_iff _ (plainLoggers none) _ _ ⟨fun _ _ _ => rfl⟩ "config.yaml"
      ({}, {}) rfl hL).1.mpr h
    have hthrows : ((Logged.start (loggingSurroundings (loggerConfig [echoNode, loggerNode]))
        (plainLoggers none) "config.yaml").on ({}, {})).1 ≠ .ok () := by
      decide +kernel
    exact hthrows hret

end Server

end CppAlls
