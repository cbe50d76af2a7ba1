import CppAlls.Server.Discovery
import CppAlls.Server.Replay
import CppAlls.Server.Running

namespace CppAlls
set_option autoImplicit true

open Failing Tables Interaction Machines Recording

/-- What becomes of a message with the delayed logger. -/
def Journal.hold (m : Message) (j : Journal) : Journal :=
  { j with records := j.records ++ [m.record], logged := j.logged ++ [m] }

namespace Server

variable {Y : YamlCpp} {E : Surroundings Y} {L L' : Loggers Y} {s s' : Server} {known : Instances}
  {m : AppToPath} {x y z : Server × Journal}

def typeUnder (s : Server) (name : String) : Option String :=
  (s.instances.lookup name).bind fun app => s.objects[app]?

/-- One call returns if and only if the other does, and then they leave the same binaries, and the
same names with the same application types. -/
structure Agree (p q : Except ServerExn Unit × Server × Journal) : Prop where
  returns : p.1 = .ok () ↔ q.1 = .ok ()
  appToPath : p.1 = .ok () → q.1 = .ok () →
    ∀ type, p.2.1.appToPath.lookup type = q.2.1.appToPath.lookup type
  names : p.1 = .ok () → q.1 = .ok () → ∀ name, name ∈ p.2.1.instances ↔ name ∈ q.2.1.instances
  types : p.1 = .ok () → q.1 = .ok () → ∀ name, p.2.1.typeUnder name = q.2.1.typeUnder name

/-- The two accesses to the name of a node yield the same. -/
def SameName (appNode : Y.Node) : Prop :=
  ∀ appType, typeOf appNode = .ok appType →
    ∀ name, instanceName appNode = .ok name ↔ instanceNameOr appNode appType = .ok name

/-- The state after an application was started and registered, and its message held. -/
def addedTo (E : Surroundings Y) (x : Server × Journal) (appType name : String) (appNode : Y.Node) :
    Server × Journal :=
  (added E x.1 appType name appNode, x.2.hold (.starting appType name))

/-- The state after an application was reloaded, and its message held. -/
def reloadedIn (E : Surroundings Y) (x : Server × Journal) (name : String) (app : Nat)
    (appNode : Y.Node) : Server × Journal :=
  (x.1.ran app .reload (E.reload app appNode), x.2.hold (.reloading name))

/-- A logger is chosen, and takes over what the delayed logger holds. -/
def LoggerTakes (E : Surroundings Y) (L : Loggers Y) (config : Y.Node) (x : Server × Journal) :
    Prop :=
  ∃ log, Chooses E config x.1 log ∧ (x.1.log = .delayedLogger → (x.2.reset L log).1 = none)

def StopsAll (E : Surroundings Y) (s : Server) : Prop :=
  ∀ name app, s.instances.lookup name = some app → (E.stop app).outcome s.instances = none

/-- Each node can be started, in the state that those before it leave, and at the end there is `Q`.
-/
def StartsThrough (E : Surroundings Y) (m : AppToPath) (Q : Server × Journal → Prop) :
    List Y.Node → Server × Journal → Prop
  | [], x => Q x
  | appNode :: appNodes, x => ∃ appType name, Starts E appNode m x.1.instances x.1 appType name ∧
      StartsThrough E m Q appNodes (addedTo E x appType name appNode)

/-- Each node can be reloaded, or started under the name for which `reload` looks. -/
def ReloadsThrough (E : Surroundings Y) (m : AppToPath) (Q : Server × Journal → Prop) :
    List Y.Node → Server × Journal → Prop
  | [], x => Q x
  | appNode :: appNodes, x => ∃ name, instanceName appNode = .ok name ∧
      ((∃ app, x.1.instances.lookup name = some app ∧
          (E.reload app appNode).outcome x.1.instances = none ∧
          ReloadsThrough E m Q appNodes (reloadedIn E x name app appNode)) ∨
        ∃ appType, Starts E appNode m x.1.instances x.1 appType name ∧
          ReloadsThrough E m Q appNodes (addedTo E x appType name appNode))

/-- What is behind the loop of `reload`. -/
def ReloadTakes (E : Surroundings Y) (L : Loggers Y) (config : Y.Node) (x : Server × Journal) :
    Prop :=
  StopsAll E x.1 ∧ LoggerTakes E L config x

/-- Both loops start the nodes under the same names, and behind them `reload` fails if and only if
`start` does. Where they part at a node, each fails there or behind it. -/
def Alike (E : Surroundings Y) (L L' : Loggers Y) (config : Y.Node) (m : AppToPath) :
    List Y.Node → Server × Journal → Prop
  | [], x => LoggerTakes E L config x ↔ ReloadTakes E L' config x
  | appNode :: appNodes, x =>
    (∃ appType name, instanceName appNode = .ok name ∧
      Starts E appNode m x.1.instances x.1 appType name ∧
      Alike E L L' config m appNodes (addedTo E x appType name appNode)) ∨
    ((∀ appType name, Starts E appNode m x.1.instances x.1 appType name →
        instanceName appNode ≠ .ok name) ∧
      ¬ StartsThrough E m (LoggerTakes E L config) (appNode :: appNodes) x ∧
      ¬ ReloadsThrough E m (ReloadTakes E L' config) (appNode :: appNodes) x)

/-- What the delayed logger holds after the search for binaries. -/
def searched (E : Surroundings Y) (L : Loggers Y) (path : String) (config : Y.Node) (j : Journal) :
    Journal :=
  ((Logged.fillAppsToPath E L .delayedLogger path config).on (∅, j)).2.2

def AlikeConfig (E : Surroundings Y) (L L' : Loggers Y) (path : String) (x : Server × Journal) :
    Prop :=
  ∀ config m appNodes, Opens E path config m appNodes →
    Alike E L L' config m appNodes ({ x.1 with configPath := path }, searched E L path config x.2)

/-- The loops and the logger find in `y` what they find in `x`. -/
structure Mirrors (x y : Server × Journal) : Prop where
  instances : y.1.instances = x.1.instances
  objects : y.1.objects = x.1.objects
  log : y.1.log = x.1.log
  held : x.1.log = .delayedLogger → y.2 = x.2

namespace Mirrors

theorem starts_iff (h : Mirrors x y) {appNode : Y.Node} :
    Starts E appNode m y.1.instances y.1 appType name ↔
      Starts E appNode m x.1.instances x.1 appType name := by
  constructor
  · intro hst
    exact hst.of_eq (fun _ => rfl) h.instances.symm h.objects.symm (h.instances ▸ hst.fresh)
  · intro hst
    exact hst.of_eq (fun _ => rfl) h.instances h.objects (h.instances.symm ▸ hst.fresh)

theorem takes_iff (h : Mirrors x y) (config : Y.Node) :
    LoggerTakes E L config y ↔ LoggerTakes E L config x := by
  have hchooses (log : Log) : Chooses E config y.1 log ↔ Chooses E config x.1 log :=
    chooses_congr (fun name => by rw [h.instances]) h.objects config log
  simp only [LoggerTakes, hchooses, h.log]
  constructor
  · rintro ⟨log, hlog, hreset⟩
    exact ⟨log, hlog, fun hd => h.held hd ▸ hreset hd⟩
  · rintro ⟨log, hlog, hreset⟩
    exact ⟨log, hlog, fun hd => (h.held hd).symm ▸ hreset hd⟩

theorem reloadTakes_iff (h : Mirrors x y) (config : Y.Node) :
    ReloadTakes E L config y ↔ ReloadTakes E L config x := by
  rw [ReloadTakes, ReloadTakes, h.takes_iff, StopsAll, StopsAll, h.instances]

theorem streamed (h : Mirrors x y) (his : s'.instances = s.instances)
    (hobj : s'.objects = s.objects) (hlog : s.log = x.1.log) (hlog' : s'.log = y.1.log)
    (msg : Message) : Mirrors (s, x.2.hold msg) (s', y.2.stream L y.1.log msg) := by
  refine ⟨his, hobj, hlog'.trans (h.log.trans hlog.symm), ?_⟩
  intro hd
  have hdx : x.1.log = .delayedLogger := hlog.symm.trans hd
  change y.2.stream L y.1.log msg = x.2.hold msg
  rw [h.log.trans hdx, Journal.stream_delayed, h.held hdx]
  rfl

theorem added (h : Mirrors x y) (appType name : String) (appNode : Y.Node) :
    Mirrors (addedTo E x appType name appNode)
      (Server.added E y.1 appType name appNode,
        y.2.stream L y.1.log (.starting appType name)) := by
  apply h.streamed
  · simp only [Server.added, h.instances, h.objects]
  · exact congrArg (· ++ [appType]) h.objects
  · rfl
  · rfl

theorem reloaded (h : Mirrors x y) (name : String) (app : Nat) (appNode : Y.Node) :
    Mirrors (reloadedIn E x name app appNode)
      (y.1.ran app .reload (E.reload app appNode), y.2.stream L y.1.log (.reloading name)) := by
  apply h.streamed
  · exact h.instances
  · exact h.objects
  · rfl
  · rfl

end Mirrors

theorem startsThrough_cons {Q : Server × Journal → Prop} {appNode : Y.Node}
    (h : Starts E appNode m x.1.instances x.1 appType name) (appNodes : List Y.Node) :
    StartsThrough E m Q (appNode :: appNodes) x ↔
      StartsThrough E m Q appNodes (addedTo E x appType name appNode) := by
  constructor
  · rintro ⟨_, _, h', hrest⟩
    obtain ⟨rfl, rfl⟩ := h.toCreates.eq h'.toCreates
    exact hrest
  · exact fun hrest => ⟨appType, name, h, hrest⟩

theorem reloadsThrough_added {Q : Server × Journal → Prop} {appNode : Y.Node}
    (hname : instanceName appNode = .ok name)
    (h : Starts E appNode m x.1.instances x.1 appType name) (appNodes : List Y.Node) :
    ReloadsThrough E m Q (appNode :: appNodes) x ↔
      ReloadsThrough E m Q appNodes (addedTo E x appType name appNode) := by
  constructor
  · rintro ⟨_, hname', ⟨_, hin, _⟩ | ⟨_, h', hrest⟩⟩
    · cases hname.symm.trans hname'
      cases hin.symm.trans h.lookup_none
    · obtain ⟨rfl, rfl⟩ := h.toCreates.eq h'.toCreates
      exact hrest
  · exact fun hrest => ⟨name, hname, .inr ⟨appType, h, hrest⟩⟩

theorem reloadsThrough_reloaded {Q : Server × Journal → Prop} {appNode : Y.Node}
    (hname : instanceName appNode = .ok name) (hin : x.1.instances.lookup name = some app)
    (he : (E.reload app appNode).outcome x.1.instances = none) (appNodes : List Y.Node) :
    ReloadsThrough E m Q (appNode :: appNodes) x ↔
      ReloadsThrough E m Q appNodes (reloadedIn E x name app appNode) := by
  constructor
  · rintro ⟨_, hname', ⟨_, hin', _, hrest⟩ | ⟨_, h, _⟩⟩
    · cases hname.symm.trans hname'
      cases hin.symm.trans hin'
      exact hrest
    · cases hname.symm.trans hname'
      cases hin.symm.trans h.lookup_none
  · exact fun hrest => ⟨name, hname, .inl ⟨app, hin, he, hrest⟩⟩

theorem startInstance_fails {appNode : Y.Node}
    (h : ∀ appType name, ¬ Starts E appNode m known s appType name) :
    ∃ e s', (startInstance E appNode m known).on s = (.error e, s') := by
  obtain ⟨r, s', hon, hout⟩ := (startInstance_cases (E := E) appNode m known s).exists_on
  cases r with
  | error e => exact ⟨e, s', hon⟩
  | ok x =>
    obtain ⟨appType, name, hs, _⟩ := hout.of_ok
    exact absurd hs (h appType name)

theorem on_say (msg : Message) (x : Server × Journal) : (Logged.say L msg).on x =
    (.ok (), (x.1, x.2.stream L x.1.log msg)) := rfl

theorem startInstance_added {appNode : Y.Node} (h : Starts E appNode m known y.1 appType name) :
    (Logged.startInstance E L appNode m known).on y =
      (.ok (known.emplace name y.1.objects.length, y.1.objects.length),
        (launched E y.1 appType appNode, y.2.stream L y.1.log (.starting appType name))) := by
  obtain ⟨path, hpath, hcreate⟩ := h.found
  have hset (j : Journal) : (beside (set { y.1 with objects := y.1.objects ++ [appType] }) :
      Logged.LoggedM PUnit).on (y.1, j) = (.ok ⟨⟩, (y.1.created appType, j)) := rfl
  have hlife (j : Journal) : (beside (lifecycle y.1.objects.length .start
      (E.start y.1.objects.length appType appNode)) : Logged.LoggedM Unit).on
        (y.1.created appType, j) = (.ok (), (launched E y.1 appType appNode, j)) := by
    have hreturns : (E.start y.1.objects.length appType appNode).outcome
        (y.1.created appType).instances = none := h.returns
    rw [on_beside, lifecycle_ran, hreturns]
    rfl
  rw [Logged.startInstance, h.typed, FailM.on_bind_ok (FailM.on_ofExcept _ _), hpath]
  simp only []
  rw [Logged.startInstanceFrom, hcreate, FailM.on_bind_ok (FailM.on_ofExcept _ _), on_get_bind,
    FailM.on_bind_ok (hset _), h.named, FailM.on_bind_ok (FailM.on_ofExcept _ _),
    FailM.on_bind_ok (on_say _ _), FailM.on_bind_ok (hlife _),
    FailM.on_bind_ok (FailM.on_ofExcept _ _), if_neg h.fresh]
  rfl

/-- What is behind the readings of `start`. -/
def startLoop (E : Surroundings Y) (L : Loggers Y) (config : Y.Node) (appNodes : List Y.Node) :
    Logged.LoggedM Unit :=
  Logged.startApps E L appNodes >>= fun _ => Logged.initLogger E L config

theorem startLoop_added {config appNode : Y.Node}
    (h : Starts E appNode y.1.appToPath y.1.instances y.1 appType name) (appNodes : List Y.Node) :
    (startLoop E L config (appNode :: appNodes)).on y = (startLoop E L config appNodes).on
      (added E y.1 appType name appNode, y.2.stream L y.1.log (.starting appType name)) := by
  rw [startLoop, startLoop, FailM.on_bind, FailM.on_bind, Logged.startApps, on_get_bind,
    FailM.on_bind_ok (startInstance_added h), FailM.on_bind_ok (on_beside _ _)]
  rfl

theorem startLoop_refused {config appNode : Y.Node}
    (h : ∀ appType name, ¬ Starts E appNode y.1.appToPath y.1.instances y.1 appType name)
    (appNodes : List Y.Node) : ((startLoop E L config (appNode :: appNodes)).on y).1 ≠ .ok () := by
  obtain ⟨e, s', hon⟩ := startInstance_fails h
  obtain ⟨hr, _⟩ := Logged.startInstance_erases (L := L) appNode y.1.appToPath y.1.instances y
  rw [hon] at hr
  rw [startLoop, FailM.on_bind, Logged.startApps, on_get_bind,
    FailM.on_bind_error (Prod.ext hr rfl)]
  exact nofun

/-- What is behind the loop of `reload`. -/
def exchangeLogged (E : Surroundings Y) (L : Loggers Y) (config : Y.Node) (m : AppToPath)
    (is : Instances) : Logged.LoggedM Unit := do
  let s ← beside get
  beside (stopApps E (E.order s.instances.values))
  beside (modify fun s => { s with instances := is, appToPath := m })
  Logged.initLogger E L config
  Logged.say L (.resulting (L.dump config))

def reloadLoop (E : Surroundings Y) (L : Loggers Y) (config : Y.Node) (m : AppToPath)
    (is : Instances) (appNodes : List Y.Node) : Logged.LoggedM Unit :=
  Logged.reloadApps E L m is appNodes >>= exchangeLogged E L config m

theorem reloadApp_added {appNode : Y.Node} (hname : instanceName appNode = .ok name)
    (h : Starts E appNode m z.1.instances z.1 appType name) :
    (Logged.reloadApp E L m z.1.instances appNode).on z =
      (.ok (added E z.1 appType name appNode).instances,
        (added E z.1 appType name appNode, z.2.stream L z.1.log (.starting appType name))) := by
  have hnone := h.lookup_none
  rw [Logged.reloadApp, hname, FailM.on_bind_ok (FailM.on_ofExcept _ _), on_get_bind, hnone]
  simp only []
  rw [FailM.on_bind_ok (startInstance_added h), Table.lookup_emplace_self hnone]
  rfl

theorem reloadApp_reloaded {appNode : Y.Node} (hname : instanceName appNode = .ok name)
    (hin : z.1.instances.lookup name = some app)
    (he : (E.reload app appNode).outcome z.1.instances = none) :
    (Logged.reloadApp E L m z.1.instances appNode).on z =
      (.ok (z.1.ran app .reload (E.reload app appNode)).instances,
        (z.1.ran app .reload (E.reload app appNode),
          z.2.stream L z.1.log (.reloading name))) := by
  have hlife (j : Journal) : (beside (lifecycle app .reload (E.reload app appNode)) :
      Logged.LoggedM Unit).on (z.1, j) =
        (.ok (), (z.1.ran app .reload (E.reload app appNode), j)) := by
    rw [on_beside, lifecycle_ran, he]
    rfl
  rw [Logged.reloadApp, hname, FailM.on_bind_ok (FailM.on_ofExcept _ _), on_get_bind, hin]
  simp only []
  rw [FailM.on_bind_ok (on_say _ _), FailM.on_bind_ok (hlife _),
    Table.emplace_of_mem (AList.lookup_isSome.mp (hin ▸ rfl))]
  rfl

theorem reloadApp_refused {appNode : Y.Node}
    (hreload : ∀ name app, instanceName appNode = .ok name → z.1.instances.lookup name = some app →
      (E.reload app appNode).outcome z.1.instances ≠ none)
    (hstart : ∀ appType name, instanceName appNode = .ok name →
      ¬ Starts E appNode m z.1.instances z.1 appType name) :
    ∃ e z', (Logged.reloadApp E L m z.1.instances appNode).on z = (.error e, z') := by
  obtain ⟨hr, _⟩ := Logged.reloadApp_erases (L := L) m z.1.instances appNode z
  obtain ⟨r, s', hon, hround⟩ := (reloadApp_round appNode m z.1.instances z.1).exists_on
  rw [hon] at hr
  cases r with
  | error e => exact ⟨e, _, Prod.ext hr rfl⟩
  | ok is =>
    cases hround with
    | reloaded hname hin he => exact absurd he (hreload _ _ hname hin)
    | started hname hin h hnew =>
      obtain ⟨rfl, rfl⟩ := Sub.lookup_emplace (fun _ _ hn => hn) hin hnew
      exact absurd h (hstart _ _ hname)

theorem reloadLoop_ok {config appNode : Y.Node}
    (h : (Logged.reloadApp E L m is appNode).on z = (.ok is', z')) (appNodes : List Y.Node) :
    (reloadLoop E L config m is (appNode :: appNodes)).on z =
      (reloadLoop E L config m is' appNodes).on z' := by
  rw [reloadLoop, reloadLoop, FailM.on_bind, FailM.on_bind, Logged.reloadApps,
    FailM.on_bind_ok h]

theorem reloadLoop_error {config appNode : Y.Node}
    (h : (Logged.reloadApp E L m is appNode).on z = (.error e, z')) (appNodes : List Y.Node) :
    ((reloadLoop E L config m is (appNode :: appNodes)).on z).1 ≠ .ok () := by
  rw [reloadLoop, FailM.on_bind, Logged.reloadApps, FailM.on_bind_error h]
  exact nofun

theorem initLogger_takes (config : Y.Node) (y : Server × Journal) :
    (Logged.initLogger E L config).Wp (fun r y' => (r = .ok () ↔ LoggerTakes E L config y) ∧
      y'.1.instances = y.1.instances ∧ y'.1.objects = y.1.objects ∧
      y'.1.appToPath = y.1.appToPath) y := by
  obtain ⟨r, s', hon, ⟨log, rfl, _⟩, hchoice⟩ :=
    ((initLogger_outcome (E := E) config y.1).and (initLogger_choice config y.1)).exists_on
  have hr := Logged.initLogger_on (E := E) (L := L) config y
  have hs := Logged.initLogger_tracks (E := E) (L := L) config y
  rw [hon] at hr hs
  rw [FailM.Wp, hr, hs]
  refine ⟨?_, rfl, rfl, rfl⟩
  cases r with
  | error e =>
    constructor
    · intro h
      cases h
    · intro h
      obtain ⟨log', hlog, _⟩ := h
      cases ((hchoice log').mpr hlog).1
  | ok _ =>
    have htakes : LoggerTakes E L config y ↔
        (y.1.log = .delayedLogger → (y.2.reset L log).1 = none) := by
      constructor
      · rintro ⟨log', hlog, hreset⟩
        obtain rfl : log = log' := ((hchoice log').mpr hlog).2
        exact hreset
      · exact fun hreset => ⟨log, (hchoice log).mp ⟨rfl, rfl⟩, hreset⟩
    rw [htakes]
    by_cases hd : y.1.log = .delayedLogger
    · simp only [if_pos hd, forall_prop_of_true hd]
      cases (y.2.reset L log).1 with
      | none => exact iff_of_true rfl rfl
      | some e =>
        constructor
        · intro h
          cases h
        · intro h
          cases h
    · simp only [if_neg hd, true_iff]
      exact fun h => absurd h hd

theorem exchange_takes (config : Y.Node) (z : Server × Journal) :
    (exchangeLogged E L config m z.1.instances).Wp (fun r z' =>
      (r = .ok () ↔ ReloadTakes E L config z) ∧ (r = .ok () →
        z'.1.instances = z.1.instances ∧ z'.1.objects = z.1.objects ∧ z'.1.appToPath = m)) z := by
  have hstops : (∀ app ∈ E.order z.1.instances.values,
      (E.stop app).outcome z.1.instances = none) ↔ StopsAll E z.1 := E.forall_order
  apply wp_get_bind
  apply wp_beside_andThen (stopApps_returns (E := E) _ ⟨z.1.calls, z.1.resolved, rfl⟩)
  · rintro _ _ ⟨⟨new, res, rfl⟩, hret⟩
    apply wp_modify_bind
    apply FailM.Wp.andThen (initLogger_takes config _)
    · rintro _ z' ⟨htakes, his, hobj, hmap⟩
      refine ⟨iff_of_true rfl ⟨hstops.mp (hret.mp rfl), ?_⟩, fun _ => ⟨his, hobj, hmap⟩⟩
      exact htakes.mp rfl
    · rintro e z' ⟨htakes, _⟩
      refine ⟨⟨nofun, ?_⟩, nofun⟩
      exact fun h => htakes.mpr h.2
  · rintro e _ ⟨_, hret⟩
    refine ⟨⟨nofun, ?_⟩, nofun⟩
    intro h
    cases hret.mpr (hstops.mpr h.1)

/-- The loop of `start` and what comes behind it return exactly when the nodes can be started. -/
theorem startLoop_returns (config : Y.Node) (appNodes : List Y.Node) (h : Mirrors x y) :
    ((startLoop E L config appNodes).on y).1 = .ok () ↔
      StartsThrough E y.1.appToPath (LoggerTakes E L config) appNodes x := by
  induction appNodes generalizing x y with
  | nil => exact (initLogger_takes config y).1.trans (h.takes_iff config)
  | cons appNode appNodes ih =>
    by_cases hst : ∃ appType name,
        Starts E appNode y.1.appToPath x.1.instances x.1 appType name
    · obtain ⟨appType, name, hst⟩ := hst
      rw [startLoop_added (h.starts_iff.mpr hst), startsThrough_cons hst]
      exact ih (h.added appType name appNode)
    · refine iff_of_false (startLoop_refused ?_ appNodes) ?_
      · exact fun appType name hno => hst ⟨appType, name, h.starts_iff.mp hno⟩
      · exact fun ⟨appType, name, hno, _⟩ => hst ⟨appType, name, hno⟩

theorem reloadLoop_returns (config : Y.Node) (appNodes : List Y.Node) (h : Mirrors x z) :
    ((reloadLoop E L config m z.1.instances appNodes).on z).1 = .ok () ↔
      ReloadsThrough E m (ReloadTakes E L config) appNodes x := by
  induction appNodes generalizing x z with
  | nil => exact (exchange_takes config z).1.trans (h.reloadTakes_iff config)
  | cons appNode appNodes ih =>
    by_cases hreload : ∃ name app, instanceName appNode = .ok name ∧
        x.1.instances.lookup name = some app ∧ (E.reload app appNode).outcome x.1.instances = none
    · obtain ⟨name, app, hname, hin, he⟩ := hreload
      have hon := reloadApp_reloaded (L := L) (m := m) hname (h.instances.symm ▸ hin)
        (h.instances.symm ▸ he)
      rw [reloadLoop_ok hon, reloadsThrough_reloaded hname hin he]
      exact ih (h.reloaded name app appNode)
    · by_cases hst : ∃ appType name, instanceName appNode = .ok name ∧
          Starts E appNode m x.1.instances x.1 appType name
      · obtain ⟨appType, name, hname, hst⟩ := hst
        rw [reloadLoop_ok (reloadApp_added hname (h.starts_iff.mpr hst)),
          reloadsThrough_added hname hst]
        exact ih (h.added appType name appNode)
      · have hrefused : ∃ e z', (Logged.reloadApp E L m z.1.instances appNode).on z =
            (.error e, z') := by
          apply reloadApp_refused
          · intro name app hname hin he
            rw [h.instances] at hin he
            exact hreload ⟨name, app, hname, hin, he⟩
          · exact fun appType name hname hno => hst ⟨appType, name, hname, h.starts_iff.mp hno⟩
        obtain ⟨e, z', hon⟩ := hrefused
        refine iff_of_false (reloadLoop_error hon appNodes) ?_
        rintro ⟨name, hname, ⟨app, hin, he, _⟩ | ⟨appType, hno, _⟩⟩
        · exact hreload ⟨name, app, hname, hin, he⟩
        · exact hst ⟨appType, name, hname, hno⟩

/-- The loop of `start` adds one instance for each node. -/
theorem startApps_count (appNodes : List Y.Node) (s : Server) :
    (startApps E appNodes).Wp (fun r s' => r = .ok () →
      s'.instances.entries.length = s.instances.entries.length + appNodes.length) s := by
  induction appNodes generalizing s with
  | nil => exact FailM.Wp.pure (fun _ => rfl)
  | cons appNode appNodes ih =>
    apply startApps_cons_wp
    · intro appType name hstarts
      apply (ih _).mono
      intro r s' h hr
      have hlen := Table.length_emplace_of_notMem (v := s.objects.length) hstarts.fresh
      rw [h hr, List.length_cons, added, hlen]
      omega
    · intro e s' _ hr
      cases hr

/-- From equal registries a round adds an instance only for a name that is not registered. -/
theorem reloadApp_count (appNode : Y.Node) (s : Server) :
    (reloadApp E m s.instances appNode).Wp (fun r s' => ∀ is, r = .ok is → is = s'.instances ∧
      (is = s.instances ∨ ∃ appType name app, instanceName appNode = .ok name ∧
        Creates E m appNode appType name ∧ name ∉ s.instances ∧
        is = s.instances.emplace name app)) s := by
  apply (reloadApp_round appNode m s.instances s).mono
  intro r s' h
  cases h with
  | unnamed _ => exact nofun
  | reloaded _ hin _ =>
    intro is hr
    cases hr
    rw [Table.emplace_of_mem (AList.lookup_isSome.mp (by rw [hin]; rfl))]
    exact ⟨rfl, .inl rfl⟩
  | threw _ _ _ => exact nofun
  | refused _ _ _ => exact nofun
  | lost _ _ _ _ => exact nofun
  | started hname hin hstarts hnew =>
    obtain ⟨rfl, rfl⟩ := Sub.lookup_emplace (fun _ _ hn => hn) hin hnew
    intro is hr
    cases hr
    exact ⟨rfl, .inr ⟨_, _, _, hname, hstarts.toCreates, hstarts.fresh, rfl⟩⟩

/-- The loop of `reload` adds as many instances as there are nodes only if every node has the same
name by both accesses. -/
theorem reloadApps_count (appNodes : List Y.Node) (s : Server) :
    (reloadApps E m s.instances appNodes).Wp (fun r s' => ∀ is, r = .ok is → is = s'.instances ∧
      is.entries.length ≤ s.instances.entries.length + appNodes.length ∧
      (is.entries.length = s.instances.entries.length + appNodes.length →
        ∀ n ∈ appNodes, SameName n)) s := by
  induction appNodes generalizing s with
  | nil =>
    apply FailM.Wp.pure
    intro is hr
    cases hr
    exact ⟨rfl, Nat.le_refl _, fun _ => List.forall_mem_nil _⟩
  | cons appNode appNodes ih =>
    apply FailM.Wp.andThen (reloadApp_count appNode s)
    · intro is s₁ h
      obtain ⟨rfl, hgrown⟩ := h is rfl
      apply (ih s₁).mono
      intro r s' h is' hr
      obtain ⟨his, hle, hfull⟩ := h is' hr
      rw [List.length_cons]
      rcases hgrown with hsame | ⟨appType, name, app, hname, hcreates, hnot, hnew⟩
      · rw [hsame] at hle
        exact ⟨his, by omega, fun he => by omega⟩
      · have hlen := Table.length_emplace_of_notMem (v := app) hnot
        rw [← hnew] at hlen
        refine ⟨his, by omega, ?_⟩
        intro he
        have hrest := hfull (by omega)
        apply List.forall_mem_cons.mpr ⟨?_, hrest⟩
        intro appType' htype name'
        cases hcreates.typed.symm.trans htype
        rw [hname, hcreates.named]
    · exact fun _ _ _ _ hr => by cases hr

theorem startLoop_count (config : Y.Node) (appNodes : List Y.Node) (y : Server × Journal) :
    (startLoop E L config appNodes).Wp (fun r y' => r = .ok () →
      y'.1.instances.entries.length = y.1.instances.entries.length + appNodes.length) y := by
  apply FailM.Wp.andThen
    ((Logged.startApps_erases appNodes).wp (startApps_count (E := E) appNodes y.1))
  · intro _ y₁ hcount
    apply (initLogger_takes config y₁).mono
    rintro r y' ⟨_, his, _⟩ _
    rw [his]
    exact hcount rfl
  · exact fun _ _ _ => nofun

theorem reloadLoop_count (config : Y.Node) (appNodes : List Y.Node) (z : Server × Journal) :
    (reloadLoop E L config m z.1.instances appNodes).Wp (fun r z' => r = .ok () →
      z'.1.instances.entries.length = z.1.instances.entries.length + appNodes.length →
        ∀ n ∈ appNodes, SameName n) z := by
  apply FailM.Wp.andThen
    ((Logged.reloadApps_erases m z.1.instances appNodes).wp (reloadApps_count appNodes z.1))
  · intro is z₁ hcount
    obtain ⟨rfl, _, hfull⟩ := hcount is rfl
    apply (exchange_takes config z₁).mono
    rintro r z' ⟨_, hrest⟩ hr hlen
    rw [(hrest hr).1] at hlen
    exact hfull hlen
  · exact fun _ _ _ => nofun

theorem Agree.of_neither {p q : Except ServerExn Unit × Server × Journal} (hp : p.1 ≠ .ok ())
    (hq : q.1 ≠ .ok ()) : Agree p q where
  returns := iff_of_false hp hq
  appToPath h := absurd h hp
  names h := absurd h hp
  types h := absurd h hp

/-- Where the two loops part at a node, they leave other names if both of them return. -/
theorem parted_agree_iff {config appNode : Y.Node} {appNodes : List Y.Node} (hy : Mirrors x y)
    (hz : Mirrors x z) (hparted : ∀ appType name,
      Starts E appNode y.1.appToPath x.1.instances x.1 appType name →
        instanceName appNode ≠ .ok name) :
    Agree ((startLoop E L config (appNode :: appNodes)).on y)
        ((reloadLoop E L' config y.1.appToPath z.1.instances (appNode :: appNodes)).on z) ↔
      ¬ StartsThrough E y.1.appToPath (LoggerTakes E L config) (appNode :: appNodes) x ∧
        ¬ ReloadsThrough E y.1.appToPath (ReloadTakes E L' config) (appNode :: appNodes) x := by
  rw [← startLoop_returns config _ hy, ← reloadLoop_returns config _ hz]
  constructor
  · intro h
    have hno : ((startLoop E L config (appNode :: appNodes)).on y).1 ≠ .ok () := by
      intro hr
      have hr' := h.returns.mp hr
      have hlen := startLoop_count config (appNode :: appNodes) y hr
      have hsame := reloadLoop_count config (appNode :: appNodes) z hr'
      rw [← Table.length_eq_of_mem_iff (h.names hr hr'), hlen, hy.instances, hz.instances] at hsame
      obtain ⟨appType, name, hst, _⟩ := (startLoop_returns config _ hy).mp hr
      have hname := hsame rfl appNode List.mem_cons_self appType hst.typed name
      exact hparted appType name hst (hname.mpr hst.named)
    exact ⟨hno, fun hr' => hno (h.returns.mpr hr')⟩
  · exact fun h => .of_neither h.1 h.2

theorem loops_agree_iff (E : Surroundings Y) (L L' : Loggers Y) (config : Y.Node)
    (appNodes : List Y.Node) (hy : Mirrors x y) (hz : Mirrors x z) (hm : y.1.appToPath = m) :
    Agree ((startLoop E L config appNodes).on y)
        ((reloadLoop E L' config m z.1.instances appNodes).on z) ↔
      Alike E L L' config m appNodes x := by
  induction appNodes generalizing x y z with
  | nil =>
    obtain ⟨htakes, his, hobj, hmap⟩ := initLogger_takes (E := E) (L := L) config y
    obtain ⟨htakes', hkept⟩ := exchange_takes (E := E) (L := L') (m := m) config z
    rw [hy.takes_iff] at htakes
    rw [hz.reloadTakes_iff] at htakes'
    constructor
    · exact fun h => htakes.symm.trans (h.returns.trans htakes')
    · intro h
      have hreturns := htakes.trans (h.trans htakes'.symm)
      have hinstances (hr' : ((exchangeLogged E L' config m z.1.instances).on z).1 = .ok ()) :
          ((Logged.initLogger E L config).on y).2.1.instances =
            ((exchangeLogged E L' config m z.1.instances).on z).2.1.instances := by
        rw [his, (hkept hr').1, hy.instances, hz.instances]
      refine ⟨hreturns, ?_, ?_, ?_⟩
      · intro _ hr' type
        exact congrArg (AList.lookup type) (hmap.trans (hm.trans (hkept hr').2.2.symm))
      · intro _ hr' name
        exact Iff.of_eq (congrArg (name ∈ ·) (hinstances hr'))
      · intro _ hr' name
        have hobjects : ((Logged.initLogger E L config).on y).2.1.objects =
            ((exchangeLogged E L' config m z.1.instances).on z).2.1.objects := by
          rw [hobj, (hkept hr').2.1, hy.objects, hz.objects]
        change typeUnder ((Logged.initLogger E L config).on y).2.1 name =
          typeUnder ((exchangeLogged E L' config m z.1.instances).on z).2.1 name
        simp only [typeUnder, hinstances hr', hobjects]
  | cons appNode appNodes ih =>
    subst hm
    by_cases htogether : ∃ appType name, instanceName appNode = .ok name ∧
        Starts E appNode y.1.appToPath x.1.instances x.1 appType name
    · obtain ⟨appType, name, hname, hst⟩ := htogether
      have halike : Alike E L L' config y.1.appToPath (appNode :: appNodes) x ↔
          Alike E L L' config y.1.appToPath appNodes (addedTo E x appType name appNode) := by
        constructor
        · rintro (⟨_, _, _, hst', hrest⟩ | ⟨hparted, _⟩)
          · obtain ⟨rfl, rfl⟩ := hst.toCreates.eq hst'.toCreates
            exact hrest
          · exact absurd hname (hparted appType name hst)
        · exact fun hrest => .inl ⟨appType, name, hname, hst, hrest⟩
      rw [halike, startLoop_added (hy.starts_iff.mpr hst),
        reloadLoop_ok (reloadApp_added hname (hz.starts_iff.mpr hst))]
      exact ih (hy.added appType name appNode) (hz.added appType name appNode) rfl
    · have hparted (appType name : String)
          (hst : Starts E appNode y.1.appToPath x.1.instances x.1 appType name) :
          instanceName appNode ≠ .ok name := fun hname => htogether ⟨appType, name, hname, hst⟩
      rw [parted_agree_iff hy hz hparted, Alike]
      constructor
      · exact fun h => .inr ⟨hparted, h⟩
      · rintro (⟨appType, name, hname, hst, _⟩ | ⟨_, h⟩)
        · exact absurd hname (hparted appType name hst)
        · exact h

theorem fillAppsToPath_of_new {F : Files Y} {config : Y.Node}
    (h : F.newAppToPath path config = .ok m) :
    (F.fillAppsToPath path config).on ∅ = (.ok (), m) := by
  rw [Files.newAppToPath] at h
  generalize (F.fillAppsToPath path config).on ∅ = p at h
  obtain ⟨r, m'⟩ := p
  cases r with
  | error e => cases h
  | ok _ =>
    cases h
    rfl

theorem searchInBinary_delayed (p : String) : Logged.searchInBinary E L .delayedLogger p =
    Logged.searchInBinary E L' .delayedLogger p := by
  have hstream : Journal.stream L .delayedLogger = Journal.stream L' .delayedLogger := by
    funext msg j
    rw [Journal.stream_delayed, Journal.stream_delayed]
  rw [Logged.searchInBinary, Logged.searchInBinary, hstream]

/-- What the delayed logger holds does not depend on the other loggers. -/
theorem searched_eq (E : Surroundings Y) (L L' : Loggers Y) (path : String) (config : Y.Node) (j : Journal) :
    searched E L path config j = searched E L' path config j := by
  have hbinary : Logged.searchInBinary E L .delayedLogger =
      Logged.searchInBinary E L' .delayedLogger := funext searchInBinary_delayed
  have hentry : Logged.findAppsInEntry E L .delayedLogger =
      Logged.findAppsInEntry E L' .delayedLogger := by
    funext configPath entry
    rw [Logged.findAppsInEntry, Logged.findAppsInEntry, hbinary]
  rw [searched, searched, Logged.fillAppsToPath, Logged.fillAppsToPath, hentry]

/-- The state in which the loop of a call begins. -/
def openedFor (E : Surroundings Y) (L : Loggers Y) (path : String) (config : Y.Node)
    (m : AppToPath) (x : Server × Journal) : Server × Journal :=
  ({ x.1 with configPath := path, appToPath := m },
    ((Logged.fillAppsToPath E L x.1.log path config).on (∅, x.2)).2.2)

theorem mirrors_opened (E : Surroundings Y) (L L' : Loggers Y) (path : String) (config : Y.Node)
    (m : AppToPath) (x : Server × Journal) :
    Mirrors ({ x.1 with configPath := path }, searched E L path config x.2)
      (openedFor E L' path config m x) := by
  refine ⟨rfl, rfl, rfl, ?_⟩
  intro hd
  rw [searched_eq E L L', openedFor, searched]
  rw [show x.1.log = .delayedLogger from hd]

theorem search_on {path : String} {config : Y.Node} (x : Server × Journal)
    (hnew : E.newAppToPath path config = .ok m) :
    (Logged.fillAppsToPath E L x.1.log path config).on (∅, x.2) =
      (.ok (), (m, (openedFor E L path config m x).2)) := by
  obtain ⟨hr, hm⟩ := Logged.fillAppsToPath_erases (E := E) (L := L) (l := x.1.log) path config
    (∅, x.2)
  rw [fillAppsToPath_of_new hnew] at hr hm
  exact Prod.ext hr (Prod.ext hm rfl)

theorem start_opened {path : String} {config : Y.Node} {appNodes : List Y.Node}
    (h : Opens E path config m appNodes) (hm : x.1.appToPath = ∅) :
    (Logged.start E L path).on x =
      (startLoop E L config appNodes).on (openedFor E L path config m x) := by
  obtain ⟨apps, hconfig, hnew, happs, rfl⟩ := h
  have hset : (beside (modify fun s => { s with configPath := path }) : Logged.LoggedM PUnit).on x =
      (.ok ⟨⟩, ({ x.1 with configPath := path }, x.2)) := rfl
  have hpart : ((Logged.fillAppsToPath E L x.1.log path config).part
      (fun x : Server × Journal => (x.1.appToPath, x.2))
      (fun x y => ({ x.1 with appToPath := y.1 }, y.2))).on ({ x.1 with configPath := path }, x.2) =
        (.ok (), openedFor E L path config m x) := by
    rw [FailM.on_part, hm, search_on x hnew]
    rfl
  rw [Logged.start, FailM.on_bind_ok hset, hconfig, FailM.on_bind_ok (FailM.on_ofExcept _ _),
    on_get_bind, FailM.on_bind_ok hpart, happs, FailM.on_bind_ok (FailM.on_ofExcept _ _)]
  rfl

theorem start_unopened {path : String} (x : Server × Journal) (hm : x.1.appToPath = ∅)
    (hno : ¬ ∃ config m appNodes, Opens E path config m appNodes) :
    ((Logged.start E L path).on x).1 ≠ .ok () := by
  have hopens : (Logged.start E L path).Wp (fun r _ => r = .ok () →
      ∃ config m appNodes, Opens E path config m appNodes) x := by
    apply wp_modify_bind
    apply FailM.Wp.ofExcept_bind
    · intro config hconfig
      apply wp_get_bind
      cases hr : (E.fillAppsToPath path config).on ∅ with
      | mk r m =>
        obtain ⟨hsearch, _⟩ := Logged.fillAppsToPath_erases (L := L) (l := x.1.log) path config
          (∅, x.2)
        rw [hr] at hsearch
        cases r with
        | error e =>
          refine FailM.Wp.bind_error (Prod.ext (y := (Except.error e, _)) ?_ rfl) nofun
          rw [FailM.on_part, hm]
          exact hsearch
        | ok _ =>
          refine FailM.Wp.bind_ok (Prod.ext (y := (Except.ok (), _)) ?_ rfl) ?_
          · rw [FailM.on_part, hm]
            exact hsearch
          · apply FailM.Wp.ofExcept_bind
            · intro apps happs _
              refine ⟨config, m, Y.elements apps, apps, hconfig, ?_, happs, rfl⟩
              rw [Files.newAppToPath, hr]
            · exact fun _ _ => nofun
    · exact fun _ _ => nofun
  exact fun hr => hno (hopens hr)

theorem reload_opened {path : Option String} {config : Y.Node} {appNodes : List Y.Node}
    (h : Opens E (path.getD x.1.configPath) config m appNodes) (hm : x.1.appToPath = ∅) :
    (Logged.reloadFrom E L path).on x = (reloadLoop E L config m ∅ appNodes).on
      (openedFor E L (path.getD x.1.configPath) config x.1.appToPath x) := by
  obtain ⟨apps, hconfig, hnew, happs, rfl⟩ := h
  have hsearch : (Logged.newAppToPath E L (path.getD x.1.configPath) config).on
      ({ x.1 with configPath := path.getD x.1.configPath }, x.2) =
        (.ok m, openedFor E L (path.getD x.1.configPath) config x.1.appToPath x) := by
    rw [Logged.newAppToPath, FailM.on_bind_ok (FailM.on_get _)]
    simp only []
    rw [search_on x hnew, FailM.on_bind_ok (FailM.on_set _ _)]
    rfl
  have hcheck : (beside (checkBinaries m) : Logged.LoggedM Unit).on
      (openedFor E L (path.getD x.1.configPath) config x.1.appToPath x) =
        (.ok (), openedFor E L (path.getD x.1.configPath) config x.1.appToPath x) := by
    have hentries : ¬ ((openedFor E L (path.getD x.1.configPath) config
        x.1.appToPath x).1.appToPath.entries ≠ [] ∧ m.toFinmap ≠ (openedFor E L
          (path.getD x.1.configPath) config x.1.appToPath x).1.appToPath.toFinmap) := by
      rw [openedFor, hm]
      exact fun h => h.1 rfl
    rw [on_beside, checkBinaries, FailM.on_bind_ok (FailM.on_get _), if_neg hentries]
    rfl
  have hset : (beside (modify fun s => { s with configPath := path.getD s.configPath }) :
      Logged.LoggedM PUnit).on x =
        (.ok ⟨⟩, ({ x.1 with configPath := path.getD x.1.configPath }, x.2)) := rfl
  rw [Logged.reloadFrom, FailM.on_bind_ok hset, Logged.reload, on_get_bind, hconfig,
    FailM.on_bind_ok (FailM.on_ofExcept _ _), FailM.on_bind_ok hsearch, FailM.on_bind_ok hcheck,
    happs, FailM.on_bind_ok (FailM.on_ofExcept _ _)]
  rfl

theorem reload_unopened {path : Option String} (x : Server × Journal)
    (hno : ¬ ∃ config m appNodes, Opens E (path.getD x.1.configPath) config m appNodes) :
    ((Logged.reloadFrom E L path).on x).1 ≠ .ok () := by
  have hopens : (Logged.reloadFrom E L path).Wp (fun r _ => r = .ok () →
      ∃ config m appNodes, Opens E (path.getD x.1.configPath) config m appNodes) x := by
    apply wp_modify_bind
    apply wp_get_bind
    apply FailM.Wp.ofExcept_bind
    · intro config hconfig
      apply FailM.Wp.andThen ((Logged.newAppToPath_erases (path.getD x.1.configPath) config).wp
        (Q := fun r _ => r = E.newAppToPath (path.getD x.1.configPath) config) rfl)
      · intro m y hm
        refine FailM.Wp.bind_last (fun _ y => ?_) fun _ _ => nofun
        apply FailM.Wp.ofExcept_bind
        · exact fun apps happs _ =>
            ⟨config, m, Y.elements apps, apps, hconfig, hm.symm, happs, rfl⟩
        · exact fun _ _ => nofun
      · exact fun _ _ _ => nofun
    · exact fun _ _ => nofun
  exact fun hr => hno (hopens hr)

/-- A reload of an empty server agrees with a start of the same configuration exactly when the two
loops treat the nodes alike, and what comes behind them ends alike, or when both loops fail where
they have parted. The loggers can behave otherwise in a reload, which stops them before. -/
theorem reload_of_empty (E : Surroundings Y) (L L' : Loggers Y) (path : Option String)
    (x : Server × Journal) (hi : x.1.instances = ∅) (hm : x.1.appToPath = ∅) :
    Agree ((Logged.start E L (path.getD x.1.configPath)).on x)
        ((Logged.reloadFrom E L' path).on x) ↔
      AlikeConfig E L L' (path.getD x.1.configPath) x := by
  by_cases ho : ∃ config m appNodes, Opens E (path.getD x.1.configPath) config m appNodes
  · obtain ⟨config, m, appNodes, ho⟩ := ho
    have hloops := loops_agree_iff E L L' config appNodes
      (mirrors_opened E L L (path.getD x.1.configPath) config m x)
      (mirrors_opened E L L' (path.getD x.1.configPath) config x.1.appToPath x) rfl
    have hempty : (openedFor E L' (path.getD x.1.configPath) config x.1.appToPath x).1.instances =
        ∅ := hi
    rw [hempty] at hloops
    rw [start_opened ho hm, reload_opened ho hm]
    refine hloops.trans ⟨?_, fun h => h config m appNodes ho⟩
    intro h config' m' appNodes' ho'
    obtain ⟨rfl, rfl, rfl⟩ := ho.unique ho'
    exact h
  · refine iff_of_true (.of_neither (start_unopened x hm ho) (reload_unopened x ho)) ?_
    exact fun config m appNodes h => absurd ⟨config, m, appNodes, h⟩ ho


theorem one_logger_alike :
    AlikeConfig (plainSurroundings (loggerConfig [loggerNode])) (plainLoggers none)
      (plainLoggers none) "config.yaml" ({}, {}) := by
  intro config m appNodes h
  obtain ⟨rfl, rfl, rfl⟩ := Opens.unique ⟨_, rfl, rfl, rfl, rfl⟩ h
  refine .inl ⟨"cpp_logger", "cpp_logger", rfl, ?_, ?_⟩
  · exact ⟨⟨rfl, ⟨"libcore.so", by decide +kernel, rfl⟩, rfl⟩, rfl, AList.notMem_empty _⟩
  · have htakes : LoggerTakes (plainSurroundings (loggerConfig [loggerNode])) (plainLoggers none)
        (loggerConfig [loggerNode]) (addedTo (plainSurroundings (loggerConfig [loggerNode]))
          ({ configPath := "config.yaml" }, searched (plainSurroundings (loggerConfig [loggerNode]))
            (plainLoggers none) "config.yaml" (loggerConfig [loggerNode]) {})
          "cpp_logger" "cpp_logger" loggerNode) :=
      ⟨.cppLogger, ⟨_, _, rfl, rfl, .inl ⟨rfl, rfl⟩⟩, fun _ => rfl⟩
    exact iff_of_true htakes ⟨fun _ _ _ => rfl, htakes⟩

def unknownThenLoggers : PlainNode :=
  loggerConfig [.map [("type", .scalar "unknown")], loggerNode, loggerNode]

/-- The loops of both calls end at the first node, before the repeated name. -/
theorem unknown_first_alike :
    AlikeConfig (plainSurroundings unknownThenLoggers) (plainLoggers none) (plainLoggers none)
      "config.yaml" ({}, {}) := by
  intro config m appNodes h
  obtain ⟨rfl, rfl, rfl⟩ := Opens.unique ⟨_, rfl, rfl, rfl, rfl⟩ h
  have hno (known : Instances) (s : Server) (appType name : String) :
      ¬ Starts (plainSurroundings unknownThenLoggers) (.map [("type", .scalar "unknown")])
        (Files.emplaceAll ["cpp_logger"] "libcore.so" ∅) known s appType name := by
    intro h
    cases (show Except.ok "unknown" = .ok appType from h.typed)
    obtain ⟨path, hpath, _⟩ := h.found
    cases hpath
  refine .inr ⟨?_, ?_, ?_⟩
  · exact fun appType name h => absurd h (hno _ _ appType name)
  · rintro ⟨appType, name, h, _⟩
    exact hno _ _ appType name h
  · rintro ⟨name, _, ⟨app, hin, _⟩ | ⟨appType, h, _⟩⟩
    · cases hin
    · exact hno _ _ appType name h

/-- The calls agree for one logger, and for an unknown type in front of a repeated name. They do
not when the logger that was started and stopped again throws for the messages that were held. -/
theorem one_logger_agrees :
    Agree ((Logged.start (plainSurroundings (loggerConfig [loggerNode])) (plainLoggers none)
        "config.yaml").on ({}, {}))
      ((Logged.reloadFrom (plainSurroundings (loggerConfig [loggerNode])) (plainLoggers none)
        (some "config.yaml")).on ({}, {})) ∧
    Agree ((Logged.start (plainSurroundings unknownThenLoggers) (plainLoggers none)
        "config.yaml").on ({}, {}))
      ((Logged.reloadFrom (plainSurroundings unknownThenLoggers) (plainLoggers none)
        (some "config.yaml")).on ({}, {})) ∧
    ¬ AlikeConfig (plainSurroundings chosenLogger) (plainLoggers none)
      (plainLoggers (some (.std "disk full"))) "config.yaml" ({}, {}) := by
  refine ⟨?_, ?_, ?_⟩
  · exact (reload_of_empty _ _ _ (some "config.yaml") ({}, {}) rfl rfl).mpr one_logger_alike
  · exact (reload_of_empty _ _ _ (some "config.yaml") ({}, {}) rfl rfl).mpr unknown_first_alike
  · intro h
    have hagree := (reload_of_empty _ _ _ (some "config.yaml") ({}, {}) rfl rfl).mpr h
    have hstart : ((Logged.start (plainSurroundings chosenLogger) (plainLoggers none)
        "config.yaml").on ({}, {})).1 = .ok () := by
      decide +kernel
    have hreload : ((Logged.reloadFrom (plainSurroundings chosenLogger)
        (plainLoggers (some (.std "disk full"))) (some "config.yaml")).on ({}, {})).1 ≠ .ok () := by
      decide +kernel
    exact hreload (hagree.returns.mp hstart)

/-- Two nodes of one name: `start` refuses the second one, and `reload` reloads the first. -/
theorem repeated_logger_disagrees :
    ¬ ∀ (Y : YamlCpp) (E : Surroundings Y) (L : Loggers Y) (path : Option String)
      (x : Server × Journal), x.1.instances = ∅ → x.1.appToPath = ∅ →
        Agree ((Logged.start E L (path.getD x.1.configPath)).on x)
          ((Logged.reloadFrom E L path).on x) := by
  intro h
  have hagree := h plainYaml (plainSurroundings (loggerConfig [loggerNode, loggerNode]))
    (plainLoggers none) (some "config.yaml") ({}, {}) rfl rfl
  have hreload : ((Logged.reloadFrom (plainSurroundings (loggerConfig [loggerNode, loggerNode]))
      (plainLoggers none) (some "config.yaml")).on ({}, {})).1 = .ok () := by
    decide +kernel
  have hstart : ((Logged.start (plainSurroundings (loggerConfig [loggerNode, loggerNode]))
      (plainLoggers none) "config.yaml").on ({}, {})).1 ≠ .ok () := by
    decide +kernel
  exact hstart (hagree.returns.mpr hreload)

end Server

end CppAlls
