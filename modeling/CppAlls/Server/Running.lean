import CppAlls.Server.PlainYaml
import CppAlls.Server.Reload

namespace CppAlls
set_option autoImplicit true

open Failing Tables Interaction Machines

namespace Server

variable {Y : YamlCpp} {E : Surroundings Y} {s s' : Server}

def lastCall (s : Server) (app : Nat) : Option LifecycleCall :=
  (s.calls.filter fun c => c.application = app).getLast?.map (·.call)

def Running (s : Server) (app : Nat) : Prop :=
  s.lastCall app = some .start ∨ s.lastCall app = some .reload

instance (s : Server) (app : Nat) : Decidable (s.Running app) := by
  unfold Running
  infer_instance

def stops (s : Server) (app : Nat) : Nat :=
  s.calls.countP fun c => c.application = app ∧ c.call = .stop

/-- What a reload is for: it leaves the configured applications running, and stops each of those
that are not configured any more once. -/
structure ReloadLifecycle (appNodes : List Y.Node) (s s' : Server) : Prop where
  running : ∀ name app, s'.instances.lookup name = some app → s'.Running app
  dropped : ∀ name app, s.instances.lookup name = some app →
    (∀ appNode ∈ appNodes, instanceName appNode ≠ .ok name) → s'.stops app = s.stops app + 1

theorem Reloaded.stops_eq {appNodes : List Y.Node} (h : Reloaded appNodes s s' stopped)
    (hm : app ∈ stopped) : s'.stops app = s.stops app + 1 := by
  obtain ⟨new, hcalls, hnew⟩ := h.calls
  have hnone : new.countP (fun c => c.application = app ∧ c.call = .stop) = 0 := by
    rw [List.countP_eq_zero]
    intro c hc
    simp [hnew c hc]
  have hone : (stopped.map fun app => (⟨app, .stop, true⟩ : LifecycleRecord)).countP
      (fun c => c.application = app ∧ c.call = .stop) = 1 := by
    rw [List.countP_map, ← List.count_eq_one_of_mem h.nodup hm]
    apply List.countP_congr
    intro a _
    simp
  rw [stops, stops, hcalls, List.countP_append, List.countP_append, hnone, hone]

theorem Reloaded.not_running {appNodes : List Y.Node} (h : Reloaded appNodes s s' stopped)
    (hm : app ∈ stopped) : ¬ s'.Running app := by
  obtain ⟨new, hcalls, _⟩ := h.calls
  have hlast : s'.lastCall app = some .stop := by
    have hmem : ⟨app, .stop, true⟩ ∈ (stopped.map fun app => (⟨app, .stop, true⟩ :
        LifecycleRecord)).filter (fun c => c.application = app) :=
      List.mem_filter.mpr ⟨List.mem_map_of_mem hm, decide_eq_true rfl⟩
    rw [lastCall, hcalls, List.filter_append,
      List.getLast?_append_of_ne_nil _ (List.ne_nil_of_mem hmem),
      List.getLast?_eq_some_getLast (List.ne_nil_of_mem hmem)]
    have hin := List.mem_of_mem_filter (List.getLast_mem (List.ne_nil_of_mem hmem))
    obtain ⟨_, _, he⟩ := List.mem_map.mp hin
    rw [Option.map_some, ← he]
  rintro (hr | hr)
  · rw [hlast] at hr
    cases hr
  · rw [hlast] at hr
    cases hr

/-- After a reload that returned no instance is running, so the law holds only without any. -/
theorem Reloaded.lifecycle_iff {appNodes : List Y.Node} (h : Reloaded appNodes s s' stopped) :
    ReloadLifecycle appNodes s s' ↔ appNodes = [] := by
  constructor
  · intro hlaw
    by_contra hne
    obtain ⟨name, app, hn⟩ := h.some_left hne
    exact h.not_running (h.after name app hn) (hlaw.running name app hn)
  · intro hnil
    constructor
    · intro name app hn
      rw [h.none_left hnil] at hn
      cases hn
    · intro name app hn _
      exact h.stops_eq (h.before name app hn)

theorem startApps_registered (appNodes : List Y.Node) (hs : Registered s) :
    (startApps E appNodes).Wp (fun _ s' => Registered s') s := by
  induction appNodes generalizing s with
  | nil => exact FailM.Wp.pure hs
  | cons appNode appNodes ih =>
    apply startApps_cons_wp
    · intro appType name _
      exact ih (hs.added appType name appNode)
    · intro e s₁ hlaunch
      exact hlaunch.appsRun.registered hs

theorem start_registered (path : String) (hs : Registered s) :
    (start E path).Wp (fun _ s' => Registered s') s := by
  apply FailM.Wp.modify_bind
  apply FailM.Wp.ofExcept_bind
  · intro config _
    apply FailM.Wp.andThen (R := fun _ s' => Registered s')
    · exact ⟨hs.fresh, hs.unique⟩
    · intro _ s₁ hs₁
      apply FailM.Wp.ofExcept_bind
      · intro apps _
        apply FailM.Wp.andThen (startApps_registered (Y.elements apps) hs₁)
        · intro _ s₂ hs₂
          apply (initLogger_outcome config s₂).mono
          intro _ _ hr
          obtain ⟨log, rfl, _⟩ := hr
          exact ⟨hs₂.fresh, hs₂.unique⟩
        · intro e s₂ hs₂
          exact hs₂
      · intro e _
        exact hs₁
    · intro e s₁ hs₁
      exact hs₁
  · intro e _
    exact ⟨hs.fresh, hs.unique⟩

theorem stop_registered (hs : Registered s) : (stop E).Wp (fun _ s' => Registered s') s := by
  apply FailM.Wp.get_bind
  apply FailM.Wp.andThen (stopApps_outcome _ s)
  · intro _ s₁ _
    exact .of_empty rfl
  · intro e _ hr
    obtain ⟨new, res, rfl, _⟩ := hr
    exact ⟨hs.fresh, hs.unique⟩

theorem instanceConstruct_registered (config : String) (hs : Registered s) :
    (instanceConstruct E config).Wp (fun _ s' => Registered s') s := by
  apply instanceConstruct_wp
  · intro appNode appType name _ _
    exact hs.added appType name appNode
  · intro appNode e s₁ _ hlaunch
    exact hlaunch.appsRun.registered hs
  · intro e _
    exact hs

theorem registered_next (i : ServerInput Y) (hs : Registered s) : Registered (i.next s) := by
  cases i with
  | start E path => exact start_registered path hs
  | stop E => exact stop_registered hs
  | reload E path => exact (reloadFrom_outcome path hs).1
  | construct E config => exact instanceConstruct_registered config hs
  | free name => exact hs.of_sub (fun _ _ hn => Table.lookup_of_erase hn) (Nat.le_refl _)

theorem reachable_registered
    (h : (serverMachine Y).Reachable (fun _ _ => True) s) : Registered s :=
  h.invariant (.of_empty rfl) (fun _ i hs _ _ => registered_next i hs)

/-- A reload that returns, in any state that the server can reach, leaves the configured
applications running and stops the others once exactly when none is configured. -/
theorem reload_lifecycle_iff (E : Surroundings Y) (path : Option String)
    (hs : (serverMachine Y).Reachable (fun _ _ => True) s)
    (hret : (reloadFrom E path).on s = (.ok (), s')) :
    ∃ appNodes, E.configuredApps (path.getD s.configPath) = .ok appNodes ∧
      (ReloadLifecycle appNodes s s' ↔ appNodes = []) := by
  have hout := reloadFrom_outcome (E := E) path (reachable_registered hs)
  rw [FailM.Wp, hret] at hout
  obtain ⟨appNodes, stopped, hconfig, hrel⟩ := hout.2 rfl
  exact ⟨appNodes, hconfig, hrel.lifecycle_iff⟩

def loggerStarted : Server :=
  ((start (plainSurroundings (loggerConfig [loggerNode])) "config.yaml").on {}).2

theorem loggerStarted_reachable :
    (serverMachine plainYaml).Reachable (fun _ _ => True) loggerStarted :=
  .step (i := ServerInput.start (plainSurroundings (loggerConfig [loggerNode])) "config.yaml") .init
    trivial trivial

def loggerReloaded (loggers : List PlainNode) : Server :=
  ((reloadFrom (plainSurroundings (loggerConfig loggers)) none).on loggerStarted).2

theorem logger_dropped_lifecycle :
    ∃ appNodes, (plainSurroundings (loggerConfig [])).configuredApps
        (none.getD loggerStarted.configPath) = .ok appNodes ∧
      (ReloadLifecycle (Y := plainYaml) appNodes loggerStarted (loggerReloaded []) ↔
        appNodes = []) :=
  reload_lifecycle_iff (plainSurroundings (loggerConfig [])) none loggerStarted_reachable
    (Prod.ext (by decide +kernel) rfl)

/-- The logger is started, and a reload of the same configuration reloads and then stops it. -/
theorem kept_logger_stopped :
    ¬ ∀ (Y : YamlCpp) (E : Surroundings Y) (path : Option String) (s s' : Server),
      (serverMachine Y).Reachable (fun _ _ => True) s → (reloadFrom E path).on s = (.ok (), s') →
        ∃ appNodes, E.configuredApps (path.getD s.configPath) = .ok appNodes ∧
          ReloadLifecycle appNodes s s' := by
  intro h
  obtain ⟨appNodes, _, hlaw⟩ := h plainYaml (plainSurroundings (loggerConfig [loggerNode])) none
    loggerStarted (loggerReloaded [loggerNode]) loggerStarted_reachable
    (Prod.ext (by decide +kernel) rfl)
  have hnot : ¬ (loggerReloaded [loggerNode]).Running 0 := by decide +kernel
  exact hnot (hlaw.running "cpp_logger" 0 (by decide +kernel))

end Server

end CppAlls
