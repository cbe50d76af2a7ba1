import CppAlls.Server.StartReload

namespace CppAlls
set_option autoImplicit true

open Failing Tables Interaction Machines

/-- Every application type keeps the binary that it had. -/
def AppToPath.Extends (m m' : AppToPath) : Prop :=
  ∀ type path, m.lookup type = some path → m'.lookup type = some path

namespace Server

variable {Y : YamlCpp} {E : Surroundings Y} {s s' : Server} {known : Instances} {m m' : AppToPath}

def Returns (a : ServerM Unit) (s : Server) : Prop := (a.on s).1 = .ok ()

/-- There is a binary for the type of each registered application. -/
def Backed (m : AppToPath) (s : Server) : Prop :=
  ∀ name app, s.instances.lookup name = some app →
    ∃ type path, s.objects[app]? = some type ∧ m.lookup type = some path

namespace Backed

theorem mono (h : Backed m s) (hm : AppToPath.Extends m m') : Backed m' s := by
  intro name app hn
  obtain ⟨type, path, htype, hpath⟩ := h name app hn
  exact ⟨type, path, htype, hm type path hpath⟩

theorem of_sub (h : Backed m s) (hsub : Sub s'.instances s.instances)
    (hobj : s'.objects = s.objects) : Backed m s' := by
  intro name app hn
  rw [hobj]
  exact h name app (hsub name app hn)

theorem appsRun (h : Backed m s) (hrun : AppsRun s s') : Backed m s' := by
  obtain ⟨objs, new, res, rfl, _⟩ := hrun
  intro name app hn
  obtain ⟨type, path, htype, hpath⟩ := h name app hn
  obtain ⟨hlt, _⟩ := List.getElem?_eq_some_iff.mp htype
  exact ⟨type, path, (List.getElem?_append_left hlt).trans htype, hpath⟩

/-- What `start_instance` constructs comes from one of the binaries. -/
theorem started {appNode : Y.Node} (h : Backed m s)
    (hst : Starts E appNode m known s appType name') (n : String) :
    Backed m { launched E s appType appNode with
      instances := s.instances.emplace n s.objects.length } := by
  intro name app hn
  rcases Table.lookup_of_emplace hn with hn | ⟨_, rfl⟩
  · exact h.appsRun (appsRun_launched (E := E) s appType appNode) name app hn
  · obtain ⟨path, hpath, _⟩ := hst.found
    exact ⟨appType, path, List.getElem?_concat_length, hpath⟩

/-- Without binaries nothing is registered. -/
theorem lookup_none (h : Backed m s) (hm : m.entries = []) (name : String) :
    s.instances.lookup name = none := by
  cases hn : s.instances.lookup name with
  | none => rfl
  | some app =>
    obtain ⟨type, path, _, hpath⟩ := h name app hn
    have hmem := AList.mem_lookup_iff.mp hpath
    rw [hm] at hmem
    cases hmem

end Backed

theorem Launch.appToPath {appNode : Y.Node} (h : Launch E appNode m known s r s') :
    s'.appToPath = s.appToPath := by
  obtain ⟨_, _, _, rfl, _⟩ := h.appsRun
  rfl

/-- What a call does to the binaries: it keeps those of what stays registered. -/
structure Keeps (s s' : Server) : Prop where
  backed : Backed s'.appToPath s'
  binaries : s'.instances = ∅ ∨ AppToPath.Extends s.appToPath s'.appToPath

theorem Keeps.of_eq (h : Backed s.appToPath s') (hm : s'.appToPath = s.appToPath) :
    Keeps s s' := by
  refine ⟨hm ▸ h, .inr ?_⟩
  rw [hm]
  exact fun _ _ hpath => hpath

theorem startApps_backed (appNodes : List Y.Node) (hs : Backed s.appToPath s) :
    (startApps E appNodes).Wp
      (fun _ s' => Backed s.appToPath s' ∧ s'.appToPath = s.appToPath) s := by
  induction appNodes generalizing s with
  | nil => exact FailM.Wp.pure ⟨hs, rfl⟩
  | cons appNode appNodes ih =>
    apply startApps_cons_wp
    · intro appType name hstarts
      exact ih (hs.started hstarts name)
    · intro e s₁ hlaunch
      exact ⟨hs.appsRun hlaunch.appsRun, hlaunch.appToPath⟩

theorem start_keeps (path : String) (hs : Backed s.appToPath s) :
    (start E path).Wp (fun _ s' => Keeps s s') s := by
  have hs₀ : Keeps s { s with configPath := path } := .of_eq hs rfl
  apply FailM.Wp.modify_bind
  apply FailM.Wp.ofExcept_bind
  · intro config _
    have hfill := (E.fillAppsToPath_on path config s.appToPath).2.1
    apply FailM.Wp.andThen (R := fun _ s₁ => Backed s₁.appToPath s₁ ∧
      AppToPath.Extends s.appToPath s₁.appToPath)
    · exact ⟨Backed.mono hs hfill, hfill⟩
    · intro _ s₁ h₁
      obtain ⟨hback, hext⟩ := h₁
      apply FailM.Wp.ofExcept_bind
      · intro apps _
        apply FailM.Wp.andThen (startApps_backed (Y.elements apps) hback)
        · intro _ s₂ h₂
          obtain ⟨hback₂, hm⟩ := h₂
          apply (initLogger_outcome config s₂).mono
          intro _ _ hr
          obtain ⟨log, rfl, _⟩ := hr
          rw [← hm] at hback₂ hext
          exact ⟨hback₂, .inr hext⟩
        · intro e s₂ h₂
          obtain ⟨hback₂, hm⟩ := h₂
          rw [← hm] at hback₂ hext
          exact ⟨hback₂, .inr hext⟩
      · exact fun _ _ => ⟨hback, .inr hext⟩
    · exact fun _ _ h₁ => ⟨h₁.1, .inr h₁.2⟩
  · exact fun _ _ => hs₀

theorem stop_keeps (hs : Backed s.appToPath s) : (stop E).Wp (fun _ s' => Keeps s s') s := by
  apply FailM.Wp.get_bind
  apply FailM.Wp.andThen (stopApps_outcome _ s)
  · intro _ s₁ _
    exact ⟨(fun _ _ hn => by cases hn), .inl rfl⟩
  · intro e _ hr
    obtain ⟨new, res, rfl, _⟩ := hr
    exact .of_eq hs rfl

theorem instanceConstruct_keeps (config : String) (hs : Backed s.appToPath s) :
    (instanceConstruct E config).Wp (fun _ s' => Keeps s s') s := by
  apply instanceConstruct_wp
  · intro appNode appType name _ hstarts
    exact .of_eq (hs.started hstarts name) rfl
  · intro appNode e s₁ _ hlaunch
    exact .of_eq (hs.appsRun hlaunch.appsRun) hlaunch.appToPath
  · exact fun _ _ => .of_eq hs rfl

theorem ReloadRound.backed {appNode : Y.Node} (h : ReloadRound E appNode m known s r s')
    (hs : Backed m s) (hsub : Sub known s.instances) :
    Backed m s' ∧ s'.appToPath = s.appToPath := by
  cases h with
  | unnamed _ => exact ⟨hs, rfl⟩
  | reloaded _ _ _ => exact ⟨hs, rfl⟩
  | threw _ _ _ => exact ⟨hs, rfl⟩
  | refused _ _ h => exact ⟨hs.appsRun h.appsRun, h.appToPath⟩
  | lost _ _ h _ => exact ⟨hs.appsRun h.launch.appsRun, h.launch.appToPath⟩
  | started _ hin hst hnew =>
    obtain ⟨rfl, rfl⟩ := hsub.lookup_emplace hin hnew
    exact ⟨hs.started hst _, rfl⟩

theorem reloadApps_backed (appNodes : List Y.Node) (hr : Registered s) (hs : Backed m s)
    (hsub : Sub known s.instances) : (reloadApps E m known appNodes).Wp
      (fun _ s' => Backed m s' ∧ s'.appToPath = s.appToPath) s := by
  induction appNodes generalizing known s with
  | nil => exact FailM.Wp.pure ⟨hs, rfl⟩
  | cons appNode appNodes ih =>
    have hround : (reloadApp E m known appNode).Wp (fun r s' =>
        LoopOutcome known s r s' ∧ Backed m s' ∧ s'.appToPath = s.appToPath) s :=
      ⟨(reloadApp_outcome m appNode hr hsub).1,
        ReloadRound.backed (reloadApp_round appNode m known s) hs hsub⟩
    apply FailM.Wp.andThen hround
    · intro is s₁ h
      obtain ⟨hout, hback, hm⟩ := h
      rw [← hm]
      exact ih hout.registered hback (hout.result is rfl).1
    · exact fun _ _ h => h.2

/-- The binaries that a reload finds are those that the server has, if it has any. -/
theorem extends_of_unchanged (hm : ¬ ChangedBinaries m s) (hne : s.appToPath.entries ≠ []) :
    AppToPath.Extends m s.appToPath ∧ AppToPath.Extends s.appToPath m := by
  have heq : ∀ type, m.lookup type = s.appToPath.lookup type := by
    apply Table.toFinmap_eq_iff.mp
    by_contra hno
    exact hm ⟨hne, hno⟩
  exact ⟨fun type path h => (heq type).symm.trans h, fun type path h => (heq type).trans h⟩

theorem backed_of_unchanged (hs : Backed s.appToPath s) (hm : ¬ ChangedBinaries m s) :
    Backed m s := by
  by_cases hne : s.appToPath.entries = []
  · intro name app hn
    cases (hs.lookup_none hne name).symm.trans hn
  · exact hs.mono (extends_of_unchanged hm hne).2

theorem reload_keeps (hr : Registered s) (hs : Backed s.appToPath s) :
    (reload E).Wp (fun r s' => (s.appToPath.entries = [] → r = .ok ()) → Keeps s s') s := by
  apply reload_wp
  · intro config m appNodes _ hm
    have hsub : Sub ∅ s.instances := fun _ _ hn => by cases hn
    have hloop : (reloadApps E m ∅ appNodes).Wp (fun r s' =>
        LoopOutcome ∅ s r s' ∧ Backed m s' ∧ s'.appToPath = s.appToPath) s :=
      ⟨(reloadApps_outcome m appNodes hr hsub).1,
        reloadApps_backed appNodes hr (backed_of_unchanged hs hm) hsub⟩
    -- a reload that throws leaves the binaries as they were
    have hthrown {e : ServerExn} {t : Server} (hback : Backed m t)
        (ht : t.appToPath = s.appToPath)
        (hret : s.appToPath.entries = [] → (.error e : Except ServerExn Unit) = .ok ()) :
        Keeps s t := by
      have hne : s.appToPath.entries ≠ [] := by
        intro hnil
        cases hret hnil
      exact .of_eq (hback.mono (extends_of_unchanged hm hne).1) ht
    apply FailM.Wp.andThen hloop
    · intro is s₁ h
      obtain ⟨hout, hback, hm₁⟩ := h
      apply FailM.Wp.get_bind
      apply FailM.Wp.andThen (stopApps_outcome _ s₁)
      · intro _ _ hx
        obtain ⟨stops, res, rfl, _⟩ := hx
        apply FailM.Wp.modify_bind
        apply (initLogger_outcome config _).mono
        intro r _ hI _
        obtain ⟨log, rfl, _⟩ := hI
        refine ⟨hback.of_sub (hout.result is rfl).1 rfl, .inr ?_⟩
        by_cases hne : s.appToPath.entries = []
        · intro type path hpath
          have hmem := AList.mem_lookup_iff.mp hpath
          rw [hne] at hmem
          cases hmem
        · exact (extends_of_unchanged hm hne).2
      · intro e _ hx
        obtain ⟨stops, res, rfl, _⟩ := hx
        exact hthrown (hback.of_sub (fun _ _ hn => hn) rfl) hm₁
    · exact fun e s₁ h => hthrown h.2.1 h.2.2
  · exact fun _ _ _ => .of_eq hs rfl

end Server

/-- A reload that is the first to find binaries does not throw. -/
def ServerInput.Loads (s : Server) : ServerInput Y → Prop
  | .reload E path => s.appToPath.entries = [] → Server.Returns (Server.reloadFrom E path) s
  | _ => True

namespace Server

variable {Y : YamlCpp} {E : Surroundings Y} {s s' : Server}

theorem next_keeps (i : ServerInput Y) (hr : Registered s) (hs : Backed s.appToPath s)
    (hi : i.Loads s) : Keeps s (i.next s) := by
  cases i with
  | start E path => exact start_keeps path hs
  | stop E => exact stop_keeps hs
  | reload E path =>
    have hwp : (reloadFrom E path).Wp
        (fun r s' => (s.appToPath.entries = [] → r = .ok ()) → Keeps s s') s := by
      apply FailM.Wp.modify_bind
      apply (reload_keeps (s := { s with configPath := path.getD s.configPath })
        ⟨hr.fresh, hr.unique⟩ hs).mono
      intro r s' h hret
      exact ⟨(h hret).backed, (h hret).binaries⟩
    exact hwp hi
  | construct E config => exact instanceConstruct_keeps config hs
  | free name => exact .of_eq (hs.of_sub (fun _ _ hn => Table.lookup_of_erase hn) rfl) rfl

/-- In every run in which no first reload throws, there is a binary for the type of each registered
application, and as long as it stays registered it is the same one. -/
theorem binaries_kept (hs : (serverMachine Y).Reachable (fun s i => i.Loads s) s)
    (hn : s.instances.lookup name = some app) :
    ∃ type path, s.objects[app]? = some type ∧ s.appToPath.lookup type = some path ∧
      ∀ i : ServerInput Y, i.Loads s → (i.next s).instances.lookup name = some app →
        (i.next s).appToPath.lookup type = some path := by
  have hinv : Registered s ∧ Backed s.appToPath s := by
    apply hs.invariant
    · refine ⟨.of_empty rfl, ?_⟩
      intro _ _ hn
      cases hn
    · intro s i h _ hi
      exact ⟨registered_next i h.1, (next_keeps i h.1 h.2 hi).backed⟩
  obtain ⟨type, path, htype, hpath⟩ := hinv.2 name app hn
  refine ⟨type, path, htype, hpath, ?_⟩
  intro i hi hnext
  rcases (next_keeps i hinv.1 hinv.2 hi).binaries with hnone | hext
  · rw [hnone] at hnext
    cases hnext
  · exact hext type path hpath

/-- The logger keeps its binary in a reload of the same configuration. -/
theorem logger_binary_kept :
    ∃ type path, loggerStarted.objects[0]? = some type ∧
      loggerStarted.appToPath.lookup type = some path ∧
      (loggerReloaded [loggerNode]).appToPath.lookup type = some path := by
  have hs : (serverMachine plainYaml).Reachable (fun s i => i.Loads s) loggerStarted :=
    .step (i := ServerInput.start (plainSurroundings (loggerConfig [loggerNode])) "config.yaml")
      .init trivial trivial
  have hn : loggerStarted.instances.lookup "cpp_logger" = some 0 := by decide +kernel
  obtain ⟨type, path, htype, hpath, hkept⟩ := binaries_kept hs hn
  have hreturns : Returns (reloadFrom (plainSurroundings (loggerConfig [loggerNode])) none)
      loggerStarted := by
    rw [Returns]
    decide +kernel
  refine ⟨type, path, htype, hpath, ?_⟩
  exact hkept (.reload (plainSurroundings (loggerConfig [loggerNode])) none)
    (fun _ => hreturns) (by decide +kernel)

end Server

end CppAlls
