import CppAlls.Server.Running

namespace CppAlls
set_option autoImplicit true

open Failing Tables Interaction Machines

/-- A body that resolves the given names one after the other, and ends with `last` when all of them
are found. -/
def AppBody.resolving (last : Option ServerExn) : List String → AppBody
  | [] => .pure last
  | name :: names => .call name fun
    | none => .pure (some (.errorRuntime ("Faild to get() application with instance-name = '" ++
        cStr name ++ "'")))
    | some _ => AppBody.resolving last names

theorem AppBody.resolving_returns {last : Option ServerExn} {is : Instances} {names : List String}
    (h : (AppBody.resolving last names).outcome is = none) :
    (∀ app ∈ (AppBody.resolving last names).resolutions is, ∃ name ∈ names,
      is.lookup (cStr name) = some app) ∧
    ∀ name ∈ names, ∃ app ∈ (AppBody.resolving last names).resolutions is,
      is.lookup (cStr name) = some app := by
  induction names with
  | nil => exact ⟨(fun _ happ => by cases happ), fun _ hname => by cases hname⟩
  | cons name names ih =>
    rw [resolving, outcome] at h
    rw [resolving, resolutions]
    cases hin : is.lookup (cStr name) with
    | none =>
      rw [hin] at h
      cases h
    | some app =>
      rw [hin] at h
      obtain ⟨hfrom, hto⟩ := ih h
      constructor
      · intro app' happ
        rcases List.mem_cons.mp happ with rfl | happ
        · exact ⟨name, List.mem_cons_self, hin⟩
        · obtain ⟨name', hname', hin'⟩ := hfrom app' happ
          exact ⟨name', List.mem_cons_of_mem _ hname', hin'⟩
      · intro name' hname'
        rcases List.mem_cons.mp hname' with rfl | hname'
        · exact ⟨app, List.mem_cons_self, hin⟩
        · obtain ⟨app', happ, hin'⟩ := hto name' hname'
          exact ⟨app', List.mem_cons_of_mem _ happ, hin'⟩

/-- The applications resolve the names of their nodes when they are started and reloaded, and none
when they are stopped. -/
structure ResolvesNames {Y : YamlCpp} (E : Surroundings Y) (names : Y.Node → List String) : Prop where
  start : ∀ app appType n, ∃ last, E.start app appType n = .resolving last (names n)
  reload : ∀ app n, ∃ last, E.reload app n = .resolving last (names n)
  stop : ∀ app, ∃ e, E.stop app = .pure e

namespace Server

variable {Y : YamlCpp} {E : Surroundings Y} {s s' : Server} {known : Instances} {m : AppToPath}

/-- Each instance that was resolved between the two states is registered in the second one. -/
def KeepsResolved (s s' : Server) : Prop :=
  ∀ new, s'.resolved = s.resolved ++ new → ∀ x ∈ new, ∃ name, s'.instances.lookup name = some x.2

/-- All names that the configured applications resolve are names of configured applications. -/
def ClosedNames (names : Y.Node → List String) (appNodes : List Y.Node) : Prop :=
  ∀ n ∈ appNodes, ∀ name ∈ names n, ∃ n' ∈ appNodes, instanceName n' = .ok (cStr name)

/-- What the loop of `reload` has resolved for the nodes behind it. -/
structure Resolutions (names : Y.Node → List String) (appNodes : List Y.Node) (s s' : Server) :
    Prop where
  grown : Sub s.instances s'.instances
  new : ∃ new, s'.resolved = s.resolved ++ new ∧
    (∀ x ∈ new, ∃ n ∈ appNodes, ∃ name ∈ names n, s'.instances.lookup (cStr name) = some x.2) ∧
    ∀ n ∈ appNodes, ∀ name ∈ names n, ∃ x ∈ new, s'.instances.lookup (cStr name) = some x.2

theorem resolutions_of_body {names : Y.Node → List String} {appNode : Y.Node} {body : AppBody}
    {last : Option ServerExn} (hbody : body = .resolving last (names appNode))
    (he : body.outcome s.instances = none)
    (hs' : s'.resolved = s.resolved ++ (body.resolutions s.instances).map (Prod.mk self))
    (hsub : Sub s.instances s'.instances) : Resolutions names [appNode] s s' := by
  subst hbody
  obtain ⟨hfrom, hto⟩ := AppBody.resolving_returns he
  refine ⟨hsub, _, hs', ?_, ?_⟩
  · intro x hx
    obtain ⟨app, happ, rfl⟩ := List.mem_map.mp hx
    obtain ⟨name, hname, hin⟩ := hfrom app happ
    exact ⟨appNode, List.mem_singleton_self _, name, hname, hsub _ _ hin⟩
  · intro n hn name hname
    rw [List.mem_singleton.mp hn] at hname
    obtain ⟨app, happ, hin⟩ := hto name hname
    exact ⟨(self, app), List.mem_map_of_mem happ, hsub _ _ hin⟩

theorem Resolutions.append {names : Y.Node → List String} {appNode : Y.Node}
    {appNodes : List Y.Node} (h : Resolutions names [appNode] s s')
    (h' : Resolutions names appNodes s' s'') : Resolutions names (appNode :: appNodes) s s'' := by
  obtain ⟨new, hnew, hfrom, hto⟩ := h.new
  obtain ⟨new', hnew', hfrom', hto'⟩ := h'.new
  refine ⟨fun name app hn => h'.grown name app (h.grown name app hn), new ++ new', ?_, ?_, ?_⟩
  · rw [hnew', hnew, List.append_assoc]
  · intro x hx
    rcases List.mem_append.mp hx with hx | hx
    · obtain ⟨n, hn, name, hname, hin⟩ := hfrom x hx
      rw [List.mem_singleton.mp hn] at hname
      exact ⟨appNode, List.mem_cons_self, name, hname, h'.grown _ _ hin⟩
    · obtain ⟨n, hn, hx⟩ := hfrom' x hx
      exact ⟨n, List.mem_cons_of_mem _ hn, hx⟩
  · intro n hn name hname
    rcases List.mem_cons.mp hn with rfl | hn
    · obtain ⟨x, hx, hin⟩ := hto n (List.mem_singleton_self _) name hname
      exact ⟨x, List.mem_append_left _ hx, h'.grown _ _ hin⟩
    · obtain ⟨x, hx, hin⟩ := hto' n hn name hname
      exact ⟨x, List.mem_append_right _ hx, hin⟩

theorem reloadApp_resolves {names : Y.Node → List String} (hE : ResolvesNames E names)
    (appNode : Y.Node) (hsub : Sub known s.instances) :
    (reloadApp E m known appNode).Wp (fun r s' => ∀ is, r = .ok is →
      Resolutions names [appNode] s s' ∧
        ∀ name, name ∈ is ↔ name ∈ known ∨ instanceName appNode = .ok name) s := by
  have hfailed {e : ServerExn} {P : Instances → Prop} :
      ∀ is, (.error e : Except ServerExn Instances) = .ok is → P is := fun _ he => by cases he
  have hhead {name : String} (hname : instanceName appNode = .ok name) (n : String) :
      instanceName appNode = .ok n ↔ n = name := by
    rw [hname, Except.ok.injEq, eq_comm]
  apply (reloadApp_round appNode m known s).mono
  intro r s' h
  cases h with
  | unnamed _ => exact hfailed
  | @reloaded name app hname _ he =>
    obtain ⟨last, hbody⟩ := hE.reload app appNode
    intro is hr
    cases hr
    refine ⟨resolutions_of_body hbody he rfl (fun _ _ hn => hn), ?_⟩
    intro n
    rw [Table.mem_emplace, hhead hname]
  | threw _ _ _ => exact hfailed
  | refused _ _ _ => exact hfailed
  | lost _ _ _ _ => exact hfailed
  | @started name appType _ app hname hin hstarts hnew =>
    obtain ⟨rfl, rfl⟩ := hsub.lookup_emplace hin hnew
    obtain ⟨last, hbody⟩ := hE.start s.objects.length appType appNode
    intro is hr
    cases hr
    refine ⟨resolutions_of_body hbody hstarts.returns rfl sub_emplace, ?_⟩
    intro n
    rw [Table.mem_emplace, hhead hname]

theorem reloadApps_resolves {names : Y.Node → List String} (hE : ResolvesNames E names)
    (appNodes : List Y.Node) (hs : Registered s) (hsub : Sub known s.instances) :
    (reloadApps E m known appNodes).Wp (fun r s' => ∀ is, r = .ok is →
      Resolutions names appNodes s s' ∧
        ∀ name, name ∈ is ↔ name ∈ known ∨ ∃ n ∈ appNodes, instanceName n = .ok name) s := by
  induction appNodes generalizing known s with
  | nil =>
    apply FailM.Wp.pure
    intro is hr
    cases hr
    refine ⟨⟨fun _ _ hn => hn, [], (List.append_nil _).symm, ?_, ?_⟩, ?_⟩
    · exact fun _ hx => by cases hx
    · exact fun _ hn => by cases hn
    · intro name
      simp
  | cons appNode appNodes ih =>
    have hround : (reloadApp E m known appNode).Wp (fun r s' => LoopOutcome known s r s' ∧
        ∀ is, r = .ok is → Resolutions names [appNode] s s' ∧
          ∀ name, name ∈ is ↔ name ∈ known ∨ instanceName appNode = .ok name) s :=
      ⟨(reloadApp_outcome m appNode hs hsub).1, reloadApp_resolves hE appNode hsub⟩
    apply FailM.Wp.andThen hround
    · intro is s₁ h
      obtain ⟨hout, hres⟩ := h
      obtain ⟨hres, hmem⟩ := hres is rfl
      apply (ih hout.registered (hout.result is rfl).1).mono
      intro r s₂ h is' hr
      obtain ⟨hres', hmem'⟩ := h is' hr
      refine ⟨hres.append hres', ?_⟩
      intro name
      rw [hmem', hmem, or_assoc]
      simp only [List.mem_cons, exists_eq_or_imp]
    · exact fun _ _ _ _ hr => by cases hr

theorem stopApps_resolved {names : Y.Node → List String} (hE : ResolvesNames E names)
    (apps : List Nat) (s : Server) :
    (stopApps E apps).Wp (fun _ s' => s'.resolved = s.resolved) s := by
  induction apps generalizing s with
  | nil => exact FailM.Wp.pure rfl
  | cons app apps ih =>
    obtain ⟨e, hbody⟩ := hE.stop app
    have hran : (s.ran app .stop (E.stop app)).resolved = s.resolved := by
      rw [ran, hbody]
      exact List.append_nil _
    apply lifecycle_bind
    · intro _
      apply (ih _).mono
      exact fun _ _ h => h.trans hran
    · exact fun _ _ => hran

/-- After the exchange of the maps the resolved instances are kept exactly when their names are
among those of the nodes. -/
theorem keepsResolved_iff {names : Y.Node → List String} {appNodes : List Y.Node}
    {is : Instances} {s₁ : Server} (hres : Resolutions names appNodes s s₁)
    (hmem : ∀ name, name ∈ is ↔ ∃ n ∈ appNodes, instanceName n = .ok name)
    (hs₁ : Registered s₁) (hsub : Sub is s₁.instances) (hinstances : s'.instances = is)
    (hresolved : s'.resolved = s₁.resolved) : KeepsResolved s s' ↔ ClosedNames names appNodes := by
  obtain ⟨new, hnew, hfrom, hto⟩ := hres.new
  constructor
  · intro h n hn name hname
    obtain ⟨x, hx, hin⟩ := hto n hn name hname
    obtain ⟨name', hin'⟩ := h new (hresolved.trans hnew) x hx
    rw [hinstances] at hin'
    rw [← hmem, hs₁.unique _ _ _ hin (hsub _ _ hin'), ← AList.lookup_isSome, hin']
    rfl
  · intro h new' hnew' x hx
    rw [hresolved, hnew] at hnew'
    rw [← List.append_cancel_left hnew'] at hx
    obtain ⟨n, hn, name, hname, hin⟩ := hfrom x hx
    have hname' := (hmem (cStr name)).mpr (h n hn name hname)
    obtain ⟨app, happ⟩ := Option.isSome_iff_exists.mp (AList.lookup_isSome.mpr hname')
    cases hin.symm.trans (hsub _ _ happ)
    exact ⟨cStr name, by rw [hinstances, happ]⟩

theorem reload_resolves {names : Y.Node → List String} (hE : ResolvesNames E names)
    (hs : Registered s) : (reload E).Wp (fun r s' => r = .ok () → ∃ appNodes,
      E.configuredApps s.configPath = .ok appNodes ∧
        (KeepsResolved s s' ↔ ClosedNames names appNodes)) s := by
  apply reload_wp
  · intro config m appNodes hopens _
    have hempty : Sub ∅ s.instances := fun _ _ hn => by cases hn
    have hloop : (reloadApps E m ∅ appNodes).Wp (fun r s' =>
        LoopOutcome ∅ s r s' ∧ ∀ is, r = .ok is →
          Resolutions names appNodes s s' ∧ ∀ name, name ∈ is ↔
            name ∈ (∅ : Instances) ∨ ∃ n ∈ appNodes, instanceName n = .ok name) s :=
      ⟨(reloadApps_outcome m appNodes hs hempty).1, reloadApps_resolves hE appNodes hs hempty⟩
    apply FailM.Wp.andThen hloop
    · intro is s₁ h
      obtain ⟨hout, hres⟩ := h
      obtain ⟨hres, hmem⟩ := hres is rfl
      apply FailM.Wp.get_bind
      apply FailM.Wp.andThen (stopApps_resolved hE _ s₁)
      · intro _ s₂ hstops
        apply FailM.Wp.modify_bind
        apply (initLogger_outcome config _).mono
        intro r s' h _
        obtain ⟨log, rfl, _⟩ := h
        have hmem' : ∀ name, name ∈ is ↔ ∃ n ∈ appNodes, instanceName n = .ok name := by
          intro name
          rw [hmem]
          exact or_iff_right (AList.notMem_empty name)
        exact ⟨appNodes, hopens.configuredApps,
          keepsResolved_iff hres hmem' hout.registered (hout.result is rfl).1 rfl hstops⟩
      · exact fun _ _ _ => nofun
    · exact fun _ _ _ => nofun
  · exact fun _ _ => nofun

/-- After a reload that returns, in any state that the server can reach, the instances that were
resolved during it are registered exactly when their names are configured. -/
theorem reload_keeps_resolved_iff (E : Surroundings Y) (names : Y.Node → List String)
    (hE : ResolvesNames E names) (path : Option String)
    (hs : (serverMachine Y).Reachable (fun _ _ => True) s)
    (hret : (reloadFrom E path).on s = (.ok (), s')) :
    ∃ appNodes, E.configuredApps (path.getD s.configPath) = .ok appNodes ∧
      (KeepsResolved s s' ↔ ClosedNames names appNodes) := by
  have hreg := reachable_registered hs
  have h := reload_resolves (s := { s with configPath := path.getD s.configPath }) hE
    ⟨hreg.fresh, hreg.unique⟩
  rw [reloadFrom, FailM.on_bind_ok (FailM.on_modify _ _)] at hret
  rw [FailM.Wp, hret] at h
  exact h rfl

def plainNames : PlainNode → List String
  | .map entries =>
    match entries.lookup "logger" with
    | some (.scalar name) => [name]
    | _ => []
  | _ => []

/-- The applications resolve the logger that their node names. -/
def loggingSurroundings (config : PlainNode) : Surroundings plainYaml :=
  { plainSurroundings config with
    start := fun _ _ n => .resolving none (plainNames n)
    reload := fun _ n => .resolving none (plainNames n) }

theorem loggingSurroundings_resolves (config : PlainNode) :
    ResolvesNames (loggingSurroundings config) plainNames where
  start _ _ _ := ⟨none, rfl⟩
  reload _ _ := ⟨none, rfl⟩
  stop _ := ⟨none, rfl⟩

def echoNode : PlainNode :=
  .map [("type", .scalar "cpp_logger"), ("instance-name", .scalar "echo"),
    ("logger", .scalar "cpp_logger")]

def echoReloaded (loggers : List PlainNode) : Server :=
  ((reloadFrom (loggingSurroundings (loggerConfig loggers)) none).on loggerStarted).2

theorem kept_logger_resolved :
    ∃ appNodes, (loggingSurroundings (loggerConfig [loggerNode, echoNode])).configuredApps
        (none.getD loggerStarted.configPath) = .ok appNodes ∧
      (KeepsResolved loggerStarted (echoReloaded [loggerNode, echoNode]) ↔
        ClosedNames (Y := plainYaml) plainNames appNodes) :=
  reload_keeps_resolved_iff (loggingSurroundings (loggerConfig [loggerNode, echoNode])) plainNames
    (loggingSurroundings_resolves _) none loggerStarted_reachable (Prod.ext (by decide +kernel) rfl)

/-- The new application resolves the logger that the same reload drops and stops. -/
theorem dropped_logger_resolved :
    ¬ ∀ (Y : YamlCpp) (E : Surroundings Y) (names : Y.Node → List String) (path : Option String)
      (s s' : Server), ResolvesNames E names → (serverMachine Y).Reachable (fun _ _ => True) s →
        (reloadFrom E path).on s = (.ok (), s') → KeepsResolved s s' := by
  intro h
  have hkeeps := h plainYaml (loggingSurroundings (loggerConfig [echoNode])) plainNames none
    loggerStarted (echoReloaded [echoNode]) (loggingSurroundings_resolves _)
    loggerStarted_reachable (Prod.ext (by decide +kernel) rfl)
  have hnew : (echoReloaded [echoNode]).resolved = loggerStarted.resolved ++ [(1, 0)] := by
    decide +kernel
  have hnone : (echoReloaded [echoNode]).instances.values = [1] := by decide +kernel
  have hin := Table.mem_values.mpr (hkeeps _ hnew (1, 0) (List.mem_singleton_self _))
  rw [hnone] at hin
  cases List.mem_singleton.mp hin

end Server

end CppAlls
