import CppAlls.Server.Registry

namespace CppAlls
set_option autoImplicit true

open Failing Tables Interaction Machines

namespace Server

variable {Y : YamlCpp} {E : Surroundings Y} {s s' : Server} {known : Instances}

/-- What a part of the loop of `reload` does: the instances that it has so far are registered. -/
structure LoopOutcome (known : Instances) (s : Server) (r : Except ServerExn Instances)
    (s' : Server) : Prop where
  calls : ∃ new, s'.calls = s.calls ++ new ∧ ∀ c ∈ new, c.call ≠ .stop
  kept : Sub s.instances s'.instances
  registered : Registered s'
  result : ∀ is, r = .ok is → Sub is s'.instances ∧ Sub known is

theorem LoopOutcome.of_error {e : ServerExn} (h : AppsRun s s') (hs : Registered s) :
    LoopOutcome known s (.error e) s' where
  calls := h.calls
  kept := by rw [h.instances]; exact fun _ _ hn => hn
  registered := h.registered hs
  result _ he := by cases he

theorem reloadApp_outcome (newAppToPath : AppToPath) (appNode : Y.Node) (hs : Registered s)
    (hsub : Sub known s.instances) :
    (reloadApp E newAppToPath known appNode).Wp (fun r s' => LoopOutcome known s r s' ∧
      ∀ is, r = .ok is → ∃ name app, is.lookup name = some app) s := by
  apply (reloadApp_round appNode newAppToPath known s).mono
  intro r s' h
  cases h with
  | unnamed _ => exact ⟨.of_error (.refl s) hs, nofun⟩
  | @reloaded name app _ hin _ =>
    have hrun : AppsRun s (s.ran app .reload (E.reload app appNode)) :=
      appsRun_ran (by decide) _ _ _
    refine ⟨⟨hrun.calls, fun _ _ hn => hn, hrun.registered hs, ?_⟩, ?_⟩
    · intro is he
      cases he
      exact ⟨hsub.emplace hin, sub_emplace⟩
    · intro is he
      cases he
      exact ⟨name, Table.exists_lookup_emplace known name app⟩
  | threw _ _ _ => exact ⟨.of_error (appsRun_ran (by decide) _ _ _) hs, nofun⟩
  | refused _ _ h => exact ⟨.of_error h.appsRun hs, nofun⟩
  | lost _ _ _ _ => exact ⟨.of_error (appsRun_launched s _ appNode) hs, nofun⟩
  | @started name appType _ app _ hin _ hnew =>
    obtain ⟨rfl, rfl⟩ := hsub.lookup_emplace hin hnew
    refine ⟨⟨(appsRun_launched s appType appNode).calls, sub_emplace, hs.added _ _ _, ?_⟩, ?_⟩
    · intro is he
      cases he
      refine ⟨Sub.emplace ?_ (Table.lookup_emplace_self hin), sub_emplace⟩
      exact fun n a hn => sub_emplace n a (hsub n a hn)
    · intro is he
      cases he
      exact ⟨_, _, hnew⟩

theorem reloadApps_outcome (newAppToPath : AppToPath) (appNodes : List Y.Node) (hs : Registered s)
    (hsub : Sub known s.instances) :
    (reloadApps E newAppToPath known appNodes).Wp (fun r s' => LoopOutcome known s r s' ∧
      ∀ is, r = .ok is → (appNodes = [] → is = known) ∧
        (appNodes ≠ [] → ∃ name app, is.lookup name = some app)) s := by
  induction appNodes generalizing known s with
  | nil =>
    apply FailM.Wp.pure
    have hc : ∃ new, s.calls = s.calls ++ new ∧ ∀ c ∈ new, c.call ≠ .stop := (AppsRun.refl s).calls
    refine ⟨⟨hc, fun _ _ hn => hn, hs, ?_⟩, ?_⟩
    · intro is he
      cases he
      exact ⟨hsub, fun _ _ hn => hn⟩
    · intro is he
      cases he
      exact ⟨fun _ => rfl, fun hne => absurd rfl hne⟩
  | cons appNode appNodes ih =>
    apply FailM.Wp.andThen (reloadApp_outcome newAppToPath appNode hs hsub)
    · intro is s₁ ⟨hround, hentry⟩
      obtain ⟨name, app, hlook⟩ := hentry is rfl
      obtain ⟨hsub₁, hknown⟩ := hround.result is rfl
      apply (ih hround.registered hsub₁).mono
      intro r s₂ ⟨hrest, _⟩
      obtain ⟨new, hnew, hnostop⟩ := hround.calls
      obtain ⟨new', hnew', hnostop'⟩ := hrest.calls
      refine ⟨⟨⟨new ++ new', ?_, ?_⟩, ?_, hrest.registered, ?_⟩, ?_⟩
      · rw [hnew', hnew, List.append_assoc]
      · exact List.forall_mem_append.mpr ⟨hnostop, hnostop'⟩
      · exact fun n a hn => hrest.kept n a (hround.kept n a hn)
      · intro is' he
        obtain ⟨hsub₂, hknown'⟩ := hrest.result is' he
        exact ⟨hsub₂, fun n a hn => hknown' n a (hknown n a hn)⟩
      · intro is' he
        refine ⟨(fun hnil => by cases hnil), fun _ => ⟨name, app, ?_⟩⟩
        exact (hrest.result is' he).2 name app hlook
    · intro e s₁ ⟨hround, _⟩
      exact ⟨⟨hround.calls, hround.kept, hround.registered, fun _ he => by cases he⟩,
        fun _ he => by cases he⟩

theorem stopApps_outcome (apps : List Nat) (s : Server) :
    (stopApps E apps).Wp (fun r s' => ∃ new res,
      s' = { s with calls := s.calls ++ new, resolved := res } ∧
        (r = .ok () → new = apps.map (⟨·, .stop, true⟩))) s := by
  induction apps generalizing s with
  | nil =>
    apply FailM.Wp.pure
    exact ⟨[], s.resolved, by rw [List.append_nil], fun _ => rfl⟩
  | cons app apps ih =>
    apply lifecycle_bind
    · intro he
      apply (ih (s.ran app .stop (E.stop app))).mono
      intro r s' h
      obtain ⟨new, res, rfl, hnew⟩ := h
      refine ⟨⟨app, .stop, true⟩ :: new, res, ?_, ?_⟩
      · simp only [ran, he, Option.isNone_none, ← List.append_cons]
      · intro hr
        rw [hnew hr, List.map_cons]
    · intro e _
      exact ⟨[_], _, rfl, fun hr => by cases hr⟩

/-- Nothing but the history changed. -/
def OnlyCalls (s s' : Server) : Prop := ∃ new res, s' = { s with calls := new, resolved := res }

theorem OnlyCalls.trans (h : OnlyCalls s s') (h' : OnlyCalls s' s'') : OnlyCalls s s'' := by
  obtain ⟨new, res, rfl⟩ := h
  obtain ⟨new', res', rfl⟩ := h'
  exact ⟨new', res', rfl⟩

theorem OnlyCalls.instances (h : OnlyCalls s s') : s'.instances = s.instances := by
  obtain ⟨_, _, rfl⟩ := h
  rfl

theorem OnlyCalls.objects (h : OnlyCalls s s') : s'.objects = s.objects := by
  obtain ⟨_, _, rfl⟩ := h
  rfl

theorem onlyCalls_ran (s : Server) (self : Nat) (call : LifecycleCall) (body : AppBody) :
    OnlyCalls s (s.ran self call body) := ⟨_, _, rfl⟩

theorem stopApps_returns (apps : List Nat) {s₁ : Server} (hs : OnlyCalls s s₁) :
    (stopApps E apps).Wp (fun r s' => OnlyCalls s s' ∧
      (r = .ok () ↔ ∀ app ∈ apps, (E.stop app).outcome s.instances = none)) s₁ := by
  induction apps generalizing s₁ with
  | nil => exact FailM.Wp.pure ⟨hs, (fun _ _ h => by cases h), fun _ => rfl⟩
  | cons app apps ih =>
    apply lifecycle_bind
    · intro he
      rw [hs.instances] at he
      apply (ih (hs.trans (onlyCalls_ran _ _ _ _))).mono
      intro r t h
      refine ⟨h.1, ?_⟩
      rw [h.2, List.forall_mem_cons]
      exact ⟨fun h => ⟨he, h⟩, fun h => h.2⟩
    · intro e he
      rw [hs.instances] at he
      refine ⟨hs.trans (onlyCalls_ran _ _ _ _), (fun h => by cases h), ?_⟩
      intro h
      cases he.symm.trans (h app List.mem_cons_self)

theorem getInstance_outcome (name : String) (s : Server) :
    (getInstance name).Wp (fun _ s' => s' = s) s := by
  apply FailM.Wp.get_bind
  cases s.find name with
  | none => exact FailM.Wp.throw rfl
  | some app => exact FailM.Wp.pure rfl

theorem getLogger_outcome (isLogger : String → Bool) (name : String) (s : Server) :
    (getLogger isLogger name).Wp (fun _ s' => s' = s) s := by
  apply FailM.Wp.andThen (getInstance_outcome name s)
  · intro app _ he
    rw [he]
    apply FailM.Wp.get_bind
    split
    · exact FailM.Wp.pure rfl
    · exact FailM.Wp.throw rfl
  · intro e _ he
    exact he

/-- The logger is set last, so a failure changes nothing. -/
theorem initLogger_outcome (config : Y.Node) (s : Server) :
    (initLogger E config).Wp (fun r s' => ∃ log, s' = { s with log := log } ∧
      ∀ e, r = .error e → log = s.log) s := by
  apply FailM.Wp.ofExcept_bind
  · intro core _
    apply FailM.Wp.ofExcept_bind
    · intro logger _
      by_cases hdef : Y.isDefined logger = true
      · simp only [hdef, ↓reduceIte]
        apply FailM.Wp.ofExcept_bind
        · intro name _
          apply FailM.Wp.andThen (getLogger_outcome E.isLogger name s)
          · intro app _ he
            rw [he]
            exact ⟨.application app, rfl, fun _ h => by cases h⟩
          · intro e _ he
            exact ⟨s.log, he, fun _ _ => rfl⟩
        · intro e _
          exact ⟨s.log, rfl, fun _ _ => rfl⟩
      · simp only [hdef]
        exact ⟨.cppLogger, rfl, fun _ h => by cases h⟩
    · intro e _
      exact ⟨s.log, rfl, fun _ _ => rfl⟩
  · intro e _
    exact ⟨s.log, rfl, fun _ _ => rfl⟩

/-- The binaries of a running server are not those that were found now. -/
def ChangedBinaries (newAppToPath : AppToPath) (s : Server) : Prop :=
  s.appToPath.entries ≠ [] ∧ newAppToPath.toFinmap ≠ s.appToPath.toFinmap

theorem checkBinaries_outcome (newAppToPath : AppToPath) (s : Server) :
    (checkBinaries newAppToPath).Wp (fun r s' => s' = s ∧
      (r = .ok () ↔ ¬ ChangedBinaries newAppToPath s)) s := by
  apply FailM.Wp.get_bind
  split
  next h => exact FailM.Wp.throw ⟨rfl, (fun he => by cases he), fun hn => absurd h hn⟩
  next h => exact FailM.Wp.pure ⟨rfl, fun _ => h, fun _ => rfl⟩

/-- What comes behind the loop of `reload`. -/
def exchange (E : Surroundings Y) (config : Y.Node) (m : AppToPath) (is : Instances) :
    ServerM Unit := do
  let s ← get
  stopApps E (E.order s.instances.values)
  modify fun s => { s with instances := is, appToPath := m }
  initLogger E config

/-- A reload that returned, on a configuration with the given application nodes: the applications
of the last list were stopped at its end. -/
structure Reloaded (appNodes : List Y.Node) (s s' : Server) (stopped : List Nat) : Prop where
  calls : ∃ new, s'.calls = s.calls ++ new ++ stopped.map (⟨·, .stop, true⟩) ∧
    ∀ c ∈ new, c.call ≠ .stop
  nodup : stopped.Nodup
  before : ∀ name app, s.instances.lookup name = some app → app ∈ stopped
  after : ∀ name app, s'.instances.lookup name = some app → app ∈ stopped
  none_left : appNodes = [] → s'.instances = ∅
  some_left : appNodes ≠ [] → ∃ name app, s'.instances.lookup name = some app

theorem reloaded_of_loop {appNodes : List Y.Node} {is : Instances} {s₁ : Server}
    (hloop : LoopOutcome ∅ s (.ok is) s₁)
    (hentries : (appNodes = [] → is = ∅) ∧ (appNodes ≠ [] → ∃ name app, is.lookup name = some app))
    (hcalls : s'.calls = s₁.calls ++ (E.order s₁.instances.values).map (⟨·, .stop, true⟩))
    (his : s'.instances = is) : Reloaded appNodes s s' (E.order s₁.instances.values) := by
  have hstopped (name : String) (app : Nat) (hn : s₁.instances.lookup name = some app) :
      app ∈ E.order s₁.instances.values := E.mem_order.mpr ⟨name, hn⟩
  obtain ⟨hsub, _⟩ := hloop.result is rfl
  obtain ⟨new, hnew, hnostop⟩ := hloop.calls
  subst his
  exact {
    calls := ⟨new, by rw [hcalls, hnew], hnostop⟩
    nodup := (E.order_perm _).nodup_iff.mpr (Table.nodup_values hloop.registered.unique)
    before := fun name app hn => hstopped name app (hloop.kept name app hn)
    after := fun name app hn => hstopped name app (hsub name app hn)
    none_left := hentries.1
    some_left := hentries.2 }

theorem configuredApps_eq {F : Files Y} (hconfig : F.readConfig path = .ok config)
    (happs : Y.index config "applications" = .ok apps) :
    F.configuredApps path = .ok (Y.elements apps) := by
  rw [Files.configuredApps, hconfig]
  change (Y.index config "applications" >>= _) = _
  rw [happs]
  rfl

/-- What `start` and `reload` have read when their loops begin. -/
def Opens (E : Surroundings Y) (path : String) (config : Y.Node) (m : AppToPath)
    (appNodes : List Y.Node) : Prop :=
  ∃ apps, E.readConfig path = .ok config ∧ E.newAppToPath path config = .ok m ∧
    Y.index config "applications" = .ok apps ∧ Y.elements apps = appNodes

theorem Opens.config {config : Y.Node} {appNodes : List Y.Node}
    (h : Opens E path config m appNodes) : E.readConfig path = .ok config := by
  obtain ⟨_, hconfig, _⟩ := h
  exact hconfig

theorem Opens.unique {config config' : Y.Node} {m' : AppToPath} {appNodes appNodes' : List Y.Node}
    (h : Opens E path config m appNodes) (h' : Opens E path config' m' appNodes') :
    config' = config ∧ m' = m ∧ appNodes' = appNodes := by
  obtain ⟨apps, hconfig, hm, happs, rfl⟩ := h
  obtain ⟨apps', hconfig', hm', happs', rfl⟩ := h'
  cases hconfig.symm.trans hconfig'
  cases hm.symm.trans hm'
  cases happs.symm.trans happs'
  exact ⟨rfl, rfl, rfl⟩

theorem Opens.configuredApps {config : Y.Node} {appNodes : List Y.Node}
    (h : Opens E path config m appNodes) : E.configuredApps path = .ok appNodes := by
  obtain ⟨apps, hconfig, _, happs, rfl⟩ := h
  exact configuredApps_eq hconfig happs

/-- The rule of `reload`: it is refused before its loop on a state that it has not changed, or goes
through the loop and what comes behind. -/
theorem reload_wp {Q : Except ServerExn Unit → Server → Prop}
    (hloop : ∀ config m appNodes, Opens E s.configPath config m appNodes → ¬ ChangedBinaries m s →
      (reloadApps E m ∅ appNodes >>= exchange E config m).Wp Q s)
    (hrefused : (∀ config m appNodes, Opens E s.configPath config m appNodes →
      ChangedBinaries m s) → ∀ e, Q (.error e) s) : (reload E).Wp Q s := by
  apply FailM.Wp.get_bind
  apply FailM.Wp.ofExcept_bind
  · intro config hconfig
    apply FailM.Wp.ofExcept_bind
    · intro m hm
      apply FailM.Wp.andThen (checkBinaries_outcome m s)
      · intro _ s₀ h₀
        obtain ⟨rfl, hunchanged⟩ := h₀
        apply FailM.Wp.ofExcept_bind
        · intro apps happs
          exact hloop config m _ ⟨apps, hconfig, hm, happs, rfl⟩ (hunchanged.mp rfl)
        · intro e he
          apply hrefused
          intro config' _ _ h
          obtain ⟨_, hconfig', _, happs, _⟩ := h
          cases hconfig.symm.trans hconfig'
          cases he.symm.trans happs
      · intro e s₀ h₀
        obtain ⟨rfl, hchanged⟩ := h₀
        apply hrefused
        intro config' _ _ h
        obtain ⟨_, hconfig', hm', _⟩ := h
        cases hconfig.symm.trans hconfig'
        cases hm.symm.trans hm'
        by_contra hno
        cases hchanged.mpr hno
    · intro e he
      apply hrefused
      intro config' _ _ h
      obtain ⟨_, hconfig', hm, _⟩ := h
      cases hconfig.symm.trans hconfig'
      cases he.symm.trans hm
  · intro e he
    apply hrefused
    intro config' _ _ h
    obtain ⟨_, hconfig, _⟩ := h
    cases he.symm.trans hconfig

theorem reload_outcome (hs : Registered s) :
    (reload E).Wp (fun r s' => Registered s' ∧ (r = .ok () → ∃ appNodes stopped,
      E.configuredApps s.configPath = .ok appNodes ∧ Reloaded appNodes s s' stopped)) s := by
  apply reload_wp
  · intro config m appNodes hopens _
    have hsub : Sub ∅ s.instances := fun _ _ hn => by cases hn
    apply FailM.Wp.andThen (reloadApps_outcome m appNodes hs hsub)
    · intro is s₁ ⟨hloop, hentries⟩
      obtain ⟨hsub₁, _⟩ := hloop.result is rfl
      apply FailM.Wp.get_bind
      apply FailM.Wp.andThen (stopApps_outcome _ s₁)
      · intro _ _ hr
        obtain ⟨stops, res, rfl, hstops⟩ := hr
        apply FailM.Wp.modify_bind
        apply (initLogger_outcome config _).mono
        intro r _ hI
        obtain ⟨log, rfl, _⟩ := hI
        refine ⟨hloop.registered.of_sub hsub₁ (Nat.le_refl _), fun _ => ?_⟩
        exact ⟨appNodes, E.order s₁.instances.values, hopens.configuredApps,
          reloaded_of_loop hloop (hentries is rfl) (by rw [← hstops rfl]) rfl⟩
      · intro e _ hx
        obtain ⟨stops, res, rfl, _⟩ := hx
        exact ⟨hloop.registered.of_sub (fun _ _ hn => hn) (Nat.le_refl _), nofun⟩
    · intro e s₁ ⟨hloop, _⟩
      exact ⟨hloop.registered, nofun⟩
  · exact fun _ _ => ⟨hs, nofun⟩

theorem reloadFrom_outcome (path : Option String) (hs : Registered s) :
    (reloadFrom E path).Wp (fun r s' => Registered s' ∧ (r = .ok () → ∃ appNodes stopped,
      E.configuredApps (path.getD s.configPath) = .ok appNodes ∧
        Reloaded appNodes s s' stopped)) s := by
  apply FailM.Wp.modify_bind
  apply (reload_outcome (s := { s with configPath := path.getD s.configPath })
    ⟨hs.fresh, hs.unique⟩).mono
  intro r s' ⟨hs', h⟩
  refine ⟨hs', fun he => ?_⟩
  obtain ⟨appNodes, stopped, hconfig, hrel⟩ := h he
  exact ⟨appNodes, stopped, hconfig, hrel.calls, hrel.nodup, hrel.before, hrel.after,
    hrel.none_left, hrel.some_left⟩

end Server

end CppAlls
