import CppAlls.Server.Discovery
import CppAlls.Server.Replay
import CppAlls.Server.Running

namespace CppAlls
set_option autoImplicit true

open Failing Tables Interaction Machines

namespace Server

variable {Y : YamlCpp} {E : Surroundings Y} {s s' : Server} {known : Instances} {m : AppToPath}

/-- The registry, the known binaries, the path of the configuration and the logger. -/
structure SameServer (s s' : Server) : Prop where
  instances : ∀ name, s'.instances.lookup name = s.instances.lookup name
  appToPath : ∀ type, s'.appToPath.lookup type = s.appToPath.lookup type
  configPath : s'.configPath = s.configPath
  log : s'.log = s.log

/-- An exception of `start` comes before anything has changed: the path is the current one, the
search for binaries finds no new type, the first application is not started, and without one no
logger is found. -/
structure StartKeeps (E : Surroundings Y) (path : String) (s : Server) : Prop where
  path_eq : path = s.configPath
  no_type : ∀ config, E.readConfig path = .ok config →
    ∀ type, type ∈ E.discovered path config → type ∈ s.appToPath
  no_start : ∀ config m appNode appNodes, Opens E path config m (appNode :: appNodes) →
    ∀ appType name, ¬ Starts E appNode s.appToPath s.instances s appType name
  no_logger : ∀ config m, Opens E path config m [] → ¬ NamesLogger E config s

/-- The condition `P` is what a call needs to leave the server as it was when it throws, and no
call that returns meets it. -/
structure KeptIff (P : Prop) (s : Server) (r : Except ServerExn Unit) (s' : Server) : Prop where
  threw : ∀ e, r = .error e → (SameServer s s' ↔ P)
  returned : r = .ok () → ¬ P

theorem KeptIff.of_error (h : SameServer s s' ↔ P) : KeptIff P s (.error e) s' :=
  ⟨fun _ _ => h, nofun⟩

theorem KeptIff.of_changed (h : ¬ SameServer s s') (hP : ¬ P) : KeptIff P s r s' :=
  ⟨fun _ _ => iff_of_false h hP, fun _ => hP⟩

/-- What the loops leave as it is. -/
structure Frame (s s' : Server) : Prop where
  instances : Sub s.instances s'.instances
  appToPath : s'.appToPath = s.appToPath
  configPath : s'.configPath = s.configPath
  log : s'.log = s.log

theorem Frame.refl (s : Server) : Frame s s := ⟨fun _ _ h => h, rfl, rfl, rfl⟩

theorem Frame.trans (h : Frame s s') (h' : Frame s' s'') : Frame s s'' where
  instances name app hn := h'.instances name app (h.instances name app hn)
  appToPath := h'.appToPath.trans h.appToPath
  configPath := h'.configPath.trans h.configPath
  log := h'.log.trans h.log

theorem AppsRun.frame (h : AppsRun s s') : Frame s s' := by
  obtain ⟨objs, new, res, rfl, _⟩ := h
  exact ⟨fun _ _ h => h, rfl, rfl, rfl⟩

theorem frame_emplace (s : Server) (name : String) (app : Nat) :
    Frame s { s with instances := s.instances.emplace name app } :=
  ⟨sub_emplace, rfl, rfl, rfl⟩

theorem startApps_frame (appNodes : List Y.Node) (s : Server) :
    (startApps E appNodes).Wp (fun _ s' => Frame s s') s := by
  induction appNodes generalizing s with
  | nil => exact FailM.Wp.pure (.refl s)
  | cons appNode appNodes ih =>
    apply startApps_cons_wp
    · intro appType name _
      have hframe : Frame s (added E s appType name appNode) :=
        (appsRun_launched s appType appNode).frame.trans (frame_emplace _ name s.objects.length)
      apply (ih _).mono
      intro _ s₂ h
      exact hframe.trans h
    · intro e s₁ hlaunch
      exact hlaunch.appsRun.frame

theorem newAppToPath_eq {F : Files Y} {r : Except ServerExn Unit} {path : String}
    {config : Y.Node} (h : ((F.fillAppsToPath path config).on ∅).1 = r) :
    F.newAppToPath path config = r.map (fun _ => F.discovered path config) := by
  rw [Files.newAppToPath, Files.discovered]
  generalize (F.fillAppsToPath path config).on ∅ = p at h
  obtain ⟨r', m⟩ := p
  subst h
  cases r' <;> rfl

/-- The search leaves the map as it is when it finds no new type. -/
theorem fillAppsToPath_same {F : Files Y} {path : String} {config : Y.Node} {m : AppToPath} :
    (∀ type, ((F.fillAppsToPath path config).on m).2.lookup type = m.lookup type) ↔
      ∀ type, type ∈ F.discovered path config → type ∈ m := by
  obtain ⟨_, hkeeps, hmem⟩ := F.fillAppsToPath_on path config m
  constructor
  · intro h type ht
    have hin := (hmem type).mpr (.inr ht)
    rw [← AList.lookup_isSome, h type, AList.lookup_isSome] at hin
    exact hin
  · intro h type
    cases hl : m.lookup type with
    | some p => exact hkeeps type p hl
    | none =>
      rw [AList.lookup_eq_none]
      intro hin
      rcases (hmem type).mp hin with hin | hin
      · exact AList.lookup_eq_none.mp hl hin
      · exact AList.lookup_eq_none.mp hl (h type hin)

/-- A start that fails before it has added an instance. -/
theorem same_iff_keeps {config : Y.Node} (hconfig : E.readConfig path = .ok config)
    (hinstances : s'.instances = s.instances) (hlog : s'.log = s.log)
    (hpath : s'.configPath = path)
    (hmap : s'.appToPath = ((E.fillAppsToPath path config).on s.appToPath).2)
    (hstart : (∀ type, s'.appToPath.lookup type = s.appToPath.lookup type) →
      ∀ m appNode appNodes, Opens E path config m (appNode :: appNodes) →
        ∀ appType name, ¬ Starts E appNode s.appToPath s.instances s appType name)
    (hlogger : ∀ m, Opens E path config m [] → ¬ NamesLogger E config s) :
    SameServer s s' ↔ StartKeeps E path s := by
  constructor
  · intro h
    constructor
    · exact hpath.symm.trans h.configPath
    · intro config' hconfig'
      cases hconfig.symm.trans hconfig'
      have hsame := h.appToPath
      rw [hmap] at hsame
      exact fillAppsToPath_same.mp hsame
    · intro config' m appNode appNodes hopens
      cases hconfig.symm.trans hopens.config
      exact hstart h.appToPath m appNode appNodes hopens
    · intro config' m hopens
      cases hconfig.symm.trans hopens.config
      exact hlogger m hopens
  · intro h
    constructor
    · exact fun name => by rw [hinstances]
    · rw [hmap]
      exact fillAppsToPath_same.mpr (h.no_type config hconfig)
    · exact hpath.trans h.path_eq
    · exact hlog

/-- A start that fails before it has read its applications. -/
theorem same_of_unread {config : Y.Node} (hconfig : E.readConfig path = .ok config)
    (hunread : ∀ m appNodes, ¬ Opens E path config m appNodes) (hinstances : s'.instances = s.instances)
    (hlog : s'.log = s.log) (hpath : s'.configPath = path)
    (hmap : s'.appToPath = ((E.fillAppsToPath path config).on s.appToPath).2) :
    SameServer s s' ↔ StartKeeps E path s :=
  same_iff_keeps hconfig hinstances hlog hpath hmap
    (fun _ m _ _ hopens => absurd hopens (hunread m _)) fun m hopens => absurd hopens (hunread m _)

theorem not_same_of_started (hnot : name ∉ s.instances)
    (hin : s'.instances.lookup name = some app) : ¬ SameServer s s' := by
  intro hsame
  have hlook := hsame.instances name
  rw [hin, AList.lookup_eq_none.mpr hnot] at hlook
  cases hlook

/-- The first application is started only if something has changed then. -/
theorem first_app_keeps {config appNode : Y.Node} {appNodes : List Y.Node} {s₁ : Server}
    (hopens : Opens E path config m (appNode :: appNodes))
    (hs₁ : s₁ = { s with
      configPath := path
      appToPath := ((E.fillAppsToPath path config).on s.appToPath).2 }) :
    (startApps E (appNode :: appNodes) >>= fun _ => initLogger E config).Wp
      (KeptIff (StartKeeps E path s) s) s₁ := by
  have his : s₁.instances = s.instances := by rw [hs₁]
  have hobj : s₁.objects = s.objects := by rw [hs₁]
  have hmap : s₁.appToPath = ((E.fillAppsToPath path config).on s.appToPath).2 := by rw [hs₁]
  rw [startApps, bind_assoc]
  apply FailM.Wp.get_bind
  rw [bind_assoc]
  apply FailM.Wp.andThen (startInstance_cases appNode s₁.appToPath s₁.instances s₁)
  · intro x s₂ hlaunch
    obtain ⟨appType, name, hstarts, rfl, rfl⟩ := hlaunch.of_ok
    have hnot : name ∉ s.instances := his ▸ hstarts.fresh
    have hkeeps : ¬ StartKeeps E path s := by
      intro h
      have hsame := fillAppsToPath_same.mpr (h.no_type config hopens.config)
      rw [← hmap] at hsame
      apply h.no_start config m appNode appNodes hopens appType name
      exact hstarts.of_eq (fun type => (hsame type).symm) his.symm hobj.symm hnot
    rw [bind_assoc]
    apply FailM.Wp.modify_bind
    have hadded : ∀ s', Sub (s₁.instances.emplace name s₁.objects.length) s'.instances →
        ¬ SameServer s s' := by
      intro s' h
      apply not_same_of_started hnot
      exact h name _ (Table.lookup_emplace_self hstarts.lookup_none)
    apply FailM.Wp.andThen (startApps_frame appNodes _)
    · intro _ s₃ hframe
      apply (initLogger_outcome config s₃).mono
      intro _ s' h
      obtain ⟨log, rfl, _⟩ := h
      exact .of_changed (hadded _ hframe.instances) hkeeps
    · exact fun e s₃ hframe => .of_changed (hadded s₃ hframe.instances) hkeeps
  · intro e s' hlaunch
    obtain ⟨objs, new, res, rfl, _⟩ := hlaunch.appsRun
    subst hs₁
    apply KeptIff.of_error
    refine same_iff_keeps hopens.config rfl rfl rfl rfl ?_ ?_
    · intro hsame _ node' nodes' hopens' appType name hstarts
      cases (hopens.unique hopens').2.2
      exact hlaunch.not_starts appType name (hstarts.of_eq hsame rfl rfl hstarts.fresh)
    · intro m' hopens'
      cases (hopens.unique hopens').2.2

/-- A start that throws leaves the server as it was exactly when nothing was changed before. -/
theorem start_kept (path : String) (s : Server) :
    (start E path).Wp (KeptIff (StartKeeps E path s) s) s := by
  apply FailM.Wp.modify_bind
  apply FailM.Wp.ofExcept_bind
  · intro config hconfig
    have hnew := newAppToPath_eq (E.fillAppsToPath_on path config s.appToPath).1.symm
    have hon : ((E.fillAppsToPath path config).part (fun s => s.appToPath)
        (fun s m => { s with appToPath := m })).on { s with configPath := path } =
        (((E.fillAppsToPath path config).on s.appToPath).1, { s with
          configPath := path
          appToPath := ((E.fillAppsToPath path config).on s.appToPath).2 }) := rfl
    cases hr : ((E.fillAppsToPath path config).on s.appToPath).1 with
    | error e =>
      rw [hr] at hon hnew
      apply FailM.Wp.bind_error hon
      apply KeptIff.of_error
      refine same_of_unread hconfig ?_ rfl rfl rfl rfl
      rintro m _ ⟨_, _, hm, _⟩
      rw [hnew] at hm
      cases hm
    | ok _ =>
      rw [hr] at hon hnew
      apply FailM.Wp.bind_ok hon
      apply FailM.Wp.ofExcept_bind
      · intro apps happs
        cases hnodes : Y.elements apps with
        | nil =>
          have hopens : Opens E path config (E.discovered path config) [] :=
            ⟨apps, hconfig, hnew, happs, hnodes⟩
          apply ((initLogger_outcome config _).and (initLogger_returns_iff config _)).mono
          rintro r s' ⟨⟨log, rfl, hlog⟩, _, hfound⟩
          cases r with
          | error e =>
            apply KeptIff.of_error
            refine same_iff_keeps hconfig rfl (hlog e rfl) rfl rfl ?_ ?_
            · intro _ _ _ _ hopens'
              cases (hopens.unique hopens').2.2
            · intro _ _ hnames
              cases hfound.mpr hnames
          | ok _ => exact ⟨nofun, fun _ h => h.no_logger config _ hopens (hfound.mp rfl)⟩
        | cons appNode appNodes =>
          exact first_app_keeps ⟨apps, hconfig, hnew, happs, hnodes⟩ rfl
      · intro e he
        apply KeptIff.of_error
        refine same_of_unread hconfig ?_ rfl rfl rfl rfl
        rintro _ _ ⟨_, _, _, happs, _⟩
        cases he.symm.trans happs
  · intro e he
    apply KeptIff.of_error
    constructor
    · intro h
      refine ⟨h.configPath, ?_, ?_, ?_⟩
      · intro config hconfig
        cases he.symm.trans hconfig
      · intro config _ _ _ hopens
        cases he.symm.trans hopens.config
      · intro config _ hopens
        cases he.symm.trans hopens.config
    · intro h
      exact ⟨fun _ => rfl, fun _ => rfl, h.path_eq, rfl⟩

/-- The instance of a node that is registered, and whose `reload` returns. -/
def Reloads (E : Surroundings Y) (s : Server) (appNode : Y.Node) : Prop :=
  ∃ name app, instanceName appNode = .ok name ∧ s.instances.lookup name = some app ∧
    (E.reload app appNode).outcome s.instances = none

/-- The loop of `reload` comes to a node that is not registered, and starts an application. -/
def StartsAnother (E : Surroundings Y) (m : AppToPath) (s : Server) : List Y.Node → Prop
  | [] => False
  | appNode :: appNodes =>
    (∃ appType name, instanceName appNode = .ok name ∧
      Starts E appNode m s.instances s appType name) ∨
    (Reloads E s appNode ∧ StartsAnother E m s appNodes)

/-- What `reload` has read when its loop begins. -/
structure LoopInput (E : Surroundings Y) (s : Server) (config : Y.Node) (m : AppToPath)
    (appNodes : List Y.Node) : Prop where
  opens : Opens E s.configPath config m appNodes
  unchanged : ¬ ChangedBinaries m s

/-- The maps after the exchange are those from before it. -/
def Retains (s : Server) (m : AppToPath) (appNodes : List Y.Node) : Prop :=
  (∀ name, name ∈ s.instances → ∃ n ∈ appNodes, instanceName n = .ok name) ∧
    ∀ type, m.lookup type = s.appToPath.lookup type

/-- An exception of `reload` leaves the server as it was: no application is started before it, and
one that comes behind the exchange of the maps finds them equal, and is not that of a logger which
has been chosen already. -/
structure ReloadKeeps (E : Surroundings Y) (s : Server) : Prop where
  no_start : ∀ config m appNodes, LoopInput E s config m appNodes → ¬ StartsAnother E m s appNodes
  no_exchange : ∀ config m appNodes, LoopInput E s config m appNodes →
    (∀ n ∈ appNodes, Reloads E s n) →
    (∀ name app, s.instances.lookup name = some app → (E.stop app).outcome s.instances = none) →
    Retains s m appNodes ∧ ¬ NamesLogger E config s

theorem reloadApp_frame (appNode : Y.Node) (s : Server) (known : Instances) :
    (reloadApp E m known appNode).Wp (fun r s' => Frame s s' ∧
      ∀ is, r = .ok is → Sub known is) s := by
  apply (reloadApp_round appNode m known s).mono
  intro r s' h
  cases h with
  | unnamed _ => exact ⟨.refl s, nofun⟩
  | reloaded _ _ _ =>
    refine ⟨(appsRun_ran (by decide) _ _ _).frame, ?_⟩
    intro is he
    cases he
    exact sub_emplace
  | threw _ _ _ => exact ⟨(appsRun_ran (by decide) _ _ _).frame, nofun⟩
  | refused _ _ h => exact ⟨h.appsRun.frame, nofun⟩
  | lost _ _ _ _ => exact ⟨(appsRun_launched s _ appNode).frame, nofun⟩
  | started _ _ _ _ =>
    refine ⟨(appsRun_launched s _ appNode).frame.trans (frame_emplace _ _ _), ?_⟩
    intro is he
    cases he
    exact sub_emplace

theorem reloadApps_frame (appNodes : List Y.Node) (s : Server) (known : Instances) :
    (reloadApps E m known appNodes).Wp (fun r s' => Frame s s' ∧
      ∀ is, r = .ok is → Sub known is) s := by
  induction appNodes generalizing known s with
  | nil =>
    apply FailM.Wp.pure
    refine ⟨.refl s, ?_⟩
    intro is he
    cases he
    exact fun _ _ h => h
  | cons appNode appNodes ih =>
    apply FailM.Wp.andThen (reloadApp_frame appNode s known)
    · intro is s₁ h
      obtain ⟨hframe, hsub⟩ := h
      apply (ih s₁ is).mono
      intro r t h
      obtain ⟨hframe', hsub'⟩ := h
      refine ⟨hframe.trans hframe', ?_⟩
      intro is' he name app hn
      exact hsub' is' he name app (hsub is rfl name app hn)
    · exact fun _ _ h => ⟨h.1, fun _ he => by cases he⟩

/-- A round of the loop, in a state that differs from `s` in the history only. -/
inductive Round (E : Surroundings Y) (m : AppToPath) (known : Instances) (s : Server)
    (appNode : Y.Node) : Except ServerExn Instances → Server → Prop where
  | reloaded (hname : instanceName appNode = .ok name) (hin : s.instances.lookup name = some app)
      (he : (E.reload app appNode).outcome s.instances = none) (hcalls : OnlyCalls s t) :
      Round E m known s appNode (.ok (known.emplace name app)) t
  | started (hname : instanceName appNode = .ok name)
      (h : Starts E appNode m s.instances s appType name)
      (hin : t.instances.lookup name = some app) (hnew : is.lookup name = some app) :
      Round E m known s appNode (.ok is) t
  | failed (hreload : ¬ Reloads E s appNode)
      (hstart : ∀ appType name, instanceName appNode = .ok name →
        ¬ Starts E appNode m s.instances s appType name)
      (hsame : t.instances = s.instances) : Round E m known s appNode (.error e) t

theorem Reloads.lookup {appNode : Y.Node} (h : Reloads E s appNode)
    (hname : instanceName appNode = .ok name) : ∃ app, s.instances.lookup name = some app ∧
      (E.reload app appNode).outcome s.instances = none := by
  obtain ⟨name', app, hname', happ⟩ := h
  cases hname.symm.trans hname'
  exact ⟨app, happ⟩

theorem reloadApp_cases (appNode : Y.Node) {s₁ : Server} (hs : OnlyCalls s s₁)
    (hsub : Sub known s.instances) :
    (reloadApp E m known appNode).Wp (Round E m known s appNode) s₁ := by
  have his := hs.instances
  have hreload (name : String) (hname : instanceName appNode = .ok name)
      (hin : s.instances.lookup name = none) : ¬ Reloads E s appNode := by
    intro h
    obtain ⟨app, hin', _⟩ := h.lookup hname
    cases hin.symm.trans hin'
  apply (reloadApp_round appNode m known s₁).mono
  intro r t h
  cases h with
  | unnamed he =>
    apply Round.failed
    · intro h
      obtain ⟨name, _, hname, _⟩ := h
      cases he.symm.trans hname
    · intro _ name hname
      cases he.symm.trans hname
    · exact his
  | reloaded hname hin he =>
    rw [his] at hin he
    exact .reloaded hname hin he (hs.trans (onlyCalls_ran _ _ _ _))
  | threw hname hin he =>
    rw [his] at hin he
    apply Round.failed
    · intro h
      obtain ⟨app', hin', hnone⟩ := h.lookup hname
      cases hin.symm.trans hin'
      cases he.symm.trans hnone
    · intro appType name' hname' h
      cases hname.symm.trans hname'
      cases hin.symm.trans h.lookup_none
    · exact his
  | refused hname hin h =>
    rw [his] at hin
    apply Round.failed (hreload _ hname hin)
    · intro appType name' hname' hstarts
      cases hname.symm.trans hname'
      exact h.not_starts appType _ (hstarts.of_eq (fun _ => rfl) his hs.objects
        (AList.lookup_eq_none.mp (hsub.lookup_none hin)))
    · exact h.appsRun.instances.trans his
  | lost hname hin hstarts hnew =>
    rw [his] at hin
    apply Round.failed (hreload _ hname hin)
    · intro appType' name'' hname'' h
      cases hname.symm.trans hname''
      obtain ⟨_, rfl⟩ := h.toCreates.eq hstarts.toCreates
      rw [Table.lookup_emplace_self (hsub.lookup_none hin)] at hnew
      cases hnew
    · exact his
  | started hname hin hstarts hnew =>
    rw [his] at hin
    obtain ⟨rfl, rfl⟩ := hsub.lookup_emplace hin hnew
    have hstarts' := hstarts.of_eq (fun _ => rfl) his.symm hs.objects.symm
      (AList.lookup_eq_none.mp hin)
    exact .started hname hstarts' (Table.lookup_emplace_self (his ▸ hin)) hnew

/-- The loop as a whole: it starts an application, fails before it does, or reloads all nodes. -/
inductive Rounds (E : Surroundings Y) (m : AppToPath) (known : Instances) (s : Server)
    (appNodes : List Y.Node) : Except ServerExn Instances → Server → Prop where
  | started (h : StartsAnother E m s appNodes) (hnot : name ∉ s.instances)
      (hin : t.instances.lookup name = some app)
      (hnew : ∀ is, r = .ok is → is.lookup name = some app) : Rounds E m known s appNodes r t
  | failed (hnot : ¬ StartsAnother E m s appNodes) (hreload : ¬ ∀ n ∈ appNodes, Reloads E s n)
      (hsame : t.instances = s.instances) : Rounds E m known s appNodes (.error e) t
  | reloaded (h : ∀ n ∈ appNodes, Reloads E s n) (hcalls : OnlyCalls s t)
      (hsub : Sub is s.instances) (hmem : ∀ name, name ∈ is ↔
        name ∈ known ∨ ∃ n ∈ appNodes, instanceName n = .ok name) :
      Rounds E m known s appNodes (.ok is) t

theorem reloadApps_cases (appNodes : List Y.Node) {s₁ : Server} (hs : OnlyCalls s s₁)
    (hsub : Sub known s.instances) :
    (reloadApps E m known appNodes).Wp (Rounds E m known s appNodes) s₁ := by
  induction appNodes generalizing known s₁ with
  | nil =>
    apply FailM.Wp.pure
    apply Rounds.reloaded (fun _ hn => by cases hn) hs hsub
    simp
  | cons appNode appNodes ih =>
    apply FailM.Wp.andThen (reloadApp_cases appNode hs hsub)
    · intro is s₂ hround
      cases hround with
      | @reloaded name app _ hname hin he hcalls =>
        have hreloads : Reloads E s appNode := ⟨name, app, hname, hin, he⟩
        apply (ih hcalls (hsub.emplace hin)).mono
        intro r t h
        cases h with
        | started h hnot hin hnew => exact .started (.inr ⟨hreloads, h⟩) hnot hin hnew
        | failed hnot hreload hsame =>
          apply Rounds.failed ?_ ?_ hsame
          · intro h
            rcases h with ⟨_, name', hname', h⟩ | ⟨_, h⟩
            · cases hname.symm.trans hname'
              cases hin.symm.trans h.lookup_none
            · exact hnot h
          · exact fun h => hreload (fun n hn => h n (List.mem_cons_of_mem _ hn))
        | reloaded h hcalls hsub hmem =>
          apply Rounds.reloaded ?_ hcalls hsub
          · intro n
            have hhead : instanceName appNode = .ok n ↔ n = name := by
              rw [hname, Except.ok.injEq, eq_comm]
            rw [hmem, Table.mem_emplace, or_assoc]
            simp only [List.mem_cons, exists_eq_or_imp, hhead]
          · intro n hn
            rcases List.mem_cons.mp hn with rfl | hn
            · exact hreloads
            · exact h n hn
      | @started name appType app _ _ hname h hin hnew =>
        apply (reloadApps_frame appNodes s₂ is).mono
        intro r t hrest
        obtain ⟨hframe, hsub⟩ := hrest
        exact .started (.inl ⟨appType, name, hname, h⟩) h.fresh (hframe.instances name app hin)
          (fun is' he => hsub is' he name app hnew)
    · intro e s₂ hround
      cases hround with
      | failed hreload hstart hsame =>
        apply Rounds.failed ?_ ?_ hsame
        · intro h
          rcases h with ⟨appType, name, hname, h⟩ | ⟨h, _⟩
          · exact hstart appType name hname h
          · exact hreload h
        · exact fun h => hreload (h appNode List.mem_cons_self)

theorem Reloads.not_startsAnother {appNodes : List Y.Node} (h : ∀ n ∈ appNodes, Reloads E s n) :
    ¬ StartsAnother E m s appNodes := by
  induction appNodes with
  | nil => exact id
  | cons appNode appNodes ih =>
    intro hs
    rcases hs with ⟨_, name, hname, hs⟩ | ⟨_, hs⟩
    · obtain ⟨app, hin, _⟩ := (h appNode List.mem_cons_self).lookup hname
      cases hin.symm.trans hs.lookup_none
    · exact ih (fun n hn => h n (List.mem_cons_of_mem _ hn)) hs

theorem same_of_instances (his : s'.instances = s.instances) (h : Frame s s') : SameServer s s' where
  instances _ := by rw [his]
  appToPath _ := by rw [h.appToPath]
  configPath := h.configPath
  log := h.log

theorem OnlyCalls.same (h : OnlyCalls s s') : SameServer s s' := by
  obtain ⟨_, _, rfl⟩ := h
  exact ⟨fun _ => rfl, fun _ => rfl, rfl, rfl⟩

theorem exchange_kept {appNodes : List Y.Node} {config : Y.Node} {is : Instances} {s₁ : Server}
    (hcalls : OnlyCalls s s₁) (hsub : Sub is s.instances)
    (hmem : ∀ name, name ∈ is ↔ ∃ n ∈ appNodes, instanceName n = .ok name) :
    (exchange E config m is).Wp (KeptIff
      ((∀ name app, s.instances.lookup name = some app → (E.stop app).outcome s.instances = none) →
        Retains s m appNodes ∧ ¬ NamesLogger E config s) s) s₁ := by
  have hstops : (∀ app ∈ E.order s₁.instances.values, (E.stop app).outcome s.instances = none) ↔
      ∀ name app, s.instances.lookup name = some app → (E.stop app).outcome s.instances = none := by
    rw [hcalls.instances]
    exact E.forall_order
  have hsame (hin : ∀ name, name ∈ s.instances → ∃ n ∈ appNodes, instanceName n = .ok name)
      (name : String) : is.lookup name = s.instances.lookup name := by
    cases hn : is.lookup name with
    | some app => exact (hsub name app hn).symm
    | none =>
      symm
      rw [AList.lookup_eq_none]
      intro hname
      exact AList.lookup_eq_none.mp hn ((hmem name).mpr (hin name hname))
  apply FailM.Wp.get_bind
  apply FailM.Wp.andThen (stopApps_returns _ hcalls)
  · intro _ s₂ h
    obtain ⟨⟨new, res, rfl⟩, hret⟩ := h
    have hall := hstops.mp (hret.mp rfl)
    rw [forall_prop_of_true hall]
    apply FailM.Wp.modify_bind
    apply ((initLogger_outcome config _).and (initLogger_returns_iff config _)).mono
    rintro r s' ⟨⟨log, rfl, hlog⟩, _, hfound⟩
    have hnames (hin : ∀ name, name ∈ s.instances → ∃ n ∈ appNodes, instanceName n = .ok name) :
        NamesLogger E config { s with
          calls := new, resolved := res, instances := is, appToPath := m } ↔
        NamesLogger E config s := by
      apply namesLogger_congr
      · exact hsame hin
      · rfl
    cases r with
    | ok _ => exact ⟨nofun, fun _ h => h.2 ((hnames h.1.1).mp (hfound.mp rfl))⟩
    | error e =>
      apply KeptIff.of_error
      constructor
      · intro h
        have hin : ∀ name, name ∈ s.instances → ∃ n ∈ appNodes, instanceName n = .ok name := by
          intro name hname
          rw [← hmem, ← AList.lookup_isSome]
          rw [← AList.lookup_isSome, ← h.instances name] at hname
          exact hname
        refine ⟨⟨hin, h.appToPath⟩, ?_⟩
        intro hfind
        cases hfound.mpr ((hnames hin).mpr hfind)
      · exact fun h => ⟨hsame h.1.1, h.1.2, rfl, hlog e rfl⟩
  · intro e s₂ h
    obtain ⟨hcalls, hret⟩ := h
    apply KeptIff.of_error
    refine iff_of_true hcalls.same ?_
    intro h
    cases hret.mpr (hstops.mpr h)

theorem reloadKeeps_iff {config : Y.Node} {appNodes : List Y.Node}
    (h : LoopInput E s config m appNodes) :
    ReloadKeeps E s ↔ ¬ StartsAnother E m s appNodes ∧ ((∀ n ∈ appNodes, Reloads E s n) →
      (∀ name app, s.instances.lookup name = some app → (E.stop app).outcome s.instances = none) →
        Retains s m appNodes ∧ ¬ NamesLogger E config s) := by
  constructor
  · exact fun hk => ⟨hk.no_start config m appNodes h, hk.no_exchange config m appNodes h⟩
  · intro hk
    constructor
    · intro config' m' appNodes' h'
      obtain ⟨rfl, rfl, rfl⟩ := h.opens.unique h'.opens
      exact hk.1
    · intro config' m' appNodes' h'
      obtain ⟨rfl, rfl, rfl⟩ := h.opens.unique h'.opens
      exact hk.2

/-- A reload that does not come to its loop has changed nothing. -/
theorem same_of_no_loop (h : ∀ config m appNodes, ¬ LoopInput E s config m appNodes) :
    SameServer s s ↔ ReloadKeeps E s :=
  iff_of_true ⟨fun _ => rfl, fun _ => rfl, rfl, rfl⟩
    ⟨fun config m appNodes hin => absurd hin (h config m appNodes),
      fun config m appNodes hin => absurd hin (h config m appNodes)⟩

/-- The exchange keeps an instance that is in both maps. -/
theorem exchange_keeps {config : Y.Node} {is : Instances} (hin : s.instances.lookup name = some app)
    (hnew : is.lookup name = some app) :
    (exchange E config m is).Wp (fun _ s' => s'.instances.lookup name = some app) s := by
  apply FailM.Wp.get_bind
  apply FailM.Wp.andThen (stopApps_outcome _ s)
  · intro _ s₁ _
    apply FailM.Wp.modify_bind
    apply (initLogger_outcome config _).mono
    intro _ s' h
    obtain ⟨log, rfl, _⟩ := h
    exact hnew
  · intro e s₁ h
    obtain ⟨new, res, rfl, _⟩ := h
    exact hin

theorem loop_kept {config : Y.Node} {appNodes : List Y.Node}
    (hloop : LoopInput E s config m appNodes) :
    (reloadApps E m ∅ appNodes >>= exchange E config m).Wp (KeptIff (ReloadKeeps E s) s) s := by
  rw [reloadKeeps_iff hloop]
  have hempty : Sub ∅ s.instances := fun _ _ hn => by cases hn
  have hpost : (reloadApps E m ∅ appNodes).Wp
      (fun r s' => Rounds E m ∅ s appNodes r s' ∧ Frame s s') s :=
    ⟨reloadApps_cases appNodes ⟨s.calls, s.resolved, rfl⟩ hempty,
      (reloadApps_frame appNodes s ∅).1⟩
  apply FailM.Wp.andThen hpost
  · intro is s₁ h
    cases h.1 with
    | started hstarts hnot hin hnew =>
      apply (exchange_keeps hin (hnew is rfl)).mono
      exact fun _ s' hin' => .of_changed (not_same_of_started hnot hin') fun hk => hk.1 hstarts
    | reloaded hreloads hcalls hsub hmem =>
      have hmem' : ∀ name, name ∈ is ↔ ∃ n ∈ appNodes, instanceName n = .ok name := by
        intro name
        rw [hmem name]
        exact or_iff_right (AList.notMem_empty name)
      rw [and_iff_right (Reloads.not_startsAnother hreloads), forall_prop_of_true hreloads]
      exact exchange_kept hcalls hsub hmem'
  · intro e s₁ h
    cases h.1 with
    | started hstarts hnot hin _ =>
      exact .of_changed (not_same_of_started hnot hin) fun hk => hk.1 hstarts
    | failed hnot hreload hsame =>
      apply KeptIff.of_error
      exact iff_of_true (same_of_instances hsame h.2) ⟨hnot, fun hall => absurd hall hreload⟩

/-- A reload that throws leaves the server as it was exactly when nothing was changed before. -/
theorem reload_kept (s : Server) : (reload E).Wp (KeptIff (ReloadKeeps E s) s) s := by
  apply reload_wp
  · exact fun config m appNodes hopens hunchanged => loop_kept ⟨hopens, hunchanged⟩
  · intro hchanged e
    apply KeptIff.of_error
    apply same_of_no_loop
    exact fun config m appNodes h => h.unchanged (hchanged config m appNodes h.opens)

theorem exchange_configPath {config : Y.Node} {is : Instances} (s : Server) :
    (exchange E config m is).Wp (fun _ s' => s'.configPath = s.configPath) s := by
  apply FailM.Wp.get_bind
  apply FailM.Wp.andThen (stopApps_outcome _ s)
  · intro _ _ h
    obtain ⟨new, res, rfl, _⟩ := h
    apply FailM.Wp.modify_bind
    apply (initLogger_outcome config _).mono
    intro _ _ h
    obtain ⟨log, rfl, _⟩ := h
    rfl
  · intro e _ h
    obtain ⟨new, res, rfl, _⟩ := h
    rfl

theorem reload_configPath (s : Server) :
    (reload E).Wp (fun _ s' => s'.configPath = s.configPath) s := by
  apply reload_wp
  · intro config m appNodes _ _
    apply FailM.Wp.andThen (reloadApps_frame appNodes s ∅)
    · intro is s₁ h
      apply (exchange_configPath s₁).mono
      exact fun _ _ he => he.trans h.1.configPath
    · exact fun _ _ h => h.1.configPath
  · exact fun _ _ => rfl

theorem reloadFrom_kept (path : Option String) (s : Server) :
    (reloadFrom E path).Wp
      (KeptIff (path.getD s.configPath = s.configPath ∧ ReloadKeeps E s) s) s := by
  apply FailM.Wp.modify_bind
  by_cases hpath : path.getD s.configPath = s.configPath
  · rw [hpath]
    simp only [true_and]
    exact reload_kept s
  · apply (reload_configPath _).mono
    intro r s' h
    apply KeptIff.of_changed
    · exact fun hsame => hpath (h.symm.trans hsame.configPath)
    · exact fun hk => hpath hk.1

theorem same_iff_of_kept {n : Logged.LoggedM Unit} {m : ServerM Unit} {L : Loggers Y}
    {x x' : Server × Journal} (h : m.Wp (KeptIff P x.1) x.1) (hends : Logged.EndsAs L n m)
    (htracks : Recording.Tracks n m) (hchosen : m.Wp Chosen x.1) (hon : n.on x = (.error e, x')) :
    SameServer x.1 x'.1 ↔ P := by
  rw [FailM.Wp] at h
  rcases Logged.threw_cases hends htracks hchosen hon with ⟨e', hm⟩ | ⟨hm, hlog⟩
  · rw [hm] at h
    exact h.threw e' rfl
  · rw [hm] at h
    exact iff_of_false (fun hsame => hlog hsame.log) (h.returned rfl)

/-- A start or a reload that throws leaves the server as it was exactly when it has the current
path of the configuration and throws before it changes the maps and the logger. -/
theorem failed_calls (E : Surroundings Y) (L : Loggers Y) (x : Server × Journal) :
    (∀ path e x', (Logged.start E L path).on x = (.error e, x') →
      (SameServer x.1 x'.1 ↔ StartKeeps E path x.1)) ∧
    ∀ path e x', (Logged.reloadFrom E L path).on x = (.error e, x') →
      (SameServer x.1 x'.1 ↔ path.getD x.1.configPath = x.1.configPath ∧ ReloadKeeps E x.1) := by
  constructor
  · intro path e x' hon
    exact same_iff_of_kept (start_kept path x.1) (Logged.start_ends path) (Logged.start_tracks path)
      (start_chosen path x.1) hon
  · intro path e x' hon
    exact same_iff_of_kept (reloadFrom_kept path x.1) (Logged.reloadFrom_ends path)
      (Logged.reloadFrom_tracks path) (reloadFrom_chosen path x.1) hon

def unreadable : Surroundings plainYaml :=
  { plainSurroundings .undefined with loadFile := fun _ => .error (.std "bad file") }

def startLogger : LoggedInput plainYaml where
  input := .start (plainSurroundings (loggerConfig [loggerNode])) "config.yaml"
  loggers := plainLoggers none

/-- The server of `loggerStarted`, with its messages. -/
def loggerAnnounced : Server × Journal :=
  (loggedMachine plainYaml).next ({}, {}) startLogger

theorem unreadable_no_loop (config : PlainNode) (m : AppToPath) (appNodes : List PlainNode) :
    ¬ LoopInput unreadable loggerAnnounced.1 config m appNodes := by
  intro h
  cases h.opens.config

/-- A failed start, and the construction of a logger behind it: its message is held. -/
def loggerHeld : Server × Journal :=
  [.start (plainSurroundings (loggerConfig [.map [("type", .scalar "unknown")]])) "config.yaml",
    .construct (plainSurroundings loggerNode) "type: cpp_logger"].foldl
    (fun x i => (loggedMachine plainYaml).next x ⟨i, plainLoggers none⟩) ({}, {})

def loggerOnly : PlainNode :=
  .map [("core", .map [("binaries", .sequence []), ("logger", .scalar "cpp_logger")]),
    ("applications", .sequence [])]

def heldThrew : Server × Journal :=
  ((Logged.start (plainSurroundings loggerOnly) (plainLoggers (some (.std "disk full")))
    "config.yaml").on loggerHeld).2

/-- A reload that reads no configuration leaves the server as it was. A start with no applications
does not when the logger that it chooses throws for the message that is held. -/
theorem unreadable_config_keeps :
    SameServer loggerAnnounced.1
      ((Logged.reloadFrom unreadable (plainLoggers none) none).on loggerAnnounced).2.1 ∧
    ¬ SameServer loggerHeld.1 heldThrew.1 := by
  constructor
  · exact ((failed_calls unreadable (plainLoggers none) loggerAnnounced).2 none _ _
      (Prod.ext rfl rfl)).mpr
        ⟨rfl, fun config m appNodes h => absurd h (unreadable_no_loop config m appNodes),
          fun config m appNodes h => absurd h (unreadable_no_loop config m appNodes)⟩
  · intro hsame
    have hkeeps := ((failed_calls (plainSurroundings loggerOnly) (plainLoggers _) loggerHeld).1
      "config.yaml" (.std "disk full") heldThrew (Prod.ext (by decide +kernel) rfl)).mp hsame
    apply hkeeps.no_logger loggerOnly _ ⟨_, rfl, rfl, rfl, rfl⟩
    exact ⟨_, _, _, rfl, rfl, .inr ⟨rfl, "cpp_logger", 0, rfl, by decide +kernel,
      by decide +kernel, rfl⟩⟩

def loggerThenUnknown : PlainNode :=
  loggerConfig [.map [("type", .scalar "cpp_logger"), ("instance-name", .scalar "second")],
    .map [("type", .scalar "unknown")]]

def unknownRefused : Server × Journal :=
  ((Logged.reloadFrom (plainSurroundings loggerThenUnknown) (plainLoggers none) none).on
    loggerAnnounced).2

/-- The second logger is started and stays in the registry when the unknown type is refused. -/
theorem failed_reload_adds_app :
    ¬ ∀ (Y : YamlCpp) (E : Surroundings Y) (L : Loggers Y) (path : Option String)
      (x x' : Server × Journal) (e : ServerExn),
      (loggedMachine Y).Reachable (fun _ _ => True) x →
        (Logged.reloadFrom E L path).on x = (.error e, x') → SameServer x.1 x'.1 := by
  intro h
  have hsame := h plainYaml (plainSurroundings loggerThenUnknown) (plainLoggers none) none
    loggerAnnounced unknownRefused
    (.errorRuntime "Failed to find binary that contains application of type 'unknown'")
    (.step (i := startLogger) .init trivial trivial) (Prod.ext (by decide +kernel) rfl)
  have hnew : unknownRefused.1.instances.lookup "second" = some 1 := by decide +kernel
  have hold : loggerAnnounced.1.instances.lookup "second" = none := by decide +kernel
  have hlook := hsame.instances "second"
  rw [hnew, hold] at hlook
  cases hlook

end Server

end CppAlls
