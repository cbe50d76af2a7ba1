import CppAlls.Server.Startup

namespace CppAlls
set_option autoImplicit true

open Failing Tables Interaction Machines

/-- The applications resolve the names of their nodes when they are started and reloaded, and none
when they are stopped. -/
structure CallsResolving {Y : YamlCpp} (E : Surroundings Y) (names : Y.Node → List String)
    (last lastReload : Y.Node → Option ServerExn) (lastStop : Nat → Option ServerExn) : Prop
    extends StartsResolving E names last where
  reload : ∀ app n, E.reload app n = .resolving (lastReload n) (names n)
  stop : ∀ app, E.stop app = .pure (lastStop app)

theorem CallsResolving.resolvesNames {Y : YamlCpp} {E : Surroundings Y}
    {names : Y.Node → List String} {last lastReload : Y.Node → Option ServerExn}
    (hE : CallsResolving E names last lastReload lastStop) : ResolvesNames E names where
  start app appType n := ⟨last n, hE.start app appType n⟩
  reload app n := ⟨lastReload n, hE.reload app n⟩
  stop app := ⟨lastStop app, hE.stop app⟩

namespace Server

variable {Y : YamlCpp} {E : Surroundings Y} {s s' : Server} {known is : Instances} {m : AppToPath}
  {names : Y.Node → List String} {last lastReload : Y.Node → Option ServerExn}
  {lastStop : Nat → Option ServerExn}

/-- The names that are registered when the loop of `reload` has come through these nodes. -/
def RegisteredBy (known : Instances) (before : List Y.Node) (name : String) : Prop :=
  name ∈ known ∨ ∃ n ∈ before, instanceName n = .ok name

theorem registeredBy_nil : RegisteredBy known ([] : List Y.Node) name ↔ name ∈ known := by
  constructor
  · rintro (h | ⟨_, hn, _⟩)
    · exact h
    · cases hn
  · exact .inl

theorem registeredBy_cons {appNode : Y.Node} {before : List Y.Node}
    (hname : instanceName appNode = .ok name) (his : ∀ x, x ∈ is ↔ x ∈ known ∨ x = name) :
    RegisteredBy known (appNode :: before) x ↔ RegisteredBy is before x := by
  have hhead : instanceName appNode = .ok x ↔ x = name := by
    rw [hname, Except.ok.injEq, eq_comm]
  simp only [RegisteredBy, his, or_assoc, List.mem_cons, exists_eq_or_imp, hhead]

/-- The nodes can be renewed one after the other: what a node names is registered before it, and its
own application reloads if it is registered, and else can be created and started. -/
structure Renewable (E : Surroundings Y) (names : Y.Node → List String)
    (last lastReload : Y.Node → Option ServerExn) (m : AppToPath) (known : Instances)
    (appNodes : List Y.Node) : Prop where
  named : ∀ n ∈ appNodes, ∃ name, instanceName n = .ok name
  resolved : ∀ before n behind, appNodes = before ++ n :: behind → ∀ x ∈ names n,
    RegisteredBy known before (cStr x)
  reloads : ∀ before n behind name, appNodes = before ++ n :: behind →
    instanceName n = .ok name → RegisteredBy known before name → lastReload n = none
  starts : ∀ before n behind name, appNodes = before ++ n :: behind →
    instanceName n = .ok name → ¬ RegisteredBy known before name →
      last n = none ∧ ∃ appType, Creates E m n appType name

theorem renewable_nil : Renewable E names last lastReload m known [] where
  named _ hn := by cases hn
  resolved before _ _ he := by cases before <;> cases he
  reloads before _ _ _ he := by cases before <;> cases he
  starts before _ _ _ he := by cases before <;> cases he

theorem renewable_cons {appNode : Y.Node} {appNodes : List Y.Node}
    (hname : instanceName appNode = .ok name) (his : ∀ x, x ∈ is ↔ x ∈ known ∨ x = name) :
    Renewable E names last lastReload m known (appNode :: appNodes) ↔
      (∀ x ∈ names appNode, cStr x ∈ known) ∧ (name ∈ known → lastReload appNode = none) ∧
        (name ∉ known → last appNode = none ∧ ∃ appType, Creates E m appNode appType name) ∧
          Renewable E names last lastReload m is appNodes := by
  constructor
  · intro h
    refine ⟨?_, ?_, ?_, ?_, ?_, ?_, ?_⟩
    · exact fun x hx => registeredBy_nil.mp (h.resolved [] appNode appNodes rfl x hx)
    · exact fun hin => h.reloads [] appNode appNodes name rfl hname (registeredBy_nil.mpr hin)
    · intro hnot
      exact h.starts [] appNode appNodes name rfl hname (fun hr => hnot (registeredBy_nil.mp hr))
    · exact fun n hn => h.named n (.tail _ hn)
    · intro before n behind he x hx
      rw [← registeredBy_cons hname his]
      exact h.resolved (appNode :: before) n behind (congrArg _ he) x hx
    · intro before n behind name' he hn hr
      rw [← registeredBy_cons hname his] at hr
      exact h.reloads (appNode :: before) n behind name' (congrArg _ he) hn hr
    · intro before n behind name' he hn hr
      rw [← registeredBy_cons hname his] at hr
      exact h.starts (appNode :: before) n behind name' (congrArg _ he) hn hr
  · rintro ⟨hdeps, hreload, hstart, h⟩
    constructor
    · intro n hn
      rcases List.mem_cons.mp hn with rfl | hn
      · exact ⟨name, hname⟩
      · exact h.named n hn
    · intro before n behind he x hx
      cases before with
      | nil =>
        cases he
        exact registeredBy_nil.mpr (hdeps x hx)
      | cons n₀ before =>
        obtain ⟨rfl, rfl⟩ := List.cons.inj he
        exact (registeredBy_cons hname his).mpr (h.resolved before n behind rfl x hx)
    · intro before n behind name' he hn hr
      cases before with
      | nil =>
        cases he
        cases hname.symm.trans hn
        exact hreload (registeredBy_nil.mp hr)
      | cons n₀ before =>
        obtain ⟨rfl, rfl⟩ := List.cons.inj he
        exact h.reloads before n behind name' rfl hn ((registeredBy_cons hname his).mp hr)
    · intro before n behind name' he hn hr
      cases before with
      | nil =>
        cases he
        cases hname.symm.trans hn
        exact hstart (fun hin => hr (registeredBy_nil.mpr hin))
      | cons n₀ before =>
        obtain ⟨rfl, rfl⟩ := List.cons.inj he
        exact h.starts before n behind name' rfl hn
          (fun hr' => hr ((registeredBy_cons hname his).mpr hr'))

/-- The nodes that the loop of `reload` starts an application for, when these names are registered
at its begin. -/
def newNodes (known : List String) : List Y.Node → List Y.Node
  | [] => []
  | appNode :: appNodes =>
    match instanceName appNode with
    | .error _ => newNodes known appNodes
    | .ok name =>
      if name ∈ known then newNodes known appNodes
      else appNode :: newNodes (name :: known) appNodes

theorem newNodes_registered {appNode : Y.Node} (hname : instanceName appNode = .ok name)
    (hin : name ∈ known) (appNodes : List Y.Node) :
    newNodes known.keys (appNode :: appNodes) = newNodes known.keys appNodes := by
  rw [newNodes, hname]
  exact if_pos (AList.mem_keys.mpr hin)

theorem newNodes_new {appNode : Y.Node} (hname : instanceName appNode = .ok name)
    (hnot : name ∉ known) (app : Nat) (appNodes : List Y.Node) :
    newNodes known.keys (appNode :: appNodes) =
      appNode :: newNodes (known.emplace name app).keys appNodes := by
  have hkeys : name ∉ known.keys := fun h => hnot (AList.mem_keys.mp h)
  rw [newNodes, hname, Table.emplace_of_notMem hnot, AList.keys_insert,
    List.erase_of_not_mem hkeys]
  exact if_neg hkeys

/-- The application that is registered under a name when the loop of `reload` is through. -/
def AfterLoop (s : Server) (appNodes : List Y.Node) (name : String) (app : Nat) : Prop :=
  s.instances.lookup name = some app ∨
    ∃ i n, (newNodes s.instances.keys appNodes)[i]? = some n ∧ instanceName n = .ok name ∧
      app = s.objects.length + i

/-- The applications of the new nodes were constructed in order, and registered besides those that
were there. -/
structure RenewedAll (appNodes : List Y.Node) (s s' : Server) : Prop where
  lookup : ∀ name app, s'.instances.lookup name = some app ↔ AfterLoop s appNodes name app
  objects : ∃ types, s'.objects = s.objects ++ types ∧
    List.Forall₂ (fun n appType => typeOf n = .ok appType)
      (newNodes s.instances.keys appNodes) types

theorem RenewedAll.nil (s : Server) : RenewedAll (Y := Y) [] s s where
  lookup name app := by
    constructor
    · exact .inl
    · rintro (h | ⟨_, _, hi, _⟩)
      · exact h
      · cases hi
  objects := ⟨[], (List.append_nil _).symm, .nil⟩

theorem RenewedAll.reloaded {appNode : Y.Node} {appNodes : List Y.Node} {body : AppBody}
    (hname : instanceName appNode = .ok name) (hin : name ∈ s.instances)
    (h : RenewedAll appNodes (s.ran app .reload body) s') :
    RenewedAll (appNode :: appNodes) s s' := by
  have hnodes := newNodes_registered hname hin appNodes
  constructor
  · intro name' app'
    rw [h.lookup, AfterLoop, AfterLoop, hnodes]
    rfl
  · rw [hnodes]
    exact h.objects

theorem RenewedAll.started {appNode : Y.Node} {appNodes : List Y.Node}
    (hname : instanceName appNode = .ok name) (hnot : name ∉ s.instances)
    (htype : typeOf appNode = .ok appType)
    (h : RenewedAll appNodes (added E s appType name appNode) s') :
    RenewedAll (appNode :: appNodes) s s' := by
  have hnodes := newNodes_new hname hnot s.objects.length appNodes
  obtain ⟨types, hobj, htypes⟩ := h.objects
  have hlen : (added E s appType name appNode).objects.length = s.objects.length + 1 :=
    List.length_append
  constructor
  · intro name' app
    rw [h.lookup, AfterLoop, AfterLoop, hnodes, hlen]
    constructor
    · rintro (hn | ⟨i, n, hi, hn, rfl⟩)
      · rcases Table.lookup_of_emplace hn with hn | ⟨rfl, rfl⟩
        · exact .inl hn
        · exact .inr ⟨0, appNode, rfl, hname, rfl⟩
      · exact .inr ⟨i + 1, n, hi, hn, Nat.add_right_comm _ 1 i⟩
    · rintro (hn | ⟨i, n, hi, hn, rfl⟩)
      · exact .inl (Table.lookup_emplace_of_lookup hn)
      · cases i with
        | zero =>
          cases hi
          cases hname.symm.trans hn
          exact .inl (Table.lookup_emplace_self (AList.lookup_eq_none.mpr hnot))
        | succ i => exact .inr ⟨i, n, hi, hn, (Nat.add_right_comm _ 1 i).symm⟩
  · refine ⟨appType :: types, ?_, ?_⟩
    · rw [hobj, List.append_cons]
      rfl
    · rw [hnodes]
      exact .cons htype htypes

theorem reloadApps_renewable (hE : CallsResolving E names last lastReload lastStop)
    (appNodes : List Y.Node) (hsub : Sub known s.instances) :
    (reloadApps E m known appNodes).Wp (fun r s' =>
      ((∃ is, r = .ok is) ↔ Renewable E names last lastReload m s.instances appNodes) ∧
        ((∃ is, r = .ok is) → RenewedAll appNodes s s')) s := by
  induction appNodes generalizing known s with
  | nil => exact FailM.Wp.pure ⟨⟨fun _ => renewable_nil, fun _ => ⟨known, rfl⟩⟩, fun _ => .nil s⟩
  | cons appNode appNodes ih =>
    have hkept {name : String} (x : String) (hin : name ∈ s.instances) :
        x ∈ s.instances ↔ x ∈ s.instances ∨ x = name :=
      ⟨.inl, fun h => h.elim id fun he => he ▸ hin⟩
    have hfailed {e : ServerExn} {t : Server}
        (hno : ¬ Renewable E names last lastReload m s.instances (appNode :: appNodes)) :
        ((∃ is, (.error e : Except ServerExn Instances) = .ok is) ↔
          Renewable E names last lastReload m s.instances (appNode :: appNodes)) ∧
          ((∃ is, (.error e : Except ServerExn Instances) = .ok is) →
            RenewedAll (appNode :: appNodes) s t) := by
      refine ⟨⟨?_, fun h => absurd h hno⟩, ?_⟩
      · rintro ⟨_, he⟩
        cases he
      · rintro ⟨_, he⟩
        cases he
    apply FailM.Wp.andThen (reloadApp_round appNode m known s)
    · intro is s₁ hround
      cases hround with
      | @reloaded name app hname hin he =>
        have hmem : name ∈ s.instances := AList.lookup_isSome.mp (hin ▸ rfl)
        rw [hE.reload, AppBody.resolving_outcome] at he
        apply (ih (s := s.ran app .reload (E.reload app appNode)) (hsub.emplace hin)).mono
        rintro r s₂ ⟨hiff, hall⟩
        refine ⟨?_, fun hr => (hall hr).reloaded hname hmem⟩
        rw [hiff, renewable_cons hname (fun x => hkept x hmem)]
        constructor
        · exact fun h => ⟨he.2, fun _ => he.1, fun hnot => absurd hmem hnot, h⟩
        · exact fun h => h.2.2.2
      | @started name appType name' app hname hin h hnew =>
        obtain ⟨rfl, rfl⟩ := hsub.lookup_emplace hin hnew
        have hnot : name' ∉ s.instances := AList.lookup_eq_none.mp hin
        have he := h.returns
        rw [startBody, hE.start, AppBody.resolving_outcome] at he
        have hsub₁ : Sub (known.emplace name' s.objects.length)
            (s.instances.emplace name' s.objects.length) := by
          refine Sub.emplace ?_ (Table.lookup_emplace_self hin)
          exact fun n a hn => sub_emplace n a (hsub n a hn)
        apply (ih (s := added E s appType name' appNode) hsub₁).mono
        rintro r s₂ ⟨hiff, hall⟩
        refine ⟨?_, fun hr => (hall hr).started hname hnot h.typed⟩
        rw [hiff, renewable_cons hname (fun x => Table.mem_emplace)]
        constructor
        · exact fun hr => ⟨he.2, fun hmem => absurd hmem hnot,
            fun _ => ⟨he.1, appType, h.toCreates⟩, hr⟩
        · exact fun hr => hr.2.2.2
    · intro e s₁ hround
      cases hround with
      | unnamed hname =>
        apply hfailed
        intro h
        obtain ⟨name, hname'⟩ := h.named appNode (.head _)
        cases hname.symm.trans hname'
      | @threw name app _ hname hin he =>
        have hmem : name ∈ s.instances := AList.lookup_isSome.mp (hin ▸ rfl)
        apply hfailed
        rw [renewable_cons hname (fun x => hkept x hmem)]
        rintro ⟨hdeps, hreload, _⟩
        have hnone : (E.reload app appNode).outcome s.instances = none := by
          rw [hE.reload, AppBody.resolving_outcome]
          exact ⟨hreload hmem, hdeps⟩
        cases he.symm.trans hnone
      | @refused name _ _ hname hin h =>
        have hnot : name ∉ s.instances := AList.lookup_eq_none.mp hin
        apply hfailed
        rw [renewable_cons hname (fun x => Table.mem_emplace (v := 0))]
        rintro ⟨hdeps, _, hstart, _⟩
        obtain ⟨hlast, appType, hc⟩ := hstart hnot
        refine h.not_starts appType name ⟨hc, ?_, ?_⟩
        · rw [startBody, hE.start, AppBody.resolving_outcome]
          exact ⟨hlast, hdeps⟩
        · exact AList.lookup_eq_none.mp (hsub.lookup_none hin)
      | @lost name appType name' hname hin h hnew =>
        have hnot : name ∉ s.instances := AList.lookup_eq_none.mp hin
        apply hfailed
        rw [renewable_cons hname (fun x => Table.mem_emplace (v := 0))]
        rintro ⟨_, _, hstart, _⟩
        obtain ⟨_, appType', hc⟩ := hstart hnot
        obtain ⟨_, rfl⟩ := h.toCreates.eq hc
        rw [Table.lookup_emplace_self h.lookup_none] at hnew
        cases hnew

/-- No logger is configured, or one of the nodes has the configured name, and the application
registered under it is a logger. -/
def LoggerRenewed (E : Surroundings Y) (config : Y.Node) (s : Server) (appNodes : List Y.Node) :
    Prop :=
  ∃ core logger, Y.index config "core" = .ok core ∧ Y.index core "logger" = .ok logger ∧
    (Y.isDefined logger = true → ∃ name, Y.asString logger = .ok name ∧
      (∃ n ∈ appNodes, instanceName n = .ok (cStr name)) ∧
        ((∃ app, s.instances.lookup (cStr name) = some app ∧
            (s.objects[app]?).any E.isLogger = true) ∨
          ∃ n ∈ newNodes s.instances.keys appNodes, instanceName n = .ok (cStr name) ∧
            ∃ appType, typeOf n = .ok appType ∧ E.isLogger appType = true))

theorem RenewedAll.logger_iff {appNodes : List Y.Node} (h : RenewedAll appNodes s s')
    (hs : Registered s) :
    (∃ app, s'.instances.lookup name = some app ∧ (s'.objects[app]?).any isLogger = true) ↔
      (∃ app, s.instances.lookup name = some app ∧ (s.objects[app]?).any isLogger = true) ∨
        ∃ n ∈ newNodes s.instances.keys appNodes, instanceName n = .ok name ∧
          ∃ appType, typeOf n = .ok appType ∧ isLogger appType = true := by
  obtain ⟨types, hobj, htypes⟩ := h.objects
  have hold {app : Nat} (hin : s.instances.lookup name = some app) :
      s'.objects[app]? = s.objects[app]? := by
    rw [hobj, List.getElem?_append_left (hs.fresh name app hin)]
  constructor
  · rintro ⟨app, hin, hlog⟩
    rcases (h.lookup _ _).mp hin with hin | ⟨i, n, hi, hn, rfl⟩
    · exact .inl ⟨app, hin, hold hin ▸ hlog⟩
    · exact .inr ⟨n, List.mem_of_getElem? hi, hn, (newObject_any hobj htypes hi isLogger).mp hlog⟩
  · rintro (⟨app, hin, hlog⟩ | ⟨n, hmem, hn, ht⟩)
    · exact ⟨app, (h.lookup _ _).mpr (.inl hin), hold hin ▸ hlog⟩
    · obtain ⟨i, hi⟩ := List.getElem?_of_mem hmem
      exact ⟨_, (h.lookup _ _).mpr (.inr ⟨i, n, hi, hn, rfl⟩),
        (newObject_any hobj htypes hi isLogger).mpr ht⟩

/-- The registry after `reload`: the configured names, each with the application that it had, or
with the one that was started for it. -/
def RenewedRegistry (s : Server) (appNodes : List Y.Node) (is : Instances) : Prop :=
  ∀ name app, is.lookup name = some app ↔
    (∃ n ∈ appNodes, instanceName n = .ok name) ∧ AfterLoop s appNodes name app

theorem renewedRegistry {appNodes : List Y.Node} (h : RenewedAll appNodes s s')
    (hsub : Sub is s'.instances)
    (hmem : ∀ name, name ∈ is ↔ ∃ n ∈ appNodes, instanceName n = .ok name) :
    RenewedRegistry s appNodes is := by
  intro name app
  rw [← hmem, ← h.lookup]
  constructor
  · exact fun hin => ⟨AList.lookup_isSome.mp (hin ▸ rfl), hsub name app hin⟩
  · rintro ⟨hname, hin⟩
    obtain ⟨app', hin'⟩ := Option.isSome_iff_exists.mp (AList.lookup_isSome.mpr hname)
    cases hin.symm.trans (hsub name app' hin')
    exact hin'

theorem namesLogger_renewed {appNodes : List Y.Node} (h : RenewedAll appNodes s s₁)
    (hs : Registered s) (his : RenewedRegistry s appNodes is) (hinstances : s'.instances = is)
    (hobj : s'.objects = s₁.objects) (config : Y.Node) :
    NamesLogger E config s' ↔ LoggerRenewed E config s appNodes := by
  subst hinstances
  have hfind (name : String) :
      (∃ app, s'.find name = some app ∧ (s'.objects[app]?).any E.isLogger = true) ↔
        (∃ n ∈ appNodes, instanceName n = .ok (cStr name)) ∧
          ((∃ app, s.instances.lookup (cStr name) = some app ∧
              (s.objects[app]?).any E.isLogger = true) ∨
            ∃ n ∈ newNodes s.instances.keys appNodes, instanceName n = .ok (cStr name) ∧
              ∃ appType, typeOf n = .ok appType ∧ E.isLogger appType = true) := by
    rw [← h.logger_iff hs, hobj]
    constructor
    · rintro ⟨app, hin, hlog⟩
      obtain ⟨hname, hafter⟩ := (his _ _).mp hin
      exact ⟨hname, app, (h.lookup _ _).mpr hafter, hlog⟩
    · rintro ⟨hname, app, hin, hlog⟩
      exact ⟨app, (his _ _).mpr ⟨hname, (h.lookup _ _).mp hin⟩, hlog⟩
  simp only [namesLogger_iff, hfind, LoggerRenewed]

theorem exchange_renewed (hE : CallsResolving E names last lastReload lastStop)
    {appNodes : List Y.Node} (h : RenewedAll appNodes s s₁) (hs : Registered s)
    (his : RenewedRegistry s appNodes is) (config : Y.Node) (m : AppToPath) :
    (exchange E config m is).Wp (fun r s' => (r = .ok () ↔
      (∀ name app, AfterLoop s appNodes name app → lastStop app = none) ∧
        LoggerRenewed E config s appNodes) ∧ (r = .ok () → s'.instances = is)) s₁ := by
  have hstops : (∀ app ∈ E.order s₁.instances.values,
      (E.stop app).outcome s₁.instances = none) ↔
        ∀ name app, AfterLoop s appNodes name app → lastStop app = none := by
    simp only [E.forall_order, h.lookup, hE.stop]
    rfl
  apply FailM.Wp.get_bind
  apply FailM.Wp.andThen (stopApps_returns (E := E) _ ⟨s₁.calls, s₁.resolved, rfl⟩)
  · rintro _ s₂ ⟨⟨new, res, rfl⟩, hreturns⟩
    apply FailM.Wp.modify_bind
    apply (initLogger_returns_iff config _).mono
    rintro r s₃ ⟨hinstances, hlog⟩
    refine ⟨?_, fun _ => hinstances⟩
    rw [hlog]
    refine (namesLogger_renewed h hs his ?_ ?_ config).trans ?_
    · rfl
    · rfl
    · exact (and_iff_right (hstops.mp (hreturns.mp rfl))).symm
  · rintro e s₂ ⟨_, hreturns⟩
    refine ⟨⟨nofun, ?_⟩, nofun⟩
    rintro ⟨hall, _⟩
    cases hreturns.mpr (hstops.mpr hall)

/-- What `reload` needs in order to return. -/
def Reloadable (E : Surroundings Y) (names : Y.Node → List String)
    (last lastReload : Y.Node → Option ServerExn) (lastStop : Nat → Option ServerExn)
    (s : Server) : Prop :=
  ∃ config m appNodes, Opens E s.configPath config m appNodes ∧ ¬ ChangedBinaries m s ∧
    Renewable E names last lastReload m s.instances appNodes ∧
    (∀ name app, AfterLoop s appNodes name app → lastStop app = none) ∧
    LoggerRenewed E config s appNodes

theorem reload_renews (hE : CallsResolving E names last lastReload lastStop)
    (hs : Registered s) : (reload E).Wp (fun r s' =>
      (r = .ok () ↔ Reloadable E names last lastReload lastStop s) ∧
        (r = .ok () → ∃ appNodes, E.configuredApps s.configPath = .ok appNodes ∧
          RenewedRegistry s appNodes s'.instances)) s := by
  apply reload_wp
  · intro config m appNodes hopens hsame
    have hread : Reloadable E names last lastReload lastStop s ↔
        Renewable E names last lastReload m s.instances appNodes ∧
          (∀ name app, AfterLoop s appNodes name app → lastStop app = none) ∧
            LoggerRenewed E config s appNodes := by
      constructor
      · rintro ⟨config', m', appNodes', hopens', _, h⟩
        obtain ⟨rfl, rfl, rfl⟩ := hopens.unique hopens'
        exact h
      · exact fun h => ⟨config, m, appNodes, hopens, hsame, h⟩
    rw [hread]
    have hempty : Sub ∅ s.instances := fun _ _ hn => by cases hn
    have hloop : (reloadApps E m ∅ appNodes).Wp (fun r s' => LoopOutcome ∅ s r s' ∧
        (∀ is, r = .ok is → Resolutions names appNodes s s' ∧ ∀ name, name ∈ is ↔
          name ∈ (∅ : Instances) ∨ ∃ n ∈ appNodes, instanceName n = .ok name) ∧
        ((∃ is, r = .ok is) ↔ Renewable E names last lastReload m s.instances appNodes) ∧
          ((∃ is, r = .ok is) → RenewedAll appNodes s s')) s :=
      ⟨(reloadApps_outcome m appNodes hs hempty).1,
        reloadApps_resolves hE.resolvesNames appNodes hs hempty,
        reloadApps_renewable hE appNodes hempty⟩
    apply FailM.Wp.andThen hloop
    · rintro is s₁ ⟨hout, hres, hiff, hall⟩
      have hall := hall ⟨is, rfl⟩
      have hrenewable := hiff.mp ⟨is, rfl⟩
      have hmem (name : String) : name ∈ is ↔ ∃ n ∈ appNodes, instanceName n = .ok name := by
        rw [(hres is rfl).2]
        exact or_iff_right (AList.notMem_empty name)
      have hregistry := renewedRegistry hall (hout.result is rfl).1 hmem
      apply (exchange_renewed hE hall hs hregistry config m).mono
      rintro r s' ⟨hreturns, hinstances⟩
      refine ⟨hreturns.trans (and_iff_right hrenewable).symm, ?_⟩
      intro hr
      rw [hinstances hr]
      exact ⟨appNodes, hopens.configuredApps, hregistry⟩
    · rintro e s₁ ⟨_, _, hiff, _⟩
      refine ⟨⟨nofun, ?_⟩, nofun⟩
      rintro ⟨hrenewable, _⟩
      obtain ⟨is, he⟩ := hiff.mpr hrenewable
      cases he
  · intro hchanged e
    refine ⟨⟨nofun, ?_⟩, nofun⟩
    rintro ⟨config, m, appNodes, hopens, hsame, _⟩
    exact absurd (hchanged config m appNodes hopens) hsame

/-- In every state that the server can reach, and with a logger that does not throw for the records
that it takes over, `reload` returns exactly when each configured application is registered and can
be reloaded, or can be created under its name, all of them resolve only names that are registered by
then, all applications can be stopped, and the configured logger is among those that stay. Then
exactly the configured names are registered, with the applications that they had, and new ones
numbered in the order of their nodes. -/
theorem reload_returns_iff (E : Surroundings Y) (L : Loggers Y) (names : Y.Node → List String)
    (last lastReload : Y.Node → Option ServerExn) (lastStop : Nat → Option ServerExn)
    (hE : CallsResolving E names last lastReload lastStop) (path : Option String)
    (x : Server × Journal) (hx : (loggedMachine Y).Reachable (fun _ _ => True) x)
    (hL : Logged.Replays L x) :
    (((Logged.reloadFrom E L path).on x).1 = .ok () ↔
        Reloadable E names last lastReload lastStop
          { x.1 with configPath := path.getD x.1.configPath }) ∧
      ∀ x', (Logged.reloadFrom E L path).on x = (.ok (), x') → ∃ appNodes,
        E.configuredApps (path.getD x.1.configPath) = .ok appNodes ∧
          RenewedRegistry x.1 appNodes x'.1.instances := by
  have hreg := reachable_registered (reachable_server hx)
  have hrenews := reload_renews (s := { x.1 with configPath := path.getD x.1.configPath }) hE
    ⟨hreg.fresh, hreg.unique⟩
  obtain ⟨hiff, hregistry⟩ := Logged.wp_of_ends (Logged.reloadFrom_ends path)
    (Logged.reloadFrom_tracks path) hL (FailM.Wp.modify_bind hrenews)
  refine ⟨hiff, ?_⟩
  intro x' hon
  rw [hon] at hregistry
  exact hregistry rfl

/-- The echo application may come before a logger that runs already, but not before a new one. -/
theorem echo_before_running_logger :
    Reloadable (loggingSurroundings (loggerConfig [echoNode, loggerNode])) plainNames
        (fun _ => none) (fun _ => none) (fun _ => none) chosenStarted.1 ∧
      ¬ Reloadable (loggingSurroundings (loggerConfig [echoNode, loggerNode])) plainNames
        (fun _ => none) (fun _ => none) (fun _ => none) {} := by
  have hE : CallsResolving (loggingSurroundings (loggerConfig [echoNode, loggerNode])) plainNames
      (fun _ => none) (fun _ => none) (fun _ => none) :=
    { start := fun _ _ _ => rfl, reload := fun _ _ => rfl, stop := fun _ => rfl }
  constructor
  · apply (reload_returns_iff _ (plainLoggers none) _ _ _ _ hE none chosenStarted
      (.step (i := startChosen none) .init trivial trivial) fun _ _ _ _ => rfl).1.mp
    decide +kernel
  · intro h
    have hret := (reload_returns_iff _ (plainLoggers none) _ _ _ _ hE none ({}, {}) .init
      fun _ _ _ _ => rfl).1.mpr h
    have hthrows : ((Logged.reloadFrom (loggingSurroundings (loggerConfig [echoNode, loggerNode]))
        (plainLoggers none) none).on ({}, {})).1 ≠ .ok () := by
      decide +kernel
    exact hthrows hret

end Server

end CppAlls
