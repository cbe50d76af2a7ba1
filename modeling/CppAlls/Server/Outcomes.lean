import CppAlls.Server.Lifecycle

namespace CppAlls
set_option autoImplicit true

open Failing Tables Interaction

/-- How a body ends when `app::get` finds the instances of `is`. -/
def AppBody.outcome (is : Instances) : AppBody → Option ServerExn
  | .pure e => e
  | .call name k => AppBody.outcome is (k (is.lookup (cStr name)))

def AppBody.resolutions (is : Instances) : AppBody → List Nat
  | .pure _ => []
  | .call name k =>
    (is.lookup (cStr name)).toList ++ AppBody.resolutions is (k (is.lookup (cStr name)))

namespace Server

variable {Y : YamlCpp} {E : Surroundings Y} {s s' : Server}

/-- The history after a lifecycle call of the application `self`. -/
def ran (s : Server) (self : Nat) (call : LifecycleCall) (body : AppBody) : Server :=
  { s with
    calls := s.calls ++ [⟨self, call, (body.outcome s.instances).isNone⟩]
    resolved := s.resolved ++ (body.resolutions s.instances).map (Prod.mk self) }

/-- The state in which `start` of the next application is called. -/
def created (s : Server) (appType : String) : Server := { s with objects := s.objects ++ [appType] }

def ended : Option ServerExn → Except ServerExn Unit
  | none => .ok ()
  | some e => .error e

theorem getInstance_on (name : String) (s : Server) : (getInstance name).on s =
    (match s.find name with
      | some app => .ok app
      | none => .error (.errorRuntime ("Faild to get() application with instance-name = '" ++
          cStr name ++ "'")), s) := by
  rw [getInstance, FailM.on_bind_ok (FailM.on_get s)]
  cases s.find name <;> rfl

theorem interp_resolve (self : Nat) (body : AppBody) (s : Server) :
    (body.interp (resolve self)).on s = (.ok (body.outcome s.instances), { s with
      resolved := s.resolved ++ (body.resolutions s.instances).map (Prod.mk self) }) := by
  induction body generalizing s with
  | pure e =>
    rw [AppBody.resolutions, List.map_nil, List.append_nil]
    rfl
  | call name k ih =>
    change (resolve self name >>= fun r => (k r).interp (resolve self)).on s = _
    have hname : (resolve self name).on s = (.ok (s.find name), { s with
      resolved := s.resolved ++ ((s.find name).map (Prod.mk self)).toList }) := rfl
    have hfound : ((s.find name).map (Prod.mk self)).toList =
        ((s.instances.lookup (cStr name)).toList).map (Prod.mk self) := by
      rw [find]
      cases s.instances.lookup (cStr name) <;> rfl
    rw [FailM.on_bind_ok hname, ih, AppBody.outcome, AppBody.resolutions, List.map_append,
      ← List.append_assoc, ← hfound]
    rfl

theorem lifecycle_ran (self : Nat) (call : LifecycleCall) (body : AppBody) (s : Server) :
    (lifecycle self call body).on s =
      (ended (body.outcome s.instances), s.ran self call body) := by
  rw [lifecycle, FailM.on_bind_ok (interp_resolve self body s),
    FailM.on_bind_ok (FailM.on_modify _ _)]
  simp only [ran]
  cases body.outcome s.instances <;> rfl

/-- The rule for a lifecycle call. -/
theorem lifecycle_bind {self : Nat} {call : LifecycleCall} {body : AppBody}
    {f : Unit → ServerM α} {Q : Except ServerExn α → Server → Prop}
    (hok : body.outcome s.instances = none → (f ()).Wp Q (s.ran self call body))
    (herr : ∀ e, body.outcome s.instances = some e → Q (.error e) (s.ran self call body)) :
    (lifecycle self call body >>= f).Wp Q s := by
  have hon := lifecycle_ran self call body s
  cases he : body.outcome s.instances with
  | none =>
    rw [he] at hon
    exact .bind_ok hon (hok he)
  | some e =>
    rw [he] at hon
    exact .bind_error hon (herr e he)

/-- A node whose application can be created, with the type and the name of its instance. -/
structure Creates (E : Surroundings Y) (m : AppToPath) (appNode : Y.Node)
    (appType name : String) : Prop where
  typed : typeOf appNode = .ok appType
  found : ∃ path, m.lookup appType = some path ∧ E.create path appType = .ok ()
  named : instanceNameOr appNode appType = .ok name

theorem Creates.eq {m : AppToPath} {appNode : Y.Node} {appType appType' name name' : String}
    (h : Creates E m appNode appType name) (h' : Creates E m appNode appType' name') :
    appType' = appType ∧ name' = name := by
  have ht := h.typed.symm.trans h'.typed
  cases ht
  have hn := h.named.symm.trans h'.named
  cases hn
  exact ⟨rfl, rfl⟩

def startBody (E : Surroundings Y) (s : Server) (appType : String) (appNode : Y.Node) : AppBody :=
  E.start s.objects.length appType appNode

/-- The state after the `start` of a new application has returned or thrown. -/
def launched (E : Surroundings Y) (s : Server) (appType : String) (appNode : Y.Node) : Server :=
  (s.created appType).ran s.objects.length .start (startBody E s appType appNode)

/-- The ways in which `start_instance` can end. -/
inductive Launch (E : Surroundings Y) (appNode : Y.Node) (m : AppToPath) (known : Instances)
    (s : Server) : Except ServerExn (Instances × Nat) → Server → Prop where
  | missing (h : ∀ appType name, ¬ Creates E m appNode appType name) :
      Launch E appNode m known s (.error e) s
  | unnamed (h : ∀ appType name, ¬ Creates E m appNode appType name) :
      Launch E appNode m known s (.error e) (s.created appType)
  | threw (h : Creates E m appNode appType name)
      (he : (startBody E s appType appNode).outcome s.instances = some e) :
      Launch E appNode m known s (.error e) (launched E s appType appNode)
  | duplicate (h : Creates E m appNode appType name)
      (he : (startBody E s appType appNode).outcome s.instances = none) (hin : name ∈ known) :
      Launch E appNode m known s
        (.error (.errorRuntime ("Instance with name '" ++ name ++ "' already exist.")))
        (launched E s appType appNode)
  | started (h : Creates E m appNode appType name)
      (he : (startBody E s appType appNode).outcome s.instances = none) (hnot : name ∉ known) :
      Launch E appNode m known s
        (.ok (known.emplace name s.objects.length, s.objects.length))
        (launched E s appType appNode)

theorem startInstanceFrom_cases {path appType : String} {appNode : Y.Node} {m : AppToPath}
    (htype : typeOf appNode = .ok appType) (hpath : m.lookup appType = some path)
    (known : Instances) (s : Server) :
    (startInstanceFrom E path appType appNode known).Wp (Launch E appNode m known s) s := by
  apply FailM.Wp.ofExcept_bind
  · intro _ hcreate
    apply FailM.Wp.get_bind
    apply FailM.Wp.set_bind
    apply FailM.Wp.ofExcept_bind
    · intro name hname
      have h : Creates E m appNode appType name := ⟨htype, ⟨path, hpath, hcreate⟩, hname⟩
      apply lifecycle_bind
      · intro he
        apply FailM.Wp.ofExcept_bind
        · intro name' hname'
          cases hname.symm.trans hname'
          by_cases hin : name ∈ known
          · rw [if_pos hin]
            exact .duplicate h he hin
          · rw [if_neg hin]
            exact .started h he hin
        · intro e hname'
          cases hname.symm.trans hname'
      · exact fun e he => .threw h he
    · intro e he
      apply Launch.unnamed
      intro appType' name h
      cases htype.symm.trans h.typed
      cases he.symm.trans h.named
  · intro e he
    apply Launch.missing
    intro appType' name h
    cases htype.symm.trans h.typed
    obtain ⟨path', hpath', hcreate⟩ := h.found
    cases hpath.symm.trans hpath'
    cases he.symm.trans hcreate

theorem startInstance_cases (appNode : Y.Node) (m : AppToPath) (known : Instances) (s : Server) :
    (startInstance E appNode m known).Wp (Launch E appNode m known s) s := by
  apply FailM.Wp.ofExcept_bind
  · intro appType htype
    cases hpath : m.lookup appType with
    | none =>
      apply Launch.missing
      intro appType' name h
      cases htype.symm.trans h.typed
      obtain ⟨path, hpath', _⟩ := h.found
      cases hpath.symm.trans hpath'
    | some path => exact startInstanceFrom_cases htype hpath known s
  · intro e he
    apply Launch.missing
    intro appType name h
    cases he.symm.trans h.typed

/-- `start_instance` starts an application for the node and adds its instance under `name`. -/
structure Starts (E : Surroundings Y) (appNode : Y.Node) (m : AppToPath) (known : Instances)
    (s : Server) (appType name : String) : Prop extends Creates E m appNode appType name where
  returns : (startBody E s appType appNode).outcome s.instances = none
  fresh : name ∉ known

theorem Starts.lookup_none {appNode : Y.Node} {m : AppToPath} {known : Instances}
    (h : Starts E appNode m known s appType name) : known.lookup name = none :=
  AList.lookup_eq_none.mpr h.fresh

/-- `Starts` looks at the types of the map, the registry and the number of objects only. -/
theorem Starts.of_eq {appNode : Y.Node} {m m' : AppToPath} {known : Instances}
    (h : Starts E appNode m known s appType name) (hm : ∀ type, m'.lookup type = m.lookup type)
    (his : s'.instances = s.instances) (hobj : s'.objects = s.objects) (hfresh : name ∉ known') :
    Starts E appNode m' known' s' appType name where
  typed := h.typed
  found := by
    obtain ⟨path, hpath, hcreate⟩ := h.found
    exact ⟨path, (hm appType).trans hpath, hcreate⟩
  named := h.named
  returns := by
    rw [startBody, his, hobj]
    exact h.returns
  fresh := hfresh

theorem Starts.launch {appNode : Y.Node} {m : AppToPath} {known : Instances}
    (h : Starts E appNode m known s appType name) : Launch E appNode m known s
      (.ok (known.emplace name s.objects.length, s.objects.length))
      (launched E s appType appNode) :=
  .started h.toCreates h.returns h.fresh

theorem Launch.of_ok {appNode : Y.Node} {m : AppToPath} {known : Instances}
    (h : Launch E appNode m known s (.ok x) s') :
    ∃ appType name, Starts E appNode m known s appType name ∧
      x = (known.emplace name s.objects.length, s.objects.length) ∧
      s' = launched E s appType appNode := by
  cases h with
  | started h he hnot => exact ⟨_, _, ⟨h, he, hnot⟩, rfl, rfl⟩

theorem Launch.not_starts {appNode : Y.Node} {m : AppToPath} {known : Instances}
    (h : Launch E appNode m known s (.error e) s') (appType name : String) :
    ¬ Starts E appNode m known s appType name := by
  intro hs
  cases h with
  | missing h => exact h _ _ hs.toCreates
  | unnamed h => exact h _ _ hs.toCreates
  | threw h he =>
    obtain ⟨rfl, _⟩ := h.eq hs.toCreates
    cases he.symm.trans hs.returns
  | duplicate h he hin =>
    obtain ⟨_, rfl⟩ := h.eq hs.toCreates
    exact hs.fresh hin

/-- The state after an application was started and registered. -/
def added (E : Surroundings Y) (s : Server) (appType name : String) (appNode : Y.Node) : Server :=
  { launched E s appType appNode with instances := s.instances.emplace name s.objects.length }

/-- The rule for `start_instance` with the registry of the server. -/
theorem startInstance_bind {appNode : Y.Node} {f : Nat → ServerM α}
    {Q : Except ServerExn α → Server → Prop}
    (hadded : ∀ appType name, Starts E appNode s.appToPath s.instances s appType name →
      (f s.objects.length).Wp Q (added E s appType name appNode))
    (hrefused : ∀ e s', Launch E appNode s.appToPath s.instances s (.error e) s' →
      Q (.error e) s') :
    (do
      let s ← get
      let (instances, app) ← startInstance E appNode s.appToPath s.instances
      modify fun s => { s with instances := instances }
      f app : ServerM α).Wp Q s := by
  apply FailM.Wp.get_bind
  apply FailM.Wp.andThen (startInstance_cases appNode s.appToPath s.instances s)
  · intro x s₁ hlaunch
    obtain ⟨appType, name, hstarts, rfl, rfl⟩ := hlaunch.of_ok
    apply FailM.Wp.modify_bind
    exact hadded appType name hstarts
  · exact hrefused

/-- The rule of one round of the loop of `start`. -/
theorem startApps_cons_wp {appNode : Y.Node} {appNodes : List Y.Node}
    {Q : Except ServerExn Unit → Server → Prop}
    (hadded : ∀ appType name, Starts E appNode s.appToPath s.instances s appType name →
      (startApps E appNodes).Wp Q (added E s appType name appNode))
    (hrefused : ∀ e s', Launch E appNode s.appToPath s.instances s (.error e) s' →
      Q (.error e) s') :
    (startApps E (appNode :: appNodes)).Wp Q s :=
  startInstance_bind (f := fun _ => startApps E appNodes) hadded hrefused

theorem instanceConstruct_wp {Q : Except ServerExn Nat → Server → Prop}
    (hadded : ∀ appNode appType name, E.load (cStr config) = .ok appNode →
      Starts E appNode s.appToPath s.instances s appType name →
      Q (.ok s.objects.length) (added E s appType name appNode))
    (hrefused : ∀ appNode e s', E.load (cStr config) = .ok appNode →
      Launch E appNode s.appToPath s.instances s (.error e) s' → Q (.error e) s')
    (hunread : ∀ e, E.load (cStr config) = .error e → Q (.error e) s) :
    (instanceConstruct E config).Wp Q s := by
  apply FailM.Wp.ofExcept_bind
  · intro appNode hload
    apply startInstance_bind
    · intro appType name hstarts
      exact FailM.Wp.pure (hadded appNode appType name hload hstarts)
    · exact fun e s' => hrefused appNode e s' hload
  · exact hunread

/-- The ways in which one round of the loop of `reload` can end. -/
inductive ReloadRound (E : Surroundings Y) (appNode : Y.Node) (m : AppToPath) (known : Instances)
    (s : Server) : Except ServerExn Instances → Server → Prop where
  | unnamed (hname : instanceName appNode = .error e) :
      ReloadRound E appNode m known s (.error e) s
  | reloaded (hname : instanceName appNode = .ok name) (hin : s.instances.lookup name = some app)
      (he : (E.reload app appNode).outcome s.instances = none) :
      ReloadRound E appNode m known s (.ok (known.emplace name app))
        (s.ran app .reload (E.reload app appNode))
  | threw (hname : instanceName appNode = .ok name) (hin : s.instances.lookup name = some app)
      (he : (E.reload app appNode).outcome s.instances = some e) :
      ReloadRound E appNode m known s (.error e) (s.ran app .reload (E.reload app appNode))
  | refused (hname : instanceName appNode = .ok name) (hin : s.instances.lookup name = none)
      (h : Launch E appNode m known s (.error e) t) : ReloadRound E appNode m known s (.error e) t
  | lost (hname : instanceName appNode = .ok name) (hin : s.instances.lookup name = none)
      (h : Starts E appNode m known s appType name')
      (hnew : (known.emplace name' s.objects.length).lookup name = none) :
      ReloadRound E appNode m known s (.error .undefined) (launched E s appType appNode)
  | started (hname : instanceName appNode = .ok name) (hin : s.instances.lookup name = none)
      (h : Starts E appNode m known s appType name')
      (hnew : (known.emplace name' s.objects.length).lookup name = some app) :
      ReloadRound E appNode m known s (.ok (known.emplace name' s.objects.length))
        { launched E s appType appNode with instances := s.instances.emplace name app }

theorem reloadApp_round (appNode : Y.Node) (m : AppToPath) (known : Instances) (s : Server) :
    (reloadApp E m known appNode).Wp (ReloadRound E appNode m known s) s := by
  apply FailM.Wp.ofExcept_bind
  · intro name hname
    apply FailM.Wp.get_bind
    cases hin : s.instances.lookup name with
    | some app =>
      apply lifecycle_bind
      · exact fun he => .reloaded hname hin he
      · exact fun e he => .threw hname hin he
    | none =>
      apply FailM.Wp.andThen (startInstance_cases appNode m known s)
      · intro x s₁ hlaunch
        obtain ⟨appType, name', hstarts, rfl, rfl⟩ := hlaunch.of_ok
        simp only []
        cases hnew : (known.emplace name' s.objects.length).lookup name with
        | none => exact .lost hname hin hstarts hnew
        | some app => exact .started hname hin hstarts hnew
      · exact fun e s' h => .refused hname hin h
  · exact fun e he => .unnamed he

end Server

end CppAlls
