import CppAlls.Server.Dependencies

namespace CppAlls
set_option autoImplicit true

open Failing Tables Interaction Machines

theorem AppBody.resolutions_lookup {is : Instances} {body : AppBody}
    (h : app ∈ body.resolutions is) : ∃ name, is.lookup name = some app := by
  induction body with
  | pure e => cases h
  | call name k ih =>
    rw [resolutions] at h
    rcases List.mem_append.mp h with h | h
    · exact ⟨cStr name, Option.mem_toList.mp h⟩
    · exact ih _ h

/-- The lifecycle calls of one application: `start` comes first and once, and nothing comes behind
one that threw. -/
inductive CallOrder : List LifecycleRecord → Prop where
  | none : CallOrder []
  | failed : CallOrder [⟨app, .start, false⟩]
  | started : (∀ c ∈ cs, c.call ≠ .start) → CallOrder (⟨app, .start, true⟩ :: cs)

namespace Server

variable {Y : YamlCpp} {E : Surroundings Y} {s s' : Server} {known : Instances} {m : AppToPath}

def callsOf (s : Server) (app : Nat) : List LifecycleRecord :=
  s.calls.filter fun c => c.application = app

/-- The `start` of the application has returned. -/
def Begun (s : Server) (app : Nat) : Prop := ⟨app, .start, true⟩ ∈ s.calls

structure Ordered (s : Server) : Prop where
  calls : ∀ app, CallOrder (s.callsOf app)
  constructed : ∀ app, s.objects.length ≤ app → s.callsOf app = []
  registered : ∀ name app, s.instances.lookup name = some app → s.Begun app
  resolved : ∀ x ∈ s.resolved, s.Begun x.2

theorem callsOf_ran (s : Server) (self : Nat) (call : LifecycleCall) (body : AppBody) (app : Nat) :
    (s.ran self call body).callsOf app = s.callsOf app ++
      if self = app then [⟨self, call, (body.outcome s.instances).isNone⟩] else [] := by
  rw [callsOf, ran, List.filter_append, List.filter_singleton, Bool.cond_decide]
  rfl

theorem Begun.ran (h : s.Begun app) : (s.ran self call body).Begun app :=
  List.mem_append_left _ h

theorem begun_started (h : body.outcome s.instances = none) :
    (s.ran self .start body).Begun self := by
  apply List.mem_append_right
  rw [h]
  exact List.mem_singleton_self _

theorem Begun.callsOf (h : s.Begun app) (hs : CallOrder (s.callsOf app)) :
    ∃ cs, s.callsOf app = ⟨app, .start, true⟩ :: cs ∧ ∀ c ∈ cs, c.call ≠ .start := by
  have hm : ⟨app, .start, true⟩ ∈ s.callsOf app := List.mem_filter.mpr ⟨h, decide_eq_true rfl⟩
  generalize s.callsOf app = cs at hs hm
  cases hs with
  | none => cases hm
  | failed => cases List.mem_singleton.mp hm
  | started hcs =>
    rcases List.mem_cons.mp hm with he | hm
    · cases he
      exact ⟨_, rfl, hcs⟩
    · exact absurd rfl (hcs _ hm)

namespace Ordered

theorem resolved_ran (h : s.Ordered) : ∀ x ∈ (s.ran self call body).resolved,
    (s.ran self call body).Begun x.2 := by
  intro x hx
  rcases List.mem_append.mp hx with hx | hx
  · exact (h.resolved x hx).ran
  · obtain ⟨app, happ, rfl⟩ := List.mem_map.mp hx
    obtain ⟨name, hname⟩ := AppBody.resolutions_lookup happ
    exact (h.registered name app hname).ran

/-- A call other than `start` goes to an application that was started. -/
theorem ran (h : s.Ordered) (hb : s.Begun self) (hcall : call ≠ .start) (body : AppBody) :
    (s.ran self call body).Ordered := by
  obtain ⟨cs, hcs, hno⟩ := hb.callsOf (h.calls self)
  have hself : s.objects.length ≤ self → False := by
    intro hle
    cases hcs.symm.trans (h.constructed self hle)
  refine ⟨?_, ?_, fun name app hn => (h.registered name app hn).ran, h.resolved_ran⟩
  · intro app
    rw [callsOf_ran]
    by_cases he : self = app
    · subst he
      rw [if_pos rfl, hcs, List.cons_append]
      apply CallOrder.started
      intro c hc
      rcases List.mem_append.mp hc with hc | hc
      · exact hno c hc
      · cases List.mem_singleton.mp hc
        exact hcall
    · rw [if_neg he, List.append_nil]
      exact h.calls app
  · intro app hle
    rw [callsOf_ran, h.constructed app hle, List.nil_append]
    apply if_neg
    rintro rfl
    exact hself hle

theorem created (h : s.Ordered) (appType : String) : (s.created appType).Ordered := by
  refine ⟨h.calls, ?_, h.registered, h.resolved⟩
  intro app hle
  apply h.constructed app
  rw [Server.created, List.length_append] at hle
  exact Nat.le_of_succ_le hle

/-- A new application is started, and was not called before. -/
theorem launched (h : s.Ordered) (appType : String) (appNode : Y.Node) :
    (launched E s appType appNode).Ordered := by
  have hc := h.created appType
  have hnew : (s.created appType).callsOf s.objects.length = [] :=
    h.constructed _ (Nat.le_refl _)
  refine ⟨?_, ?_, fun name app hn => (hc.registered name app hn).ran, hc.resolved_ran⟩
  · intro app
    rw [Server.launched, callsOf_ran]
    by_cases he : s.objects.length = app
    · subst he
      rw [if_pos rfl, hnew, List.nil_append]
      cases ((startBody E s appType appNode).outcome (s.created appType).instances).isNone with
      | false => exact .failed
      | true => exact .started fun _ hc => by cases hc
    · rw [if_neg he, List.append_nil]
      exact hc.calls app
  · intro app hle
    rw [Server.launched, callsOf_ran, hc.constructed app hle, List.nil_append]
    apply if_neg
    rintro rfl
    have hlen : (s.objects ++ [appType]).length = s.objects.length + 1 := List.length_append
    exact absurd (hlen ▸ hle) (Nat.not_succ_le_self _)

theorem with_instances (h : s.Ordered)
    (his : ∀ name app, is.lookup name = some app → s.Begun app) :
    Ordered { s with instances := is } :=
  ⟨h.calls, h.constructed, his, h.resolved⟩

theorem started {appNode : Y.Node} (h : s.Ordered)
    (hst : Starts E appNode m known s appType name') (n : String) :
    Ordered { Server.launched E s appType appNode with
      instances := s.instances.emplace n s.objects.length } := by
  apply (h.launched appType appNode).with_instances
  intro name app hn
  rcases Table.lookup_of_emplace hn with hn | ⟨_, rfl⟩
  · exact (h.registered name app hn).ran
  · exact begun_started (s := s.created appType) hst.returns

end Ordered

theorem Launch.ordered {appNode : Y.Node} (h : Launch E appNode m known s r s')
    (hs : s.Ordered) : s'.Ordered := by
  cases h with
  | missing => exact hs
  | unnamed => exact hs.created _
  | threw => exact hs.launched _ _
  | duplicate => exact hs.launched _ _
  | started => exact hs.launched _ _

theorem startApps_ordered (appNodes : List Y.Node) (hs : s.Ordered) :
    (startApps E appNodes).Wp (fun _ s' => s'.Ordered) s := by
  induction appNodes generalizing s with
  | nil => exact FailM.Wp.pure hs
  | cons appNode appNodes ih =>
    apply startApps_cons_wp
    · intro appType name hstarts
      exact ih (hs.started hstarts name)
    · intro e s₁ hlaunch
      exact hlaunch.ordered hs

theorem initLogger_ordered (config : Y.Node) (hs : s.Ordered) :
    (initLogger E config).Wp (fun _ s' => s'.Ordered) s := by
  apply (initLogger_outcome config s).mono
  intro _ _ hr
  obtain ⟨log, rfl, _⟩ := hr
  exact ⟨hs.calls, hs.constructed, hs.registered, hs.resolved⟩

theorem start_ordered (path : String) (hs : s.Ordered) :
    (start E path).Wp (fun _ s' => s'.Ordered) s := by
  have hs₀ : Ordered { s with configPath := path } :=
    ⟨hs.calls, hs.constructed, hs.registered, hs.resolved⟩
  apply FailM.Wp.modify_bind
  apply FailM.Wp.ofExcept_bind
  · intro config _
    apply FailM.Wp.andThen (R := fun _ s' => s'.Ordered)
    · exact ⟨hs.calls, hs.constructed, hs.registered, hs.resolved⟩
    · intro _ s₁ hs₁
      apply FailM.Wp.ofExcept_bind
      · intro apps _
        apply FailM.Wp.andThen (startApps_ordered (Y.elements apps) hs₁)
        · intro _ s₂ hs₂
          exact initLogger_ordered config hs₂
        · exact fun _ _ hs₂ => hs₂
      · exact fun _ _ => hs₁
    · exact fun _ _ hs₁ => hs₁
  · exact fun _ _ => hs₀

theorem stopApps_ordered (apps : List Nat) (hs : s.Ordered) (happs : ∀ app ∈ apps, s.Begun app) :
    (stopApps E apps).Wp (fun _ s' => s'.Ordered ∧ ∀ app, s.Begun app → s'.Begun app) s := by
  induction apps generalizing s with
  | nil => exact FailM.Wp.pure ⟨hs, fun _ hb => hb⟩
  | cons app apps ih =>
    obtain ⟨happ, happs⟩ := List.forall_mem_cons.mp happs
    have hran : (s.ran app .stop (E.stop app)).Ordered := hs.ran happ (by decide) _
    apply lifecycle_bind
    · intro _
      apply (ih hran fun a ha => (happs a ha).ran).mono
      intro _ _ h
      exact ⟨h.1, fun a hb => h.2 a hb.ran⟩
    · exact fun _ _ => ⟨hran, fun _ hb => hb.ran⟩

theorem Ordered.order (h : s.Ordered) (E : Surroundings Y) :
    ∀ app ∈ E.order s.instances.values, s.Begun app :=
  E.forall_order.mpr h.registered

theorem stop_ordered (hs : s.Ordered) : (stop E).Wp (fun _ s' => s'.Ordered) s := by
  apply FailM.Wp.get_bind
  apply FailM.Wp.andThen (stopApps_ordered _ hs (hs.order E))
  · intro _ s₁ h
    exact ⟨h.1.calls, h.1.constructed, (fun _ _ hn => by cases hn), h.1.resolved⟩
  · exact fun _ _ h => h.1

theorem instanceConstruct_ordered (config : String) (hs : s.Ordered) :
    (instanceConstruct E config).Wp (fun _ s' => s'.Ordered) s := by
  apply instanceConstruct_wp
  · intro appNode appType name _ hstarts
    exact hs.started hstarts name
  · intro appNode e s₁ _ hlaunch
    exact hlaunch.ordered hs
  · exact fun _ _ => hs

theorem ReloadRound.ordered {appNode : Y.Node} (h : ReloadRound E appNode m known s r s')
    (hs : s.Ordered) (hsub : Sub known s.instances) : s'.Ordered := by
  cases h with
  | unnamed _ => exact hs
  | reloaded _ hin _ => exact hs.ran (hs.registered _ _ hin) (by decide) _
  | threw _ hin _ => exact hs.ran (hs.registered _ _ hin) (by decide) _
  | refused _ _ h => exact h.ordered hs
  | lost _ _ _ _ => exact hs.launched _ _
  | started _ hin hst hnew =>
    obtain ⟨rfl, rfl⟩ := hsub.lookup_emplace hin hnew
    exact hs.started hst _

theorem reloadApps_ordered (appNodes : List Y.Node) (hr : Registered s) (hs : s.Ordered)
    (hsub : Sub known s.instances) :
    (reloadApps E m known appNodes).Wp (fun _ s' => s'.Ordered) s := by
  induction appNodes generalizing known s with
  | nil => exact FailM.Wp.pure hs
  | cons appNode appNodes ih =>
    have hround : (reloadApp E m known appNode).Wp (fun r s' =>
        LoopOutcome known s r s' ∧ s'.Ordered) s :=
      ⟨(reloadApp_outcome m appNode hr hsub).1,
        ReloadRound.ordered (reloadApp_round appNode m known s) hs hsub⟩
    apply FailM.Wp.andThen hround
    · intro is s₁ h
      exact ih h.1.registered h.2 (h.1.result is rfl).1
    · exact fun _ _ h => h.2

theorem reload_ordered (hr : Registered s) (hs : s.Ordered) :
    (reload E).Wp (fun _ s' => s'.Ordered) s := by
  apply reload_wp
  · intro config m appNodes _ _
    have hsub : Sub ∅ s.instances := fun _ _ hn => by cases hn
    have hloop : (reloadApps E m ∅ appNodes).Wp (fun r s' =>
        LoopOutcome ∅ s r s' ∧ s'.Ordered) s :=
      ⟨(reloadApps_outcome m appNodes hr hsub).1, reloadApps_ordered appNodes hr hs hsub⟩
    apply FailM.Wp.andThen hloop
    · intro is s₁ h
      obtain ⟨hout, hs₁⟩ := h
      have hsub₁ := (hout.result is rfl).1
      apply FailM.Wp.get_bind
      apply FailM.Wp.andThen (stopApps_ordered _ hs₁ (hs₁.order E))
      · intro _ s₂ h
        apply FailM.Wp.modify_bind
        apply initLogger_ordered
        refine ⟨h.1.calls, h.1.constructed, ?_, h.1.resolved⟩
        intro name app hn
        exact h.2 app (hs₁.registered name app (hsub₁ name app hn))
      · exact fun _ _ h => h.1
    · exact fun _ _ h => h.2
  · exact fun _ _ => hs

theorem ordered_next (i : ServerInput Y) (hr : Registered s) (hs : s.Ordered) :
    (i.next s).Ordered := by
  cases i with
  | start E path => exact start_ordered path hs
  | stop E => exact stop_ordered hs
  | reload E path =>
    have hwp : (reloadFrom E path).Wp (fun _ s' => s'.Ordered) s := by
      apply FailM.Wp.modify_bind
      apply reload_ordered
      · exact ⟨hr.fresh, hr.unique⟩
      · exact ⟨hs.calls, hs.constructed, hs.registered, hs.resolved⟩
    exact hwp
  | construct E config => exact instanceConstruct_ordered config hs
  | free name =>
    exact hs.with_instances fun n app hn => hs.registered n app (Table.lookup_of_erase hn)

/-- In every run the first lifecycle call of an application is its one `start`, and an application
whose `start` threw is not called again. What is registered, and what `app::get` ever found, is an
application whose `start` has returned. -/
theorem calls_in_order (h : (serverMachine Y).Reachable (fun _ _ => True) s) :
    (∀ app, CallOrder (s.callsOf app)) ∧
      (∀ name app, s.instances.lookup name = some app → s.Begun app) ∧
      ∀ x ∈ s.resolved, s.Begun x.2 := by
  have hinv : Registered s ∧ s.Ordered := by
    apply h.invariant
    · refine ⟨.of_empty rfl, fun _ => .none, fun _ _ => rfl, ?_, ?_⟩
      · intro _ _ hn
        cases hn
      · intro _ hx
        cases hx
    · intro s i hs _ _
      exact ⟨registered_next i hs.1, ordered_next i hs.1 hs.2⟩
  exact ⟨hinv.2.calls, hinv.2.registered, hinv.2.resolved⟩

def refusedNode : PlainNode :=
  .map [("type", .scalar "cpp_logger"), ("instance-name", .scalar "refused")]

/-- The applications throw when they are started. -/
def refusingSurroundings : Surroundings plainYaml :=
  { plainSurroundings refusedNode with start := fun _ _ _ => .pure (some (.std "refused")) }

/-- The reload reloads the logger, which the new application resolves, and stops both; the `start`
of a third application throws, and then the server is stopped. -/
def resolvingRun : List (ServerInput plainYaml) :=
  [.start (plainSurroundings (loggerConfig [loggerNode])) "config.yaml",
    .reload (loggingSurroundings (loggerConfig [loggerNode, echoNode])) none,
    .construct refusingSurroundings "",
    .stop (plainSurroundings .undefined)]

def resolvingEnd : Server := resolvingRun.foldl (serverMachine plainYaml).next {}

theorem loggerStarted_in_order :
    (∀ app, CallOrder (resolvingEnd.callsOf app)) ∧
      (∀ name app, resolvingEnd.instances.lookup name = some app → resolvingEnd.Begun app) ∧
      ∀ x ∈ resolvingEnd.resolved, resolvingEnd.Begun x.2 := by
  have hfollows : (serverMachine plainYaml).Follows (fun _ _ => True) {} resolvingRun :=
    ⟨⟨trivial, trivial⟩, ⟨trivial, trivial⟩, ⟨trivial, trivial⟩, ⟨trivial, trivial⟩, trivial⟩
  exact calls_in_order (Machine.Reachable.follow .init hfollows)

example : resolvingEnd.resolved = [(1, 0)] ∧ resolvingEnd.callsOf 2 = [⟨2, .start, false⟩] := by
  decide +kernel

end Server

end CppAlls
