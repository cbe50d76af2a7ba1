import CppAlls.Server.Delivery

namespace CppAlls
set_option autoImplicit true

open Failing Tables Machines Recording

def Message.announces : Message → Bool
  | .starting .. => true
  | .reloading .. => true
  | _ => false

/-- What the server logs before it calls `start` or `reload`. -/
def announcement (objects : List String) (nameOf : Nat → String) (c : LifecycleRecord) : Message :=
  match c.call with
  | .start => .starting (objects[c.application]?.getD "") (nameOf c.application)
  | _ => .reloading (nameOf c.application)

def LifecycleRecord.isAnnounced (c : LifecycleRecord) : Bool := c.call ≠ .stop

/-- The announcements in the log are those of the calls that were made, with the types of the
applications and the names that they have in the server. -/
structure AnnouncedCalls (x : Server × Journal) (nameOf : Nat → String) : Prop where
  told : x.2.logged.filter Message.announces =
    (x.1.calls.filter LifecycleRecord.isAnnounced).map (announcement x.1.objects nameOf)
  known : ∀ c ∈ x.1.calls, c.application < x.1.objects.length
  fresh : ∀ name app, x.1.instances.lookup name = some app → app < x.1.objects.length
  named : ∀ name app, x.1.instances.lookup name = some app → nameOf app = name

namespace AnnouncedCalls

variable {x : Server × Journal} {nameOf : Nat → String} {s : Server} {j : Journal}

/-- A step of the server that constructs and calls no application. -/
theorem keep (h : AnnouncedCalls x nameOf) (hobj : s.objects = x.1.objects)
    (hcalls : s.calls = x.1.calls) (hsub : Server.Sub s.instances x.1.instances)
    (hj : j.logged.filter Message.announces = x.2.logged.filter Message.announces) :
    AnnouncedCalls (s, j) nameOf where
  told := by rw [hj, hobj, hcalls, h.told]
  known c hc := by
    rw [hobj]
    rw [hcalls] at hc
    exact h.known c hc
  fresh name app hn := by
    rw [hobj]
    exact h.fresh name app (hsub name app hn)
  named name app hn := h.named name app (hsub name app hn)

/-- The announcements of the calls before are not touched by a new object and its name. -/
theorem told_grown (h : AnnouncedCalls x nameOf) (appType name : String) :
    (x.1.calls.filter LifecycleRecord.isAnnounced).map
        (announcement (x.1.objects ++ [appType]) (Function.update nameOf x.1.objects.length name)) =
      (x.1.calls.filter LifecycleRecord.isAnnounced).map (announcement x.1.objects nameOf) := by
  apply List.map_congr_left
  intro c hc
  have hlt := h.known c (List.mem_of_mem_filter hc)
  have hname : Function.update nameOf x.1.objects.length name c.application =
      nameOf c.application := Function.update_of_ne (Nat.ne_of_lt hlt) _ _
  rw [announcement, announcement, hname, List.getElem?_append_left hlt]

theorem created (h : AnnouncedCalls x nameOf) (appType : String) :
    AnnouncedCalls (x.1.created appType, x.2) nameOf where
  told := by
    have hgrown := h.told_grown appType (nameOf x.1.objects.length)
    rw [Function.update_eq_self] at hgrown
    exact h.told.trans hgrown.symm
  known c hc := Nat.lt_of_lt_of_le (h.known c hc) (by
    change _ ≤ (x.1.objects ++ [appType]).length
    rw [List.length_append]
    exact Nat.le_add_right _ _)
  fresh n app hn := Nat.lt_of_lt_of_le (h.fresh n app hn) (by
    change _ ≤ (x.1.objects ++ [appType]).length
    rw [List.length_append]
    exact Nat.le_add_right _ _)
  named := h.named

theorem launched {Y : YamlCpp} (E : Surroundings Y) (appNode : Y.Node) (h : AnnouncedCalls x nameOf)
    (hj : j.logged = x.2.logged ++ [.starting appType name]) :
    AnnouncedCalls (Server.launched E x.1 appType appNode, j)
      (Function.update nameOf x.1.objects.length name) where
  told := by
    have hcalls : (Server.launched E x.1 appType appNode).calls = x.1.calls ++
        [⟨x.1.objects.length, .start,
          ((Server.startBody E x.1 appType appNode).outcome x.1.instances).isNone⟩] := rfl
    have hobj : (Server.launched E x.1 appType appNode).objects = x.1.objects ++ [appType] := rfl
    have hlast : announcement (x.1.objects ++ [appType])
        (Function.update nameOf x.1.objects.length name) ⟨x.1.objects.length, .start,
          ((Server.startBody E x.1 appType appNode).outcome x.1.instances).isNone⟩ =
        .starting appType name := by
      rw [announcement]
      simp only [Function.update_self, List.getElem?_concat_length, Option.getD_some]
    rw [hj, hcalls, hobj, List.filter_append, List.filter_append, List.map_append, h.told_grown,
      h.told]
    exact congrArg _ (congrArg (fun m => [m]) hlast.symm)
  known c hc := by
    have hlen : (Server.launched E x.1 appType appNode).objects.length =
        x.1.objects.length + 1 := List.length_append
    rw [hlen]
    rcases List.mem_append.mp hc with hc | hc
    · exact Nat.lt_succ_of_lt (h.known c hc)
    · rw [List.mem_singleton.mp hc]
      exact Nat.lt_succ_self _
  fresh n app hn := (h.created appType).fresh n app hn
  named n app hn := by
    rw [Function.update_of_ne (Nat.ne_of_lt (h.fresh n app hn))]
    exact h.named n app hn

theorem reloaded (h : AnnouncedCalls x nameOf) (body : AppBody)
    (hn : x.1.instances.lookup name = some app)
    (hj : j.logged = x.2.logged ++ [.reloading name]) :
    AnnouncedCalls (x.1.ran app .reload body, j) nameOf where
  told := by
    have hcalls : (x.1.ran app .reload body).calls = x.1.calls ++
        [⟨app, .reload, (body.outcome x.1.instances).isNone⟩] := rfl
    have hlast : announcement x.1.objects nameOf
        ⟨app, .reload, (body.outcome x.1.instances).isNone⟩ = .reloading name := by
      rw [announcement]
      simp only [h.named name app hn]
    rw [hj, hcalls, List.filter_append, List.filter_append, List.map_append, h.told]
    exact congrArg _ (congrArg (fun m => [m]) hlast.symm)
  known c hc := by
    rcases List.mem_append.mp hc with hc | hc
    · exact h.known c hc
    · rw [List.mem_singleton.mp hc]
      exact h.fresh name app hn
  fresh := h.fresh
  named := h.named

theorem stopped (h : AnnouncedCalls x nameOf) (happ : app < x.1.objects.length) (body : AppBody) :
    AnnouncedCalls (x.1.ran app .stop body, x.2) nameOf where
  told := by
    have hcalls : (x.1.ran app .stop body).calls = x.1.calls ++
        [⟨app, .stop, (body.outcome x.1.instances).isNone⟩] := rfl
    rw [hcalls, List.filter_append, List.map_append, h.told]
    exact (List.append_nil _).symm
  known c hc := by
    rcases List.mem_append.mp hc with hc | hc
    · exact h.known c hc
    · rw [List.mem_singleton.mp hc]
      exact happ
  fresh := h.fresh
  named := h.named

theorem emplaced (h : AnnouncedCalls x nameOf) (happ : app < x.1.objects.length)
    (hname : nameOf app = name) :
    AnnouncedCalls ({ x.1 with instances := x.1.instances.emplace name app }, x.2) nameOf where
  told := h.told
  known := h.known
  fresh n a hn := by
    rcases Table.lookup_of_emplace hn with hn | ⟨_, rfl⟩
    · exact h.fresh n a hn
    · exact happ
  named n a hn := by
    rcases Table.lookup_of_emplace hn with hn | ⟨rfl, rfl⟩
    · exact h.named n a hn
    · exact hname

end AnnouncedCalls

namespace Logged

variable {Y : YamlCpp} {E : Surroundings Y} {L : Loggers Y} {known : Instances} {m : AppToPath}

def Tells (x : Server × Journal) : Prop := ∃ nameOf, AnnouncedCalls x nameOf

theorem Talks.logged (h : Talks L x x') : ∃ ms, x'.2.logged = x.2.logged ++ ms := by
  obtain ⟨_, ms, hms⟩ := h
  exact ⟨ms, by rw [hms, Journal.logged_streamEach]⟩

theorem stream_logged (l : Log) (m : Message) (j : Journal) :
    (j.stream L l m).logged = j.logged ++ [m] :=
  Journal.logged_streamEach [m] j

/-- How `start_instance` ends: the new instance is not registered yet, but has its name. -/
def StartTold (known : Instances) (x : Server × Journal) (r : Except ServerExn (Instances × Nat))
    (x' : Server × Journal) : Prop :=
  match r with
  | .error _ => Tells x'
  | .ok (is, app) => ∃ name nameOf, AnnouncedCalls x' nameOf ∧
      x'.1.instances = x.1.instances ∧ name ∉ known ∧ is = known.emplace name app ∧
      app < x'.1.objects.length ∧ nameOf app = name

theorem startInstance_told (appNode : Y.Node) (hx : Tells x) :
    (startInstance E L appNode m known).Wp (StartTold known x) x := by
  obtain ⟨nameOf, hx⟩ := hx
  apply FailM.Wp.ofExcept_bind
  · intro appType _
    cases m.lookup appType with
    | none => exact FailM.Wp.throw ⟨nameOf, hx⟩
    | some path =>
      apply FailM.Wp.ofExcept_bind
      · intro _ _
        apply wp_get_bind
        apply wp_beside_bind
        · intro _ s hs
          obtain rfl := (Prod.mk.inj hs).2
          apply FailM.Wp.ofExcept_bind
          · intro name hname
            apply wp_note_bind
            have hlaunched := hx.launched E appNode (stream_logged (L := L) x.1.log
              (.starting appType name) x.2)
            have hlen : x.1.objects.length <
                (Server.launched E x.1 appType appNode).objects.length := by
              have hlen : (Server.launched E x.1 appType appNode).objects.length =
                  x.1.objects.length + 1 := List.length_append
              rw [hlen]
              exact Nat.lt_succ_self _
            apply wp_beside_bind
            · intro _ s hs
              rw [Server.lifecycle_ran] at hs
              obtain rfl := (Prod.mk.inj hs).2
              apply FailM.Wp.ofExcept_bind
              · intro name' hname'
                cases hname.symm.trans hname'
                by_cases hin : name ∈ known
                · rw [if_pos hin]
                  exact FailM.Wp.bind_error (FailM.on_throw _ _) ⟨_, hlaunched⟩
                · rw [if_neg hin]
                  exact ⟨name, _, hlaunched, rfl, hin, rfl, hlen, Function.update_self _ _ _⟩
              · exact fun _ _ => ⟨_, hlaunched⟩
            · intro e s hs
              rw [Server.lifecycle_ran] at hs
              obtain rfl := (Prod.mk.inj hs).2
              exact ⟨_, hlaunched⟩
          · exact fun _ _ => ⟨nameOf, hx.created appType⟩
        · intro e s hs
          cases hs
      · exact fun _ _ => ⟨nameOf, hx⟩
  · exact fun _ _ => ⟨nameOf, hx⟩

theorem startApps_tells (appNodes : List Y.Node) (hx : Tells x) :
    (startApps E L appNodes).Wp (fun _ x' => Tells x') x := by
  induction appNodes generalizing x with
  | nil => exact FailM.Wp.pure hx
  | cons appNode appNodes ih =>
    apply wp_get_bind
    apply FailM.Wp.andThen (startInstance_told appNode hx)
    · rintro ⟨is, app⟩ x₁ ⟨name, nameOf, hx₁, his, _, rfl, happ, hname⟩
      apply wp_modify_bind
      rw [← his]
      exact ih ⟨nameOf, hx₁.emplaced happ hname⟩
    · exact fun _ _ h => h

theorem instanceConstruct_tells (config : String) (hx : Tells x) :
    (instanceConstruct E L config).Wp (fun _ x' => Tells x') x := by
  apply FailM.Wp.ofExcept_bind
  · intro appNode _
    apply wp_get_bind
    apply FailM.Wp.andThen (startInstance_told appNode hx)
    · rintro ⟨is, app⟩ x₁ ⟨name, nameOf, hx₁, his, _, rfl, happ, hname⟩
      apply wp_modify_bind
      rw [← his]
      exact FailM.Wp.pure ⟨nameOf, hx₁.emplaced happ hname⟩
    · exact fun _ _ h => h
  · exact fun _ _ => hx

theorem reloadApp_tells (appNode : Y.Node) (hx : Tells x) (hsub : Server.Sub known x.1.instances) :
    (reloadApp E L m known appNode).Wp (fun r x' => Tells x' ∧
      ∀ is, r = .ok is → Server.Sub is x'.1.instances) x := by
  have herr {e : ServerExn} {x' : Server × Journal} (h : Tells x') : Tells x' ∧
      ∀ is, (.error e : Except ServerExn Instances) = .ok is → Server.Sub is x'.1.instances :=
    ⟨h, fun _ hr => by cases hr⟩
  apply FailM.Wp.ofExcept_bind
  · intro name _
    apply wp_get_bind
    cases hin : x.1.instances.lookup name with
    | some app =>
      obtain ⟨nameOf, hx⟩ := hx
      apply wp_note_bind
      have hreloaded := hx.reloaded (E.reload app appNode) hin
        (stream_logged (L := L) x.1.log (.reloading name) x.2)
      apply wp_beside_bind
      · intro _ s hs
        rw [Server.lifecycle_ran] at hs
        obtain rfl := (Prod.mk.inj hs).2
        refine ⟨⟨nameOf, hreloaded⟩, ?_⟩
        intro is hr
        cases hr
        exact hsub.emplace hin
      · intro e s hs
        rw [Server.lifecycle_ran] at hs
        obtain rfl := (Prod.mk.inj hs).2
        exact herr ⟨nameOf, hreloaded⟩
    | none =>
      apply FailM.Wp.andThen (startInstance_told appNode hx)
      · rintro ⟨is, app⟩ x₁ ⟨name', nameOf, hx₁, his, _, rfl, happ, hname'⟩
        simp only []
        cases hnew : (known.emplace name' app).lookup name with
        | none => exact FailM.Wp.throw (herr ⟨nameOf, hx₁⟩)
        | some app' =>
          obtain ⟨rfl, rfl⟩ := hsub.lookup_emplace hin hnew
          apply wp_modify_bind
          refine ⟨⟨nameOf, hx₁.emplaced happ hname'⟩, ?_⟩
          intro is hr
          cases hr
          change Server.Sub _ (x₁.1.instances.emplace name' app')
          rw [his]
          apply Server.Sub.emplace ?_ (Table.lookup_emplace_self hin)
          exact fun n a hn => Server.sub_emplace n a (hsub n a hn)
      · exact fun _ _ h => herr h
  · exact fun _ _ => herr hx

theorem reloadApps_tells (appNodes : List Y.Node) (hx : Tells x)
    (hsub : Server.Sub known x.1.instances) :
    (reloadApps E L m known appNodes).Wp (fun r x' => Tells x' ∧
      ∀ is, r = .ok is → Server.Sub is x'.1.instances) x := by
  induction appNodes generalizing known x with
  | nil =>
    apply FailM.Wp.pure
    refine ⟨hx, ?_⟩
    intro is hr
    cases hr
    exact hsub
  | cons appNode appNodes ih =>
    apply FailM.Wp.andThen (reloadApp_tells appNode hx hsub)
    · exact fun is _ h => ih h.1 (h.2 is rfl)
    · exact fun _ _ h => ⟨h.1, fun _ hr => by cases hr⟩

/-- The messages of a search announce nothing. -/
theorem SearchTalks.quiet (h : SearchTalks L l x x') :
    x'.2.logged.filter Message.announces = x.2.logged.filter Message.announces := by
  obtain ⟨failed, hms⟩ := h
  have hnone : (failed.map fun p => Message.failedOpening p.1 p.2).filter Message.announces = [] := by
    rw [List.filter_eq_nil_iff]
    intro m hm
    obtain ⟨p, _, rfl⟩ := List.mem_map.mp hm
    exact Bool.false_ne_true
  rw [hms, Journal.logged_streamEach, List.filter_append, hnone, List.append_nil]

theorem stopApps_tells (apps : List Nat) (hx : AnnouncedCalls (s, j) nameOf)
    (happs : ∀ app ∈ apps, app < s.objects.length) :
    (Server.stopApps E apps).Wp (fun _ s' => AnnouncedCalls (s', j) nameOf) s := by
  induction apps generalizing s with
  | nil => exact FailM.Wp.pure hx
  | cons app apps ih =>
    have hstopped := hx.stopped (happs app List.mem_cons_self) (E.stop app)
    apply Server.lifecycle_bind
    · intro _
      exact ih hstopped fun a ha => happs a (List.mem_cons_of_mem _ ha)
    · exact fun _ _ => hstopped

theorem stopApps_instances (apps : List Nat) (s : Server) :
    (Server.stopApps E apps).Wp (fun _ s' => s'.instances = s.instances) s := by
  apply (Server.stopApps_outcome apps s).mono
  rintro r s' ⟨_, _, rfl, _⟩
  rfl

theorem order_known (hx : AnnouncedCalls x nameOf) :
    ∀ app ∈ E.order x.1.instances.values, app < x.1.objects.length :=
  E.forall_order.mpr hx.fresh

theorem stop_tells (hx : Tells x) :
    (beside (Server.stop E) : LoggedM Unit).Wp (fun _ x' => Tells x') x := by
  obtain ⟨nameOf, hx⟩ := hx
  change (Server.stop E).Wp (fun _ s' => Tells (s', x.2)) x.1
  apply FailM.Wp.get_bind
  apply FailM.Wp.andThen (stopApps_tells _ hx (order_known hx))
  · intro _ s hs
    exact ⟨nameOf, hs.keep rfl rfl (fun _ _ hn => by cases hn) rfl⟩
  · exact fun _ _ hs => ⟨nameOf, hs⟩

theorem takeOver_logged (x : Server × Journal) :
    ((takeOver L).on x).2.2.logged = x.2.logged := by
  have heach (l : Log) (rs : List LogRecord) (j : Journal) :
      (j.logEach L l rs).2.logged = j.logged := by
    induction rs generalizing j with
    | nil => rfl
    | cons r rs ih =>
      have hlog : (j.log L l r).2.logged = j.logged := by
        cases l with
        | delayedLogger => rfl
        | cppLogger => rfl
        | application app => rfl
      rw [Journal.logEach]
      generalize j.log L l r = p at hlog
      obtain ⟨e, j'⟩ := p
      cases e with
      | none => exact (ih j').trans hlog
      | some e => exact hlog
  have hreset : (x.2.reset L x.1.log).2.logged = x.2.logged := by
    have h := heach x.1.log x.2.records x.2
    rw [Journal.reset]
    generalize x.2.logEach L x.1.log x.2.records = p at h
    obtain ⟨e, j⟩ := p
    cases e with
    | none => exact h
    | some e => exact h
  rw [takeOver, FailM.on_bind_ok (FailM.on_get _)]
  simp only []
  rw [FailM.on_bind_ok (FailM.on_set _ _)]
  cases (x.2.reset L x.1.log).1 with
  | none => exact (congrArg Journal.logged (Journal.destroyDelayed_eq _)).trans hreset
  | some e => exact (congrArg Journal.logged (Journal.destroyDelayed_eq _)).trans hreset

theorem initLogger_tells (config : Y.Node) (hx : Tells x) :
    (initLogger E L config).Wp (fun _ x' => Tells x') x := by
  obtain ⟨nameOf, hx⟩ := hx
  have hinit := Server.initLogger_outcome (E := E) config x.1
  rw [FailM.Wp] at hinit
  obtain ⟨log, hlog, _⟩ := hinit
  apply wp_get_bind
  apply wp_beside_bind
  · intro _ s hs
    rw [hs] at hlog
    subst hlog
    by_cases hd : x.1.log = .delayedLogger
    · simp only [if_pos hd]
      refine ⟨nameOf, ?_⟩
      have hserver := takeOver_keeps (L := L) ({ x.1 with log := log }, x.2)
      have hjournal := takeOver_logged (L := L) ({ x.1 with log := log }, x.2)
      generalize ((takeOver L).on ({ x.1 with log := log }, x.2)).2 = y at hserver hjournal
      obtain ⟨s, j⟩ := y
      subst hserver
      exact hx.keep rfl rfl (fun _ _ hn => hn) (congrArg _ hjournal)
    · simp only [if_neg hd]
      exact ⟨nameOf, hx.keep rfl rfl (fun _ _ hn => hn) rfl⟩
  · intro e s hs
    rw [hs] at hlog
    subst hlog
    exact ⟨nameOf, hx.keep rfl rfl (fun _ _ hn => hn) rfl⟩

theorem start_tells (path : String) (hx : Tells x) :
    (start E L path).Wp (fun _ x' => Tells x') x := by
  obtain ⟨nameOf, hx⟩ := hx
  apply wp_modify_bind
  apply FailM.Wp.ofExcept_bind
  · intro config _
    apply wp_get_bind
    have hquiet := (fillAppsToPath_talks (E := E) (L := L) (l := x.1.log) path config
      (x.1.appToPath, x.2)).quiet
    apply FailM.Wp.andThen (R := fun _ x' => Tells x')
    · exact ⟨nameOf, hx.keep rfl rfl (fun _ _ hn => hn) hquiet⟩
    · intro _ x₁ h₁
      apply FailM.Wp.ofExcept_bind
      · intro apps _
        apply FailM.Wp.andThen (startApps_tells _ h₁)
        · exact fun _ _ h₂ => initLogger_tells config h₂
        · exact fun _ _ h₂ => h₂
      · exact fun _ _ => h₁
    · exact fun _ _ h₁ => h₁
  · exact fun _ _ => ⟨nameOf, hx.keep rfl rfl (fun _ _ hn => hn) rfl⟩

theorem newAppToPath_tells (configPath : String) (config : Y.Node) (hx : Tells x) :
    (newAppToPath E L configPath config).Wp (fun _ x' => Tells x') x := by
  obtain ⟨nameOf, hx⟩ := hx
  have hquiet := (fillAppsToPath_talks (E := E) (L := L) (l := x.1.log) configPath config
    (∅, x.2)).quiet
  rw [FailM.Wp, newAppToPath, FailM.on_bind_ok (FailM.on_get _)]
  simp only []
  rw [FailM.on_bind_ok (FailM.on_set _ _), FailM.on_bind, FailM.on_ofExcept]
  generalize (fillAppsToPath E L x.1.log configPath config).on (∅, x.2) = p at hquiet ⊢
  obtain ⟨r, m, j⟩ := p
  cases r with
  | ok _ => exact ⟨nameOf, hx.keep rfl rfl (fun _ _ hn => hn) hquiet⟩
  | error e => exact ⟨nameOf, hx.keep rfl rfl (fun _ _ hn => hn) hquiet⟩

theorem reload_tells (hx : Tells x) : (reload E L).Wp (fun _ x' => Tells x') x := by
  apply wp_get_bind
  apply FailM.Wp.ofExcept_bind
  · intro config _
    apply FailM.Wp.andThen (newAppToPath_tells _ config hx)
    · intro m x₁ hx₁
      apply wp_beside_andThen (Server.checkBinaries_outcome m x₁.1)
      · rintro _ _ ⟨rfl, _⟩
        apply FailM.Wp.ofExcept_bind
        · intro apps _
          have hnone : Server.Sub ∅ x₁.1.instances := fun _ _ hn => by cases hn
          apply FailM.Wp.andThen (reloadApps_tells _ hx₁ hnone)
          · rintro is x₂ ⟨⟨nameOf, hx₂⟩, hsub⟩
            apply wp_get_bind
            apply wp_beside_andThen (R := fun _ s => AnnouncedCalls (s, x₂.2) nameOf ∧
              s.instances = x₂.1.instances)
            · exact ⟨stopApps_tells _ hx₂ (order_known hx₂), stopApps_instances _ _⟩
            · rintro _ s ⟨hs, his⟩
              have hsub : Server.Sub is s.instances := his ▸ hsub is rfl
              have hs' := hs.keep (s := { s with instances := is, appToPath := m }) rfl rfl hsub
                (j := x₂.2) rfl
              apply wp_modify_bind
              apply FailM.Wp.andThen (initLogger_tells config ⟨nameOf, hs'⟩)
              · rintro _ x₃ ⟨nameOf, hx₃⟩
                refine ⟨nameOf, hx₃.keep rfl rfl (fun _ _ hn => hn) ?_⟩
                rw [stream_logged, List.filter_append]
                exact List.append_nil _
              · exact fun _ _ h => h
            · exact fun _ _ hs => ⟨nameOf, hs.1⟩
          · exact fun _ _ h => h.1
        · exact fun _ _ => hx₁
      · rintro _ _ ⟨rfl, _⟩
        exact hx₁
    · exact fun _ _ h => h
  · exact fun _ _ => hx

theorem run_tells (i : LoggedInput Y) (hx : Tells x) : i.run.Wp (fun _ x' => Tells x') x := by
  obtain ⟨i, L⟩ := i
  cases i with
  | start E path => exact start_tells path hx
  | stop E => exact stop_tells hx
  | reload E path =>
    obtain ⟨nameOf, hx⟩ := hx
    apply wp_modify_bind
    exact reload_tells ⟨nameOf, hx.keep rfl rfl (fun _ _ hn => hn) rfl⟩
  | construct E config =>
    apply FailM.Wp.andThen (instanceConstruct_tells config hx)
    · exact fun _ _ h => h
    · exact fun _ _ h => h
  | free name =>
    obtain ⟨nameOf, hx⟩ := hx
    exact ⟨nameOf, hx.keep rfl rfl (fun _ _ hn => Table.lookup_of_erase hn) rfl⟩

end Logged

/-- In every run the log announces the calls of `start` and `reload` of the applications: one message
for each call, in the order of the calls, under the one name that the application has. -/
theorem calls_announced {x : Server × Journal}
    (h : (loggedMachine Y).Reachable (fun _ _ => True) x) :
    ∃ nameOf : Nat → String,
      x.2.logged.filter Message.announces =
        (x.1.calls.filter LifecycleRecord.isAnnounced).map (announcement x.1.objects nameOf) ∧
      ∀ name app, x.1.instances.lookup name = some app → nameOf app = name := by
  have htells : Logged.Tells x := by
    apply h.invariant
    · refine ⟨fun _ => "", rfl, ?_, ?_, ?_⟩
      · intro c hc
        cases hc
      · intro name app hn
        cases hn
      · intro name app hn
        cases hn
    · exact fun x i hx _ _ => Logged.run_tells i hx
  obtain ⟨nameOf, hx⟩ := htells
  exact ⟨nameOf, hx.told, hx.named⟩

theorem chosenStarted_announced :
    (∃ nameOf : Nat → String,
      chosenStarted.2.logged.filter Message.announces =
        (chosenStarted.1.calls.filter LifecycleRecord.isAnnounced).map
          (announcement chosenStarted.1.objects nameOf) ∧
      ∀ name app, chosenStarted.1.instances.lookup name = some app → nameOf app = name) ∧
    chosenStarted.2.logged = [.starting "cpp_logger" "cpp_logger"] :=
  ⟨calls_announced (.step (i := startChosen none) .init trivial trivial), by decide +kernel⟩

end CppAlls
