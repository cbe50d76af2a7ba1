import CppAlls.Server.Delivery

namespace CppAlls
set_option autoImplicit true

open Failing Tables Interaction Machines Recording

namespace Server

variable {Y : YamlCpp} {E : Surroundings Y}

theorem getLogger_wp (isLogger : String → Bool) (name : String) (s : Server) :
    (getLogger isLogger name).Wp (fun r s' => s' = s ∧ ∀ app, r = .ok app ↔
      s.find name = some app ∧ (s.objects[app]?).any isLogger = true) s := by
  have hget := getInstance_on name s
  cases hfind : s.find name with
  | none =>
    rw [hfind] at hget
    apply FailM.Wp.bind_error hget
    exact ⟨rfl, fun app => ⟨nofun, nofun⟩⟩
  | some app =>
    rw [hfind] at hget
    apply FailM.Wp.bind_ok hget
    apply FailM.Wp.get_bind
    by_cases his : (s.objects[app]?).any isLogger = true
    · rw [if_pos his]
      refine FailM.Wp.pure ⟨rfl, fun app' => ⟨?_, ?_⟩⟩
      · intro he
        cases he
        exact ⟨rfl, his⟩
      · rintro ⟨he, _⟩
        cases he
        rfl
    · rw [if_neg his]
      refine FailM.Wp.throw ⟨rfl, fun app' => ⟨nofun, ?_⟩⟩
      rintro ⟨he, hlog⟩
      cases he
      exact absurd hlog his

/-- `init_logger` chooses this logger. -/
def Chooses (E : Surroundings Y) (config : Y.Node) (s : Server) (log : Log) : Prop :=
  ∃ core logger, Y.index config "core" = .ok core ∧ Y.index core "logger" = .ok logger ∧
    (Y.isDefined logger = false ∧ log = .cppLogger ∨
      Y.isDefined logger = true ∧ ∃ name app, Y.asString logger = .ok name ∧
        s.find name = some app ∧ (s.objects[app]?).any E.isLogger = true ∧ log = .application app)

/-- No logger is configured, or `app::get` finds a logger under the configured name. -/
def NamesLogger (E : Surroundings Y) (config : Y.Node) (s : Server) : Prop :=
  ∃ log, Chooses E config s log

theorem chooses_default {s : Server} {config core logger : Y.Node}
    (hcore : Y.index config "core" = .ok core) (hlogger : Y.index core "logger" = .ok logger)
    (hdef : ¬ Y.isDefined logger = true) (log : Log) :
    Chooses E config s log ↔ log = .cppLogger := by
  constructor
  · rintro ⟨_, _, hcore', hlogger', h⟩
    cases hcore.symm.trans hcore'
    cases hlogger.symm.trans hlogger'
    rcases h with ⟨_, hlog⟩ | ⟨hdef', _⟩
    · exact hlog
    · exact absurd hdef' hdef
  · exact fun h => ⟨core, logger, hcore, hlogger, .inl ⟨Bool.eq_false_of_not_eq_true hdef, h⟩⟩

theorem chooses_named {s : Server} {config core logger : Y.Node}
    (hcore : Y.index config "core" = .ok core) (hlogger : Y.index core "logger" = .ok logger)
    (hdef : Y.isDefined logger = true) (log : Log) :
    Chooses E config s log ↔ ∃ name app, Y.asString logger = .ok name ∧ s.find name = some app ∧
      (s.objects[app]?).any E.isLogger = true ∧ log = .application app := by
  constructor
  · rintro ⟨_, _, hcore', hlogger', h⟩
    cases hcore.symm.trans hcore'
    cases hlogger.symm.trans hlogger'
    rcases h with ⟨hnot, _⟩ | ⟨_, h⟩
    · cases hdef.symm.trans hnot
    · exact h
  · exact fun h => ⟨core, logger, hcore, hlogger, .inr ⟨hdef, h⟩⟩

theorem initLogger_choice (config : Y.Node) (s : Server) :
    (initLogger E config).Wp (fun r s' => ∀ log, r = .ok () ∧ s'.log = log ↔
      Chooses E config s log) s := by
  apply FailM.Wp.ofExcept_bind
  · intro core hcore
    apply FailM.Wp.ofExcept_bind
    · intro logger hlogger
      by_cases hdef : Y.isDefined logger = true
      · rw [if_pos hdef]
        simp only [chooses_named hcore hlogger hdef]
        apply FailM.Wp.ofExcept_bind
        · intro name hname
          apply FailM.Wp.andThen (getLogger_wp E.isLogger name s)
          · rintro app _ ⟨rfl, hiff⟩ log
            obtain ⟨hfind, his⟩ := (hiff app).mp rfl
            constructor
            · rintro ⟨_, rfl⟩
              exact ⟨name, app, hname, hfind, his, rfl⟩
            · rintro ⟨_, _, hname', hfind', _, rfl⟩
              cases hname.symm.trans hname'
              cases hfind.symm.trans hfind'
              exact ⟨rfl, rfl⟩
          · rintro e _ ⟨rfl, hiff⟩ log
            refine ⟨nofun, ?_⟩
            rintro ⟨_, app, hname', hfind, his, _⟩
            cases hname.symm.trans hname'
            cases (hiff app).mpr ⟨hfind, his⟩
        · intro e he log
          refine ⟨nofun, ?_⟩
          rintro ⟨_, _, hname, _⟩
          cases he.symm.trans hname
      · rw [if_neg hdef]
        intro log
        rw [chooses_default hcore hlogger hdef]
        exact ⟨fun h => h.2.symm, fun h => ⟨rfl, h.symm⟩⟩
    · intro e he log
      refine ⟨nofun, ?_⟩
      rintro ⟨_, _, hcore', hlogger, _⟩
      cases hcore.symm.trans hcore'
      cases he.symm.trans hlogger
  · intro e he log
    refine ⟨nofun, ?_⟩
    rintro ⟨_, _, hcore, _⟩
    cases he.symm.trans hcore

theorem initLogger_returns_iff (config : Y.Node) (s : Server) :
    (initLogger E config).Wp (fun r s' => s'.instances = s.instances ∧
      (r = .ok () ↔ NamesLogger E config s)) s := by
  apply ((initLogger_outcome config s).and (initLogger_choice config s)).mono
  rintro r s' ⟨⟨log, rfl, _⟩, hchoice⟩
  refine ⟨rfl, ?_⟩
  constructor
  · exact fun hr => ⟨log, (hchoice log).mp ⟨hr, rfl⟩⟩
  · rintro ⟨log', hlog⟩
    exact ((hchoice log').mpr hlog).1

theorem namesLogger_iff (config : Y.Node) (s : Server) : NamesLogger E config s ↔
    ∃ core logger, Y.index config "core" = .ok core ∧ Y.index core "logger" = .ok logger ∧
      (Y.isDefined logger = true → ∃ name, Y.asString logger = .ok name ∧
        ∃ app, s.find name = some app ∧ (s.objects[app]?).any E.isLogger = true) := by
  constructor
  · rintro ⟨log, hchooses⟩
    have ⟨core, logger, hcore, hlogger, _⟩ := hchooses
    refine ⟨core, logger, hcore, hlogger, ?_⟩
    intro hdef
    obtain ⟨name, app, hname, hfind, his, _⟩ := (chooses_named hcore hlogger hdef log).mp hchooses
    exact ⟨name, hname, app, hfind, his⟩
  · rintro ⟨core, logger, hcore, hlogger, h⟩
    by_cases hdef : Y.isDefined logger = true
    · obtain ⟨name, hname, app, hfind, his⟩ := h hdef
      exact ⟨_, (chooses_named hcore hlogger hdef _).mpr ⟨name, app, hname, hfind, his, rfl⟩⟩
    · exact ⟨_, (chooses_default hcore hlogger hdef _).mpr rfl⟩

theorem chooses_congr {s s' : Server}
    (his : ∀ name, s'.instances.lookup name = s.instances.lookup name)
    (hobj : s'.objects = s.objects) (config : Y.Node) (log : Log) :
    Chooses E config s' log ↔ Chooses E config s log := by
  simp only [Chooses, find, his, hobj]

theorem namesLogger_congr {s s' : Server}
    (his : ∀ name, s'.instances.lookup name = s.instances.lookup name)
    (hobj : s'.objects = s.objects) (config : Y.Node) :
    NamesLogger E config s' ↔ NamesLogger E config s := by
  simp only [NamesLogger, chooses_congr his hobj]

/-- A call that returns has chosen a logger. -/
def Chosen : Except ServerExn Unit → Server → Prop := fun r s => r = .ok () → s.log ≠ .delayedLogger

theorem initLogger_chosen (config : Y.Node) (s : Server) : (initLogger E config).Wp Chosen s :=
  (Logged.initLogger_chooses config s).mono fun _ _ h => h.1

theorem start_chosen (path : String) (s : Server) : (start E path).Wp Chosen s := by
  apply FailM.Wp.modify_bind
  refine FailM.Wp.bind_last (fun config s => ?_) fun _ _ => nofun
  refine FailM.Wp.bind_last (fun _ s => ?_) fun _ _ => nofun
  refine FailM.Wp.bind_last (fun apps s => ?_) fun _ _ => nofun
  exact FailM.Wp.bind_last (fun _ s => initLogger_chosen config s) fun _ _ => nofun

theorem reloadFrom_chosen (path : Option String) (s : Server) :
    (reloadFrom E path).Wp Chosen s := by
  apply FailM.Wp.modify_bind
  apply reload_wp
  · intro config m appNodes _ _
    refine FailM.Wp.bind_last (fun is s => ?_) fun _ _ => nofun
    apply FailM.Wp.get_bind
    refine FailM.Wp.bind_last (fun _ s => ?_) fun _ _ => nofun
    exact FailM.Wp.modify_bind (initLogger_chosen config _)
  · exact fun _ _ => nofun

end Server

namespace Logged

variable {Y : YamlCpp} {E : Surroundings Y} {L : Loggers Y}

/-- The chosen logger has not to take over any records, or cannot throw when it does. -/
def Replays (L : Loggers Y) (x : Server × Journal) : Prop := x.1.log = .delayedLogger → L.Accepts

/-- From there the call ends as it would if nothing were logged. -/
def EndsAs (L : Loggers Y) (n : LoggedM α) (m : ServerM α) : Prop :=
  ∀ x, Replays L x → (n.on x).1 = (m.on x.1).1

/-- What holds of the call without messages holds of the call with them. -/
theorem wp_of_ends {n : LoggedM α} {m : ServerM α} {Q : Except ServerExn α → Server → Prop}
    (h : EndsAs L n m) (ht : Tracks n m) (hx : Replays L x) (hm : m.Wp Q x.1) :
    n.Wp (fun r y => Q r y.1) x := by
  rw [FailM.Wp] at hm ⊢
  rw [h x hx, ht x]
  exact hm

theorem takeOver_on (x : Server × Journal) : (takeOver L).on x =
    (Server.ended (x.2.reset L x.1.log).1, (x.1, (x.2.reset L x.1.log).2.destroyDelayed L)) := by
  rw [takeOver, FailM.on_bind_ok (FailM.on_get _)]
  simp only []
  rw [FailM.on_bind_ok (FailM.on_set _ _)]
  cases (x.2.reset L x.1.log).1 <;> rfl

theorem reset_accepts (hL : L.Accepts) (l : Log) (j : Journal) : (j.reset L l).1 = none := by
  have hall := Journal.logEach_accepts (l := l) hL j.records j
  rw [Journal.reset]
  generalize j.logEach L l j.records = p at hall
  obtain ⟨e, j'⟩ := p
  subst hall
  rfl

/-- `init_logger` chooses the logger as if nothing were logged, and then has it take over. -/
theorem initLogger_on (config : Y.Node) (x : Server × Journal) :
    ((initLogger E L config).on x).1 =
      match (Server.initLogger E config).on x.1 with
      | (.ok _, s) => if x.1.log = .delayedLogger then Server.ended (x.2.reset L s.log).1 else .ok ()
      | (.error e, _) => .error e := by
  rw [initLogger, on_get_bind, FailM.on_bind, on_beside]
  generalize (Server.initLogger E config).on x.1 = p
  obtain ⟨r, s⟩ := p
  cases r with
  | error e => rfl
  | ok _ =>
    by_cases hd : x.1.log = .delayedLogger
    · simp only [if_pos hd, takeOver_on]
    · simp only [if_neg hd]
      rfl

theorem endsAs_bind {n : LoggedM α} {m : ServerM α} {g : α → LoggedM β} {f : α → ServerM β}
    (h : Erases n m) (hlog : Moves (fun x x' => x'.1.log = x.1.log) n)
    (hf : ∀ a, EndsAs L (g a) (f a)) : EndsAs L (n >>= g) (m >>= f) := by
  intro x hx
  obtain ⟨hr, hs⟩ := h x
  have hlog := hlog x
  rw [FailM.Wp] at hlog
  rw [FailM.on_bind, FailM.on_bind]
  generalize n.on x = p at hr hs hlog
  generalize m.on x.1 = q at hr hs
  obtain ⟨r, y⟩ := p
  obtain ⟨r', s⟩ := q
  subst hr hs
  cases r with
  | error e => rfl
  | ok a => exact hf a y fun hd => hx (hlog.symm.trans hd)

theorem endsAs_get {g : Server → LoggedM α} {f : Server → ServerM α}
    (h : ∀ s, EndsAs L (g s) (f s)) : EndsAs L (beside get >>= g) (get >>= f) := by
  intro x hx
  rw [on_get_bind, FailM.on_bind_ok (FailM.on_get _)]
  exact h x.1 x hx

theorem log_of_talks {n : LoggedM α} (h : Moves (Talks L) n) :
    Moves (fun x x' => x'.1.log = x.1.log) n :=
  fun x => (h x).1

theorem initLogger_ends (config : Y.Node) :
    EndsAs L (initLogger E L config) (Server.initLogger E config) := by
  intro x hx
  rw [initLogger_on]
  generalize (Server.initLogger E config).on x.1 = p
  obtain ⟨r, s⟩ := p
  cases r with
  | error e => rfl
  | ok _ =>
    by_cases hd : x.1.log = .delayedLogger
    · simp only [if_pos hd]
      rw [reset_accepts (hx hd)]
      rfl
    · simp only [if_neg hd]

theorem beside_log {m : ServerM α} (h : Moves (fun s s' => s'.log = s.log) m) :
    Moves (fun x x' => x'.1.log = x.1.log) (beside m : LoggedM α) :=
  fun x => h x.1

theorem start_ends (path : String) : EndsAs L (start E L path) (Server.start E path) := by
  refine endsAs_bind (.beside _) (beside_log fun _ => rfl) ?_
  intro _
  apply endsAs_bind (.ofExcept _) fun _ => rfl
  intro config x hx
  rw [on_get_bind]
  refine endsAs_bind (searchPart_erases x.1.log path config) (fun _ => rfl) ?_ x hx
  intro _
  apply endsAs_bind (.ofExcept _) fun _ => rfl
  intro apps
  apply endsAs_bind (startApps_erases _) (log_of_talks (startApps_talks _))
  exact fun _ => initLogger_ends config

theorem reload_ends : EndsAs L (reload E L) (Server.reload E) := by
  apply endsAs_get
  intro s
  apply endsAs_bind (.ofExcept _) fun _ => rfl
  intro config
  apply endsAs_bind (newAppToPath_erases _ _) (log_of_talks (newAppToPath_talks _ _))
  intro m
  apply endsAs_bind (.beside _) (beside_log (checkBinaries_log m))
  intro _
  apply endsAs_bind (.ofExcept _) fun _ => rfl
  intro apps
  apply endsAs_bind (reloadApps_erases _ _ _) (log_of_talks (reloadApps_talks _ _ _))
  intro is
  apply endsAs_get
  intro s
  apply endsAs_bind (.beside _) (beside_log (stopApps_log _))
  intro _
  refine endsAs_bind (.beside _) (beside_log fun _ => rfl) ?_
  intro _ x hx
  have hlogger := initLogger_ends (E := E) config x hx
  -- the last message is nothing for the outcome
  rw [FailM.on_bind]
  generalize (initLogger E L config).on x = p at hlogger
  obtain ⟨r, y⟩ := p
  cases r <;> exact hlogger

theorem reloadFrom_ends (path : Option String) :
    EndsAs L (reloadFrom E L path) (Server.reloadFrom E path) :=
  endsAs_bind (.beside _) (beside_log fun _ => rfl) fun _ => reload_ends

/-- A call that throws throws anyway, or has replaced the delayed logger. -/
theorem threw_cases {n : LoggedM Unit} {m : ServerM Unit} (h : EndsAs L n m) (ht : Tracks n m)
    (hm : m.Wp Server.Chosen x.1) (hon : n.on x = (.error e, x')) :
    (∃ e', m.on x.1 = (.error e', x'.1)) ∨ m.on x.1 = (.ok (), x'.1) ∧ x'.1.log ≠ x.1.log := by
  have hstate := ht x
  have hsame := h x
  rw [hon] at hstate hsame
  rw [FailM.Wp] at hm
  generalize m.on x.1 = p at hstate hsame hm ⊢
  obtain ⟨r, s⟩ := p
  subst hstate
  cases r with
  | error e' => exact .inl ⟨e', rfl⟩
  | ok _ =>
    refine .inr ⟨rfl, ?_⟩
    intro hlog
    have hreplays : Replays L x := fun hd => absurd (hlog.trans hd) (hm rfl)
    cases hsame hreplays

end Logged

end CppAlls
