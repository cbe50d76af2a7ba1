import CppAlls.Server.Erasure
import CppAlls.Server.PlainYaml
import CppAlls.Server.Reload

namespace CppAlls
set_option autoImplicit true

open Failing Tables Machines Recording

theorem Message.text_ne (m : Message) : m.text ≠ "" := by
  have happend {s t : String} (hs : s ≠ "") : s ++ t ≠ "" :=
    fun he => hs (String.append_eq_empty_iff.mp he).1
  cases m with
  | failedOpening path what => exact happend (happend (happend (by decide)))
  | starting appType name => exact happend (happend (happend (happend (by decide))))
  | reloading instanceName => exact happend (happend (by decide))
  | resulting config => exact happend (by decide)

/-- Every message has been handed to a logger or is held, and in the order in which they were
logged; the ones that a logger had before it threw are there twice. -/
structure Kept (x : Server × Journal) (replayed : List LogRecord) : Prop where
  all : x.2.received.map Prod.snd ++ x.2.records = replayed ++ x.2.logged.map Message.record
  early : replayed <+: x.2.logged.map Message.record
  delayed : x.1.log = .delayedLogger → x.2.received = [] ∧ replayed = []
  handed : x.1.log ≠ .delayedLogger → x.2.records = []

namespace Journal

variable {Y : YamlCpp} {L : Loggers Y} {l : Log} {j : Journal}

def streamEach (L : Loggers Y) (l : Log) (ms : List Message) (j : Journal) : Journal :=
  ms.foldl (fun j m => j.stream L l m) j

theorem stream_delayed (m : Message) : j.stream L .delayedLogger m =
    { j with records := j.records ++ [m.record], logged := j.logged ++ [m] } := by
  rw [stream, if_neg m.text_ne]
  rfl

theorem stream_handed (h : l ≠ .delayedLogger) (m : Message) : j.stream L l m =
    { j with received := j.received ++ [(l, m.record)], logged := j.logged ++ [m] } := by
  rw [stream, if_neg m.text_ne]
  cases l with
  | delayedLogger => exact absurd rfl h
  | cppLogger => rfl
  | application app => rfl

theorem log_handed (h : l ≠ .delayedLogger) (r : LogRecord) :
    (j.log L l r).2 = { j with received := j.received ++ [(l, r)] } := by
  cases l with
  | delayedLogger => exact absurd rfl h
  | cppLogger => rfl
  | application app => rfl

/-- The calls of a replay are the first records, and all of them when no call throws. -/
theorem logEach_handed (h : l ≠ .delayedLogger) (rs : List LogRecord) (j : Journal) :
    ∃ sent, sent <+: rs ∧
      (j.logEach L l rs).2 = { j with received := j.received ++ sent.map (Prod.mk l) } ∧
      ((j.logEach L l rs).1 = none → sent = rs) := by
  induction rs generalizing j with
  | nil =>
    refine ⟨[], List.prefix_rfl, ?_, fun _ => rfl⟩
    rw [List.map_nil, List.append_nil]
    rfl
  | cons r rs ih =>
    have hlog := log_handed (L := L) (j := j) h r
    rw [logEach]
    generalize j.log L l r = p at hlog
    obtain ⟨e, j'⟩ := p
    subst hlog
    cases e with
    | some e => exact ⟨[r], ⟨rs, rfl⟩, rfl, fun he => by cases he⟩
    | none =>
      obtain ⟨sent, hsent, hj, hall⟩ := ih { j with received := j.received ++ [(l, r)] }
      refine ⟨r :: sent, List.cons_prefix_cons.mpr ⟨rfl, hsent⟩, ?_, ?_⟩
      · rw [hj, List.map_cons]
        simp only [List.append_assoc, List.singleton_append]
      · exact fun he => by rw [hall he]

theorem logEach_accepts (hL : L.Accepts) (rs : List LogRecord) (j : Journal) :
    (j.logEach L l rs).1 = none := by
  induction rs generalizing j with
  | nil => rfl
  | cons r rs ih =>
    have hlog : (j.log L l r).1 = none := by
      cases l with
      | delayedLogger => rfl
      | cppLogger => rfl
      | application app => exact hL _ _ _
    rw [logEach]
    generalize j.log L l r = p at hlog
    obtain ⟨e, j'⟩ := p
    subst hlog
    exact ih j'

/-- The standard error output takes every record. -/
theorem destroyDelayed_eq (j : Journal) : j.destroyDelayed L =
    { records := [], received := j.received ++ j.records.map (Prod.mk .cppLogger),
      logged := j.logged } := by
  have hall (rs : List LogRecord) (j : Journal) : j.logEach L .cppLogger rs =
      (none, { j with received := j.received ++ rs.map (Prod.mk .cppLogger) }) := by
    induction rs generalizing j with
    | nil =>
      rw [List.map_nil, List.append_nil]
      rfl
    | cons r rs ih =>
      rw [logEach, log]
      simp only []
      rw [ih, List.map_cons]
      simp only [List.append_assoc, List.singleton_append]
  rw [destroyDelayed, reset, hall]

theorem logged_streamEach (ms : List Message) (j : Journal) :
    (j.streamEach L l ms).logged = j.logged ++ ms := by
  induction ms generalizing j with
  | nil => exact (List.append_nil _).symm
  | cons m ms ih =>
    have hlogged : (j.stream L l m).logged = j.logged ++ [m] := by
      by_cases h : l = .delayedLogger
      · rw [h, stream_delayed]
      · rw [stream_handed h]
    rw [streamEach, List.foldl_cons, ← streamEach, ih, hlogged, ← List.append_cons]

end Journal

theorem Kept.stream {L : Loggers Y} (h : Kept x replayed) (hlog : s.log = x.1.log) (m : Message) :
    Kept (s, x.2.stream L x.1.log m) replayed := by
  by_cases hd : x.1.log = .delayedLogger
  · rw [hd, Journal.stream_delayed]
    refine ⟨?_, ?_, fun _ => h.delayed hd, fun hn => absurd (hlog.trans hd) hn⟩
    · rw [← List.append_assoc, h.all, List.map_append, List.map_singleton, List.append_assoc]
    · rw [List.map_append]
      exact h.early.trans (List.prefix_append _ _)
  · rw [Journal.stream_handed hd]
    have hrecords := h.handed hd
    have hall := h.all
    rw [hrecords, List.append_nil] at hall
    refine ⟨?_, ?_, fun hn => absurd (hlog.symm.trans hn) hd, fun _ => hrecords⟩
    · rw [hrecords, List.append_nil, List.map_append, List.map_singleton, hall, List.map_append,
        List.map_singleton, List.append_assoc]
    · rw [List.map_append]
      exact h.early.trans (List.prefix_append _ _)

theorem Kept.streamEach {L : Loggers Y} (h : Kept x replayed) (hlog : s.log = x.1.log)
    (ms : List Message) : Kept (s, x.2.streamEach L x.1.log ms) replayed := by
  induction ms generalizing x with
  | nil =>
    refine ⟨h.all, h.early, fun hn => h.delayed (hlog.symm.trans hn), ?_⟩
    exact fun hn => h.handed (hlog ▸ hn)
  | cons m ms ih => exact ih (h.stream (s := x.1) rfl m) hlog

namespace Logged

variable {Y : YamlCpp} {E : Surroundings Y} {L : Loggers Y}

/-- Messages were logged, and the logger is the same. -/
def Talks (L : Loggers Y) (x x' : Server × Journal) : Prop :=
  x'.1.log = x.1.log ∧ ∃ ms, x'.2 = x.2.streamEach L x.1.log ms

theorem Talks.refl (x : Server × Journal) : Talks L x x := ⟨rfl, [], rfl⟩

theorem Talks.trans (h : Talks L x x') (h' : Talks L x' x'') : Talks L x x'' := by
  obtain ⟨hlog, ms, hms⟩ := h
  obtain ⟨hlog', ms', hms'⟩ := h'
  refine ⟨hlog'.trans hlog, ms ++ ms', ?_⟩
  rw [hms', hms, hlog, Journal.streamEach, Journal.streamEach, ← List.foldl_append]
  rfl

/-- A search logs the binaries that it could not open. It does not see the server. -/
def SearchTalks (L : Loggers Y) (l : Log) (x x' : AppToPath × Journal) : Prop :=
  ∃ failed : List (String × String),
    x'.2 = x.2.streamEach L l (failed.map fun p => .failedOpening p.1 p.2)

theorem SearchTalks.refl (x : AppToPath × Journal) : SearchTalks L l x x := ⟨[], rfl⟩

theorem SearchTalks.trans (h : SearchTalks L l x x') (h' : SearchTalks L l x' x'') :
    SearchTalks L l x x'' := by
  obtain ⟨failed, hms⟩ := h
  obtain ⟨failed', hms'⟩ := h'
  refine ⟨failed ++ failed', ?_⟩
  rw [hms', hms, List.map_append, Journal.streamEach, Journal.streamEach, ← List.foldl_append]
  rfl

theorem search_talks (m : FailM ServerExn AppToPath α) :
    Moves (SearchTalks L l) (beside m : SearchM α) :=
  fun _ => ⟨[], rfl⟩

theorem searchInBinary_talks (p : String) :
    Moves (SearchTalks L l) (searchInBinary E L l p) := by
  intro x
  rw [searchInBinary]
  cases E.symbols p with
  | ok apps => exact search_talks _ x
  | error e => exact ⟨[(p, e.what)], rfl⟩

theorem findAppsInEntry_talks (configPath entry : String) :
    Moves (SearchTalks L l) (findAppsInEntry E L l configPath entry) := by
  rw [findAppsInEntry]
  generalize E.members (E.resolve configPath entry) = listing
  obtain ⟨ms, e⟩ := listing
  apply Moves.bind fun _ _ _ => .trans
  · apply Moves.forM .refl fun _ _ _ => .trans
    intro m
    by_cases hm : E.isSkipped m = true
    · rw [if_pos hm]
      exact .pure .refl ()
    · rw [if_neg hm]
      exact searchInBinary_talks m
  · intro _
    have hfile : Moves (SearchTalks L l) (if E.isFile (E.resolve configPath entry) then
        searchInBinary E L l (E.resolve configPath entry) else pure ()) := by
      by_cases hp : E.isFile (E.resolve configPath entry) = true
      · rw [if_pos hp]
        exact searchInBinary_talks _
      · rw [if_neg hp]
        exact .pure .refl ()
    cases e with
    | some e => exact .bind (fun _ _ _ => .trans) (.throw .refl e) fun _ => hfile
    | none => exact hfile

theorem fillAppsToPath_talks (configPath : String) (config : Y.Node) :
    Moves (SearchTalks L l) (fillAppsToPath E L l configPath config) := by
  have htrans (x x' x'' : AppToPath × Journal) (h : SearchTalks L l x x')
      (h' : SearchTalks L l x' x'') : SearchTalks L l x x'' := h.trans h'
  apply Moves.bind htrans (.ofExcept .refl _)
  intro apps
  apply Moves.bind htrans (search_talks _)
  intro _
  apply Moves.bind htrans (.ofExcept .refl _)
  intro core
  apply Moves.bind htrans (.ofExcept .refl _)
  intro bins
  apply Moves.bind htrans (.ofExcept .refl _)
  intro scalar
  cases scalar with
  | true =>
    exact .bind htrans (.ofExcept .refl _) fun entry => findAppsInEntry_talks _ entry
  | false =>
    apply Moves.bind htrans (.ofExcept .refl _)
    intro sequence
    cases sequence with
    | true =>
      apply Moves.forM .refl htrans
      exact fun v => .bind htrans (.ofExcept .refl _) fun entry => findAppsInEntry_talks _ entry
    | false =>
      by_cases hd : (!Y.isDefined bins) = true
      · simp only [if_pos hd]
        exact findAppsInEntry_talks _ _
      · simp only [if_neg hd]
        exact .throw .refl _

/-- An action of the server that keeps its logger. -/
theorem beside_talks {m : ServerM α} (h : Moves (fun s s' => s'.log = s.log) m) :
    Moves (Talks L) (beside m) :=
  fun x => ⟨h x.1, [], rfl⟩

theorem modify_talks (g : Server → Server) (hg : ∀ s, (g s).log = s.log) :
    Moves (Talks L) (beside (modify g) : LoggedM PUnit) :=
  fun x => ⟨hg x.1, [], rfl⟩

theorem say_talks (m : Message) : Moves (Talks L) (say L m) := fun _ => ⟨rfl, [m], rfl⟩

theorem get_talks {f : Server → LoggedM α} (h : ∀ s, Moves (Talks L) (f s)) :
    Moves (Talks L) (beside get >>= f) :=
  fun x => wp_get_bind (h x.1 x)

theorem lifecycle_log (self : Nat) (call : LifecycleCall) (body : AppBody) :
    Moves (fun s s' : Server => s'.log = s.log) (Server.lifecycle self call body) := by
  intro s
  rw [FailM.Wp, Server.lifecycle_ran]
  rfl

theorem bind_talks {n : LoggedM α} {f : α → LoggedM β} (h : Moves (Talks L) n)
    (hf : ∀ a, Moves (Talks L) (f a)) : Moves (Talks L) (n >>= f) :=
  .bind (fun _ _ _ => .trans) h hf

theorem ofExcept_talks {r : Except ServerExn α} {f : α → LoggedM β}
    (hf : ∀ a, Moves (Talks L) (f a)) : Moves (Talks L) (FailM.ofExcept r >>= f) :=
  bind_talks (.ofExcept .refl r) hf

/-- An update of the state that was read before. -/
theorem set_talks {g : Server → Server} (hg : ∀ s, (g s).log = s.log) {f : Server → LoggedM α}
    (h : ∀ s, Moves (Talks L) (f s)) :
    Moves (Talks L) (beside get >>= fun s => beside (set (g s)) >>= fun _ => f s) := by
  intro x
  rw [FailM.Wp, on_get_bind, FailM.on_bind_ok (on_beside _ _)]
  have hset : Talks L x (g x.1, x.2) := ⟨hg x.1, [], rfl⟩
  exact hset.trans (h x.1 (g x.1, x.2))

theorem startInstance_talks (appNode : Y.Node) (m : AppToPath) (is : Instances) :
    Moves (Talks L) (startInstance E L appNode m is) := by
  apply ofExcept_talks
  intro appType
  cases m.lookup appType with
  | none => exact .throw .refl _
  | some path =>
    apply ofExcept_talks
    intro _
    apply set_talks (g := fun s => { s with objects := s.objects ++ [appType] }) (fun _ => rfl)
    intro s
    apply ofExcept_talks
    intro name
    apply bind_talks (say_talks _)
    intro _
    apply bind_talks (beside_talks (lifecycle_log _ _ _))
    intro _
    apply ofExcept_talks
    intro instanceName
    by_cases hin : instanceName ∈ is
    · rw [if_pos hin]
      exact bind_talks (.throw .refl _) fun _ => .pure .refl _
    · rw [if_neg hin]
      exact .pure .refl _

theorem instanceConstruct_talks (config : String) :
    Moves (Talks L) (instanceConstruct E L config) := by
  apply ofExcept_talks
  intro appNode
  apply get_talks
  intro s
  apply bind_talks (startInstance_talks appNode _ _)
  intro x
  exact bind_talks (modify_talks _ fun _ => rfl) fun _ => .pure .refl _

theorem startApps_talks (appNodes : List Y.Node) : Moves (Talks L) (startApps E L appNodes) := by
  induction appNodes with
  | nil => exact .pure .refl ()
  | cons appNode appNodes ih =>
    apply get_talks
    intro s
    apply bind_talks (startInstance_talks appNode _ _)
    intro x
    exact bind_talks (modify_talks _ fun _ => rfl) fun _ => ih

theorem reloadApp_talks (m : AppToPath) (is : Instances) (appNode : Y.Node) :
    Moves (Talks L) (reloadApp E L m is appNode) := by
  apply ofExcept_talks
  intro name
  apply get_talks
  intro s
  cases s.instances.lookup name with
  | some app =>
    apply bind_talks (say_talks _)
    intro _
    exact bind_talks (beside_talks (lifecycle_log _ _ _)) fun _ => .pure .refl _
  | none =>
    apply bind_talks (startInstance_talks appNode m is)
    rintro ⟨is', a⟩
    simp only []
    cases is'.lookup name with
    | some app => exact bind_talks (modify_talks _ fun _ => rfl) fun _ => .pure .refl _
    | none => exact .throw .refl _

theorem reloadApps_talks (m : AppToPath) (is : Instances) (appNodes : List Y.Node) :
    Moves (Talks L) (reloadApps E L m is appNodes) := by
  induction appNodes generalizing is with
  | nil => exact .pure .refl _
  | cons appNode appNodes ih => exact bind_talks (reloadApp_talks m is appNode) fun is' => ih is'

theorem newAppToPath_talks (configPath : String) (config : Y.Node) :
    Moves (Talks L) (newAppToPath E L configPath config) := by
  intro x
  obtain ⟨failed, hms⟩ := fillAppsToPath_talks (E := E) (L := L) (l := x.1.log) configPath config
    (∅, x.2)
  rw [FailM.Wp, newAppToPath, FailM.on_bind_ok (FailM.on_get _)]
  simp only []
  rw [FailM.on_bind_ok (FailM.on_set _ _), FailM.on_bind, FailM.on_ofExcept]
  generalize (fillAppsToPath E L x.1.log configPath config).on (∅, x.2) = p at hms ⊢
  obtain ⟨r, m, j⟩ := p
  cases r with
  | ok _ => exact ⟨rfl, _, hms⟩
  | error e => exact ⟨rfl, _, hms⟩

theorem stopApps_log (apps : List Nat) :
    Moves (fun s s' : Server => s'.log = s.log) (Server.stopApps E apps) := by
  intro s
  apply (Server.stopApps_outcome apps s).mono
  intro r s' h
  obtain ⟨_, _, rfl, _⟩ := h
  rfl

theorem stop_talks : Moves (Talks L) (beside (Server.stop E)) := by
  apply beside_talks
  intro s
  apply FailM.Wp.get_bind
  apply FailM.Wp.andThen (stopApps_log _ s)
  · exact fun _ _ h => h
  · exact fun _ _ h => h

theorem checkBinaries_log (m : AppToPath) :
    Moves (fun s s' : Server => s'.log = s.log) (Server.checkBinaries m) := by
  intro s
  apply (Server.checkBinaries_outcome m s).mono
  intro r s' h
  rw [h.1]

/-- The records that a call hands out twice are none when no application throws. -/
def Keeps (L : Loggers Y) (x x' : Server × Journal) : Prop :=
  ∀ replayed, Kept x replayed →
    ∃ replayed', Kept x' replayed' ∧ (L.Accepts → replayed = [] → replayed' = [])

theorem Keeps.trans (h : Keeps L x x') (h' : Keeps L x' x'') : Keeps L x x'' := by
  intro replayed hx
  obtain ⟨replayed', hx', hL⟩ := h replayed hx
  obtain ⟨replayed'', hx'', hL'⟩ := h' replayed' hx'
  exact ⟨replayed'', hx'', fun ha he => hL' ha (hL ha he)⟩

theorem Talks.keeps (h : Talks L x x') : Keeps L x x' := by
  intro replayed hx
  obtain ⟨hlog, ms, hms⟩ := h
  have hkept := hx.streamEach hlog (L := L) ms
  rw [← hms] at hkept
  exact ⟨replayed, hkept, fun _ he => he⟩

theorem says_keeps {n : LoggedM α} (h : Moves (Talks L) n) : Moves (Keeps L) n :=
  fun x => (h x).mono fun _ _ hx => hx.keeps

theorem bind_keeps {n : LoggedM α} {f : α → LoggedM β} (h : Moves (Talks L) n)
    (hf : ∀ a, Moves (Keeps L) (f a)) : Moves (Keeps L) (n >>= f) :=
  .bind (fun _ _ _ => .trans) (says_keeps h) hf

/-- The old logger is destroyed empty, or with everything that it had when the new one threw. -/
theorem takeOver_kept (hd : s.log = .delayedLogger) (h : Kept (s, j) replayed)
    (hnew : s'.log ≠ .delayedLogger) :
    ∃ replayed', Kept ((takeOver L).on (s', j)).2 replayed' ∧ (L.Accepts → replayed' = []) := by
  obtain ⟨hreceived, rfl⟩ := h.delayed hd
  have hall : j.records = j.logged.map Message.record := by
    have hall := h.all
    rw [hreceived] at hall
    exact hall
  obtain ⟨sent, hsent, hj, hdone⟩ := Journal.logEach_handed (L := L) hnew j.records j
  have hon : ((takeOver L).on (s', j)).2 = (s', (j.reset L s'.log).2.destroyDelayed L) := by
    rw [takeOver, FailM.on_bind_ok (FailM.on_get _)]
    simp only []
    rw [FailM.on_bind_ok (FailM.on_set _ _)]
    cases (j.reset L s'.log).1 with
    | none => rfl
    | some e => rfl
  rw [hreceived, List.nil_append] at hj
  have haccepts := fun hL => Journal.logEach_accepts (L := L) (l := s'.log) hL j.records j
  rw [hon, Journal.destroyDelayed_eq, Journal.reset]
  generalize j.logEach L s'.log j.records = p at hj hdone haccepts ⊢
  obtain ⟨e, j'⟩ := p
  subst hj
  cases e with
  | none =>
    have hsame := hdone rfl
    subst hsame
    refine ⟨[], ⟨?_, List.nil_prefix, fun hn => absurd hn hnew, fun _ => rfl⟩, fun _ => rfl⟩
    simp only [List.map_nil, List.append_nil, List.map_map, List.nil_append, ← hall]
    exact List.map_id _
  | some e =>
    refine ⟨sent, ⟨?_, hall ▸ hsent, fun hn => absurd hn hnew, fun _ => rfl⟩, ?_⟩
    · simp only [List.append_nil, List.map_append, List.map_map, ← hall]
      exact congrArg₂ (· ++ ·) (List.map_id _) (List.map_id _)
    · intro hL
      cases haccepts hL

theorem initLogger_chooses (config : Y.Node) (s : Server) :
    (Server.initLogger E config).Wp (fun r s' =>
      (r = .ok () → s'.log ≠ .delayedLogger) ∧ (r ≠ .ok () → s'.log = s.log)) s := by
  have herr {e : ServerExn} {s : Server} : ((.error e : Except ServerExn Unit) = .ok () →
      s.log ≠ .delayedLogger) ∧ ((.error e : Except ServerExn Unit) ≠ .ok () → s.log = s.log) :=
    ⟨(fun h => by cases h), fun _ => rfl⟩
  apply FailM.Wp.ofExcept_bind
  · intro core _
    apply FailM.Wp.ofExcept_bind
    · intro logger _
      by_cases hdef : Y.isDefined logger = true
      · simp only [hdef, ↓reduceIte]
        apply FailM.Wp.ofExcept_bind
        · intro name _
          apply FailM.Wp.andThen (Server.getLogger_outcome E.isLogger name s)
          · intro app _ _
            exact ⟨(fun _ h => by cases h), fun h => absurd rfl h⟩
          · intro e _ hs
            rw [hs]
            exact herr
        · exact fun _ _ => herr
      · simp only [hdef]
        exact ⟨(fun _ h => by cases h), fun h => absurd rfl h⟩
    · exact fun _ _ => herr
  · exact fun _ _ => herr

theorem initLogger_keeps (config : Y.Node) : Moves (Keeps L) (initLogger E L config) := by
  intro x replayed hx
  have hchoice := initLogger_chooses (E := E) config x.1
  rw [initLogger, on_get_bind, FailM.on_bind, on_beside]
  rw [FailM.Wp] at hchoice
  generalize (Server.initLogger E config).on x.1 = p at hchoice ⊢
  obtain ⟨r, s⟩ := p
  cases r with
  | error e =>
    have hlog : s.log = x.1.log := hchoice.2 (fun h => by cases h)
    exact ⟨replayed, hx.streamEach hlog (L := L) [], fun _ he => he⟩
  | ok _ =>
    have hnew : s.log ≠ .delayedLogger := hchoice.1 rfl
    by_cases hd : x.1.log = .delayedLogger
    · simp only [if_pos hd]
      obtain ⟨replayed', h, hL⟩ := takeOver_kept (L := L) hd hx hnew
      exact ⟨replayed', h, fun ha _ => hL ha⟩
    · simp only [if_neg hd]
      exact ⟨replayed, ⟨hx.all, hx.early, fun hn => absurd hn hnew, fun _ => hx.handed hd⟩,
        fun _ he => he⟩

theorem start_keeps (path : String) : Moves (Keeps L) (start E L path) := by
  apply bind_keeps (modify_talks (fun s => { s with configPath := path }) fun _ => rfl)
  intro _
  apply bind_keeps (.ofExcept .refl _)
  intro config x
  apply wp_get_bind
  have hsearch (l : Log) (x : Server × Journal) (hl : x.1.log = l) :
      ((fillAppsToPath E L l path config).part (fun x : Server × Journal => (x.1.appToPath, x.2))
        (fun x y => ({ x.1 with appToPath := y.1 }, y.2))).Wp (fun _ x' => Keeps L x x') x := by
    obtain ⟨failed, hms⟩ := fillAppsToPath_talks (E := E) (L := L) (l := l) path config
      (x.1.appToPath, x.2)
    subst hl
    exact Talks.keeps ⟨rfl, _, hms⟩
  apply FailM.Wp.andThen (hsearch x.1.log x rfl)
  · intro _ x₁ h₁
    apply FailM.Wp.ofExcept_bind
    · intro apps _
      apply (bind_keeps (startApps_talks _) fun _ => initLogger_keeps config) x₁ |>.mono
      exact fun _ _ h₂ => h₁.trans h₂
    · exact fun _ _ => h₁
  · exact fun _ _ h => h

theorem get_keeps {f : Server → LoggedM α} (h : ∀ s, Moves (Keeps L) (f s)) :
    Moves (Keeps L) (beside get >>= f) :=
  fun x => wp_get_bind (h x.1 x)

theorem reload_keeps : Moves (Keeps L) (reload E L) := by
  apply get_keeps
  intro s
  apply bind_keeps (.ofExcept .refl _)
  intro config
  apply bind_keeps (newAppToPath_talks _ _)
  intro m
  apply bind_keeps (beside_talks (checkBinaries_log m))
  intro _
  apply bind_keeps (.ofExcept .refl _)
  intro apps
  apply bind_keeps (reloadApps_talks _ _ _)
  intro is
  apply get_keeps
  intro s
  apply bind_keeps (beside_talks (stopApps_log _))
  intro _
  apply bind_keeps (modify_talks (fun s => { s with instances := is, appToPath := m }) fun _ => rfl)
  intro _
  apply Moves.bind (fun _ _ _ => .trans) (initLogger_keeps config)
  exact fun _ => says_keeps (say_talks _)

theorem run_keeps (i : LoggedInput Y) : Moves (Keeps i.loggers) i.run := by
  obtain ⟨i, L⟩ := i
  cases i with
  | start E path => exact start_keeps path
  | stop E => exact says_keeps stop_talks
  | reload E path => exact bind_keeps (modify_talks _ fun _ => rfl) fun _ => reload_keeps
  | construct E config =>
    exact bind_keeps (instanceConstruct_talks config) fun _ => says_keeps (.pure .refl ())
  | free name => exact says_keeps (beside_talks fun _ => rfl)

theorem kept_init : Kept (loggedMachine Y).init [] where
  all := rfl
  early := List.nil_prefix
  delayed _ := ⟨rfl, rfl⟩
  handed h := absurd rfl h

end Logged

/-- In every run, whatever the loggers do, each message of the server is with a logger or held by
the delayed logger, in the order in which they were logged. The first ones can have been handed out
twice, and nothing is held once a logger was chosen. -/
theorem messages_delivered {x : Server × Journal}
    (h : (loggedMachine Y).Reachable (fun _ _ => True) x) :
    ∃ replayed, replayed <+: x.2.logged.map Message.record ∧
      x.2.received.map Prod.snd ++ x.2.records = replayed ++ x.2.logged.map Message.record ∧
      (x.1.log ≠ .delayedLogger → x.2.records = []) := by
  have hkept : ∃ replayed, Kept x replayed := by
    apply h.invariant ⟨[], Logged.kept_init⟩
    intro x i hx _ _
    obtain ⟨replayed, hx⟩ := hx
    obtain ⟨replayed', hx', _⟩ := Logged.run_keeps i x replayed hx
    exact ⟨replayed', hx'⟩
  obtain ⟨replayed, hx⟩ := hkept
  exact ⟨replayed, hx.early, hx.all, hx.handed⟩

/-- Loggers of which none throws, or every application does. -/
def plainLoggers (throws : Option ServerExn) : Loggers plainYaml where
  log _ _ _ := throws
  dump _ := ""

def chosenLogger : PlainNode :=
  .map [("core", .map [("binaries", .sequence []), ("logger", .scalar "cpp_logger")]),
    ("applications", .sequence [loggerNode])]

def startChosen (throws : Option ServerExn) : LoggedInput plainYaml where
  input := .start (plainSurroundings chosenLogger) "config.yaml"
  loggers := plainLoggers throws

def chosenThrew : Server × Journal :=
  (loggedMachine plainYaml).next ({}, {}) (startChosen (some (.std "disk full")))

/-- The application that is to be the logger throws: its one message goes to the error output. -/
theorem chosenThrew_delivered :
    (∃ replayed, replayed <+: chosenThrew.2.logged.map Message.record ∧
      chosenThrew.2.received.map Prod.snd ++ chosenThrew.2.records =
        replayed ++ chosenThrew.2.logged.map Message.record ∧
      (chosenThrew.1.log ≠ .delayedLogger → chosenThrew.2.records = [])) ∧
    chosenThrew.2.received.map Prod.fst = [.application 0, .cppLogger] :=
  ⟨messages_delivered (.step (i := startChosen _) .init trivial trivial), by decide +kernel⟩

/-- When no application throws as it logs, nothing is handed out twice. -/
theorem messages_delivered_once {x : Server × Journal}
    (h : (loggedMachine Y).Reachable (fun _ i => i.loggers.Accepts) x) :
    x.2.received.map Prod.snd ++ x.2.records = x.2.logged.map Message.record := by
  have hkept : Kept x [] := by
    apply h.invariant Logged.kept_init
    intro x i hx _ hL
    obtain ⟨replayed, hx', hnone⟩ := Logged.run_keeps i x [] hx
    rw [hnone hL rfl] at hx'
    exact hx'
  exact hkept.all

def chosenStarted : Server × Journal :=
  (loggedMachine plainYaml).next ({}, {}) (startChosen none)

theorem chosenStarted_delivered_once :
    chosenStarted.2.received.map Prod.snd ++ chosenStarted.2.records =
      chosenStarted.2.logged.map Message.record :=
  messages_delivered_once (.step (i := startChosen none) .init trivial fun _ _ _ => rfl)

/-- A server that is destroyed leaves no message behind. -/
theorem destroyed_delivered {x : Server × Journal} (E : Surroundings Y) (L : Loggers Y)
    (h : (loggedMachine Y).Reachable (fun _ _ => True) x)
    (hj : Logged.destroyServer E L x = some j) :
    ∃ replayed, replayed <+: j.logged.map Message.record ∧
      j.received.map Prod.snd = replayed ++ j.logged.map Message.record := by
  obtain ⟨replayed, hearly, hall, hheld⟩ := messages_delivered h
  refine ⟨replayed, ?_⟩
  have hlog : ((Server.stop E).on x.1).2.log = x.1.log :=
    (Logged.stop_talks (E := E) (L := L) x).1
  rw [Logged.destroyServer] at hj
  generalize (Server.stop E).on x.1 = p at hj hlog
  obtain ⟨r, s⟩ := p
  cases r with
  | error e => cases hj
  | ok _ =>
    obtain rfl := Option.some.inj hj
    by_cases hd : s.log = .delayedLogger
    · rw [if_pos hd, Journal.destroyDelayed_eq, List.map_append, List.map_map]
      have hid : x.2.records.map (Prod.snd ∘ Prod.mk Log.cppLogger) = x.2.records := List.map_id _
      rw [hid]
      exact ⟨hearly, hall⟩
    · have hrecords := hheld (fun hn => hd (hlog.trans hn))
      rw [hrecords, List.append_nil] at hall
      rw [if_neg hd]
      exact ⟨hearly, hall⟩

def unknownStarted : Server × Journal :=
  (loggedMachine plainYaml).next ({}, {})
    ⟨.start (plainSurroundings (loggerConfig [loggerNode, .map [("type", .scalar "unknown")]]))
      "config.yaml", plainLoggers none⟩

/-- A server that never came to choose a logger writes to the error output when it goes. -/
theorem unknownStarted_destroyed :
    ∃ j, Logged.destroyServer (plainSurroundings .undefined) (plainLoggers none) unknownStarted =
        some j ∧ ∃ replayed, replayed <+: j.logged.map Message.record ∧
      j.received.map Prod.snd = replayed ++ j.logged.map Message.record := by
  have hsome : (Logged.destroyServer (plainSurroundings .undefined) (plainLoggers none)
      unknownStarted).isSome = true := by decide +kernel
  obtain ⟨j, hj⟩ := Option.isSome_iff_exists.mp hsome
  exact ⟨j, hj, destroyed_delivered _ _
    (.step (i := ⟨.start _ "config.yaml", plainLoggers none⟩) .init trivial trivial) hj⟩

end CppAlls
