import Bifrost.Bootstrap.RoundUps
import Bifrost.Bootstrap.Window
import Bifrost.Events.Triples
import Bifrost.Loop.Watch

/-!
# The start of a process

`Relayer.run_relayer` stores the latest round and registers the last rounds, and
then chainpy makes the feed and bootstraps both kinds of events from the logs it
has collected (`Relayer.boot`). A start signs and sends nothing, and leaves the
logs; the events that it queues are in send mode, hold the messages of their
logs and have logs of their own (`Relayer.boot_ok`). It returns exactly where its
reads are answered and both bootstraps get through the logs
(`Relayer.boot_returns_iff`).
-/

namespace Bifrost

open Bifrost.Lib Proc

namespace Relayer

/-- The feed that a relayer registers, unless it is fast. -/
def registerFeed (timeLock : Nat) : RM Unit := do
  let cfg ← RM.getConfig
  if cfg.isFastRelayer then pure ()
  else RM.logged (VSPFeed.construct VSPFeed.validatorSetCheckPeriodSec timeLock none)

/-- `run_relayer`, up to the first event of the loop. -/
def boot (order : Comparison RbcEvent) (roundUpOrder : Comparison RoundUpEvent) (timeLock : Nat)
    (refs : List Ref) (roundUps : List RoundUpLog) :
    RM (List RbcEvent × List RoundUpEvent) := do
  start
  registerFeed timeLock
  let rbcEvents ← RbcEvent.bootstrap order refs
  let roundUpEvents ← RoundUpEvent.bootstrap roundUpOrder roundUps
  pure (rbcEvents, roundUpEvents)

end Relayer

variable {env : Env} {s s' : RState} {w : List Effect}

/-! ## Bootstrapped events -/

/-- The request of a log. -/
def DetectedEvent.rid (log : DetectedEvent) : RequestId :=
  ⟨log.decoded.chain, log.decoded.roundId.val, log.decoded.sequence.val⟩

namespace RbcEvent

/-- An event as the bootstrap makes it of the log at one of the references. -/
structure Fresh (refs : List Ref) (s : RState) (e : RbcEvent) : Prop where
  ref : e.detectedEvent ∈ refs
  msg : e.msg = (s.heap e.detectedEvent).decoded
  mode : e.mode = .send

theorem initAll_fresh {refs : List Ref} {events : List RbcEvent}
    (h : initAll refs env s = ⟨.ok events, s', w⟩) : ∀ e ∈ events, e.Fresh refs s := by
  induction refs generalizing events s' w with
  | nil =>
    obtain ⟨rfl, -, -⟩ := Proc.pure_ok h
    exact fun e he => by cases he
  | cons ref refs ih =>
    obtain ⟨e, s₁, w₁, w₂, h₁, h₂, -⟩ := Proc.bind_ok h
    obtain ⟨⟨href, hmsg, hmode⟩, rfl, -⟩ := init_ok h₁
    obtain ⟨rest, s₂, w₃, w₄, h₃, h₄, -⟩ := Proc.bind_ok h₂
    obtain ⟨rfl, -, -⟩ := Proc.pure_ok h₄
    intro e' he'
    rcases List.mem_cons.mp he' with rfl | he'
    · exact ⟨href ▸ List.mem_cons_self, href ▸ hmsg, hmode⟩
    · obtain ⟨href', hmsg', hmode'⟩ := ih h₃ e' he'
      exact ⟨List.mem_cons_of_mem _ href', hmsg', hmode'⟩

/-- One event for each request has one event for each log. -/
theorem nodup_refs {refs : List Ref} {events : List RbcEvent}
    (hfresh : ∀ e ∈ events, e.Fresh refs s) (hnodup : (events.map rid).Nodup) :
    (events.map detectedEvent).Nodup := by
  have hrid : events.map rid = (events.map detectedEvent).map fun ref => (s.heap ref).rid := by
    rw [List.map_map]
    refine List.map_congr_left fun e he => ?_
    show e.rid = (s.heap e.detectedEvent).rid
    rw [rid, (hfresh e he).msg]
    rfl
  rw [hrid] at hnodup
  exact hnodup.of_map fun ref => (s.heap ref).rid

theorem initAll_refs {refs : List Ref} {events : List RbcEvent}
    (h : initAll refs env s = ⟨.ok events, s', w⟩) : events.map detectedEvent = refs := by
  induction refs generalizing events s' w with
  | nil =>
    obtain ⟨rfl, -, -⟩ := Proc.pure_ok h
    rfl
  | cons ref refs ih =>
    obtain ⟨e, s₁, w₁, w₂, h₁, h₂, -⟩ := Proc.bind_ok h
    obtain ⟨⟨href, -, -⟩, rfl, -⟩ := init_ok h₁
    obtain ⟨rest, s₂, w₃, w₄, h₃, h₄, -⟩ := Proc.bind_ok h₂
    obtain ⟨rfl, -, -⟩ := Proc.pure_ok h₄
    rw [List.map_cons, href, ih h₃]

/-- How a bootstrap comes by the events that it returns. -/
structure Selects (env : Env) (refs : List Ref) (s : RState) (R : Nat)
    (made events : List RbcEvent) : Prop where
  roundCache : s.roundCache = some R
  detected : initAll refs env s = ⟨.ok made, s, []⟩
  kept : ∃ latest, Reduction env.cfg.network made latest ∧
    events = (latest.filter (·.IsKept env.cfg R)).map (stamped (env.msec s.now))

theorem bootstrap_selects {order : Comparison RbcEvent} {refs : List Ref} {events : List RbcEvent}
    (h : bootstrap order refs env s = ⟨.ok events, s', w⟩) :
    s' = s ∧ w = [] ∧ ∃ R made, Selects env refs s R made events := by
  obtain ⟨made, s₁, w₁, w₂, h₁, h₂, rfl⟩ := Proc.bind_ok h
  obtain ⟨rfl, rfl⟩ := initAll_ok h₁
  obtain ⟨latest, s₂, w₃, w₄, h₃, h₄, rfl⟩ := Proc.bind_ok h₂
  obtain ⟨hknown, ⟨ms, hms, rfl⟩, rfl, rfl⟩ := removeFinalizedRids_ok h₃
  have hred := reduction_of_groups hknown hms
  rw [Proc.bind_run, Proc.get_run, Res.andThen_ok, Res.after_nil] at h₄
  obtain ⟨R, s₃, w₅, w₆, h₅, h₆, rfl⟩ := Proc.bind_ok h₄
  obtain ⟨hR, rfl, rfl⟩ := Proc.ofOption_ok h₅
  have hchain : ∀ e ∈ ms.filter (!·.isFinalized), (e.srcChain? env.cfg.network).isSome :=
    fun e he => hknown e (hred.latest e he).1.1
  have hloop := notHandled_run (s := s₃) (R := R) hchain
  have hmin : (R : Int) - Relayer.BIFROST_VALIDATOR_HISTORY_LIMIT_BLOCKS = (R : Int) - 6 := rfl
  rw [hmin, Proc.bind_run, hloop, Res.andThen_ok, Res.after_nil] at h₆
  obtain ⟨_, s₄, w₇, w₈, h₇, h₈, rfl⟩ := Proc.bind_ok h₆
  rw [summaries_run] at h₇
  · cases h₇
    obtain ⟨rfl, rfl, rfl⟩ := Proc.pure_ok h₈
    exact ⟨rfl, rfl, R, made, hR, h₁, _, hred, rfl⟩
  · intro e he
    obtain ⟨m, hm, rfl⟩ := List.mem_map.mp he
    exact hchain m (List.mem_filter.mp hm).1

namespace Selects

variable {refs : List Ref} {R : Nat} {made events : List RbcEvent}
  (h : Selects env refs s R made events)

include h

theorem fresh : ∀ e ∈ events, e.Fresh refs s ∧ (env.cfg.isFastRelayer → e.status = .accepted) := by
  obtain ⟨latest, hred, rfl⟩ := h.kept
  intro e he
  obtain ⟨m, hm, rfl⟩ := List.mem_map.mp he
  obtain ⟨hm, hkept⟩ := List.mem_filter.mp hm
  have hf := initAll_fresh h.detected m (hred.latest m hm).1.1
  exact ⟨⟨hf.ref, hf.msg, hf.mode⟩, (of_decide_eq_true hkept).2⟩

theorem nodup_rids : (events.map rid).Nodup := by
  obtain ⟨latest, hred, rfl⟩ := h.kept
  rw [List.map_map]
  exact hred.nodup.sublist (List.filter_sublist.map _)

/-- An unfinished request of the last rounds is taken up, with one of its latest logs. -/
theorem resumes (hslow : env.cfg.isFastRelayer = false) {e : RbcEvent} (he : e ∈ made)
    (hopen : ∀ e' ∈ made, e'.rid = e.rid → e'.isFinalized = false) (hrecent : e.IsRecent R) :
    ∃ d ∈ events, d.rid = e.rid ∧ ∀ e' ∈ made, e'.rid = d.rid →
      (d.rid.direction env.cfg.network).rank e'.status ≤
        (d.rid.direction env.cfg.network).rank d.status := by
  obtain ⟨latest, hred, rfl⟩ := h.kept
  obtain ⟨m, hm, hrid⟩ := hred.complete e he hopen
  have hround : m.msg.roundId.val = e.msg.roundId.val := congrArg RequestId.rnd hrid
  have hkept : m.IsKept env.cfg R := by
    refine ⟨?_, fun hfast => absurd hfast (by simp [hslow])⟩
    unfold IsRecent at *
    rwa [hround]
  exact ⟨_, List.mem_map_of_mem (List.mem_filter.mpr ⟨hm, decide_eq_true hkept⟩), hrid,
    (hred.latest m hm).1.2⟩

end Selects

end RbcEvent

/-! ## The start -/

/-- The logs are `h`. -/
def LogsAre (h : Ref → DetectedEvent) (s : RState) : Prop := s.heap = h

instance (h : Ref → DetectedEvent) : Framed (LogsAre h) where
  frame := fun _ _ hheap _ _ hs => hheap.trans hs

/-- Signs and sends nothing. -/
abbrev issuingNothing : Policy Exn Effect :=
  issuing (fun _ => True) (fun _ => False) fun _ => False

section Start

variable {h : Ref → DetectedEvent}

theorem triple_registerRounds (rnds : List Int) :
    Triple issuingNothing env (LogsAre h) (Relayer.registerRounds rnds) fun _ => LogsAre h := by
  induction rnds with
  | nil => exact .pure fun _ hs => hs
  | cons rnd rnds ih =>
    refine .bind (.bind (triple_fetchRelayerIndex (fun _ _ => trivial) _ _ _) fun i =>
      triple_setValueByKey _ _) fun _ => ih

theorem triple_start :
    Triple issuingNothing env (LogsAre h) Relayer.start fun _ => LogsAre h := by
  refine .bind ((triple_worldCall (fun _ _ => trivial) _ _ _).weaken fun _ _ hs => hs.2)
    fun rnd => .bind (.modify (Q := fun _ => LogsAre h) fun _ hs => hs) fun _ => ?_
  refine .bind (.get (Q := fun _ => LogsAre h) fun _ hs => hs) fun st => ?_
  exact .bind (.ofOption (Q := fun _ => LogsAre h) (fun _ => trivial) fun _ _ _ hs => hs)
    fun R => triple_registerRounds _

theorem triple_bottomLoop (chains : List ChainEnum) (n : Nat) :
    Triple issuingNothing env (LogsAre h) (RM.bottomLoop chains n) fun _ => LogsAre h := by
  induction chains generalizing n with
  | nil => exact .pure fun _ hs => hs
  | cons c chains ih =>
    exact .bind ((triple_worldCall (fun _ _ => trivial) _ _ _).weaken fun _ _ hs => hs.2)
      fun _ => ih _

theorem triple_newFeed (periodSec timeLock : Nat) : Triple issuingNothing env (LogsAre h)
    (VSPFeed.construct periodSec timeLock none) fun _ => LogsAre h := by
  refine .bind triple_getConfig fun cfg => .pull fun _ => .ite (fun _ => .throw trivial)
    fun _ => ?_
  refine .bind (.bind triple_getConfig fun _ => .pull fun _ => triple_bottomLoop _ _) fun _ => ?_
  exact .bind (.modify (Q := fun _ => LogsAre h) fun _ hs => hs) fun _ => .pure fun _ hs => hs

theorem triple_registerFeed (timeLock : Nat) :
    Triple issuingNothing env (LogsAre h) (Relayer.registerFeed timeLock) fun _ => LogsAre h :=
  .bind triple_getConfig fun _ => .pull fun _ => .ite (fun _ => .pure fun _ hs => hs)
    fun _ => .bind (triple_newFeed _ _) fun _ => .pure fun _ hs => hs

/-! ### The latest round -/

/-- The round that `run_relayer` has stored is `rnd`. -/
def RoundCacheIs (rnd : Option Nat) : Env → RState → Prop := fun _ s => s.roundCache = rnd

theorem keepsRoundCache_bottomLoop {rnd : Option Nat} (chains : List ChainEnum) (n : Nat) :
    Proc.Keeps (RoundCacheIs rnd) (RM.bottomLoop chains n) := by
  induction chains generalizing n with
  | nil => exact .pure n
  | cons c chains ih =>
    refine .bind (fun env s hs => ?_) fun _ => ih _
    rw [fetchLatestRound_run]
    exact hs

theorem keepsRoundCache_registerFeed {rnd : Option Nat} (timeLock : Nat) :
    Proc.Keeps (RoundCacheIs rnd) (Relayer.registerFeed timeLock) := by
  have hcfg : Proc.Keeps (RoundCacheIs rnd) RM.getConfig := .bind .ask fun _ => .pure _
  refine .bind hcfg fun cfg => .ite (.pure _) (.bind (.bind hcfg fun cfg => ?_) fun _ => .pure _)
  refine .ite (.throw _) (.bind (.bind hcfg fun _ => keepsRoundCache_bottomLoop _ _) fun _ => ?_)
  exact .bind (.modify fun _ _ hs => hs) fun _ => .pure _

/-- How a start comes by the events that it queues. -/
theorem Relayer.boot_selects {order : Comparison RbcEvent} {roundUpOrder : Comparison RoundUpEvent}
    {timeLock : Nat} {refs : List Ref} {roundUps : List RoundUpLog} {es : List RbcEvent}
    {us : List RoundUpEvent}
    (hboot : boot order roundUpOrder timeLock refs roundUps env s = ⟨.ok (es, us), s', w⟩) :
    s'.heap = s.heap ∧ (∀ o ∈ w, issuingNothing.emits o) ∧
      (∃ made, RbcEvent.Selects env refs s' ((env.view s.now).latestRound .bifrost) made es) ∧
      RoundUpEvent.Resumes env.cfg roundUps us := by
  obtain ⟨_, s₁, w₁, w₂, h₁, h₂, rfl⟩ := Proc.bind_ok hboot
  have hstart := (triple_start (h := s.heap)).ok rfl h₁
  have hround := (start_ok h₁).1
  obtain ⟨_, s₂, w₃, w₄, h₃, h₄, rfl⟩ := Proc.bind_ok h₂
  have hfed := (triple_registerFeed timeLock).ok hstart.1 h₃
  have hround' := keepsRoundCache_registerFeed timeLock env s₁ hround
  rw [h₃] at hround'
  obtain ⟨es', s₃, w₅, w₆, h₅, h₆, rfl⟩ := Proc.bind_ok h₄
  obtain ⟨rfl, rfl, R, made, hsel⟩ := RbcEvent.bootstrap_selects h₅
  obtain rfl := Option.some.inj (hsel.roundCache.symm.trans hround')
  obtain ⟨us', s₄, w₇, w₈, h₇, h₈, rfl⟩ := Proc.bind_ok h₆
  obtain ⟨hres, rfl, rfl⟩ := RoundUpEvent.bootstrap_ok h₇
  obtain ⟨heq, rfl, rfl⟩ := Proc.pure_ok h₈
  cases heq
  refine ⟨hfed.1, fun o ho => ?_, ⟨made, hsel⟩, hres⟩
  simp only [List.append_nil] at ho
  rcases List.mem_append.mp ho with ho | ho
  · exact hstart.2 o ho
  · exact hfed.2 o ho

/-- What a start leaves. -/
theorem Relayer.boot_ok {order : Comparison RbcEvent} {roundUpOrder : Comparison RoundUpEvent}
    {timeLock : Nat} {refs : List Ref} {roundUps : List RoundUpLog} {es : List RbcEvent}
    {us : List RoundUpEvent}
    (hboot : boot order roundUpOrder timeLock refs roundUps env s = ⟨.ok (es, us), s', w⟩) :
    (∀ o ∈ w, issuingNothing.emits o) ∧
      (∀ e ∈ es, e.Fresh refs s' ∧ (env.cfg.isFastRelayer → e.status = .accepted)) ∧
      (es.map RbcEvent.detectedEvent).Nodup ∧ RoundUpEvent.Resumes env.cfg roundUps us := by
  obtain ⟨-, hout, ⟨made, hsel⟩, hres⟩ := boot_selects hboot
  exact ⟨hout, hsel.fresh, RbcEvent.nodup_refs (fun e he => (hsel.fresh e he).1) hsel.nodup_rids,
    hres⟩

end Start

/-! ## When a start returns -/

theorem bottomLoop_returns_iff (chains : List ChainEnum) (n : Nat) :
    (∃ v s' w, RM.bottomLoop chains n env s = ⟨.ok v, s', w⟩) ↔
      env.Answers s.now chains.length := by
  induction chains generalizing n s with
  | nil => exact ⟨fun _ => Env.answers_zero _, fun _ => ⟨n, s, [], rfl⟩⟩
  | cons c chains ih =>
    rw [RM.bottomLoop, Proc.bind_returns_iff, List.length_cons, Env.answers_succ]
    constructor
    · rintro ⟨v, t, w, h, hrest⟩
      have hup := (worldCall_returns_iff c "latest_round" _).mp ⟨v, t, w, h⟩
      obtain ⟨-, rfl, -⟩ := worldCall_ok h
      exact ⟨hup, (ih _).mp hrest⟩
    · rintro ⟨hup, hrest⟩
      obtain ⟨v, t, w, h⟩ := (worldCall_returns_iff c "latest_round" _).mpr hup
      obtain ⟨-, rfl, -⟩ := worldCall_ok h
      exact ⟨v, _, w, h, (ih _).mpr hrest⟩

theorem newFeed_returns_iff (periodSec timeLock : Nat) :
    (∃ a s' w, VSPFeed.construct periodSec timeLock none env s = ⟨.ok a, s', w⟩) ↔
      .bifrost ∈ env.cfg.supportedChainList ∧
        env.Answers s.now env.cfg.supportedChainList.length := by
  rw [← bottomLoop_returns_iff _ (2 ^ 256 - 1), VSPFeed.construct, Proc.bind_run, getConfig_run,
    Res.andThen_ok, Res.after_nil]
  by_cases hb : .bifrost ∈ env.cfg.supportedChainList
  · simp only [hb, not_true_eq_false, if_false, true_and]
    rw [Proc.bind_returns_iff]
    exact ⟨fun ⟨v, t, w, h, _⟩ => ⟨v, t, w, h⟩, fun ⟨v, t, w, h⟩ => ⟨v, t, w, h, _, _, _, rfl⟩⟩
  · simp [hb]

namespace Relayer

theorem registerFeed_returns_iff (timeLock : Nat) :
    (∃ a s' w, registerFeed timeLock env s = ⟨.ok a, s', w⟩) ↔
      (env.cfg.isFastRelayer = false → .bifrost ∈ env.cfg.supportedChainList ∧
        env.Answers s.now env.cfg.supportedChainList.length) := by
  unfold registerFeed
  rw [Proc.bind_run, getConfig_run, Res.andThen_ok, Res.after_nil, Proc.ite_run]
  by_cases hfast : env.cfg.isFastRelayer
  · simp [hfast]
  · rw [if_neg hfast, RM.logged, Proc.bind_returns_iff]
    simp only [Bool.not_eq_true] at hfast
    rw [← newFeed_returns_iff VSPFeed.validatorSetCheckPeriodSec timeLock]
    constructor
    · rintro ⟨a, t, w, h, -⟩ -
      exact ⟨a, t, w, h⟩
    · intro h
      obtain ⟨a, t, w, h⟩ := h hfast
      exact ⟨a, t, w, h, _, _, _, rfl⟩

end Relayer

namespace RbcEvent

/-- The logs that a start gets through: of known statuses and chains, and of every outbound
request more than FAILED. -/
structure Restorable (net : Network) (logs : List DetectedEvent) : Prop where
  status : ∀ log ∈ logs, ∃ cls : EventClass, log.decoded.status.val = cls.status.value
  chain : ∀ log ∈ logs, (ChainEnum.fromBytes net log.decoded.chain.val).isSome
  further : ∀ log ∈ logs, log.rid.direction net = .outbound → ∃ log' ∈ logs,
    log'.rid = log.rid ∧ log'.decoded.status.val ≠ ChainEventStatus.failed.value

theorem initAll_returns_iff (refs : List Ref) :
    (∃ es s' w, initAll refs env s = ⟨.ok es, s', w⟩) ↔ ∀ log ∈ refs.map s.heap,
      ∃ cls : EventClass, log.decoded.status.val = cls.status.value := by
  induction refs with
  | nil => exact ⟨fun _ _ hlog => absurd hlog List.not_mem_nil, fun _ => ⟨[], s, [], rfl⟩⟩
  | cons ref refs ih =>
    rw [List.map_cons, List.forall_mem_cons, ← ih, initAll, Proc.bind_returns_iff]
    constructor
    · rintro ⟨e, t, w, h, hrest⟩
      obtain ⟨⟨-, hmsg, -⟩, rfl, -⟩ := init_ok h
      obtain ⟨es, s₁, w₁, hes, -⟩ := Proc.bind_returns_iff.mp hrest
      exact ⟨⟨e.cls, hmsg ▸ e.status_eq⟩, es, s₁, w₁, hes⟩
    · rintro ⟨⟨cls, hst⟩, es, s₁, w₁, hes⟩
      exact ⟨_, s, [], init_zero_run hst, Proc.bind_returns_iff.mpr ⟨es, s₁, w₁, hes, _, _, _, rfl⟩⟩

theorem initAll_msgs {refs : List Ref} {made : List RbcEvent}
    (h : initAll refs env s = ⟨.ok made, s', w⟩) :
    made.map msg = (refs.map s.heap).map DetectedEvent.decoded := by
  rw [← initAll_refs h, List.map_map, List.map_map]
  exact List.map_congr_left fun e he => (initAll_fresh h e he).msg

theorem reducible_iff {net : Network} {made : List RbcEvent} {logs : List DetectedEvent}
    (h : made.map msg = logs.map DetectedEvent.decoded) :
    Reducible net made ↔ ∀ log ∈ logs, (ChainEnum.fromBytes net log.decoded.chain.val).isSome ∧
      (log.rid.direction net = .outbound → ∃ log' ∈ logs, log'.rid = log.rid ∧
        log'.decoded.status.val ≠ ChainEventStatus.failed.value) := by
  have hreq (e : RbcEvent) (log : DetectedEvent) (hm : e.msg = log.decoded) : e.rid = log.rid := by
    rw [rid, hm]
    rfl
  have hfailed (e : RbcEvent) : e.status ≠ .failed ↔
      e.msg.status.val ≠ ChainEventStatus.failed.value := by
    rw [e.status_eq]
    exact not_congr ⟨congrArg _, ChainEventStatus.value_inj⟩
  have hmade {e : RbcEvent} (he : e ∈ made) : ∃ log ∈ logs, e.msg = log.decoded := by
    obtain ⟨log, hlog, heq⟩ := List.mem_map.mp (h ▸ List.mem_map_of_mem he)
    exact ⟨log, hlog, heq.symm⟩
  have hlogs {log : DetectedEvent} (hlog : log ∈ logs) : ∃ e ∈ made, e.msg = log.decoded :=
    List.mem_map.mp (h.symm ▸ List.mem_map_of_mem hlog)
  constructor
  · intro hred log hlog
    obtain ⟨e, he, hm⟩ := hlogs hlog
    obtain ⟨hchain, hmore⟩ := hred e he
    refine ⟨by rwa [srcChain?, hm] at hchain, fun hdir => ?_⟩
    obtain ⟨e', he', hrid, hst⟩ := hmore (by rwa [hreq e log hm])
    obtain ⟨log', hlog', hm'⟩ := hmade he'
    exact ⟨log', hlog', by rw [← hreq e' log' hm', hrid, hreq e log hm],
      hm' ▸ (hfailed e').mp hst⟩
  · intro hred e he
    obtain ⟨log, hlog, hm⟩ := hmade he
    obtain ⟨hchain, hmore⟩ := hred log hlog
    refine ⟨by rwa [srcChain?, hm], fun hdir => ?_⟩
    obtain ⟨log', hlog', hrid, hst⟩ := hmore (by rwa [← hreq e log hm])
    obtain ⟨e', he', hm'⟩ := hlogs hlog'
    exact ⟨e', he', by rw [hreq e' log' hm', hrid, hreq e log hm], (hfailed e').mpr (hm' ▸ hst)⟩

theorem bootstrap_returns_iff {R : Nat} (hR : s.roundCache = some R) (order : Comparison RbcEvent)
    (refs : List Ref) : (∃ es s' w, bootstrap order refs env s = ⟨.ok es, s', w⟩) ↔
      Restorable env.cfg.network (refs.map s.heap) := by
  constructor
  · rintro ⟨es, s', w, h⟩
    obtain ⟨made, s₁, w₁, h₁, h₂⟩ := Proc.bind_returns_iff.mp ⟨es, s', w, h⟩
    obtain ⟨latest, s₂, w₂, h₃, -⟩ := Proc.bind_returns_iff.mp h₂
    obtain ⟨rfl, -⟩ := initAll_ok h₁
    have hred := (removeFinalizedRids_returns_iff order s₁).mp ⟨latest, by rw [h₃]⟩
    have hlogs := (reducible_iff (initAll_msgs h₁)).mp hred
    exact ⟨(initAll_returns_iff refs).mp ⟨made, s₁, w₁, h₁⟩, fun log hlog => (hlogs log hlog).1,
      fun log hlog => (hlogs log hlog).2⟩
  · intro hlogs
    obtain ⟨made, s₁, w₁, h₁⟩ := (initAll_returns_iff refs).mpr hlogs.status
    have hred := (reducible_iff (initAll_msgs h₁)).mpr fun log hlog =>
      ⟨hlogs.chain log hlog, hlogs.further log hlog⟩
    obtain ⟨latest, hlatest⟩ := (removeFinalizedRids_returns_iff order s).mpr hred
    exact ⟨_, _, _, Res.eq_of_val (bootstrap_val hR (congrArg Res.val h₁) hlatest)⟩

end RbcEvent

namespace Relayer

/-- What a start at time `t` has to find: reads that are answered, BIFROST among the chains, and
logs that both bootstraps get through. -/
structure Bootable (env : Env) (t : Nat) (logs : List DetectedEvent)
    (roundUps : List RoundUpLog) : Prop where
  rounds : env.Answers t (startReads ((env.view t).latestRound .bifrost))
  feed : env.cfg.isFastRelayer = false → .bifrost ∈ env.cfg.supportedChainList ∧
    env.Answers (t + startReads ((env.view t).latestRound .bifrost))
      env.cfg.supportedChainList.length
  restorable : RbcEvent.Restorable env.cfg.network logs
  readable : RoundUpEvent.Readable env.cfg roundUps

/-- A start returns if and only if it finds these. -/
theorem boot_returns_iff (order : Comparison RbcEvent) (roundUpOrder : Comparison RoundUpEvent)
    (timeLock : Nat) (refs : List Ref) (roundUps : List RoundUpLog) :
    (∃ v s' w, boot order roundUpOrder timeLock refs roundUps env s = ⟨.ok v, s', w⟩) ↔
      Bootable env s.now (refs.map s.heap) roundUps := by
  have hfed {s₁ s₂ : RState} {w₁ w₂ : List Effect} (h₁ : start env s = ⟨.ok (), s₁, w₁⟩)
      (h₂ : registerFeed timeLock env s₁ = ⟨.ok (), s₂, w₂⟩) : s₂.heap = s.heap ∧
        s₂.roundCache = some ((env.view s.now).latestRound .bifrost) := by
    have hheap := (triple_start (h := s.heap)).ok rfl h₁
    have hround := keepsRoundCache_registerFeed timeLock env s₁ (start_ok h₁).1
    rw [h₂] at hround
    exact ⟨((triple_registerFeed timeLock).ok hheap.1 h₂).1, hround⟩
  unfold boot
  rw [Proc.bind_returns_iff]
  constructor
  · rintro ⟨_, s₁, w₁, h₁, hrest⟩
    obtain ⟨_, s₂, w₂, h₂, hrest⟩ := Proc.bind_returns_iff.mp hrest
    obtain ⟨es, s₃, w₃, h₃, hrest⟩ := Proc.bind_returns_iff.mp hrest
    obtain ⟨us, s₄, w₄, h₄, -⟩ := Proc.bind_returns_iff.mp hrest
    obtain ⟨hheap, hround⟩ := hfed h₁ h₂
    refine ⟨start_returns_iff.mp ⟨_, s₁, w₁, h₁⟩, ?_, ?_, ?_⟩
    · rw [← (start_ok h₁).2]
      exact (registerFeed_returns_iff timeLock).mp ⟨_, s₂, w₂, h₂⟩
    · rw [← hheap]
      exact (RbcEvent.bootstrap_returns_iff hround order refs).mp ⟨es, s₃, w₃, h₃⟩
    · by_contra hread
      rw [RoundUpEvent.bootstrap_error roundUpOrder hread] at h₄
      cases h₄
  · intro hgood
    obtain ⟨_, s₁, w₁, h₁⟩ := start_returns_iff.mpr hgood.rounds
    have hfeed := hgood.feed
    rw [← (start_ok h₁).2] at hfeed
    obtain ⟨_, s₂, w₂, h₂⟩ := (registerFeed_returns_iff timeLock).mpr hfeed
    obtain ⟨hheap, hround⟩ := hfed h₁ h₂
    have hlogs := hgood.restorable
    rw [← hheap] at hlogs
    obtain ⟨es, s₃, w₃, h₃⟩ := (RbcEvent.bootstrap_returns_iff hround order refs).mpr hlogs
    refine ⟨_, s₁, w₁, h₁, Proc.bind_returns_iff.mpr ⟨_, s₂, w₂, h₂, ?_⟩⟩
    refine Proc.bind_returns_iff.mpr ⟨es, s₃, w₃, h₃, Proc.bind_returns_iff.mpr ?_⟩
    exact ⟨_, _, _, RoundUpEvent.bootstrap_run roundUpOrder hgood.readable, _, _, _, rfl⟩

end Relayer

end Bifrost
