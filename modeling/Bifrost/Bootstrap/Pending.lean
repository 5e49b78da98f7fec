import Bifrost.Relayer.Start
import Bifrost.Bootstrap.Reduce

/-!
# Bootstrap of Socket events

`RbcEvent.bootstrap`: the detected logs become events, the reduction leaves the
latest of each open request, and events of early rounds are dropped. A fast
relayer is to keep what its live path `ExternalRbcEvent.init` relays, which is
ACCEPTED and REJECTED; the filter of the source compares the status with the
class `ChainEventStatus` in place of REJECTED, so that it keeps ACCEPTED only
(`bootstrap_pending_iff`).
-/

namespace Bifrost

open Bifrost.Lib

namespace RbcEvent

/-- `RbcEvent.init(detected_event, 0, manager)` of each log. -/
def initAll : List Ref → RM (List RbcEvent)
  | [] => pure []
  | detectedEvent :: detectedEvents => do
    let eventObj ← init detectedEvent 0
    let rbcEvents ← initAll detectedEvents
    pure (eventObj :: rbcEvents)

/-- `status != ChainEventStatus`: no status equals the class. -/
def differsFromClass (_status : ChainEventStatus) : Bool := true

/-- The loop that removes the events that are too late. -/
def notHandled (minRnd : Int) : List RbcEvent → RM (List RbcEvent)
  | [] => pure []
  | event :: events => do
    let rnd ← event.rnd
    if minRnd > rnd then notHandled minRnd events
    else do
      let cfg ← RM.getConfig
      if cfg.isFastRelayer ∧ event.status ≠ .accepted ∧ differsFromClass event.status then
        notHandled minRnd events
      else do
        let timeLock ← RM.timestampMsec
        let rest ← notHandled minRnd events
        pure ({ event with timeLock } :: rest)

def summaries : List RbcEvent → RM Unit
  | [] => pure ()
  | event :: events => do
    event.summary
    summaries events

def bootstrap (order : Comparison RbcEvent) (detectedEvents : List Ref) : RM (List RbcEvent) := do
  let rbcEvents ← initAll detectedEvents
  let notFinalizedEventObjs ← removeFinalizedRids order rbcEvents
  let s ← Proc.get
  let roundCache ← Proc.ofOption (.exception "relayer's current rnd is None") s.roundCache
  let minRnd : Int := roundCache - Relayer.BIFROST_VALIDATOR_HISTORY_LIMIT_BLOCKS
  let notHandledEventObjs ← notHandled minRnd notFinalizedEventObjs
  summaries notHandledEventObjs
  pure notHandledEventObjs

/-! ## What is pending -/

/-- An event of the last rounds. -/
def IsRecent (roundCache : Nat) (e : RbcEvent) : Prop :=
  (roundCache : Int) - 6 ≤ e.msg.roundId.val

instance (roundCache : Nat) (e : RbcEvent) : Decidable (e.IsRecent roundCache) :=
  inferInstanceAs (Decidable (_ ≤ _))

/-- An event of the last rounds that a fast relayer has to relay. -/
def IsPending (roundCache : Nat) (e : RbcEvent) : Prop :=
  e.IsRecent roundCache ∧ e.status ∈ [ChainEventStatus.accepted, .rejected]

instance (roundCache : Nat) (e : RbcEvent) : Decidable (e.IsPending roundCache) :=
  inferInstanceAs (Decidable (_ ∧ _))

/-- `time_lock = t`. -/
def stamped (t : Nat) (e : RbcEvent) : RbcEvent := { e with timeLock := t }

variable {env : Env} {s s' : RState} {w : List Effect}

/-- The live path makes aggregated relay events of the logs with a pending status. -/
theorem externalInit_aggregated_iff {ref : Ref} {t : Nat} {cls : EventClass}
    (h : (s.heap ref).decoded.status.val = cls.status.value) :
    (∃ e, externalInit ref t env s = ⟨.ok (some e), s, []⟩ ∧ e.cls.isAggregated) ↔
      cls.status ∈ [ChainEventStatus.accepted, .rejected] := by
  rw [externalInit_run t h]
  cases cls <;> simp [EventClass.status, EventClass.isAggregated]

/-! ## The loops -/

theorem init_zero_run {ref : Ref} {cls : EventClass}
    (h : (s.heap ref).decoded.status.val = cls.status.value) :
    init ref 0 env s = ⟨.ok ⟨cls, ref, (s.heap ref).decoded, 0, .send, true, h⟩, s, []⟩ := by
  rw [init_undelayed (absurd rfl) h, construct_run]

theorem initAll_ok {refs : List Ref} {events : List RbcEvent}
    (h : initAll refs env s = ⟨.ok events, s', w⟩) : s' = s ∧ w = [] := by
  induction refs generalizing events s' w with
  | nil =>
    obtain ⟨-, hs, hw⟩ := Proc.pure_ok h
    exact ⟨hs, hw⟩
  | cons ref refs ih =>
    obtain ⟨e, s₁, w₁, w₂, h₁, h₂, rfl⟩ := Proc.bind_ok h
    obtain ⟨-, rfl, rfl⟩ := init_ok h₁
    obtain ⟨rest, s₂, w₃, w₄, h₃, h₄, rfl⟩ := Proc.bind_ok h₂
    obtain ⟨rfl, rfl⟩ := ih h₃
    obtain ⟨-, rfl, rfl⟩ := Proc.pure_ok h₄
    exact ⟨rfl, rfl⟩

theorem summaries_run {events : List RbcEvent}
    (h : ∀ e ∈ events, (e.srcChain? env.cfg.network).isSome) :
    summaries events env s = ⟨.ok (), s, []⟩ := by
  induction events with
  | nil => rfl
  | cons e events ih =>
    obtain ⟨c, hc⟩ := Option.isSome_iff_exists.mp (h e List.mem_cons_self)
    simp [summaries, summary_run hc, ih fun e' he' => h e' (List.mem_cons_of_mem e he')]

/-- What the loop keeps: the recent events, and of them a fast relayer the ACCEPTED ones. -/
def IsKept (cfg : Config) (roundCache : Nat) (e : RbcEvent) : Prop :=
  e.IsRecent roundCache ∧ (cfg.isFastRelayer → e.status = .accepted)

instance (cfg : Config) (roundCache : Nat) (e : RbcEvent) : Decidable (e.IsKept cfg roundCache) :=
  inferInstanceAs (Decidable (_ ∧ _))

theorem notHandled_run {R : Nat} {events : List RbcEvent}
    (h : ∀ e ∈ events, (e.srcChain? env.cfg.network).isSome) :
    notHandled ((R : Int) - 6) events env s =
      ⟨.ok ((events.filter (·.IsKept env.cfg R)).map (stamped (env.msec s.now))), s, []⟩ := by
  induction events with
  | nil => rfl
  | cons e events ih =>
    obtain ⟨c, hc⟩ := Option.isSome_iff_exists.mp (h e List.mem_cons_self)
    have ih' := ih fun e' he' => h e' (List.mem_cons_of_mem e he')
    unfold notHandled
    rw [Proc.bind_run, rnd_run hc, Res.andThen_ok, Res.after_nil, Proc.ite_run]
    by_cases hr : e.IsRecent R
    · have hr' : ¬ (R : Int) - 6 > (e.msg.roundId.val : Nat) := not_lt.mpr hr
      have hdrop : (env.cfg.isFastRelayer ∧ e.status ≠ .accepted ∧ differsFromClass e.status) ↔
          ¬ e.IsKept env.cfg R := by
        simp [IsKept, hr, differsFromClass]
      rw [if_neg hr', Proc.bind_run, getConfig_run, Res.andThen_ok, Res.after_nil, Proc.ite_run]
      by_cases hkept : e.IsKept env.cfg R
      · rw [if_neg fun hd => hdrop.mp hd hkept]
        simp [hkept, ih', stamped]
      · rw [if_pos (hdrop.mpr hkept)]
        simp [hkept, ih']
    · have hr' : (R : Int) - 6 > (e.msg.roundId.val : Nat) := not_le.mp hr
      have hnot : ¬ e.IsKept env.cfg R := fun hkept => hr hkept.1
      simp [hr', hnot, ih']

/-! ## The bootstrap -/

section Bootstrap

variable {order : Comparison RbcEvent} {refs : List Ref} {R : Nat} {events latest : List RbcEvent}

/-- What the bootstrap returns: of the latest events those the loop keeps. -/
theorem bootstrap_val (hR : s.roundCache = some R)
    (hinit : (initAll refs env s).val = .ok events)
    (hlatest : (removeFinalizedRids order events env s).val = .ok latest) :
    (bootstrap order refs env s).val =
      .ok ((latest.filter (·.IsKept env.cfg R)).map (stamped (env.msec s.now))) := by
  rcases h₁ : initAll refs env s with ⟨v₁, s₁, w₁⟩
  rw [h₁] at hinit
  obtain rfl : v₁ = .ok events := hinit
  obtain ⟨rfl, rfl⟩ := initAll_ok h₁
  rcases h₂ : removeFinalizedRids order events env s₁ with ⟨v₂, s₂, w₂⟩
  rw [h₂] at hlatest
  obtain rfl : v₂ = .ok latest := hlatest
  obtain ⟨hknown, ⟨ms, hms, rfl⟩, rfl, rfl⟩ := removeFinalizedRids_ok h₂
  have hred := reduction_of_groups hknown hms
  have hchain : ∀ e ∈ ms.filter (!·.isFinalized), (e.srcChain? env.cfg.network).isSome :=
    fun e he => hknown e (hred.latest e he).1.1
  have hloop := notHandled_run (s := s₂) (R := R) hchain
  have hsum : summaries (((ms.filter (!·.isFinalized)).filter (·.IsKept env.cfg R)).map
      (stamped (env.msec s₂.now))) env s₂ = ⟨.ok (), s₂, []⟩ := by
    apply summaries_run
    intro e he
    obtain ⟨m, hm, rfl⟩ := List.mem_map.mp he
    exact hchain m (List.mem_filter.mp hm).1
  have hmin : (R : Int) - Relayer.BIFROST_VALIDATOR_HISTORY_LIMIT_BLOCKS = (R : Int) - 6 := rfl
  simp only [bootstrap, Proc.bind_run, h₁, Res.andThen_ok, Res.after_nil, h₂, Proc.get_run, hR,
    Proc.ofOption_some, Proc.pure_run, hmin, hloop, hsum]

/-- What a fast relayer returns. -/
theorem bootstrap_run (hfast : env.cfg.isFastRelayer) (hR : s.roundCache = some R)
    (hinit : (initAll refs env s).val = .ok events)
    (hlatest : (removeFinalizedRids order events env s).val = .ok latest) :
    (bootstrap order refs env s).val = .ok ((latest.filter fun e =>
      e.IsRecent R ∧ e.status = .accepted).map (stamped (env.msec s.now))) := by
  rw [bootstrap_val hR hinit hlatest]
  congr 2
  refine List.filter_congr fun e _ => ?_
  simp [IsKept, hfast]

/-- A recent REJECTED event that is the latest of its request is not returned. -/
theorem rejected_left_out (hfast : env.cfg.isFastRelayer) (hR : s.roundCache = some R)
    (hinit : (initAll refs env s).val = .ok events)
    (hlatest : (removeFinalizedRids order events env s).val = .ok latest) {e : RbcEvent}
    (he : IsLatest env.cfg.network events e) (hst : e.status = .rejected) (hr : e.IsRecent R) :
    (bootstrap order refs env s).val ≠
      .ok ((latest.filter (·.IsPending R)).map (stamped (env.msec s.now))) := by
  have hopen : e.isFinalized = false := by
    unfold isFinalized
    rw [hst]
    rfl
  obtain ⟨m, hm, hrid, hmst⟩ :=
    (reduction_of_val hlatest).mem_pair_iff.mpr ⟨e, he, hopen, rfl, rfl⟩
  have hround : m.msg.roundId.val = e.msg.roundId.val := congrArg RequestId.rnd hrid
  have hpending : m.IsPending R := by
    refine ⟨?_, by rw [hmst, hst]; decide⟩
    unfold IsRecent at *
    omega
  intro heq
  rw [bootstrap_run hfast hR hinit hlatest] at heq
  have hkept : m ∈ latest.filter (·.IsPending R) :=
    List.mem_filter.mpr ⟨hm, decide_eq_true hpending⟩
  have hmem := List.mem_map_of_mem (f := stamped (env.msec s.now)) hkept
  rw [← Except.ok.inj heq] at hmem
  obtain ⟨m', hm', hsame⟩ := List.mem_map.mp hmem
  obtain ⟨-, hm'⟩ := List.mem_filter.mp hm'
  have hst' := (of_decide_eq_true hm').2
  have hcls : (stamped (env.msec s.now) m').status = (stamped (env.msec s.now) m).status :=
    congrArg RbcEvent.status hsame
  replace hcls : m'.status = m.status := hcls
  rw [hcls, hmst, hst] at hst'
  cases hst'

/-- **Bootstrap of a fast relayer.** It returns the pending events if and only if every recent
REJECTED event has an event of the same request that has come further. -/
theorem bootstrap_pending_iff (hfast : env.cfg.isFastRelayer) (hR : s.roundCache = some R)
    (hinit : (initAll refs env s).val = .ok events)
    (hlatest : (removeFinalizedRids order events env s).val = .ok latest) :
    (bootstrap order refs env s).val =
        .ok ((latest.filter (·.IsPending R)).map (stamped (env.msec s.now))) ↔
      ∀ e ∈ events, e.status = .rejected → e.IsRecent R → ∃ e' ∈ events, e'.rid = e.rid ∧
        (e.rid.direction env.cfg.network).rank .rejected <
          (e.rid.direction env.cfg.network).rank e'.status := by
  constructor
  · intro heq e he hst hr
    by_contra hnone
    refine rejected_left_out hfast hR hinit hlatest ⟨he, fun e' he' hr' => ?_⟩ hst hr heq
    by_contra hlt
    rw [hst] at hlt
    exact hnone ⟨e', he', hr', not_le.mp hlt⟩
  · intro hfurther
    rw [bootstrap_run hfast hR hinit hlatest]
    congr 2
    apply List.filter_congr
    intro m hm
    obtain ⟨⟨hmem, hmax⟩, -⟩ := (reduction_of_val hlatest).latest m hm
    have hnot : ¬ (m.IsRecent R ∧ m.status = .rejected) := by
      rintro ⟨hr, hst⟩
      obtain ⟨e', he', hrid, hlt⟩ := hfurther m hmem hst hr
      have hle := hmax e' he' hrid
      rw [hst] at hle
      omega
    by_cases hr : m.IsRecent R
    · have hst : m.status ≠ .rejected := fun hst => hnot ⟨hr, hst⟩
      simp [IsPending, hr, hst]
    · simp [IsPending, hr]

end Bootstrap

end RbcEvent

/-! ## A restart with one inbound request -/

namespace Sample

def fastEnv : Env := { soleEnv .accepted with cfg := { cfg with relayerRole := .fastRelayer } }

/-- The one log is of an inbound request of round 5. -/
def restarted (cls : EventClass) : RState :=
  { state (msg .ethereum .bifrost cls.status) with roundCache := some 6 }

def detected (cls : EventClass) : RbcEvent :=
  { event cls .ethereum .bifrost with timeLock := 0 }

theorem initAll_detected (env : Env) (cls : EventClass) {s : RState}
    (hheap : s.heap = (restarted cls).heap) :
    (RbcEvent.initAll [0] env s).val = .ok [detected cls] := by
  have hlog : (s.heap 0).decoded = msg .ethereum .bifrost cls.status := by
    rw [hheap]
    exact DetectedEvent.decoded_ofMsg _ 7
  have hst : (s.heap 0).decoded.status.val = cls.status.value := by
    rw [hlog]
    rfl
  simp [RbcEvent.initAll, RbcEvent.init_zero_run hst, hlog, detected, event]

theorem reduced_detected (env : Env) (hnet : env.cfg.network = .mainnet) (cls : EventClass)
    (s : RState) : ∃ latest,
      (RbcEvent.removeFinalizedRids order [detected cls] env s).val = .ok latest := by
  refine (RbcEvent.removeFinalizedRids_returns_iff order _).mpr fun e he => ?_
  rw [List.mem_singleton.mp he, hnet]
  exact ⟨by cases cls <;> decide +kernel, by cases cls <;> decide +kernel⟩

end Sample

namespace RbcEvent

/-- A fast relayer that starts after its request was rejected does not pick it up. -/
theorem bootstrap_drops_rejected : ¬ ∀ (order : Comparison RbcEvent) (refs : List Ref) (env : Env)
    (s : RState) (R : Nat) (events latest : List RbcEvent), env.cfg.isFastRelayer →
      s.roundCache = some R → (initAll refs env s).val = .ok events →
      (removeFinalizedRids order events env s).val = .ok latest →
      (bootstrap order refs env s).val =
        .ok ((latest.filter (·.IsPending R)).map (stamped (env.msec s.now))) := by
  intro hall
  obtain ⟨latest, hlatest⟩ := Sample.reduced_detected Sample.fastEnv rfl .rejected
    (Sample.restarted .rejected)
  have hinit := Sample.initAll_detected Sample.fastEnv .rejected
    (s := Sample.restarted .rejected) rfl
  have hnewest : IsLatest Sample.fastEnv.cfg.network [Sample.detected .rejected]
      (Sample.detected .rejected) := by
    refine ⟨List.mem_cons_self, fun e he _ => ?_⟩
    rw [List.mem_singleton.mp he]
  exact rejected_left_out rfl rfl hinit hlatest hnewest rfl (by decide)
    (hall _ _ _ _ 6 _ latest rfl rfl hinit hlatest)

theorem bootstrap_pending_accepted : ∃ latest : List RbcEvent,
    (bootstrap Sample.order [0] Sample.fastEnv (Sample.restarted .accepted)).val =
      .ok ((latest.filter (·.IsPending 6)).map (stamped 0)) := by
  obtain ⟨latest, hlatest⟩ := Sample.reduced_detected Sample.fastEnv rfl .accepted
    (Sample.restarted .accepted)
  refine ⟨latest, (bootstrap_pending_iff rfl rfl (Sample.initAll_detected _ _ rfl)
    hlatest).mpr fun e he hst => ?_⟩
  rw [List.mem_singleton.mp he] at hst
  cases hst

end RbcEvent

end Bifrost
