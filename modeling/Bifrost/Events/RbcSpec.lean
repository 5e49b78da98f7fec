import Bifrost.Events.Rbc
import Bifrost.Relayer.Quiet

/-!
# What the handlers do

One lemma for each method of `Events/Rbc.lean`: for the readers of decoded
fields their value, for the quiet ones that they are quiet, and for the others
the cases of a run that returns (`…_ok`).
-/

namespace Bifrost

open Bifrost.Lib

namespace RbcEvent

variable {self : RbcEvent} {env : Env} {s s' : RState} {w : List Effect}

/-! ## Decoded fields -/

/-- The chain a relay of the event goes to. -/
def targetChain? (self : RbcEvent) (net : Network) : Option ChainEnum :=
  (self.srcChain? net).bind fun c =>
    if c = .bifrost then (self.inst? net).map Prod.fst else some c

def requestId? (self : RbcEvent) (net : Network) : Option RequestId :=
  (self.srcChain? net).map fun c =>
    ⟨c.formattedBytes net, self.msg.roundId.val, self.msg.sequence.val⟩

theorem reqId_run {c : ChainEnum} (h : self.srcChain? env.cfg.network = some c) :
    self.reqId env s = ⟨.ok (c, self.msg.roundId.val, self.msg.sequence.val), s, []⟩ := by
  simp [reqId, h]

theorem srcChain_run {c : ChainEnum} (h : self.srcChain? env.cfg.network = some c) :
    self.srcChain env s = ⟨.ok c, s, []⟩ := by
  simp [srcChain, reqId_run h]

theorem rnd_run {c : ChainEnum} (h : self.srcChain? env.cfg.network = some c) :
    self.rnd env s = ⟨.ok self.msg.roundId.val, s, []⟩ := by
  simp [rnd, reqId_run h]

theorem isInbound_run {c : ChainEnum} (h : self.srcChain? env.cfg.network = some c) :
    self.isInbound env s = ⟨.ok (c ≠ .bifrost), s, []⟩ := by
  simp [isInbound, srcChain_run h]

theorem requestId_run {c : ChainEnum} (h : self.srcChain? env.cfg.network = some c) :
    self.requestId env s = ⟨.ok ⟨c.formattedBytes env.cfg.network, self.msg.roundId.val,
      self.msg.sequence.val⟩, s, []⟩ := by
  simp [requestId, reqId_run h]

theorem requestId_of {rid : RequestId} (h : self.requestId? env.cfg.network = some rid) :
    self.requestId env s = ⟨.ok rid, s, []⟩ := by
  obtain ⟨c, hc, rfl⟩ := Option.map_eq_some_iff.mp h
  exact requestId_run hc

theorem summary_run {c : ChainEnum} (h : self.srcChain? env.cfg.network = some c) :
    self.summary env s = ⟨.ok (), s, []⟩ := by
  simp [summary, RM.logged, reqId_run h]

theorem dstChain_run {i : ChainEnum × RBCMethodV1} (h : self.inst? env.cfg.network = some i) :
    self.dstChain env s = ⟨.ok i.1, s, []⟩ := by
  simp [dstChain, inst, h]

/-- Every reader of the request id raises on an unknown chain. -/
theorem reqId_error (h : self.srcChain? env.cfg.network = none) :
    self.reqId env s = ⟨.error .valueError, s, []⟩ := by
  simp [reqId, h]

theorem srcChain_error (h : self.srcChain? env.cfg.network = none) :
    self.srcChain env s = ⟨.error .valueError, s, []⟩ := by
  simp [srcChain, reqId_error h]

theorem isInbound_ok {b : Bool} (h : self.isInbound env s = ⟨.ok b, s', w⟩) :
    ∃ c, self.srcChain? env.cfg.network = some c ∧ b = decide (c ≠ .bifrost) ∧ s' = s ∧
      w = [] := by
  cases hc : self.srcChain? env.cfg.network with
  | none => simp [isInbound, srcChain_error hc] at h
  | some c =>
    rw [isInbound_run hc] at h
    cases h
    exact ⟨c, rfl, rfl, rfl, rfl⟩

theorem requestId_ok {rid : RequestId} (h : self.requestId env s = ⟨.ok rid, s', w⟩) :
    self.requestId? env.cfg.network = some rid ∧ s' = s ∧ w = [] := by
  cases hc : self.srcChain? env.cfg.network with
  | none => simp [requestId, reqId_error hc] at h
  | some c =>
    rw [requestId_run hc] at h
    cases h
    exact ⟨by simp [requestId?, hc], rfl, rfl⟩

theorem targetChain_ok {c : ChainEnum}
    (h : AggregatedRelayEvent.targetChain self env s = ⟨.ok c, s', w⟩) :
    self.targetChain? env.cfg.network = some c ∧ s' = s ∧ w = [] := by
  unfold AggregatedRelayEvent.targetChain at h
  obtain ⟨b, s₁, w₁, w₂, h₁, h₂, rfl⟩ := Proc.bind_ok h
  obtain ⟨src, hsrc, rfl, rfl, rfl⟩ := isInbound_ok h₁
  by_cases hb : src = .bifrost
  · rw [if_neg (by simp [hb])] at h₂
    cases hi : self.inst? env.cfg.network with
    | none => simp [dstChain, inst, hi] at h₂
    | some i =>
      rw [dstChain_run hi] at h₂
      cases h₂
      exact ⟨by simp [targetChain?, hsrc, hb, hi], rfl, rfl⟩
  · rw [if_pos (by simp [hb]), srcChain_run hsrc] at h₂
    cases h₂
    exact ⟨by simp [targetChain?, hsrc, hb], rfl, rfl⟩

/-! ## Quiet methods -/

theorem quiet_reqId : Quiet self.reqId :=
  .bind .getConfig fun _ => .bind (.ofOption ..) fun _ => .pure _

theorem quiet_srcChain : Quiet self.srcChain := .bind quiet_reqId fun _ => .pure _

theorem quiet_rnd : Quiet self.rnd := .bind quiet_reqId fun _ => .pure _

theorem quiet_isInbound : Quiet self.isInbound := .bind quiet_srcChain fun _ => .pure _

theorem quiet_summary : Quiet self.summary := .bind quiet_reqId fun _ => .pure _

theorem quiet_requestId : Quiet self.requestId :=
  .bind quiet_reqId fun _ => .bind .getConfig fun _ => .pure _

theorem quiet_dstChain : Quiet self.dstChain :=
  .bind (.bind .getConfig fun _ => .ofOption ..) fun _ => .pure _

theorem quiet_detectedEvent (ref : Ref) : Quiet (RM.detectedEvent ref) :=
  .bind .get fun _ => .pure _

theorem quiet_exportingRequestMetric (c : ChainEnum) (t : ChainEventStatus) :
    Quiet (RM.exportingRequestMetric c t) :=
  .bind .getConfig fun _ => .ite (.emit trivial) (.pure _)

theorem quiet_checkMyEvent : Quiet self.checkMyEvent := by
  unfold checkMyEvent
  refine .bind .getConfig fun _ => .ite (.pure _) (.bind quiet_srcChain fun _ => .ite (.pure _) ?_)
  refine .bind quiet_rnd fun _ => .bind (.getValueByKey _) fun _ => .ite (.pure _) ?_
  exact .storeIndex _ (.pure _) (.pure _)

theorem quiet_guarded {α : Type} {body : RM (Option α)} (h : Quiet body) :
    Quiet (self.guarded body) :=
  .bind quiet_checkMyEvent fun _ => .ite h (.pure _)

theorem quiet_isPrimaryRelayer : Quiet self.isPrimaryRelayer := by
  unfold isPrimaryRelayer
  refine .bind .getConfig fun _ => .ite (.pure _) (.bind (.fetchRelayerNum ..) fun _ => ?_)
  refine .bind (quiet_detectedEvent _) fun _ => .ite (.throw _) (.bind quiet_rnd fun _ => ?_)
  exact .bind (.getValueByKey _) fun _ => .pure _

theorem quiet_submitTuple (sigs : SocketSignature) (b : Bool) :
    Quiet (PollSubmit.submitTuple self sigs b) :=
  .bind (quiet_detectedEvent _) fun _ =>
    .bind (.bind .ask fun _ => .ofOption ..) fun _ => .pure _

theorem quiet_pollWithSig (msg : Bytes) : Quiet (self.pollWithSig msg) :=
  .bind .ask fun _ => .bind (.sign _) fun _ => .bind (.ofOption ..) fun _ =>
    .bind (quiet_submitTuple ..) fun _ => .pure _

theorem quiet_dataWithStatus (t : ChainEventStatus) : Quiet (self.dataWithStatus t) :=
  .bind (quiet_detectedEvent _) fun _ => .pure _

theorem quiet_targetChain : Quiet (AggregatedRelayEvent.targetChain self) :=
  .bind quiet_isInbound fun _ => .ite quiet_srcChain quiet_dstChain

theorem quiet_getRequestCall {chain : RM ChainEnum} (h : Quiet chain) :
    Quiet (self.getRequestCall chain) :=
  .bind h fun _ => .bind quiet_requestId fun _ => .pure _

theorem quiet_aggregatedRelay (c : ChainEnum) :
    Quiet (AggregatedRelayEvent.aggregatedRelay self c) :=
  .bind quiet_requestId fun _ => .bind (.fetchSocketRbcSigs ..) fun _ =>
    .bind (.ofOption ..) fun _ => .bind (quiet_submitTuple ..) fun _ => .pure _

/-! ## Authority -/

/-- What a read gives as the relayer's index in the event's round. -/
def ownIndex (env : Env) (self : RbcEvent) (s : RState) : Option Nat :=
  rank ((env.view s.now).previousSelectedRelayers .bifrost self.msg.roundId.val true)
    env.account.address

/-- The ways `check_my_event` returns. -/
inductive CheckCase (env : Env) (self : RbcEvent) (s : RState) : Bool → RState → Prop where
  | fast : env.cfg.isFastRelayer = true → CheckCase env self s true s
  | unsupported (c : ChainEnum) : env.cfg.isFastRelayer = false →
      self.srcChain? env.cfg.network = some c → c ∉ env.cfg.supportedChainList →
      CheckCase env self s false s
  | cached (c : ChainEnum) (i : Nat) : env.cfg.isFastRelayer = false →
      self.srcChain? env.cfg.network = some c → c ∈ env.cfg.supportedChainList →
      s.cache self.msg.roundId.val = some (some i) → CheckCase env self s true s
  | fetched (c : ChainEnum) (i : Nat) : env.cfg.isFastRelayer = false →
      self.srcChain? env.cfg.network = some c → c ∈ env.cfg.supportedChainList →
      ownIndex env self s = some i → CheckCase env self s true
        { s.tick with cache := Function.update s.cache self.msg.roundId.val (some (some i)) }
  | notSelected (c : ChainEnum) : env.cfg.isFastRelayer = false →
      self.srcChain? env.cfg.network = some c → c ∈ env.cfg.supportedChainList →
      ownIndex env self s = none → CheckCase env self s false s.tick

theorem checkMyEvent_ok {b : Bool} (h : self.checkMyEvent env s = ⟨.ok b, s', w⟩) :
    CheckCase env self s b s' := by
  unfold checkMyEvent at h
  rw [Proc.bind_run, getConfig_run, Res.andThen_ok, Res.after_nil] at h
  cases hf : env.cfg.isFastRelayer with
  | true =>
    rw [if_pos hf] at h
    obtain ⟨rfl, rfl, -⟩ := Proc.pure_ok h
    exact .fast hf
  | false =>
    rw [if_neg (by simp [hf])] at h
    cases hc : self.srcChain? env.cfg.network with
    | none =>
      rw [Proc.bind_run, srcChain_error hc] at h
      cases h
    | some c =>
      rw [Proc.bind_run, srcChain_run hc, Res.andThen_ok, Res.after_nil] at h
      by_cases hm : c ∈ env.cfg.supportedChainList
      · rw [if_neg (by simpa using hm), Proc.bind_run, rnd_run hc, Res.andThen_ok, Res.after_nil,
          Proc.bind_run, getValueByKey_run, Res.andThen_ok, Res.after_nil] at h
        by_cases hv : (s.cache self.msg.roundId.val).join.isSome
        · rw [if_pos hv] at h
          obtain ⟨rfl, rfl, -⟩ := Proc.pure_ok h
          obtain ⟨i, hi⟩ := Option.isSome_iff_exists.mp hv
          exact .cached c i hf hc hm (Option.join_eq_some_iff.mp hi)
        · rw [if_neg hv] at h
          obtain ⟨i, s₁, w₁, w₂, h₁, h₂, rfl⟩ := Proc.bind_ok h
          rw [fetchRelayerIndex_run] at h₁
          obtain ⟨hr, rfl, -⟩ := Res.mk.inj h₁
          obtain ⟨-, hi⟩ := read_ok hr
          cases i with
          | none =>
            obtain ⟨rfl, rfl, -⟩ := Proc.pure_ok h₂
            exact .notSelected c hf hc hm hi.symm
          | some i =>
            simp only [Proc.bind_run, setValueByKey_run, Res.andThen_ok, Proc.pure_run,
              Res.after_mk, Res.mk.injEq, Except.ok.injEq] at h₂
            obtain ⟨rfl, rfl, -⟩ := h₂
            exact .fetched c i hf hc hm hi.symm
      · rw [if_pos hm] at h
        obtain ⟨rfl, rfl, -⟩ := Proc.pure_ok h
        exact .unsupported c hf hc hm

/-- The check itself only reads BIFROST. -/
theorem reads_checkMyEvent :
    Proc.Emits (fun o => ∃ method, o = .called .bifrost method) self.checkMyEvent := by
  have hconfig : Proc.Emits (fun o => ∃ method, o = .called .bifrost method) RM.getConfig :=
    .bind .ask fun _ => .pure _
  have hreq : Proc.Emits (fun o => ∃ method, o = .called .bifrost method) self.reqId :=
    .bind hconfig fun _ => .bind (.ofOption _ _) fun _ => .pure _
  have hindex : ∀ k : Nat, Proc.Emits (fun o => ∃ method, o = .called .bifrost method)
      (RM.fetchRelayerIndex .bifrost (some k) none) := by
    intro k env s o ho
    rw [fetchRelayerIndex_run, List.mem_singleton] at ho
    exact ⟨_, ho⟩
  unfold checkMyEvent
  refine .bind hconfig fun _ => .ite (.pure _) (.bind (.bind hreq fun _ => .pure _) fun _ => ?_)
  refine .ite (.pure _) (.bind (.bind hreq fun _ => .pure _) fun _ => ?_)
  refine .bind (.bind .get fun _ => .pure _) fun _ => .ite (.pure _) (.bind (hindex _) fun i => ?_)
  cases i with
  | none => exact .pure _
  | some i => exact .bind (.modify _) fun _ => .pure _

theorem emits_checkMyEvent : Proc.Emits Effect.IsCall self.checkMyEvent := by
  refine reads_checkMyEvent.mono fun o ho => ?_
  obtain ⟨method, rfl⟩ := ho
  trivial

/-- The relayer serves the event: it supports the source chain and is selected in the round, in
every answer of the chain. -/
def Serves (env : Env) (self : RbcEvent) : Prop :=
  env.cfg.isFastRelayer = true ∨ (∃ c ∈ env.cfg.supportedChainList,
    self.srcChain? env.cfg.network = some c) ∧
    ∀ t, env.account.address.hex ∈ sortedLower
      ((env.view t).previousSelectedRelayers .bifrost self.msg.roundId.val true)

theorem Serves.check {b : Bool} (hs : Serves env self)
    (h : self.checkMyEvent env s = ⟨.ok b, s', w⟩) : b = true := by
  cases checkMyEvent_ok h with
  | fast _ => rfl
  | cached _ _ _ _ _ _ => rfl
  | fetched _ _ _ _ _ _ => rfl
  | unsupported c hf hc hn =>
    rcases hs with hs | ⟨⟨c', hc', hsrc⟩, -⟩
    · rw [hs] at hf
      cases hf
    · rw [hsrc] at hc
      cases hc
      exact absurd hc' hn
  | notSelected c hf hc hm hi =>
    rcases hs with hs | ⟨-, hsel⟩
    · rw [hs] at hf
      cases hf
    · have hsome := index?_isSome.mpr (hsel s.now)
      rw [show index? _ _ = none from hi] at hsome
      cases hsome

/-- The check has passed, and passes again without a read. -/
def Passed (env : Env) (self : RbcEvent) (s : RState) : Prop :=
  env.cfg.isFastRelayer = true ∨
    (∃ c ∈ env.cfg.supportedChainList, self.srcChain? env.cfg.network = some c) ∧
      (s.cache self.msg.roundId.val).join.isSome

theorem passed_of_check (h : self.checkMyEvent env s = ⟨.ok true, s', w⟩) :
    Passed env self s' := by
  cases checkMyEvent_ok h with
  | fast hf => exact .inl hf
  | cached c i hf hc hm hv => exact .inr ⟨⟨c, hm, hc⟩, by rw [hv]; rfl⟩
  | fetched c i hf hc hm hi =>
    refine .inr ⟨⟨c, hm, hc⟩, ?_⟩
    show ((Function.update s.cache _ (some (some i))) _).join.isSome
    rw [Function.update_self]
    rfl

theorem Passed.tick (hp : Passed env self s) : Passed env self s.tick := hp

theorem Passed.check (hp : Passed env self s) : self.checkMyEvent env s = ⟨.ok true, s, []⟩ := by
  unfold checkMyEvent
  rcases hp with hf | ⟨⟨c, hm, hc⟩, hv⟩
  · simp [hf]
  · by_cases hf : env.cfg.isFastRelayer = true
    · simp [hf]
    · simp [hf, srcChain_run hc, rnd_run hc, hm, hv]

theorem guarded_ok {α : Type} {body : RM (Option α)} {p : Option α}
    (h : self.guarded body env s = ⟨.ok p, s', w⟩) :
    (self.checkMyEvent env s = ⟨.ok false, s', w⟩ ∧ p = none) ∨
      ∃ s₁ w₁ w₂, self.checkMyEvent env s = ⟨.ok true, s₁, w₁⟩ ∧
        body env s₁ = ⟨.ok p, s', w₂⟩ ∧ w = w₁ ++ w₂ := by
  unfold guarded at h
  obtain ⟨b, s₁, w₁, w₂, h₁, h₂, rfl⟩ := Proc.bind_ok h
  cases b with
  | false =>
    obtain ⟨rfl, rfl, rfl⟩ := Proc.pure_ok h₂
    rw [List.append_nil]
    exact .inl ⟨h₁, rfl⟩
  | true => exact .inr ⟨s₁, w₁, w₂, h₁, h₂, rfl⟩

theorem Serves.guarded_ok {α : Type} {body : RM (Option α)} {p : Option α} (hs : Serves env self)
    (h : self.guarded body env s = ⟨.ok p, s', w⟩) :
    ∃ s₁ w₁ w₂, self.checkMyEvent env s = ⟨.ok true, s₁, w₁⟩ ∧ body env s₁ = ⟨.ok p, s', w₂⟩ ∧
      w = w₁ ++ w₂ := by
  rcases RbcEvent.guarded_ok h with ⟨hno, -⟩ | hbody
  · cases hs.check hno
  · exact hbody

theorem guarded_passed {α : Type} {body : RM (Option α)} (hp : Passed env self s) :
    self.guarded body env s = body env s := by
  rw [guarded, Proc.bind_run, hp.check, Res.andThen_ok, Res.after_nil]
  rfl

/-! ## Clones -/

/-- The clone of `orig` with the status `t`: its own class, the same log, the message that the
log now holds. -/
structure IsClone (orig : RbcEvent) (s : RState) (t : ChainEventStatus) (e : RbcEvent) : Prop where
  cls : selectChild t = some e.cls
  detectedEvent : e.detectedEvent = orig.detectedEvent
  msg : e.msg = (s.heap orig.detectedEvent).decoded.withStatus t
  mode : e.mode = .send

theorem construct_ok {cls : EventClass} {ref : Ref} {t : Nat} {e : RbcEvent}
    (h : construct cls ref t env s = ⟨.ok e, s', w⟩) :
    (e.cls = cls ∧ e.detectedEvent = ref ∧ e.msg = (s.heap ref).decoded ∧ e.mode = .send) ∧
      s' = s ∧ w = [] := by
  unfold construct at h
  rw [Proc.bind_run, RM.detectedEvent_run, Res.andThen_ok, Res.after_nil] at h
  split at h
  · obtain ⟨rfl, rfl, rfl⟩ := Proc.pure_ok h
    exact ⟨⟨rfl, rfl, rfl, rfl⟩, rfl, rfl⟩
  · cases h

theorem construct_lock {cls : EventClass} {ref : Ref} {t : Nat} {e : RbcEvent}
    (h : construct cls ref t env s = ⟨.ok e, s', w⟩) : e.timeLock = t ∧ e.aggregated = true := by
  unfold construct at h
  rw [Proc.bind_run, RM.detectedEvent_run, Res.andThen_ok, Res.after_nil] at h
  split at h
  · obtain ⟨rfl, -, -⟩ := Proc.pure_ok h
    exact ⟨rfl, rfl⟩
  · cases h

theorem statusOfLog_ok {ref : Ref} {t : ChainEventStatus}
    (h : statusOfLog ref env s = ⟨.ok t, s', w⟩) :
    (s.heap ref).decoded.status.val = t.value ∧ s' = s ∧ w = [] := by
  unfold statusOfLog at h
  rw [Proc.bind_run, RM.detectedEvent_run, Res.andThen_ok, Res.after_nil] at h
  obtain ⟨ht, rfl, rfl⟩ := Proc.ofOption_ok h
  rw [DetectedEvent.statusData_eq] at ht
  exact ⟨(ChainEventStatus.value_of_ofValue? ht).symm, rfl, rfl⟩

section Factory

variable {ref : Ref} {cls : EventClass}

theorem statusOfLog_run (h : (s.heap ref).decoded.status.val = cls.status.value) :
    statusOfLog ref env s = ⟨.ok cls.status, s, []⟩ := by
  simp [statusOfLog, DetectedEvent.statusData_eq, h]

theorem construct_run (t : Nat) (h : (s.heap ref).decoded.status.val = cls.status.value) :
    construct cls ref t env s =
      ⟨.ok ⟨cls, ref, (s.heap ref).decoded, t, .send, true, h⟩, s, []⟩ := by
  simp [construct, h]

/-- Only a live aggregated event of a slow relayer is delayed. -/
theorem init_undelayed {t : Nat}
    (hlive : t ≠ 0 → ¬ (env.cfg.relayerRole = .slowRelayer ∧ cls.isAggregated))
    (h : (s.heap ref).decoded.status.val = cls.status.value) :
    init ref t env s = construct cls ref t env s := by
  by_cases ht : t = 0
  · simp [init, statusOfLog_run h, ht]
  · simp [init, statusOfLog_run h, ht, hlive ht]

/-- The live path of a fast relayer makes events of four statuses. -/
theorem externalInit_run (t : Nat) (h : (s.heap ref).decoded.status.val = cls.status.value) :
    externalInit ref t env s =
      if cls.status ∈ [ChainEventStatus.accepted, .rejected, .committed, .rollbacked] then
        ⟨.ok (some ⟨cls, ref, (s.heap ref).decoded, t, .send, true, h⟩), s, []⟩
      else ⟨.ok none, s, []⟩ := by
  unfold externalInit
  rw [Proc.bind_run, statusOfLog_run h, Res.andThen_ok, Res.after_nil, Proc.ite_run]
  split
  · simp [construct_run t h]
  · rfl

end Factory

theorem init_ok {ref : Ref} {t : Nat} {e : RbcEvent} (h : init ref t env s = ⟨.ok e, s', w⟩) :
    (e.detectedEvent = ref ∧ e.msg = (s.heap ref).decoded ∧ e.mode = .send) ∧ s' = s ∧
      w = [] := by
  unfold init at h
  rw [Proc.bind_run, getConfig_run, Res.andThen_ok, Res.after_nil] at h
  obtain ⟨st, s₁, w₁, w₂, h₁, h₂, rfl⟩ := Proc.bind_ok h
  obtain ⟨-, rfl, rfl⟩ := statusOfLog_ok h₁
  obtain ⟨cls, s₂, w₃, w₄, h₃, h₄, rfl⟩ := Proc.bind_ok h₂
  obtain ⟨-, rfl, rfl⟩ := Proc.ofOption_ok h₃
  split at h₄
  · obtain ⟨⟨-, he⟩, rfl, rfl⟩ := construct_ok h₄
    exact ⟨he, rfl, rfl⟩
  · split at h₄
    · -- the delayed branch of a slow relayer, which also logs the new object
      obtain ⟨d, s₃, w₅, w₆, h₅, h₆, rfl⟩ := Proc.bind_ok h₄
      obtain ⟨-, rfl, rfl⟩ := Proc.ofOption_ok h₅
      obtain ⟨e', s₄, w₇, w₈, h₇, h₈, rfl⟩ := Proc.bind_ok h₆
      obtain ⟨⟨-, he⟩, rfl, rfl⟩ := construct_ok h₇
      obtain ⟨_, s₅, w₉, w₁₀, h₉, h₁₀, rfl⟩ := Proc.bind_ok h₈
      obtain ⟨rfl, rfl, rfl⟩ := Proc.pure_ok h₁₀
      cases hc : e.srcChain? env.cfg.network with
      | none => simp [summary, RM.logged, reqId_error hc] at h₉
      | some c =>
        rw [summary_run hc] at h₉
        cases h₉
        exact ⟨he, rfl, rfl⟩
    · obtain ⟨⟨-, he⟩, rfl, rfl⟩ := construct_ok h₄
      exact ⟨he, rfl, rfl⟩

@[simp] theorem setStatus_heap_self (s : RState) (ref : Ref) (t : ChainEventStatus) :
    (s.setStatus ref t).heap ref = (s.heap ref).setStatus t := by
  simp [RState.setStatus]

theorem setStatus_heap_of_ne (s : RState) {ref r : Ref} (t : ChainEventStatus) (h : r ≠ ref) :
    (s.setStatus ref t).heap r = s.heap r := by
  simp [RState.setStatus, h]

theorem cloneWithOtherStatus_ok {t : ChainEventStatus} {timeLock : Nat} {e : RbcEvent}
    (h : self.cloneWithOtherStatus t (some timeLock) env s = ⟨.ok e, s', w⟩) :
    self.IsClone s t e ∧ s' = s.setStatus self.detectedEvent t ∧ w = [] := by
  unfold cloneWithOtherStatus at h
  simp only [Proc.bind_run, Proc.pure_run, Res.andThen_ok, Res.after_nil, Proc.modify_run] at h
  obtain ⟨⟨href, hmsg, hmode⟩, rfl, rfl⟩ := init_ok h
  rw [setStatus_heap_self, DetectedEvent.decoded_setStatus] at hmsg
  refine ⟨⟨?_, href, hmsg, hmode⟩, rfl, rfl⟩
  -- the class is the one whose status the log holds
  have hst := e.status_eq
  rw [hmsg, SocketMsg.withStatus_status] at hst
  rw [ChainEventStatus.value_inj hst, selectChild_status]

/-- Only a slow relayer moves the time lock that it is given. -/
theorem lock_of_init (hrole : env.cfg.relayerRole ≠ .slowRelayer) {ref : Ref} {t : Nat}
    {e : RbcEvent} (h : init ref t env s = ⟨.ok e, s', w⟩) : e.timeLock = t := by
  unfold init at h
  rw [Proc.bind_run, getConfig_run, Res.andThen_ok, Res.after_nil] at h
  obtain ⟨st, s₁, w₁, w₂, h₁, h₂, -⟩ := Proc.bind_ok h
  obtain ⟨cls, s₂, w₃, w₄, h₃, h₄, -⟩ := Proc.bind_ok h₂
  split at h₄
  · exact (construct_lock h₄).1
  · split at h₄
    · next hslow => exact absurd hslow.1 hrole
    · exact (construct_lock h₄).1

/-- `st` ends the event's own branch, on the chain that the event is relayed to. -/
def EndsWith (self : RbcEvent) (net : Network) (st : ChainEventStatus) : Prop :=
  ∃ c, self.srcChain? net = some c ∧
    match self.cls with
    | .accepted => if c = .bifrost then st = .executed else st = .committed
    | .rejected => if c = .bifrost then st = .reverted else st = .rollbacked
    | _ => False

end RbcEvent

/-! ## Relays -/

namespace AggregatedRelayEvent

open RbcEvent

variable {self : RbcEvent} {env : Env} {s s' : RState} {w : List Effect}

/-- The status that ends the event's branch on the chain it is relayed to. -/
def finalStatus? (self : RbcEvent) (net : Network) : Option ChainEventStatus :=
  (self.srcChain? net).map fun c => expectedStatus self.status (c ≠ .bifrost)

/-- What an aggregated event expects ends its branch. -/
theorem endsWith_iff {net : Network} {st : ChainEventStatus} (hagg : self.cls.isAggregated) :
    self.EndsWith net st ↔ finalStatus? self net = some st := by
  unfold RbcEvent.EndsWith finalStatus? expectedStatus RbcEvent.status
  cases hsrc : self.srcChain? net with
  | none => simp
  | some c =>
    cases hcls : self.cls <;> simp_all [EventClass.isAggregated, EventClass.status] <;>
      split <;> exact eq_comm

theorem getRequestCall_ok {chain : RM ChainEnum} {p : CallParamTuple}
    (h : self.getRequestCall chain env s = ⟨.ok p, s', w⟩) :
    ∃ c rid s₁, chain env s = ⟨.ok c, s₁, w⟩ ∧ self.requestId? env.cfg.network = some rid ∧
      p = some ⟨c, SOCKET_CONTRACT_NAME, GET_REQ_INFO_FUNCTION_NAME, rid⟩ ∧ s' = s₁ := by
  unfold getRequestCall at h
  obtain ⟨c, s₁, w₁, w₂, h₁, h₂, rfl⟩ := Proc.bind_ok h
  obtain ⟨rid, s₂, w₃, w₄, h₃, h₄, rfl⟩ := Proc.bind_ok h₂
  obtain ⟨hrid, rfl, rfl⟩ := requestId_ok h₃
  obtain ⟨rfl, rfl, rfl⟩ := Proc.pure_ok h₄
  exact ⟨c, rid, _, by simpa using h₁, hrid, rfl, rfl⟩

/-- After the check has passed, the call asks the target chain for the request. -/
theorem buildCall_passed {p : CallParamTuple} (hp : Passed env self s)
    (h : buildCallTransactionParams self env s = ⟨.ok p, s', w⟩) :
    ∃ c rid, self.targetChain? env.cfg.network = some c ∧
      self.requestId? env.cfg.network = some rid ∧
      p = some ⟨c, SOCKET_CONTRACT_NAME, GET_REQ_INFO_FUNCTION_NAME, rid⟩ ∧ s' = s ∧ w = [] := by
  rw [buildCallTransactionParams, guarded_passed hp] at h
  obtain ⟨c, rid, s₁, h₁, hrid, rfl, rfl⟩ := getRequestCall_ok h
  obtain ⟨hc, rfl, rfl⟩ := targetChain_ok h₁
  exact ⟨c, rid, hc, hrid, rfl, rfl, rfl⟩

theorem getRequest_ok {tx : CallTx} {info : RequestInfo}
    (h : RM.getRequest tx env s = ⟨.ok info, s', w⟩) :
    s' = s.tick ∧ w = [.called tx.chain tx.method, .request tx.chain tx.rid info] := by
  unfold RM.getRequest at h
  obtain ⟨i, s₁, w₁, w₂, h₁, h₂, rfl⟩ := Proc.bind_ok h
  obtain ⟨-, rfl, rfl⟩ := worldCall_ok h₁
  rw [Proc.bind_run, Proc.emit_run, Res.andThen_ok, Proc.pure_run] at h₂
  cases h₂
  exact ⟨rfl, rfl⟩

theorem checkAlreadyDone_ok {info : RequestInfo} {p : ChainEventStatus × ChainEventStatus}
    (h : checkAlreadyDone self info env s = ⟨.ok p, s', w⟩) :
    ChainEventStatus.ofValue? info.status = some p.1 ∧
      finalStatus? self env.cfg.network = some p.2 ∧ s' = s ∧ w = [] := by
  unfold checkAlreadyDone at h
  obtain ⟨st, s₁, w₁, w₂, h₁, h₂, rfl⟩ := Proc.bind_ok h
  obtain ⟨hst, rfl, rfl⟩ := Proc.ofOption_ok h₁
  obtain ⟨b, s₂, w₃, w₄, h₃, h₄, rfl⟩ := Proc.bind_ok h₂
  obtain ⟨c, hc, rfl, rfl, rfl⟩ := isInbound_ok h₃
  obtain ⟨rfl, rfl, rfl⟩ := Proc.pure_ok h₄
  exact ⟨hst, by simp [finalStatus?, hc], rfl, rfl⟩

theorem aggregatedRelay_ok {c : ChainEnum} {p : SendParamTuple}
    (h : aggregatedRelay self c env s = ⟨.ok p, s', w⟩) :
    ∃ sigs, p = some ⟨c, SOCKET_CONTRACT_NAME, SUBMIT_FUNCTION_NAME,
      .poll (s.heap self.detectedEvent).decoded sigs 0⟩ := by
  unfold aggregatedRelay at h
  obtain ⟨rid, s₁, w₁, w₂, h₁, h₂, rfl⟩ := Proc.bind_ok h
  obtain ⟨-, rfl, rfl⟩ := requestId_ok h₁
  obtain ⟨t, s₂, w₃, w₄, h₃, h₄, rfl⟩ := Proc.bind_ok h₂
  obtain ⟨-, rfl, rfl⟩ := worldCall_ok h₃
  obtain ⟨sigs, s₃, w₅, w₆, h₅, h₆, rfl⟩ := Proc.bind_ok h₄
  obtain ⟨-, rfl, rfl⟩ := Proc.ofOption_ok h₅
  obtain ⟨args, s₄, w₇, w₈, h₇, h₈, rfl⟩ := Proc.bind_ok h₆
  obtain ⟨⟨sigs', rfl⟩, rfl, rfl⟩ := pollSubmit_ok h₇
  obtain ⟨rfl, rfl, rfl⟩ := Proc.pure_ok h₈
  exact ⟨sigs', rfl⟩

/-- The poll of the event on its target chain. -/
def IsRelay (self : RbcEvent) (net : Network) (msg : SocketMsg) (tx : SendTx) : Prop :=
  ∃ c sigs, self.targetChain? net = some c ∧
    tx = ⟨c, SOCKET_CONTRACT_NAME, SUBMIT_FUNCTION_NAME, .poll msg sigs 0⟩

theorem same_deferred (self : RbcEvent) (cfg : Config) : self.Same (deferred self cfg) :=
  ⟨rfl, rfl, rfl⟩

/-- Without the expected status, the event is relayed now, or queued in call mode. -/
theorem relayOrDefer_ok {p : SendParamTuple}
    (h : relayOrDefer self env s = ⟨.ok p, s', w⟩) :
    s'.heap = s.heap ∧ requestsOf w = [] ∧ sentOf w = [] ∧
      ((∃ tx, p = some tx ∧
          IsRelay self env.cfg.network (s.heap self.detectedEvent).decoded tx ∧
          enqueuedOf w = []) ∨
        p = none ∧ self.aggregated = true ∧
          enqueuedOf w = [.socket (deferred self env.cfg)]) := by
  unfold relayOrDefer at h
  obtain ⟨primary, s₁, w₁, w₂, h₁, h₂, rfl⟩ := Proc.bind_ok h
  obtain ⟨hheap, hw₁⟩ := quiet_isPrimaryRelayer.run h₁
  rw [requestsOf_append, sentOf_append, enqueuedOf_append, requestsOf_local hw₁,
    sentOf_local hw₁, enqueuedOf_local hw₁]
  split at h₂
  · obtain ⟨c, s₂, w₃, w₄, h₃, h₄, rfl⟩ := Proc.bind_ok h₂
    obtain ⟨hc, rfl, rfl⟩ := targetChain_ok h₃
    obtain ⟨sigs, rfl⟩ := aggregatedRelay_ok h₄
    obtain ⟨hheap', hw₂⟩ := (quiet_aggregatedRelay c).run h₄
    refine ⟨hheap'.trans hheap, requestsOf_local hw₂, sentOf_local hw₂,
      .inl ⟨_, rfl, ⟨c, sigs, hc, ?_⟩, enqueuedOf_local hw₂⟩⟩
    rw [hheap]
  · rename_i hnot
    rw [Proc.bind_run, getConfig_run, Res.andThen_ok, Res.after_nil, Proc.bind_run, enqueue_run,
      Res.andThen_ok, Proc.pure_run] at h₂
    cases h₂
    exact ⟨hheap, rfl, rfl, .inr ⟨rfl, by simp_all, rfl⟩⟩

/-- The cases of the builder: not this relayer's event; the answer of the target chain shows
the final status; or it does not, and the event is relayed or queued again. -/
theorem buildTransactionParams_ok {p : SendParamTuple}
    (h : buildTransactionParams self env s = ⟨.ok p, s', w⟩) :
    s'.heap = s.heap ∧ sentOf w = [] ∧
      ((∃ s₁ w₁, self.checkMyEvent env s = ⟨.ok false, s₁, w₁⟩ ∧ p = none ∧
          requestsOf w = [] ∧ enqueuedOf w = []) ∨
        ∃ c rid info st final, self.targetChain? env.cfg.network = some c ∧
          self.requestId? env.cfg.network = some rid ∧
          finalStatus? self env.cfg.network = some final ∧
          ChainEventStatus.ofValue? info.status = some st ∧
          requestsOf w = [(c, rid, info)] ∧
          ((st = final ∧ p = none ∧ enqueuedOf w = []) ∨
            st ≠ final ∧ ((∃ tx, p = some tx ∧
                IsRelay self env.cfg.network (s.heap self.detectedEvent).decoded tx ∧
                enqueuedOf w = []) ∨
              p = none ∧ self.aggregated = true ∧
                enqueuedOf w = [.socket (deferred self env.cfg)]))) := by
  unfold buildTransactionParams at h
  rcases guarded_ok h with ⟨hcheck, rfl⟩ | ⟨s₁, w₁, w₂, h₁, h₂, rfl⟩
  · obtain ⟨hheap, hw⟩ := quiet_checkMyEvent.run hcheck
    exact ⟨hheap, sentOf_local hw,
      .inl ⟨_, _, hcheck, rfl, requestsOf_local hw, enqueuedOf_local hw⟩⟩
  · obtain ⟨hheap, hw₁⟩ := quiet_checkMyEvent.run h₁
    obtain ⟨call, s₂, w₃, w₄, h₃, h₄, rfl⟩ := Proc.bind_ok h₂
    obtain ⟨c, rid, hc, hrid, rfl, rfl, rfl⟩ := buildCall_passed (passed_of_check h₁) h₃
    rw [Proc.bind_run, Proc.ofOption_some, Proc.pure_run, Res.andThen_ok, Res.after_nil] at h₄
    obtain ⟨info, s₃, w₅, w₆, h₅, h₆, rfl⟩ := Proc.bind_ok h₄
    obtain ⟨rfl, rfl⟩ := getRequest_ok h₅
    obtain ⟨⟨st, final⟩, s₄, w₇, w₈, h₇, h₈, rfl⟩ := Proc.bind_ok h₆
    obtain ⟨hst, hfin, rfl, rfl⟩ := checkAlreadyDone_ok h₇
    simp only [List.nil_append, requestsOf_append, sentOf_append, enqueuedOf_append,
      requestsOf_local hw₁, sentOf_local hw₁, enqueuedOf_local hw₁]
    dsimp only at h₈
    split at h₈
    · next heq =>
      obtain ⟨rfl, rfl, rfl⟩ := Proc.pure_ok h₈
      exact ⟨hheap, rfl,
        .inr ⟨c, rid, info, st, final, hc, hrid, hfin, hst, rfl, .inl ⟨heq, rfl, rfl⟩⟩⟩
    · next hne =>
      obtain ⟨hheap', hreq, hsent, hcase⟩ := relayOrDefer_ok h₈
      rw [hreq, hsent]
      refine ⟨hheap'.trans hheap, rfl,
        .inr ⟨c, rid, info, st, final, hc, hrid, hfin, hst, rfl, .inr ⟨hne, ?_⟩⟩⟩
      rwa [RState.tick_heap, hheap] at hcase

/-- The event as it comes back from a call whose answer did not show the final status. -/
def resumed (self : RbcEvent) (now : Nat) : RbcEvent :=
  { self.switchToSend now with aggregated := false }

theorem same_resumed (self : RbcEvent) (now : Nat) : self.Same (resumed self now) :=
  ⟨rfl, rfl, rfl⟩

theorem handleCallResult_ok {info : RequestInfo} {p : Option RbcEvent}
    (h : handleCallResult self info env s = ⟨.ok p, s', w⟩) :
    s'.heap = s.heap ∧ (∀ o ∈ w, o.IsLocal) ∧
      ((∃ s₁ w₁, self.checkMyEvent env s = ⟨.ok false, s₁, w₁⟩ ∧ p = none) ∨
        ∃ st final, finalStatus? self env.cfg.network = some final ∧
          ChainEventStatus.ofValue? info.status = some st ∧
          ((st = final ∧ p = none) ∨ st ≠ final ∧ ∃ now, p = some (resumed self now))) := by
  unfold handleCallResult at h
  rcases guarded_ok h with ⟨hcheck, rfl⟩ | ⟨s₁, w₁, w₂, h₁, h₂, rfl⟩
  · obtain ⟨hheap, hw⟩ := quiet_checkMyEvent.run hcheck
    exact ⟨hheap, hw, .inl ⟨_, _, hcheck, rfl⟩⟩
  · obtain ⟨hheap, hw₁⟩ := quiet_checkMyEvent.run h₁
    obtain ⟨⟨st, final⟩, s₄, w₇, w₈, h₇, h₈, rfl⟩ := Proc.bind_ok h₂
    obtain ⟨hst, hfin, rfl, rfl⟩ := checkAlreadyDone_ok h₇
    dsimp only at h₈
    split at h₈
    · next heq =>
      obtain ⟨rfl, rfl, rfl⟩ := Proc.pure_ok h₈
      exact ⟨hheap, by simpa using hw₁, .inr ⟨st, final, hfin, hst, .inl ⟨heq, rfl⟩⟩⟩
    · next hne =>
      obtain ⟨_, s₅, w₉, w₁₀, h₉, h₁₀, rfl⟩ := Proc.bind_ok h₈
      obtain ⟨_, s₆, w₁₁, w₁₂, h₁₁, h₁₂, rfl⟩ := Proc.bind_ok h₉
      obtain ⟨-, rfl, rfl⟩ := targetChain_ok h₁₁
      obtain ⟨rfl, rfl, rfl⟩ := Proc.pure_ok h₁₂
      rw [Proc.bind_run, timestampMsec_run, Res.andThen_ok, Proc.pure_run] at h₁₀
      cases h₁₀
      exact ⟨hheap, by simpa using hw₁, .inr ⟨st, final, hfin, hst, .inr ⟨hne, _, rfl⟩⟩⟩

end AggregatedRelayEvent

/-! ## Results of transactions -/

namespace RbcEvent

variable {self : RbcEvent} {env : Env} {s s' : RState} {w : List Effect}

/-- The status of the clone that `handle_tx_result_fail` makes. -/
def failStatus : EventClass → Option ChainEventStatus
  | .requested => some .failed
  | .accepted => some .rejected
  | _ => none

/-- The outcome of a failed transaction: nothing, or a clone with the overwritten log. -/
def FailCase (self : RbcEvent) (s s' : RState) (p : Option RbcEvent) : Prop :=
  p = none ∧ s'.heap = s.heap ∨
    ∃ t e, failStatus self.cls = some t ∧ p = some e ∧ self.IsClone s t e ∧
      s'.heap = (s.setStatus self.detectedEvent t).heap

theorem FailCase.of_heap {s₁ : RState} {p : Option RbcEvent} (hheap : s₁.heap = s.heap)
    (h : FailCase self s₁ s' p) : FailCase self s s' p := by
  rcases h with ⟨hp, hs⟩ | ⟨t, e, ht, hp, he, hs⟩
  · exact .inl ⟨hp, hs.trans hheap⟩
  · refine .inr ⟨t, e, ht, hp, ⟨he.cls, he.detectedEvent, ?_, he.mode⟩, ?_⟩
    · rw [he.msg, hheap]
    · simp only [hs, RState.setStatus, hheap]

/-- A handler that ends as that of a failed transaction, and has local effects. -/
structure FailLike (e : RbcEvent) (x : RM (Option RbcEvent)) : Prop where
  run : ∀ {env : Env} {s s' : RState} {w : List Effect} {p : Option RbcEvent},
    x env s = ⟨.ok p, s', w⟩ → FailCase e s s' p ∧ ∀ o ∈ w, o.IsLocal

namespace FailLike

variable {x y : RM (Option RbcEvent)}

theorem none : FailLike self (pure none) := by
  refine ⟨fun h => ?_⟩
  obtain ⟨rfl, rfl, rfl⟩ := Proc.pure_ok h
  exact ⟨.inl ⟨rfl, rfl⟩, by simp⟩

theorem ite {c : Prop} [Decidable c] (hx : FailLike self x) (hy : FailLike self y) :
    FailLike self (if c then x else y) := by
  split
  · exact hx
  · exact hy

theorem bind {α : Type} {x : RM α} {f : α → RM (Option RbcEvent)} (hx : Quiet x)
    (hf : ∀ a, FailLike self (f a)) : FailLike self (x >>= f) := by
  refine ⟨fun h => ?_⟩
  obtain ⟨a, s₁, w₁, w₂, h₁, h₂, rfl⟩ := Proc.bind_ok h
  obtain ⟨hheap, hw₁⟩ := hx.run h₁
  obtain ⟨hcase, hw₂⟩ := (hf a).run h₂
  exact ⟨hcase.of_heap hheap, List.forall_mem_append.mpr ⟨hw₁, hw₂⟩⟩

theorem guarded (h : FailLike self x) : FailLike self (self.guarded x) :=
  .bind quiet_checkMyEvent fun _ => .ite h .none

theorem clone {t : ChainEventStatus} {timeLock : Nat} (ht : failStatus self.cls = some t)
    (aggregated : RbcEvent → Bool) : FailLike self (do
      let clone ← self.cloneWithOtherStatus t (some timeLock)
      pure (some { clone with aggregated := aggregated clone })) := by
  refine ⟨fun h => ?_⟩
  obtain ⟨e, s₁, w₁, w₂, h₁, h₂, rfl⟩ := Proc.bind_ok h
  obtain ⟨he, rfl, rfl⟩ := cloneWithOtherStatus_ok h₁
  obtain ⟨rfl, rfl, rfl⟩ := Proc.pure_ok h₂
  exact ⟨.inr ⟨t, _, ht, rfl, ⟨he.cls, he.detectedEvent, he.msg, he.mode⟩, rfl⟩, by simp⟩

/-- The handlers of the base class do nothing. -/
theorem base : FailLike self (self.guarded do self.summary; pure Option.none) :=
  .guarded (.bind quiet_summary fun _ => .none)

end FailLike

theorem quiet_baseFail : Quiet (Base.handleTxResultFail self) :=
  quiet_guarded (.bind quiet_summary fun _ => .pure _)

theorem failLike_handleTxResultFail : FailLike self self.handleTxResultFail := by
  unfold handleTxResultFail
  cases hcls : self.cls with
  | requested => exact .guarded (.clone (by rw [hcls]; rfl) (·.aggregated))
  | accepted =>
    refine .guarded (.bind quiet_isInbound fun _ => .ite ?_ ?_)
    · exact .bind quiet_summary fun _ => .none
    · exact .clone (by rw [hcls]; rfl) fun _ => false
  | _ => exact .base

theorem handleTxResultFail_ok {p : Option RbcEvent}
    (h : self.handleTxResultFail env s = ⟨.ok p, s', w⟩) :
    FailCase self s s' p ∧ ∀ o ∈ w, o.IsLocal :=
  failLike_handleTxResultFail.run h

/-- A missing receipt is handled as a failure, if at all. -/
theorem handleTxResultNoReceipt_ok {p : Option RbcEvent}
    (h : self.handleTxResultNoReceipt env s = ⟨.ok p, s', w⟩) :
    FailCase self s s' p ∧ ∀ o ∈ w, o.IsLocal := by
  have hlike : FailLike self self.handleTxResultNoReceipt :=
    .guarded (.bind quiet_summary fun _ => failLike_handleTxResultFail)
  exact hlike.run h

theorem quiet_handleTxResultSuccess : Quiet self.handleTxResultSuccess := by
  unfold handleTxResultSuccess
  split
  · refine quiet_guarded (.bind quiet_srcChain fun _ =>
      .bind (quiet_exportingRequestMetric ..) fun _ => .bind quiet_isInbound fun _ => ?_)
    exact .ite (.bind .getConfig fun _ => .pure _) (.pure _)
  · exact quiet_guarded (.bind quiet_srcChain fun _ =>
      .bind (quiet_exportingRequestMetric ..) fun _ => .pure _)

/-- After a success only an inbound request goes on, in call mode. -/
theorem handleTxResultSuccess_ok {p : Option RbcEvent}
    (h : self.handleTxResultSuccess env s = ⟨.ok p, s', w⟩) :
    (p = none ∨ self.cls = .requested ∧ ∃ t, p = some (self.switchToCall t)) ∧
      s'.heap = s.heap ∧ ∀ o ∈ w, o.IsLocal := by
  have hret : Proc.Returns (fun p : Option RbcEvent => p = none ∨
      self.cls = .requested ∧ ∃ t, p = some (self.switchToCall t)) self.handleTxResultSuccess := by
    unfold handleTxResultSuccess
    cases hcls : self.cls with
    | requested =>
      refine .bind fun _ => .ite (.bind fun _ => .bind fun _ => .bind fun _ => .ite ?_ ?_) ?_
      · exact .bind fun _ => .pure (.inr ⟨rfl, _, rfl⟩)
      · exact .pure (.inl rfl)
      · exact .pure (.inl rfl)
    | _ =>
      refine .bind fun _ => .ite (.bind fun _ => .bind fun _ => ?_) ?_
      · exact .pure (.inl rfl)
      · exact .pure (.inl rfl)
  exact ⟨hret.run h, quiet_handleTxResultSuccess.run h⟩

/-! ## Dispatch -/

theorem build_of_aggregated (hagg : self.cls.isAggregated) :
    self.buildTransactionParams = AggregatedRelayEvent.buildTransactionParams self := by
  unfold RbcEvent.buildTransactionParams
  split <;> simp_all [EventClass.isAggregated]

theorem buildCall_of_aggregated (hagg : self.cls.isAggregated) :
    self.buildCallTransactionParams = AggregatedRelayEvent.buildCallTransactionParams self := by
  unfold RbcEvent.buildCallTransactionParams
  split <;> simp_all [EventClass.isAggregated]

theorem handleCallResult_of_aggregated (hagg : self.cls.isAggregated) (info : RequestInfo) :
    self.handleCallResult info = AggregatedRelayEvent.handleCallResult self info := by
  unfold RbcEvent.handleCallResult
  split <;> simp_all [EventClass.isAggregated]

/-! ## Votes and calls -/

theorem quiet_buildTransactionParams (hagg : self.cls.isAggregated = false) :
    Quiet self.buildTransactionParams := by
  have hsig : Quiet self.buildTransactionParamWithSig :=
    .bind (.ofOption ..) fun _ => .bind (quiet_dataWithStatus _) fun _ => quiet_pollWithSig _
  have hfinal : Quiet (FinalStatusEvent.buildTransactionParams self) :=
    quiet_guarded (.bind quiet_srcChain fun _ =>
      .bind (quiet_exportingRequestMetric ..) fun _ => .pure _)
  unfold buildTransactionParams
  cases hcls : self.cls with
  | failed =>
    refine quiet_guarded (.bind quiet_isInbound fun _ => .ite (.pure _) ?_)
    exact .bind (quiet_detectedEvent _) fun _ => quiet_pollWithSig _
  | requested =>
    refine quiet_guarded (.bind quiet_isInbound fun _ => .ite ?_ ?_)
    · exact .bind (quiet_submitTuple ..) fun _ => .pure _
    · exact .bind (quiet_dataWithStatus _) fun _ => quiet_pollWithSig _
  | executed => exact quiet_guarded hsig
  | reverted => exact quiet_guarded hsig
  | accepted | rejected =>
    rw [hcls] at hagg
    cases hagg
  | committed => exact hfinal
  | rollbacked => exact hfinal

theorem quiet_buildCallTransactionParams : Quiet self.buildCallTransactionParams := by
  have hbase : Quiet (Base.buildCallTransactionParams self) :=
    quiet_guarded (.bind quiet_summary fun _ => .pure _)
  unfold buildCallTransactionParams
  split
  · exact quiet_guarded (quiet_getRequestCall quiet_dstChain)
  · exact quiet_guarded (quiet_getRequestCall quiet_targetChain)
  · exact quiet_guarded (quiet_getRequestCall quiet_targetChain)
  · exact hbase

/-- A request without a quorum is handled as failed; the other events do nothing. -/
theorem handleCallResult_ok {info : RequestInfo} {p : Option RbcEvent}
    (hagg : self.cls.isAggregated = false)
    (h : self.handleCallResult info env s = ⟨.ok p, s', w⟩) :
    FailCase self s s' p ∧ ∀ o ∈ w, o.IsLocal := by
  have hlike : FailLike self (self.handleCallResult info) := by
    unfold handleCallResult
    cases hcls : self.cls with
    | requested =>
      have hfail : ChainRequestedEvent.handleTxResultFail self = self.handleTxResultFail := by
        simp only [handleTxResultFail, hcls]
      refine .guarded (.bind quiet_rnd fun _ => .bind (.fetchQuorum ..) fun _ => ?_)
      exact .ite .none (.ite .none (hfail ▸ failLike_handleTxResultFail))
    | accepted | rejected =>
      rw [hcls] at hagg
      cases hagg
    | _ => exact .base
  exact hlike.run h

end RbcEvent

end Bifrost
