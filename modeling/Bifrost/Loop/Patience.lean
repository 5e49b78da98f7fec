import Bifrost.Loop.Ballot
import Bifrost.Loop.Indexed
import Bifrost.Loop.Outcome

/-!
# Relayers that wait

The loop takes an event when its time lock has come. A slow relayer adds its delay
to the lock of an aggregated event that it detects, and a relayer that is not the
primary one defers the event once more, to ask again before it relays. So a relay
that another relayer has brought to its end by then is not repeated: from the
detection on, nothing is sent for the log (`patient`). The invariant is that every
entry on the log still has one of the two waits before it (`RbcEvent.Waits`).
-/

namespace Bifrost

open Bifrost.Lib

variable {env : Env} {s s' : RState} {w : List Effect}

/-! ## The clock -/

/-- Time does not run backwards in `x`. -/
def Onward {α : Type} (x : RM α) : Prop := ∀ n, Proc.Keeps (fun _ s => n ≤ s.now) x

theorem onward_worldCall {α : Type} (chain : ChainEnum) (method : String) (answer : View → α) :
    Onward (RM.worldCall chain method answer) := fun _ =>
  .bind .ask fun _ => .bind .get fun _ => .bind (.modify fun _ _ h => Nat.le_succ_of_le h) fun _ =>
    .bind (.emit _) fun _ => .ite (.throw _) (.pure _)

namespace RbcEvent

variable {self : RbcEvent}

theorem onward_checkMyEvent : Onward self.checkMyEvent := by
  intro n
  have hcfg : Proc.Keeps (fun _ s => n ≤ s.now) RM.getConfig := .bind .ask fun _ => .pure _
  have hid : Proc.Keeps (fun _ s => n ≤ s.now) self.reqId :=
    .bind hcfg fun _ => .bind (.ofOption _ _) fun _ => .pure _
  refine .bind hcfg fun _ => .ite (.pure _) (.bind (.bind hid fun _ => .pure _) fun _ => ?_)
  refine .ite (.pure _) (.bind (.bind hid fun _ => .pure _) fun _ => ?_)
  refine .bind (.bind .get fun _ => .pure _) fun _ => .ite (.pure _) (.bind ?_ fun i => ?_)
  · exact .bind (.bind (onward_worldCall _ _ _ n) fun _ => .pure _) fun _ =>
      .bind .ask fun _ => .pure _
  · cases i with
    | none => exact .pure _
    | some i => exact .bind (.modify fun _ _ h => h) fun _ => .pure _

theorem now_of_check {b : Bool} (h : self.checkMyEvent env s = ⟨.ok b, s', w⟩) :
    s.now ≤ s'.now := by
  have honward : Onward self.checkMyEvent := onward_checkMyEvent
  have hlater := honward s.now env s (Nat.le_refl _)
  rwa [h] at hlater

/-! ## What a handling reads -/

/-- The `n`-th read of the event's request on its target chain shows another status than the final
one of the event's branch. -/
def OpenAt (env : Env) (e : RbcEvent) (n : Nat) : Prop :=
  ∃ c rid st, e.targetChain? env.cfg.network = some c ∧
    e.requestId? env.cfg.network = some rid ∧
    ChainEventStatus.ofValue? ((env.view n).getRequest c rid).status = some st ∧
    ¬ e.EndsWith env.cfg.network st

/-- What an aggregated event does not expect leaves it open. -/
theorem openAt_of_ne {e : RbcEvent} (hagg : e.cls.isAggregated) {n : Nat} {c : ChainEnum}
    {rid : RequestId} {st final : ChainEventStatus} (hc : e.targetChain? env.cfg.network = some c)
    (hrid : e.requestId? env.cfg.network = some rid)
    (hfin : AggregatedRelayEvent.finalStatus? e env.cfg.network = some final)
    (hst : ChainEventStatus.ofValue? ((env.view n).getRequest c rid).status = some st)
    (hne : st ≠ final) : e.OpenAt env n := by
  refine ⟨c, rid, st, hc, hrid, hst, fun hends => hne ?_⟩
  have heq := (AggregatedRelayEvent.endsWith_iff hagg).mp hends
  exact Option.some.inj (heq.symm.trans hfin)

theorem Same.openAt {e e' : RbcEvent} (h : e.Same e') {n : Nat} :
    e'.OpenAt env n ↔ e.OpenAt env n := by
  unfold OpenAt
  simp only [h.targetChain?, h.requestId?, h.endsWith]

theorem getRequest_info {tx : CallTx} {info : RequestInfo}
    (h : RM.getRequest tx env s = ⟨.ok info, s', w⟩) :
    info = (env.view s.now).getRequest tx.chain tx.rid := by
  obtain ⟨i, s₁, w₁, w₂, h₁, h₂, -⟩ := Proc.bind_ok h
  obtain ⟨rfl, -, -⟩ := worldCall_ok h₁
  rw [Proc.bind_run, Proc.emit_run, Res.andThen_ok, Proc.pure_run] at h₂
  cases h₂
  rfl

/-- The relayer relays an event that has been deferred, or for which it is the primary one. -/
theorem primary_of_relay {tx : SendTx}
    (h : AggregatedRelayEvent.relayOrDefer self env s = ⟨.ok (some tx), s', w⟩) :
    self.aggregated = false ∨ (self.isPrimaryRelayer env s).val = .ok true := by
  obtain ⟨primary, s₁, w₁, w₂, h₁, h₂, -⟩ := Proc.bind_ok h
  split at h₂
  · next hcond =>
    rcases Bool.or_eq_true_iff.mp hcond with rfl | hagg
    · exact .inr (by rw [h₁])
    · exact .inl (by simpa using hagg)
  · obtain ⟨_, s₂, w₃, w₄, -, h₄, -⟩ := Proc.bind_ok h₂
    obtain ⟨_, s₃, w₅, w₆, -, h₆, -⟩ := Proc.bind_ok h₄
    cases (Proc.pure_ok h₆).1

/-- A builder that returns a transaction, or defers, has read that the request is open. -/
theorem open_of_build {p : SendParamTuple} (hagg : self.cls.isAggregated)
    (h : AggregatedRelayEvent.buildTransactionParams self env s = ⟨.ok p, s', w⟩) :
    p = none ∧ enqueuedOf w = [] ∨ ∃ s₁, s₁.heap = s.heap ∧
      (Indexed env s → Indexed env s₁) ∧ (∃ n, s.now ≤ n ∧ self.OpenAt env n) ∧
      ((∃ tx, p = some tx) → self.aggregated = false ∨
        (self.isPrimaryRelayer env s₁).val = .ok true) := by
  unfold AggregatedRelayEvent.buildTransactionParams at h
  rcases guarded_ok h with ⟨hcheck, rfl⟩ | ⟨s₁, w₁, w₂, h₁, h₂, rfl⟩
  · obtain ⟨-, hw⟩ := quiet_checkMyEvent.run hcheck
    exact .inl ⟨rfl, enqueuedOf_local hw⟩
  obtain ⟨hheap, hw₁⟩ := quiet_checkMyEvent.run h₁
  have hnow := now_of_check h₁
  have hindexed : Indexed env s → Indexed env s₁.tick := fun hi => by
    have hquiet : Quiet self.checkMyEvent := quiet_checkMyEvent
    have hkept := hi.keeps hquiet.cache
    rw [h₁] at hkept
    exact hkept.of_cache rfl
  obtain ⟨call, s₂, w₃, w₄, h₃, h₄, rfl⟩ := Proc.bind_ok h₂
  obtain ⟨c, rid, hc, hrid, rfl, rfl, rfl⟩ :=
    AggregatedRelayEvent.buildCall_passed (passed_of_check h₁) h₃
  rw [Proc.bind_run, Proc.ofOption_some, Proc.pure_run, Res.andThen_ok, Res.after_nil] at h₄
  obtain ⟨info, s₃, w₅, w₆, h₅, h₆, rfl⟩ := Proc.bind_ok h₄
  obtain rfl := getRequest_info h₅
  obtain ⟨rfl, rfl⟩ := AggregatedRelayEvent.getRequest_ok h₅
  obtain ⟨⟨st, final⟩, s₄, w₇, w₈, h₇, h₈, rfl⟩ := Proc.bind_ok h₆
  obtain ⟨hst, hfin, rfl, rfl⟩ := AggregatedRelayEvent.checkAlreadyDone_ok h₇
  dsimp only at h₈
  split at h₈
  · obtain ⟨rfl, rfl, rfl⟩ := Proc.pure_ok h₈
    refine .inl ⟨rfl, ?_⟩
    simp only [enqueuedOf_append, enqueuedOf_local hw₁]
    rfl
  · next hne =>
    refine .inr ⟨.tick _, hheap, hindexed,
      ⟨_, hnow, openAt_of_ne hagg hc hrid hfin hst hne⟩, ?_⟩
    rintro ⟨tx, rfl⟩
    exact primary_of_relay h₈

/-- A call whose handler returns the event has read that the request is open. -/
theorem open_of_call {e : RbcEvent} (hagg : self.cls.isAggregated)
    (h : self.processCall env s = ⟨.ok (some e), s', w⟩) :
    ∃ n, s.now ≤ n ∧ self.OpenAt env n := by
  unfold processCall at h
  obtain ⟨p, s₁, w₁, w₂, h₁, h₂, -⟩ := Proc.bind_ok h
  cases p with
  | none => cases (Proc.pure_ok h₂).1
  | some tx =>
    obtain ⟨info, s₂, w₃, w₄, h₃, h₄, -⟩ := Proc.bind_ok h₂
    rw [buildCall_of_aggregated hagg, AggregatedRelayEvent.buildCallTransactionParams] at h₁
    rw [handleCallResult_of_aggregated hagg] at h₄
    rcases guarded_ok h₁ with ⟨-, hnone⟩ | ⟨s₃, w₅, w₆, hcheck, hbody, -⟩
    · cases hnone
    obtain ⟨c, rid, s₄, hchain, hrid, htx, rfl⟩ :=
      AggregatedRelayEvent.getRequestCall_ok hbody
    obtain ⟨hc, rfl, -⟩ := targetChain_ok hchain
    cases htx
    obtain rfl := getRequest_info h₃
    rcases (AggregatedRelayEvent.handleCallResult_ok h₄).2.2 with ⟨_, _, -, hnone⟩ |
      ⟨st, final, hfin, hst, ⟨-, hnone⟩ | ⟨hne, -⟩⟩
    · cases hnone
    · cases hnone
    · exact ⟨_, now_of_check hcheck, openAt_of_ne hagg hc hrid hfin hst hne⟩

end RbcEvent

section Handlings

open AggregatedRelayEvent

variable {e : RbcEvent} {h : Handling}

/-- A handling that does anything has read that the request is open. -/
theorem open_of_process (hagg : e.cls.isAggregated)
    (hp : process h.outcome (.socket e) env s = ⟨.ok h.next, s', h.out⟩) :
    h.sent = [] ∧ h.queued = [] ∨ ∃ n, s.now ≤ n ∧ e.OpenAt env n := by
  obtain ⟨n, hn, hp⟩ := process_socket_ok hp
  cases hmode : e.mode with
  | send =>
    simp only [RbcEvent.process, hmode] at hp
    rcases processSend_ok hp with ⟨hb, rfl⟩ | ⟨tx, s₁, w₁, w₂, hb, -, -⟩
    · have hsent : sentOf h.out = [] := (build_effects hb).1
      rw [RbcEvent.build_of_aggregated hagg] at hb
      rcases RbcEvent.open_of_build hagg hb with ⟨-, hq⟩ | ⟨_, -, -, hopen, -⟩
      · exact .inl ⟨hsent, by rw [Handling.queued, hq, hn]; rfl⟩
      · exact .inr hopen
    · rw [RbcEvent.build_of_aggregated hagg] at hb
      rcases RbcEvent.open_of_build hagg hb with ⟨hnone, -⟩ | ⟨_, -, -, hopen, -⟩
      · cases hnone
      · exact .inr hopen
  | call =>
    simp only [RbcEvent.process, hmode] at hp
    cases n with
    | some e' => exact .inr (RbcEvent.open_of_call hagg hp)
    | none =>
      refine .inl ?_
      rcases processCall_ok hp with ⟨hb, -⟩ | ⟨tx, info, s₁, w₁, w₂, hb, hr, hout⟩
      · obtain ⟨-, hw⟩ := RbcEvent.quiet_buildCallTransactionParams.run hb
        refine ⟨sentOf_local hw, ?_⟩
        rw [Handling.queued, enqueuedOf_local hw, hn]
        rfl
      · obtain ⟨-, hw₁⟩ := RbcEvent.quiet_buildCallTransactionParams.run hb
        rw [RbcEvent.handleCallResult_of_aggregated hagg] at hr
        obtain ⟨-, hw₂, -⟩ := handleCallResult_ok hr
        obtain ⟨-, hsent, hq⟩ := effects_of_call hout hw₁ hw₂
        exact ⟨hsent, by rw [hq, hn]; rfl⟩

/-- A relayer that is not the primary one defers the event, if it does anything. -/
theorem defers_of_process (hagg : e.cls.isAggregated) (hmode : e.mode = .send)
    (haggregated : e.aggregated = true) (hindexed : Indexed env s)
    (hnot : ∀ s₁, Indexed env s₁ → s₁.heap = s.heap →
      (e.isPrimaryRelayer env s₁).val ≠ .ok true)
    (hp : process h.outcome (.socket e) env s = ⟨.ok h.next, s', h.out⟩) :
    h.sent = [] ∧ s'.heap = s.heap ∧ ∀ q ∈ h.queued, q = .socket (deferred e env.cfg) := by
  obtain ⟨n, hn, hp⟩ := process_socket_ok hp
  simp only [RbcEvent.process, hmode] at hp
  rcases processSend_ok hp with ⟨hb, rfl⟩ | ⟨tx, s₁, w₁, w₂, hb, -, -⟩
  · obtain ⟨hsent, hq⟩ := build_effects hb
    rw [RbcEvent.build_of_aggregated hagg] at hb
    refine ⟨hsent, (buildTransactionParams_ok hb).1, fun q hmem => ?_⟩
    rw [Handling.queued, hn] at hmem
    rcases hq with hq | ⟨-, -, -, hq⟩
    · rw [hq] at hmem
      cases hmem
    · rw [hq] at hmem
      exact List.mem_singleton.mp hmem
  · rw [RbcEvent.build_of_aggregated hagg] at hb
    rcases RbcEvent.open_of_build hagg hb with ⟨hnone, -⟩ | ⟨s₂, hheap, hi, -, hprimary⟩
    · cases hnone
    · rcases hprimary ⟨tx, rfl⟩ with hfalse | hprim
      · rw [haggregated] at hfalse
        cases hfalse
      · exact absurd hprim (hnot s₂ (hi hindexed) hheap)

end Handlings

/-! ## Secondary relayers -/

namespace RbcEvent

/-- The relayer is no primary one for the event of a log in the block, whatever BIFROST answers
when it reads its index and the number of relayers. -/
def Secondary (env : Env) (e : RbcEvent) (block : Nat) : Prop :=
  env.cfg.isFastRelayer = false ∧ ∀ m n,
    rank ((env.view m).previousSelectedRelayers .bifrost e.msg.roundId.val true)
      env.account.address ≠
        some (block % ((env.view n).selectedRelayers .bifrost true).length)

theorem Secondary.not_primary {e : RbcEvent} {block : Nat} (h : e.Secondary env block)
    (hindexed : Indexed env s) (hblock : (s.heap e.detectedEvent).blockNumber = block) :
    (e.isPrimaryRelayer env s).val ≠ .ok true := by
  intro hval
  have hrun := Res.eq_of_val hval
  unfold isPrimaryRelayer at hrun
  rw [Proc.bind_run, getConfig_run, Res.andThen_ok, Res.after_nil, Proc.ite_run,
    if_neg (by simp [h.1])] at hrun
  obtain ⟨total, s₁, w₁, w₂, h₁, h₂, -⟩ := Proc.bind_ok hrun
  rw [fetchRelayerNum_run] at h₁
  obtain ⟨hread, rfl, -⟩ : env.read s (fun v => (v.selectedRelayers .bifrost true).length) =
      .ok total ∧ s.tick = s₁ ∧ _ = w₁ := by simpa using h₁
  obtain ⟨-, rfl⟩ := read_ok hread
  rw [Proc.bind_run, RM.detectedEvent_run, Res.andThen_ok, Res.after_nil] at h₂
  split at h₂
  · cases h₂
  · obtain ⟨k, s₂, w₃, w₄, h₃, h₄, -⟩ := Proc.bind_ok h₂
    cases hc : e.srcChain? env.cfg.network with
    | none => simp [rnd, reqId_error hc] at h₃
    | some c =>
      rw [rnd_run hc] at h₃
      cases h₃
      rw [Proc.bind_run, getValueByKey_run, Res.andThen_ok, Res.after_nil] at h₄
      have heq := of_decide_eq_true (Proc.pure_ok h₄).1.symm
      obtain ⟨m, hrank⟩ := hindexed.2 _ _ (Option.join_eq_some_iff.mp heq.symm) _ rfl
      rw [RState.tick_heap, hblock] at hrank
      exact h.2 m s.now hrank

/-- The relay of the event waits until the millisecond `D` at least. -/
def Waits (env : Env) (D block : Nat) (e : RbcEvent) : Prop :=
  D ≤ e.timeLock ∨ e.mode = .send ∧ e.aggregated = true ∧ e.Secondary env block ∧
    D ≤ e.timeLock + 1000 * env.cfg.rbcEventCallDelaySec

end RbcEvent

/-! ## Timed runs -/

def Queued.timeLock : Queued → Nat
  | .socket e => e.timeLock
  | .roundUp e => e.timeLock

/-- A step of a process that takes an event when its time lock has come. -/
structure TimedStep (env : Env) (n : Node) (acts : List Act) (n' : Node) : Prop where
  step : NodeStep env n acts n'
  due : ∀ h, .handled h ∈ acts → h.event.timeLock ≤ env.msec n.loop.st.now

abbrev TimedRun (env : Env) := Run (TimedStep env)

/-- What is left of `d` waits until the millisecond `D`. -/
structure Patient (env : Env) (d : RbcEvent) (D block : Nat) (hist : List Act) (n : Node) :
    Prop where
  traced : Traced env.cfg hist n
  indexed : Indexed env n.loop.st
  old : d.detectedEvent < n.next
  waits : ∀ e, .socket e ∈ n.loop.queue → e.detectedEvent = d.detectedEvent →
    d.Same e ∧ e.Waits env D block ∧ (n.loop.st.heap d.detectedEvent).blockNumber = block

section Runs

variable {d : RbcEvent} {D block : Nat} {hist acts : List Act} {n n' : Node}

/-- A step that adds no entry on the log of `d`. -/
theorem Patient.frame (h : Patient env d D block hist n)
    (hstep : NodeStep env n acts n') (hold : n.next ≤ n'.next)
    (hq : ∀ e, .socket e ∈ n'.loop.queue → e.detectedEvent = d.detectedEvent →
      .socket e ∈ n.loop.queue ∧
        n'.loop.st.heap d.detectedEvent = n.loop.st.heap d.detectedEvent) :
    Patient env d D block (hist ++ acts) n' := by
  refine ⟨traced_step h.traced hstep, indexed_step h.indexed hstep, h.old.trans_le hold,
    fun e he href => ?_⟩
  obtain ⟨hmem, hheap⟩ := hq e he href
  rw [hheap]
  exact h.waits e hmem href

/-- A handling of an event on the log sends nothing, and leaves the event deferred at most. -/
theorem Patient.quiet {st st' : RState} {queue : List Queued} {next : Ref} {h : Handling}
    {e : RbcEvent} (hp : Patient env d D block hist ⟨⟨st, queue⟩, next⟩)
    (hclock : Monotone env.msec) (hagg : d.cls.isAggregated)
    (hsettled : ∀ n, D ≤ env.msec n → ¬ d.OpenAt env n) (he : .socket e ∈ queue)
    (href : e.detectedEvent = d.detectedEvent) (hdue : e.timeLock ≤ env.msec st.now)
    (hproc : process h.outcome (.socket e) env st = ⟨.ok h.next, st', h.out⟩) :
    h.sent = [] ∧ ∀ e', .socket e' ∈ h.queued →
      d.Same e' ∧ e'.Waits env D block ∧ (st'.heap d.detectedEvent).blockNumber = block := by
  obtain ⟨hsame, hwaits, hblock⟩ := hp.waits e he href
  have hagg' : e.cls.isAggregated := by rw [hsame.1]; exact hagg
  rcases hwaits with hlock | ⟨hmode, haggregated, hsecond, hlock⟩
  · rcases open_of_process hagg' hproc with ⟨hsent, hq⟩ | ⟨n, hn, hopen⟩
    · exact ⟨hsent, fun e' he' => by rw [hq] at he'; cases he'⟩
    · have hlate := (hlock.trans hdue).trans (hclock hn)
      exact absurd (hsame.openAt.mp hopen) (hsettled n hlate)
  · obtain ⟨hsent, hheap, hq⟩ := defers_of_process hagg' hmode haggregated hp.indexed
      (fun s₁ hi hheap => hsecond.not_primary hi (by rw [hheap, href]; exact hblock)) hproc
    refine ⟨hsent, fun e' he' => ?_⟩
    cases hq _ he'
    exact ⟨hsame.trans (AggregatedRelayEvent.same_deferred e env.cfg), .inl hlock,
      by rw [hheap]; exact hblock⟩

/-- Step lemma. -/
theorem patient_step (hclock : Monotone env.msec) (hagg : d.cls.isAggregated)
    (hsettled : ∀ n, D ≤ env.msec n → ¬ d.OpenAt env n) (hp : Patient env d D block hist n)
    (ht : TimedStep env n acts n') :
    Patient env d D block (hist ++ acts) n' ∧ sentOn d.detectedEvent acts = [] := by
  obtain ⟨hstep, hdue⟩ := ht
  have hstep' := hstep
  cases hstep with
  | @detect st st' queue next log timeLock e w hd =>
    obtain ⟨rfl, -, he⟩ := RbcEvent.detect_ok hd
    have hne : d.detectedEvent ≠ next := Nat.ne_of_lt hp.old
    refine ⟨hp.frame hstep' (Nat.le_succ _) fun e' he' href => ⟨?_, ?_⟩, rfl⟩
    · rcases List.mem_append.mp he' with he' | he'
      · exact he'
      · obtain rfl : e' = e := by simpa using he'
        exact absurd (href.symm.trans (he e' rfl).1) hne
    · exact RState.place_heap_of_ne _ _ hne
  | @passOver st st' next queue log timeLock w hd =>
    obtain ⟨rfl, -, -⟩ := RbcEvent.detect_ok hd
    have hne : d.detectedEvent ≠ next := Nat.ne_of_lt hp.old
    exact ⟨hp.frame hstep' (Nat.le_succ _) fun e' he' _ =>
      ⟨he', RState.place_heap_of_ne _ _ hne⟩, rfl⟩
  | detectRoundUp next log timeLock e w hinit =>
    obtain ⟨hheap, -⟩ := (RoundUpEvent.quiet_init log timeLock).run hinit
    refine ⟨hp.frame hstep' le_rfl fun e' he' _ => ⟨by simpa using he', congrFun hheap _⟩, rfl⟩
  | @handle σ σ' next h hloop =>
    have hmem := mem_queue_of_step hloop
    have hdue' := hdue h (List.mem_singleton_self _)
    cases hloop with
    | @handle st st' l₁ l₂ _ hproc =>
      by_cases href : h.event.ref? = some d.detectedEvent
      · obtain ⟨e, hev, hed⟩ := Queued.exists_of_ref? href
        have hproc' := hproc
        rw [hev] at hdue' hproc'
        obtain ⟨hsent, hleft⟩ := hp.quiet hclock hagg hsettled (by rw [← hev]; exact hmem) hed
          hdue' hproc'
        refine ⟨⟨traced_step hp.traced hstep', indexed_step hp.indexed hstep', hp.old,
          fun e' he' hed' => ?_⟩, ?_⟩
        · rcases List.mem_append.mp he' with he' | he'
          · exact absurd (href.trans (congrArg some hed'.symm)) (hp.traced.coherent.ref_ne he')
          · exact hleft e' he'
        · rw [sentOn_singleton]
          exact (if_pos href).trans hsent
      · refine ⟨hp.frame hstep' le_rfl fun e' he' hed' => ⟨?_, ?_⟩, ?_⟩
        · rcases List.mem_append.mp he' with he' | he'
          · exact mem_of_others he'
          · exact absurd ((ref_of_queued hproc he').trans (congrArg some hed')) href
        · exact (frame_of_process hproc).heap _ href
        · rw [sentOn_singleton]
          exact if_neg href
  | period st queue next outcome _ =>
    have hheap : (VSPFeed.period outcome env st).st.heap = st.heap :=
      (VSPFeed.keepsSockets_period outcome).keeps st.heap env st rfl
    exact ⟨hp.frame hstep' le_rfl fun e' he' _ => ⟨he', congrFun hheap _⟩, rfl⟩
  | wait st queue next => exact ⟨hp.frame hstep' le_rfl fun e' he' _ => ⟨he', rfl⟩, rfl⟩
  | restart queue order roundUpOrder timeLock logs roundUps es us w hboot =>
    -- the new process has events on new logs only
    obtain ⟨-, hfresh, -, -⟩ := Relayer.boot_ok hboot
    refine ⟨hp.frame hstep' (Nat.le_add_right _ _) fun e' he' href => ?_, rfl⟩
    have hnew := (hfresh e' (by simpa using he')).1.ref
    have hle := (List.mem_range'_1.mp hnew).1
    exact absurd (href ▸ hle) (not_le.mpr hp.old)

/-- Run lemma. -/
theorem patient_run (hclock : Monotone env.msec) (hagg : d.cls.isAggregated)
    (hsettled : ∀ n, D ≤ env.msec n → ¬ d.OpenAt env n) (hp : Patient env d D block hist n)
    (hrun : TimedRun env n acts n') : sentOn d.detectedEvent acts = [] := by
  refine (hrun.invariant (P := fun acts n => Patient env d D block (hist ++ acts) n ∧
    sentOn d.detectedEvent acts = []) ⟨by rwa [List.append_nil], rfl⟩ ?_).2
  intro acts n more n' h ht
  obtain ⟨hpatient, hsent⟩ := patient_step hclock hagg hsettled h.1 ht
  rw [List.append_assoc] at hpatient
  exact ⟨hpatient, by rw [sentOn_append, h.2, hsent]; rfl⟩

end Runs

/-! ## Live detections -/

/-- What a slow relayer adds to the lock of an aggregated event that it detects. -/
def Config.relayDelayMsec (cfg : Config) : Nat :=
  if cfg.relayerRole = .slowRelayer then cfg.slowRelayerDelaySec.getD 0 * 1000 else 0

namespace RbcEvent

variable {ref : Ref} {t : Nat} {e : RbcEvent}

/-- The lock of a live event, with the delay of a slow relayer. -/
theorem init_delay (ht : t ≠ 0) (h : init ref t env s = ⟨.ok e, s', w⟩)
    (hagg : e.cls.isAggregated) :
    e.timeLock = t + env.cfg.relayDelayMsec ∧ e.aggregated = true := by
  unfold init at h
  rw [Proc.bind_run, getConfig_run, Res.andThen_ok, Res.after_nil] at h
  obtain ⟨st, s₁, w₁, w₂, h₁, h₂, -⟩ := Proc.bind_ok h
  obtain ⟨cls, s₂, w₃, w₄, h₃, h₄, -⟩ := Proc.bind_ok h₂
  rw [if_neg ht] at h₄
  split at h₄
  · next hslow =>
    obtain ⟨sec, s₃, w₅, w₆, h₅, h₆, -⟩ := Proc.bind_ok h₄
    obtain ⟨hsec, -, -⟩ := Proc.ofOption_ok h₅
    obtain ⟨e', s₄, w₇, w₈, h₇, h₈, -⟩ := Proc.bind_ok h₆
    obtain ⟨_, s₅, w₉, w₁₀, -, h₁₀, -⟩ := Proc.bind_ok h₈
    obtain ⟨rfl, -, -⟩ := Proc.pure_ok h₁₀
    obtain ⟨hlock, haggregated⟩ := construct_lock h₇
    refine ⟨?_, haggregated⟩
    rw [hlock, Config.relayDelayMsec, if_pos hslow.1, hsec, Option.getD_some]
  · next hslow =>
    obtain ⟨hlock, haggregated⟩ := construct_lock h₄
    refine ⟨?_, haggregated⟩
    have hrole : env.cfg.relayerRole ≠ .slowRelayer := fun hrole =>
      hslow ⟨hrole, by rw [← (construct_ok h₄).1.1]; exact hagg⟩
    rw [hlock, Config.relayDelayMsec, if_neg hrole, Nat.add_zero]

theorem detect_delay (ht : t ≠ 0) (h : detect ref t env s = ⟨.ok (some e), s', w⟩)
    (hagg : e.cls.isAggregated) :
    e.timeLock = t + env.cfg.relayDelayMsec ∧ e.aggregated = true := by
  cases hf : env.cfg.isFastRelayer with
  | false =>
    obtain ⟨e', he', hinit⟩ := detect_of_slow hf h
    cases he'
    exact init_delay ht hinit hagg
  | true =>
    have hinit := detect_of_fast hf h
    unfold externalInit at hinit
    obtain ⟨st, s₁, w₁, w₂, h₁, h₂, -⟩ := Proc.bind_ok hinit
    split at h₂
    · obtain ⟨cls, s₂, w₃, w₄, h₃, h₄, -⟩ := Proc.bind_ok h₂
      obtain ⟨e', s₃, w₅, w₆, h₅, h₆, -⟩ := Proc.bind_ok h₄
      cases (Proc.pure_ok h₆).1
      obtain ⟨hlock, haggregated⟩ := construct_lock h₅
      have hrole : env.cfg.relayerRole ≠ .slowRelayer := by
        rw [show env.cfg.relayerRole = .fastRelayer by simpa [Config.isFastRelayer] using hf]
        decide
      refine ⟨?_, haggregated⟩
      rw [hlock, Config.relayDelayMsec, if_neg hrole, Nat.add_zero]
    · cases (Proc.pure_ok h₂).1

end RbcEvent

/-- **Patience.** Where the target chain shows the final status of a detected event from some time
on, nothing is ever sent for its log if this time comes before the event's time lock, with the delay
of a slow relayer, or before the end of the additional delay of a relayer that is not the primary
one. -/
theorem patient {before after : List Act} {n₀ n' : Node} {st st' : RState} {queue : List Queued}
    {next : Ref} {log : DetectedEvent} {timeLock D : Nat} {d : RbcEvent}
    (hclock : Monotone env.msec) (hbefore : NodeRun env n₀ before ⟨⟨st, queue⟩, next⟩)
    (hqueue : n₀.loop.queue = []) (hcache : ∀ k, n₀.loop.st.cache k = none)
    (hlive : timeLock ≠ 0)
    (hd : RbcEvent.detect next timeLock env (st.place next log) = ⟨.ok (some d), st', w⟩)
    (hagg : d.cls.isAggregated)
    (hafter : TimedRun env ⟨⟨st', queue ++ [.socket d]⟩, next + 1⟩ after n')
    (hsettled : ∀ n, D ≤ env.msec n → ¬ d.OpenAt env n)
    (hD : D ≤ timeLock + env.cfg.relayDelayMsec ∨ d.Secondary env log.blockNumber ∧
      D ≤ timeLock + env.cfg.relayDelayMsec + 1000 * env.cfg.rbcEventCallDelaySec) :
    sentOn d.detectedEvent after = [] := by
  have hstep : NodeStep env ⟨⟨st, queue⟩, next⟩ [.detected d]
      ⟨⟨st', queue ++ [.socket d]⟩, next + 1⟩ := .detect log timeLock d w hd
  have ht := traced_run hbefore hqueue
  have hi := indexed_run hcache hbefore
  obtain ⟨rfl, -, he⟩ := RbcEvent.detect_ok hd
  obtain ⟨href, -, hmode⟩ := he d rfl
  obtain ⟨hlock, haggregated⟩ := RbcEvent.detect_delay hlive hd hagg
  have hp : Patient env d D log.blockNumber (before ++ [.detected d])
      ⟨⟨st.place next log, queue ++ [.socket d]⟩, next + 1⟩ := by
    refine ⟨traced_step ht hstep, indexed_step hi hstep, href ▸ Nat.lt_succ_self _,
      fun e hmem hed => ?_⟩
    rcases List.mem_append.mp hmem with hmem | hmem
    · -- the earlier entries are on earlier logs
      obtain ⟨d', hd', hbecomes⟩ := ht.queued e hmem
      have hlt := ht.below d' hd'
      rw [← hbecomes.ref, hed, href] at hlt
      exact absurd hlt (Nat.lt_irrefl _)
    · obtain rfl : e = d := by simpa using hmem
      refine ⟨.refl e, ?_, by rw [href, RState.place_heap_self]⟩
      rw [RbcEvent.Waits, hlock]
      exact hD.imp_right fun hsecond => ⟨hmode, haggregated, hsecond⟩
  exact patient_run hclock hagg hsettled hp hafter

/-- A slow relayer, 200 seconds after each read the next one, which finds every request done from
the second read on. -/
def Sample.slowEnv : Env where
  cfg := { cfg with relayerRole := .slowRelayer }
  account := account
  lib := recovering
  view := fun n => view [account.address.hex] (if n = 0 then .accepted else .executed)
  down := fun _ => false
  msec := fun n => 200000 * n

/-- A slow relayer takes the ACCEPTED log of an outbound request when its delay has come, and finds
the request done. -/
theorem patient_slow : ∃ d after n' n'', TimedRun Sample.slowEnv n' after n'' ∧
    (∃ h, .handled h ∈ after ∧ h.event = .socket d) ∧ d.detectedEvent = 0 ∧
    sentOn 0 after = [] := by
  obtain ⟨res, hres⟩ : ∃ res, RbcEvent.detect 0 1 Sample.slowEnv (Sample.node.loop.st.place 0
    (.ofMsg (Sample.msg .bifrost .ethereum .accepted) 7)) = res := ⟨_, rfl⟩
  have hany : res.val.toOption.join.any fun d => d.cls.isAggregated = true ∧
      d.detectedEvent = 0 ∧ d.srcChain? .mainnet = some .bifrost ∧ d.cls = .accepted ∧
      d.timeLock ≤ 200000 ∧
      (handleHead Sample.slowEnv .success ⟨res.st.tick, [.socket d]⟩).isSome = true := by
    subst hres
    decide +kernel
  obtain ⟨d, hval, hd⟩ := (Option.any_eq_true _ _).mp hany
  obtain ⟨hagg, href, hsrc, hcls, hlock, hsome⟩ := of_decide_eq_true hd
  obtain ⟨st', w, rfl⟩ := Res.ok_of_toOption (Option.join_eq_some_iff.mp hval)
  obtain ⟨⟨h, σ'⟩, hhead⟩ := Option.isSome_iff_exists.mp hsome
  have hloop := step_of_handleHead hhead
  have hevent : h.event = .socket d := by simpa using mem_queue_of_step hloop
  have hwait : TimedStep Sample.slowEnv ⟨⟨st', [.socket d]⟩, 1⟩ []
      ⟨⟨st'.tick, [.socket d]⟩, 1⟩ := ⟨.wait _ _ _, fun _ hmem => by cases hmem⟩
  have htake : TimedStep Sample.slowEnv ⟨⟨st'.tick, [.socket d]⟩, 1⟩ [.handled h] ⟨σ', 1⟩ := by
    refine ⟨.handle 1 h hloop, fun h' hmem => ?_⟩
    cases List.mem_singleton.mp hmem
    rw [hevent]
    exact hlock.trans (by simp [Sample.slowEnv])
  have hrun := (Run.single hwait).trans (.single htake)
  refine ⟨d, [.handled h], _, _, hrun, ⟨h, List.mem_singleton_self _, hevent⟩, href, ?_⟩
  have hsettled : ∀ n, 180001 ≤ Sample.slowEnv.msec n → ¬ d.OpenAt Sample.slowEnv n := by
    rintro n hn ⟨c, rid, st, -, -, hst, hopen⟩
    have hlater : n ≠ 0 := by
      rintro rfl
      exact absurd hn (by decide)
    have hview : Sample.slowEnv.view n = Sample.view [Sample.account.address.hex] .executed := by
      simp [Sample.slowEnv, hlater]
    rw [hview] at hst
    have hexecuted : st = .executed := (Option.some.inj hst).symm
    refine hopen ⟨.bifrost, hsrc, ?_⟩
    rw [hcls]
    exact hexecuted
  rw [← href]
  exact patient (fun _ _ h => Nat.mul_le_mul_left _ h) (.nil Sample.node) rfl (fun _ => rfl)
    Nat.one_ne_zero hres hagg hrun hsettled (.inl (by decide))

end Bifrost
