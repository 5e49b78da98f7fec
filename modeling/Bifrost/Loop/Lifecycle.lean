import Bifrost.Loop.Relay
import Bifrost.Loop.Work

/-!
# The life of a Socket event

A handling sends at most one transaction and leaves at most one entry, and
`Moves` says how the entry differs: an aggregated relay event waits once for
another relayer and then comes back to be relayed, a voted request waits for its
quorum, and a failure leaves a clone of the next class. `stage` counts the
handlings that are left, so the loop, read as a work queue (`loopWorker`), ends
with every event (`lifecycle`).
-/

namespace Bifrost

open Bifrost.Lib

variable {env : Env} {s s' : RState} {w : List Effect}

/-! ## What one handling leaves -/

/-- `e'` is a clone that a failure of `e` leaves. -/
def Cloned (e e' : RbcEvent) : Prop :=
  e'.detectedEvent = e.detectedEvent ∧ e'.mode = .send ∧
    (e.cls = .requested ∧ e'.cls = .failed ∨
      e.cls = .accepted ∧ e'.cls = .rejected ∧ e'.aggregated = false)

/-- The transactions a handling of `e` sends, and the entries it leaves. -/
inductive Moves (e : RbcEvent) : List SendTx → List Queued → Prop where
  | dropped : Moves e [] []
  | sent (tx : SendTx) : e.mode = .send → Moves e [tx] []
  | awaited (tx : SendTx) (e' : RbcEvent) : e.cls = .requested → e.mode = .send → e.Same e' →
      e'.mode = .call → Moves e [tx] [.socket e']
  | deferred (e' : RbcEvent) : e.cls.isAggregated → e.mode = .send → e.aggregated = true →
      e.Same e' → e'.mode = .call → Moves e [] [.socket e']
  | resumed (e' : RbcEvent) : e.cls.isAggregated → e.mode = .call → e.Same e' →
      e'.mode = .send → e'.aggregated = false → Moves e [] [.socket e']
  | failed (tx : SendTx) (e' : RbcEvent) : e.mode = .send → Cloned e e' →
      Moves e [tx] [.socket e']
  | noQuorum (e' : RbcEvent) : e.cls = .requested → e.mode = .call → Cloned e e' →
      Moves e [] [.socket e']

theorem cloned_of_failCase {e e' : RbcEvent} (h : e.FailCase s s' (some e'))
    (hacc : e.cls = .accepted → e'.aggregated = false) : Cloned e e' := by
  rcases h with ⟨hnone, -⟩ | ⟨t, e'', ht, heq, hclone, -⟩
  · cases hnone
  · cases heq
    refine ⟨hclone.detectedEvent, hclone.mode, ?_⟩
    have hcls := hclone.cls
    cases hc : e.cls with
    | requested =>
      rw [hc] at ht
      cases ht
      exact .inl ⟨rfl, (Option.some.inj hcls).symm⟩
    | accepted =>
      rw [hc] at ht
      cases ht
      exact .inr ⟨rfl, (Option.some.inj hcls).symm, hacc hc⟩
    | _ =>
      rw [hc] at ht
      cases ht

/-- The clone of a failed relay is not deferred again. -/
theorem aggregated_of_fail {e e' : RbcEvent} (hacc : e.cls = .accepted)
    (h : e.handleTxResultFail env s = ⟨.ok (some e'), s', w⟩) : e'.aggregated = false := by
  have hdisp : e.handleTxResultFail = ChainAcceptedEvent.handleTxResultFail e := by
    simp only [RbcEvent.handleTxResultFail, hacc]
  rw [hdisp] at h
  rcases RbcEvent.guarded_ok h with ⟨-, hnone⟩ | ⟨s₁, w₁, w₂, -, h₂, -⟩
  · cases hnone
  · obtain ⟨inbound, s₂, w₃, w₄, -, h₄, -⟩ := Proc.bind_ok h₂
    split at h₄
    · obtain ⟨_, s₃, w₅, w₆, -, h₆, -⟩ := Proc.bind_ok h₄
      cases (Proc.pure_ok h₆).1
    · obtain ⟨clone, s₃, w₅, w₆, -, h₆, -⟩ := Proc.bind_ok h₄
      rw [Option.some.inj (Proc.pure_ok h₆).1]

theorem cloned_of_fail {e e' : RbcEvent}
    (h : e.handleTxResultFail env s = ⟨.ok (some e'), s', w⟩) : Cloned e e' :=
  cloned_of_failCase (RbcEvent.handleTxResultFail_ok h).1 fun hacc => aggregated_of_fail hacc h

theorem cloned_of_handleTxResult {e e' : RbcEvent} {outcome : TxOutcome}
    (h : e.handleTxResult outcome env s = ⟨.ok (some e'), s', w⟩) :
    (e.cls = .requested ∧ ∃ t, e' = e.switchToCall t) ∨ Cloned e e' := by
  cases outcome with
  | success =>
    rcases (RbcEvent.handleTxResultSuccess_ok h).1 with hnone | ⟨hcls, t, heq⟩
    · cases hnone
    · exact .inl ⟨hcls, t, Option.some.inj heq⟩
  | fail => exact .inr (cloned_of_fail h)
  | noReceipt =>
    have h' : e.handleTxResultNoReceipt env s = ⟨.ok (some e'), s', w⟩ := h
    rcases RbcEvent.guarded_ok h' with ⟨-, hnone⟩ | ⟨s₁, w₁, w₂, -, h₂, -⟩
    · cases hnone
    · obtain ⟨_, s₂, w₃, w₄, -, h₄, -⟩ := Proc.bind_ok h₂
      exact .inr (cloned_of_fail h₄)

/-- A builder sends nothing, and queues nothing but a deferred event. -/
theorem build_effects {e : RbcEvent} {p : SendParamTuple}
    (h : e.buildTransactionParams env s = ⟨.ok p, s', w⟩) :
    sentOf w = [] ∧ (enqueuedOf w = [] ∨ p = none ∧ e.cls.isAggregated ∧ e.aggregated = true ∧
      enqueuedOf w = [.socket (AggregatedRelayEvent.deferred e env.cfg)]) := by
  cases hagg : e.cls.isAggregated with
  | false =>
    obtain ⟨-, hw⟩ := (RbcEvent.quiet_buildTransactionParams hagg).run h
    exact ⟨sentOf_local hw, .inl (enqueuedOf_local hw)⟩
  | true =>
    rw [RbcEvent.build_of_aggregated hagg] at h
    obtain ⟨-, hsent, hcase⟩ := AggregatedRelayEvent.buildTransactionParams_ok h
    refine ⟨hsent, ?_⟩
    rcases hcase with ⟨_, _, -, -, -, henq⟩ |
      ⟨_, _, _, _, _, -, -, -, -, -, ⟨-, -, henq⟩ | ⟨-, ⟨_, -, -, henq⟩ | ⟨hp, ha, henq⟩⟩⟩
    · exact .inl henq
    · exact .inl henq
    · exact .inl henq
    · exact .inr ⟨hp, rfl, ha, henq⟩

theorem moves_of_send {e : RbcEvent} {h : Handling} (hmode : e.mode = .send) {n : Option RbcEvent}
    (hn : h.next = n.map .socket) (hp : e.processSend h.outcome env s = ⟨.ok n, s', h.out⟩) :
    Moves e h.sent h.queued := by
  rcases processSend_ok hp with ⟨hb, rfl⟩ | ⟨tx, s₁, w₁, w₂, hb, hr, hout⟩
  · rw [Handling.sent, Handling.queued, hn]
    obtain ⟨hsent, henq | ⟨-, hagg, ha, henq⟩⟩ := build_effects hb
    · rw [hsent, henq]
      exact .dropped
    · rw [hsent, henq]
      exact .deferred _ hagg hmode ha (AggregatedRelayEvent.same_deferred e env.cfg) rfl
  · obtain ⟨hsent, henq | ⟨hnone, -⟩⟩ := build_effects hb
    · obtain ⟨-, hw₂⟩ := handleTxResult_ok hr
      obtain ⟨-, hsent', hq⟩ := effects_of_send hout hw₂
      rw [hsent', hq, hn, hsent, henq]
      cases n with
      | none => exact .sent tx hmode
      | some e' =>
        rcases cloned_of_handleTxResult hr with ⟨hcls, t, rfl⟩ | hclone
        · exact .awaited tx _ hcls hmode ⟨rfl, rfl, rfl⟩ rfl
        · exact .failed tx e' hmode hclone
    · cases hnone

theorem moves_of_call {e : RbcEvent} {h : Handling} (hmode : e.mode = .call) {n : Option RbcEvent}
    (hn : h.next = n.map .socket) (hp : e.processCall env s = ⟨.ok n, s', h.out⟩) :
    Moves e h.sent h.queued := by
  rcases processCall_ok hp with ⟨hb, rfl⟩ | ⟨tx, info, s₁, w₁, w₂, hb, hr, hout⟩
  · obtain ⟨-, hw⟩ := RbcEvent.quiet_buildCallTransactionParams.run hb
    rw [Handling.sent, Handling.queued, hn, sentOf_local hw, enqueuedOf_local hw]
    exact .dropped
  · obtain ⟨-, hw₁⟩ := RbcEvent.quiet_buildCallTransactionParams.run hb
    cases hagg : e.cls.isAggregated with
    | true =>
      rw [RbcEvent.handleCallResult_of_aggregated hagg] at hr
      obtain ⟨-, hw₂, hcase⟩ := AggregatedRelayEvent.handleCallResult_ok hr
      obtain ⟨-, hsent, hq⟩ := effects_of_call hout hw₁ hw₂
      rw [hsent, hq, hn]
      rcases hcase with ⟨_, _, -, rfl⟩ | ⟨_, _, -, -, ⟨-, rfl⟩ | ⟨-, now, rfl⟩⟩
      · exact .dropped
      · exact .dropped
      · exact .resumed _ hagg hmode (AggregatedRelayEvent.same_resumed e now) rfl rfl
    | false =>
      obtain ⟨hfail, hw₂⟩ := RbcEvent.handleCallResult_ok hagg hr
      obtain ⟨-, hsent, hq⟩ := effects_of_call hout hw₁ hw₂
      rw [hsent, hq, hn]
      cases n with
      | none => exact .dropped
      | some e' =>
        have hclone := cloned_of_failCase hfail fun hacc => by
          rw [hacc] at hagg
          cases hagg
        rcases hclone.2.2 with ⟨hcls, -⟩ | ⟨hcls, -⟩
        · exact .noQuorum e' hcls hmode hclone
        · rw [hcls] at hagg
          cases hagg

/-- The inversion lemma of a handling of a Socket event. -/
theorem moves_of_process {e : RbcEvent} {h : Handling}
    (hp : process h.outcome (.socket e) env s = ⟨.ok h.next, s', h.out⟩) :
    Moves e h.sent h.queued := by
  obtain ⟨n, hn, hp⟩ := process_socket_ok hp
  unfold RbcEvent.process at hp
  cases hmode : e.mode with
  | send =>
    rw [hmode] at hp
    exact moves_of_send hmode hn hp
  | call =>
    rw [hmode] at hp
    exact moves_of_call hmode hn hp

/-! ## The handlings that are left -/

/-- How often the event and its clones can still be handled. -/
def stage (e : RbcEvent) : Nat :=
  match e.cls, e.mode, e.aggregated with
  | .accepted, .send, true => 4
  | .accepted, .call, _ => 3
  | .accepted, .send, false => 2
  | .rejected, .send, true => 3
  | .rejected, .call, _ => 2
  | .rejected, .send, false => 1
  | .requested, .send, _ => 3
  | .requested, .call, _ => 2
  | _, _, _ => 1

theorem stage_le (e : RbcEvent) : stage e ≤ 4 := by
  unfold stage
  split <;> decide

theorem stage_pos (e : RbcEvent) : 1 ≤ stage e := by
  unfold stage
  split <;> decide

/-- Whether the event, or a clone of it, can still send a transaction of the status. -/
def owes (t : ChainEventStatus) (e : RbcEvent) : Nat :=
  if e.status = t ∧ ¬ (e.cls = .requested ∧ e.mode = .call) ∨
    RbcEvent.failStatus e.cls = some t then 1 else 0

theorem owes_le (t : ChainEventStatus) (e : RbcEvent) : owes t e ≤ 1 := by
  unfold owes
  split <;> decide

theorem Moves.left {e : RbcEvent} {sent : List SendTx} {l : List Queued} (h : Moves e sent l) :
    l = [] ∨ ∃ e', l = [.socket e'] ∧ e'.detectedEvent = e.detectedEvent := by
  cases h with
  | dropped => exact .inl rfl
  | sent => exact .inl rfl
  | awaited _ e' _ _ hsame => exact .inr ⟨e', rfl, hsame.2.1⟩
  | deferred e' _ _ _ hsame => exact .inr ⟨e', rfl, hsame.2.1⟩
  | resumed e' _ _ hsame => exact .inr ⟨e', rfl, hsame.2.1⟩
  | failed _ e' _ hclone => exact .inr ⟨e', rfl, hclone.1⟩
  | noQuorum e' _ _ hclone => exact .inr ⟨e', rfl, hclone.1⟩

/-- Every handling uses up a stage. -/
theorem Moves.stage_lt {e e' : RbcEvent} {sent : List SendTx}
    (h : Moves e sent [.socket e']) : stage e' < stage e := by
  have hclone : Cloned e e' → stage e' < stage e := by
    rintro ⟨-, hmode, ⟨hcls, hcls'⟩ | ⟨hcls, hcls', hagg⟩⟩
    · cases hm : e.mode <;> simp [stage, hcls, hcls', hm]
    · cases hm : e.mode <;> cases ha : e.aggregated <;>
        simp [stage, hcls, hcls', hmode, hm, ha, hagg]
  cases h with
  | awaited _ _ hcls hmode hsame hmode' => simp [stage, hsame.1, hcls, hmode, hmode']
  | deferred _ hagg hmode ha hsame hmode' =>
    cases hcls : e.cls <;> simp_all [stage, RbcEvent.Same, EventClass.isAggregated]
  | resumed _ hagg hmode hsame hmode' ha =>
    cases hcls : e.cls <;> simp_all [stage, RbcEvent.Same, EventClass.isAggregated]
  | failed _ _ _ hc => exact hclone hc
  | noQuorum _ _ _ hc => exact hclone hc

theorem owes_of_send {e : RbcEvent} (t : ChainEventStatus) (hmode : e.mode = .send) :
    owes t e = if e.status = t ∨ RbcEvent.failStatus e.cls = some t then 1 else 0 := by
  simp [owes, hmode]

theorem owes_of_call {e : RbcEvent} (t : ChainEventStatus) (hcls : e.cls = .requested)
    (hmode : e.mode = .call) :
    owes t e = if RbcEvent.failStatus e.cls = some t then 1 else 0 := by
  simp [owes, hcls, hmode]

theorem owes_of_same {e e' : RbcEvent} (t : ChainEventStatus) (hagg : e.cls.isAggregated)
    (hsame : e.Same e') : owes t e' = owes t e := by
  have hcls : e.cls ≠ .requested := by
    intro hcls
    rw [hcls] at hagg
    cases hagg
  simp [owes, RbcEvent.status, hsame.1, hcls]

/-- A clone owes what its original owed after its own transaction. -/
theorem Cloned.owes_eq {e e' : RbcEvent} (h : Cloned e e') (t : ChainEventStatus) :
    owes t e' = if RbcEvent.failStatus e.cls = some t then 1 else 0 := by
  obtain ⟨-, hmode, ⟨hcls, hcls'⟩ | ⟨hcls, hcls', -⟩⟩ := h
  · simp [owes_of_send t hmode, RbcEvent.status, hcls, hcls', EventClass.status,
      RbcEvent.failStatus]
  · simp [owes_of_send t hmode, RbcEvent.status, hcls, hcls', EventClass.status,
      RbcEvent.failStatus]

theorem failStatus_ne (e : RbcEvent) : RbcEvent.failStatus e.cls ≠ some e.status := by
  unfold RbcEvent.status
  cases e.cls <;> decide

/-- The transaction of an event in send mode is paid out of what the event owes. -/
theorem owes_sent {e : RbcEvent} (t : ChainEventStatus) (hmode : e.mode = .send) :
    (if e.status = t then 1 else 0) + (if RbcEvent.failStatus e.cls = some t then 1 else 0) ≤
      owes t e := by
  rw [owes_of_send t hmode]
  by_cases ht : e.status = t
  · rw [if_pos ht, if_neg (ht ▸ failStatus_ne e), if_pos (.inl ht)]
  · simp [ht]

theorem Moves.owes_le {e e' : RbcEvent} {sent : List SendTx} (t : ChainEventStatus)
    (h : Moves e sent [.socket e']) :
    (if e.status = t then sent.length else 0) + owes t e' ≤ owes t e := by
  cases h with
  | awaited _ _ hcls hmode hsame hmode' =>
    rw [owes_of_call t (hsame.1.trans hcls) hmode', hsame.1]
    exact owes_sent t hmode
  | deferred _ hagg _ _ hsame => simp [owes_of_same t hagg hsame]
  | resumed _ hagg _ hsame => simp [owes_of_same t hagg hsame]
  | failed _ _ hmode hc =>
    rw [hc.owes_eq t]
    exact owes_sent t hmode
  | noQuorum _ hcls hmode hc => simp [hc.owes_eq t, owes_of_call t hcls hmode]

theorem Moves.owes_nil {e : RbcEvent} {sent : List SendTx} (t : ChainEventStatus)
    (h : Moves e sent []) : (if e.status = t then sent.length else 0) ≤ owes t e := by
  cases h with
  | dropped => simp
  | sent tx hmode => exact le_trans (Nat.le_add_right _ _) (owes_sent t hmode)

/-- The statuses of an event and of what becomes of it. -/
def Descends (t t' : ChainEventStatus) : Prop :=
  t' = t ∨ t = .requested ∧ t' = .failed ∨ t = .accepted ∧ t' = .rejected

instance (t t' : ChainEventStatus) : Decidable (Descends t t') :=
  inferInstanceAs (Decidable (_ ∨ _))

theorem Descends.trans {t t' t'' : ChainEventStatus} (h : Descends t t') (h' : Descends t' t'') :
    Descends t t'' := by
  revert h h'
  cases t <;> cases t' <;> cases t'' <;> decide

theorem Moves.descends {e e' : RbcEvent} {sent : List SendTx} (h : Moves e sent [.socket e']) :
    Descends e.status e'.status := by
  have hsame : e.Same e' → Descends e.status e'.status :=
    fun hsame => .inl (congrArg EventClass.status hsame.1)
  have hclone : Cloned e e' → Descends e.status e'.status := by
    unfold RbcEvent.status
    rintro ⟨-, -, ⟨hcls, hcls'⟩ | ⟨hcls, hcls', -⟩⟩
    · rw [hcls, hcls']
      decide
    · rw [hcls, hcls']
      decide
  cases h with
  | awaited _ _ _ _ h => exact hsame h
  | deferred _ _ _ _ h => exact hsame h
  | resumed _ _ _ h => exact hsame h
  | failed _ _ _ h => exact hclone h
  | noQuorum _ _ _ h => exact hclone h

/-! ## Runs -/

/-- The weight of the Socket events on the log `r`. -/
def Queued.weigh (r : Ref) (f : RbcEvent → Nat) : Queued → Nat
  | .socket e => if e.detectedEvent = r then f e else 0
  | .roundUp _ => 0

/-- Where every move pays, every handling of the loop does. -/
theorem pays_of_moves {r : Ref} {c : RbcEvent → List SendTx → Nat} {f : RbcEvent → Nat}
    (hnil : ∀ e sent, Moves e sent [] → c e sent ≤ f e)
    (hcons : ∀ e e' sent, Moves e sent [.socket e'] → c e sent + f e' ≤ f e) {o : Observed}
    (hok : o.Valid env) :
    (loopWorker env).Pays (fun o => o.event.weigh r fun e => c e o.sent) (Queued.weigh r f) o := by
  have hp : process o.handling.outcome o.event env o.before = _ := hok
  show o.event.weigh r _ + total (Queued.weigh r f) o.queued ≤ Queued.weigh r f o.event
  cases hev : o.event with
  | roundUp e =>
    rw [hev] at hp
    have hnone := (roundUp_of_process hp).2
    rw [total_eq_zero]
    · rfl
    · intro q hq
      cases q with
      | socket e' => exact absurd hq (hnone e')
      | roundUp e' => rfl
  | socket e =>
    rw [hev] at hp
    have hm : Moves e o.sent o.queued := moves_of_process hp
    by_cases hr : e.detectedEvent = r
    · rcases hm.left with hl | ⟨e', hl, href⟩
      · rw [hl] at hm ⊢
        simpa [Queued.weigh, hr] using hnil e _ hm
      · rw [hl] at hm ⊢
        simpa [Queued.weigh, hr, href] using hcons e e' _ hm
    · rcases hm.left with hl | ⟨e', hl, href⟩
      · simp [Queued.weigh, hr, hl]
      · simp [Queued.weigh, hr, hl, href]

theorem total_weigh_of_own {r : Ref} {f : RbcEvent → Nat} {e : RbcEvent} {q : List Queued}
    (hown : q.filter (·.ref? = some r) = [.socket e]) : total (Queued.weigh r f) q = f e := by
  have hmem : Queued.socket e ∈ q.filter (·.ref? = some r) := by
    rw [hown]
    exact List.mem_singleton_self _
  have hr : e.detectedEvent = r := by simpa [Queued.ref?] using (List.mem_filter.mp hmem).2
  rw [← total_filter q (p := (·.ref? = some r)), hown]
  · simp [Queued.weigh, hr]
  · intro a ha
    cases a with
    | socket e' =>
      have hr' : e'.detectedEvent ≠ r := by simpa [Queued.ref?] using ha
      exact if_neg hr'
    | roundUp e' => rfl

section Life

variable {σ σ' : LoopState} {e : RbcEvent} {hs : List Handling}

/-- What the handlings on one log cost in a run is paid by the event it starts with. -/
theorem cost_le_of_run {c : RbcEvent → List SendTx → Nat} {f : RbcEvent → Nat}
    (hown : σ.queue.filter (·.ref? = some e.detectedEvent) = [.socket e])
    (hnil : ∀ e sent, Moves e sent [] → c e sent ≤ f e)
    (hcons : ∀ e e' sent, Moves e sent [.socket e'] → c e sent + f e' ≤ f e)
    (hrun : LoopRun env σ hs σ') :
    total (fun h : Handling => h.event.weigh e.detectedEvent fun e' => c e' h.sent) hs +
      total (Queued.weigh e.detectedEvent f) σ'.queue ≤ f e := by
  obtain ⟨os, hobs, rfl⟩ := run_iff_observed.mp hrun
  have hwork := work_of_observed hobs
  have hle := Worker.cost_le hwork fun o ho =>
    pays_of_moves (r := e.detectedEvent) hnil hcons (Worker.ok_of_run hwork o ho)
  rw [total_weigh_of_own hown] at hle
  rw [total_map]
  exact hle

/-- The status of a Socket event on the log `r`. -/
def Queued.statusOn? (r : Ref) : Queued → Option ChainEventStatus
  | .socket e => if e.detectedEvent = r then some e.status else none
  | .roundUp _ => none

/-- What the handlings of a run, and the queue it ends with, are for an event and its clones,
which are the entries on its log. -/
structure Lifecycle (e : RbcEvent) (hs : List Handling) (rest : List Queued) : Prop where
  /-- At most four handlings, those still to come included. -/
  handled : hs.countP (·.event.ref? = some e.detectedEvent) +
    rest.countP (·.ref? = some e.detectedEvent) ≤ 4
  /-- At most one transaction for each status. -/
  voted : ∀ t, ((hs.filter (·.event.statusOn? e.detectedEvent = some t)).flatMap
    Handling.sent).length ≤ 1
  spawned : ∀ h ∈ hs, ∀ e', h.event = .socket e' → ∀ q ∈ h.queued, ∃ e'', q = .socket e'' ∧
    e''.detectedEvent = e'.detectedEvent ∧ Descends e'.status e''.status
  /-- The statuses that are handled one after the other. -/
  ordered : (e.status :: hs.filterMap (·.event.statusOn? e.detectedEvent)).Pairwise Descends

theorem handled_of_run (hown : σ.queue.filter (·.ref? = some e.detectedEvent) = [.socket e])
    (hrun : LoopRun env σ hs σ') : hs.countP (·.event.ref? = some e.detectedEvent) +
      σ'.queue.countP (·.ref? = some e.detectedEvent) ≤ 4 := by
  have hle := cost_le_of_run (c := fun _ _ => 1) hown (fun e' _ _ => stage_pos e')
    (fun e' e'' sent hm => by
      have := hm.stage_lt
      omega) hrun
  have hweigh : ∀ (f : RbcEvent → Nat), (∀ e', 1 ≤ f e') → ∀ q : Queued,
      decide (q.ref? = some e.detectedEvent) = true → 1 ≤ q.weigh e.detectedEvent f := by
    intro f hf q hq
    cases q with
    | socket e' =>
      have hr : e'.detectedEvent = e.detectedEvent := by simpa [Queued.ref?] using hq
      simpa [Queued.weigh, hr] using hf e'
    | roundUp e' => simp [Queued.ref?] at hq
  have h₁ := countP_le_total hs (p := (·.event.ref? = some e.detectedEvent))
    (fun h _ => hweigh (fun _ => 1) (fun _ => le_rfl) h.event)
  have h₂ := countP_le_total σ'.queue fun q _ => hweigh stage stage_pos q
  have h₃ := stage_le e
  omega

theorem voted_of_run (hown : σ.queue.filter (·.ref? = some e.detectedEvent) = [.socket e])
    (hrun : LoopRun env σ hs σ') (t : ChainEventStatus) :
    ((hs.filter (·.event.statusOn? e.detectedEvent = some t)).flatMap Handling.sent).length ≤
      1 := by
  have hle := cost_le_of_run hown (fun _ _ => Moves.owes_nil t) (fun _ _ _ => Moves.owes_le t) hrun
  have h₁ := length_flatMap_le_total hs (p := (·.event.statusOn? e.detectedEvent = some t))
    (f := Handling.sent) (w := fun h : Handling => h.event.weigh e.detectedEvent fun e' =>
      if e'.status = t then h.sent.length else 0) fun h _ hst => by
    cases hev : h.event with
    | socket e' => simp_all [Queued.statusOn?, Queued.weigh]
    | roundUp e' => simp [hev, Queued.statusOn?] at hst
  have h₂ := owes_le t e
  omega

theorem spawned_of_run (hrun : LoopRun env σ hs σ') : ∀ h ∈ hs, ∀ e', h.event = .socket e' →
    ∀ q ∈ h.queued, ∃ e'', q = .socket e'' ∧ e''.detectedEvent = e'.detectedEvent ∧
      Descends e'.status e''.status := by
  refine Run.label (fun hstep h hh e' hev q hq => ?_) hrun
  cases hstep with
  | handle l₁ l₂ h' hp =>
    obtain rfl := List.mem_singleton.mp hh
    rw [hev] at hp
    have hm := moves_of_process hp
    rcases hm.left with hl | ⟨e'', hl, href⟩
    · rw [hl] at hq
      cases hq
    · rw [hl] at hm hq
      exact ⟨e'', List.mem_singleton.mp hq, href, hm.descends⟩
  | period st queue outcome => cases hh
  | wait st queue => cases hh

/-- Two entries for Socket events, the second after the first. -/
def Queued.After (q q' : Queued) : Prop :=
  q' = q ∨ ∃ e e', q = .socket e ∧ q' = .socket e' ∧ Descends e.status e'.status

theorem Queued.After.trans {q q' q'' : Queued} (h : q.After q') (h' : q'.After q'') :
    q.After q'' := by
  rcases h with rfl | ⟨e, e', rfl, rfl, h⟩
  · exact h'
  · rcases h' with rfl | ⟨e₁, e'', heq, rfl, h'⟩
    · exact .inr ⟨e, e', rfl, rfl, h⟩
    · cases heq
      exact .inr ⟨e, e'', rfl, rfl, h.trans h'⟩

theorem Queued.After.descends {q q' : Queued} (h : q.After q') {r : Ref} {t t' : ChainEventStatus}
    (ht : q.statusOn? r = some t) (ht' : q'.statusOn? r = some t') : Descends t t' := by
  have hst : ∀ {e : RbcEvent} {u}, (Queued.socket e).statusOn? r = some u → e.status = u := by
    intro e u hu
    by_cases hr : e.detectedEvent = r
    · exact Option.some.inj ((if_pos hr).symm.trans hu)
    · cases (if_neg hr).symm.trans hu
  rcases h with rfl | ⟨e, e', rfl, rfl, h⟩
  · rw [ht] at ht'
    exact .inl (Option.some.inj ht').symm
  · rwa [← hst ht, ← hst ht']

theorem statusOn?_isSome {r : Ref} {q : Queued} (h : ¬ q.ref? = some r) :
    q.statusOn? r = none := by
  cases q with
  | socket e' => exact if_neg fun hr => h (congrArg some hr)
  | roundUp e' => rfl

/-- A handling leaves at most one entry on a log, after the one it took from there. -/
theorem heir_of_valid {o : Observed} (hok : o.Valid env) (r : Ref) :
    ∃ x : Option Queued, o.queued.filter (·.ref? = some r) = x.toList ∧
      ∀ q ∈ x, o.event.ref? = some r ∧ o.event.After q := by
  have hp : process o.handling.outcome o.event env o.before = _ := hok
  cases hev : o.event with
  | roundUp e =>
    rw [hev] at hp
    refine ⟨none, List.filter_eq_nil_iff.mpr fun q hq => ?_, fun q hq => by cases hq⟩
    cases q with
    | socket e' => exact absurd hq ((roundUp_of_process hp).2 e')
    | roundUp e' => simp [Queued.ref?]
  | socket e =>
    rw [hev] at hp
    have hm : Moves e o.sent o.queued := moves_of_process hp
    rcases hm.left with hl | ⟨e', hl, href⟩
    · exact ⟨none, by rw [hl]; rfl, fun q hq => by cases hq⟩
    · rw [hl] at hm ⊢
      by_cases hr : e.detectedEvent = r
      · refine ⟨some (.socket e'), by simp [Queued.ref?, href, hr], fun q hq => ?_⟩
        cases hq
        exact ⟨congrArg some hr, .inr ⟨e, e', rfl, rfl, hm.descends⟩⟩
      · exact ⟨none, by simp [Queued.ref?, href, hr], fun q hq => by cases hq⟩

/-- The entries on the log follow each other. -/
theorem after_of_run (hown : σ.queue.filter (·.ref? = some e.detectedEvent) = [.socket e])
    (hrun : LoopRun env σ hs σ') :
    ((hs.map Handling.event).filter (·.ref? = some e.detectedEvent)).Pairwise Queued.After ∧
      ∀ q ∈ (hs.map Handling.event).filter (·.ref? = some e.detectedEvent),
        (Queued.socket e).After q := by
  obtain ⟨os, hobs, rfl⟩ := run_iff_observed.mp hrun
  have hleft : ∀ o, (loopWorker env).ok o → decide (o.event.ref? = some e.detectedEvent) = true →
      ∃ x : Option Queued, o.queued.filter (·.ref? = some e.detectedEvent) = x.toList ∧
        ∀ q ∈ x, o.event.After q := by
    intro o hok _
    obtain ⟨x, hx, hafter⟩ := heir_of_valid hok e.detectedEvent
    exact ⟨x, hx, fun q hq => (hafter q hq).2⟩
  have hother : ∀ o, (loopWorker env).ok o →
      decide (o.event.ref? = some e.detectedEvent) = false →
        o.queued.filter (·.ref? = some e.detectedEvent) = [] := by
    intro o hok hF
    obtain ⟨x, hx, hafter⟩ := heir_of_valid hok e.detectedEvent
    cases x with
    | none => exact hx
    | some q => exact absurd (hafter q rfl).1 (of_decide_eq_false hF)
  obtain ⟨hpair, hfrom⟩ := Worker.pairwise_entries (R := Queued.After) (fun q => .inl rfl)
    Queued.After.trans hleft hother (work_of_observed hobs) (o := some (Queued.socket e)) hown
  rw [List.map_map]
  refine ⟨hpair, fun q hq => ?_⟩
  obtain ⟨q', hq', hafter⟩ := hfrom q hq
  cases hq'
  exact hafter

theorem ordered_of_run (hown : σ.queue.filter (·.ref? = some e.detectedEvent) = [.socket e])
    (hrun : LoopRun env σ hs σ') :
    (e.status :: hs.filterMap (·.event.statusOn? e.detectedEvent)).Pairwise Descends := by
  obtain ⟨hpair, hfrom⟩ := after_of_run hown hrun
  have hlist : hs.filterMap (·.event.statusOn? e.detectedEvent) =
      ((hs.map Handling.event).filter (·.ref? = some e.detectedEvent)).filterMap
        (Queued.statusOn? e.detectedEvent) := by
    rw [List.filterMap_filter, List.filterMap_map]
    refine List.filterMap_congr fun h _ => ?_
    by_cases hr : h.event.ref? = some e.detectedEvent
    · simp [hr]
    · simp [hr, statusOn?_isSome hr]
  rw [hlist, List.pairwise_cons]
  refine ⟨fun t ht => ?_, List.pairwise_filterMap.mpr (hpair.imp fun hq t ht t' ht' => ?_)⟩
  · obtain ⟨q, hq, hst⟩ := List.mem_filterMap.mp ht
    exact (hfrom q hq).descends (by simp [Queued.statusOn?]) hst
  · exact hq.descends ht ht'

/-- **The life of a Socket event.** In every run the event and its clones are handled at most four
times and send at most one transaction for each status, and the statuses only descend. -/
theorem lifecycle (hown : σ.queue.filter (·.ref? = some e.detectedEvent) = [.socket e])
    (hrun : LoopRun env σ hs σ') : Lifecycle e hs σ'.queue :=
  ⟨handled_of_run hown hrun, voted_of_run hown hrun, spawned_of_run hrun, ordered_of_run hown hrun⟩

end Life

/-- An event that waits, asks again, fails to be relayed and is relayed as REJECTED. -/
theorem lifecycle_four : ∃ hist σ', LoopRun Sample.secondaryEnv
    (Sample.loopState Sample.outbound) hist σ' ∧ hist.length = 4 ∧
      Lifecycle Sample.outbound hist σ'.queue := by
  have hexec : (exec Sample.secondaryEnv [.success, .success, .fail, .success]
      (Sample.loopState Sample.outbound)).any fun p => decide (p.1.length = 4) := by
    decide +kernel
  obtain ⟨hist, σ', hrun, hlen⟩ := exists_run (fun hist _ => hist.length = 4) hexec
  exact ⟨hist, σ', hrun, hlen, lifecycle (by simp [Sample.loopState, Queued.ref?]) hrun⟩

end Bifrost
