import Bifrost.Events.RoundUpPrimary
import Bifrost.Loop.Warrant

/-!
# Fast relayers

A fast relayer takes the logs of four statuses, is a primary relayer of every
event and has no feed. Its queue holds Socket events in send mode of the classes
that are relayed or final (`Swift`). So it signs nothing, all that it sends are
relays, and it puts nothing off: a handling of a Socket event leaves nothing but
the REJECTED clone of a relay that failed, and one of a RoundUp event nothing but
the clones of the chains (`fast_relays`).
-/

namespace Bifrost

open Bifrost.Lib AggregatedRelayEvent

variable {env : Env} {s s' : RState} {w : List Effect}

/-! ## Primary relayers -/

section Primary

variable (hfast : env.cfg.isFastRelayer = true)

include hfast

theorem RbcEvent.isPrimaryRelayer_fast (self : RbcEvent) :
    self.isPrimaryRelayer env s = ⟨.ok true, s, []⟩ := by
  unfold isPrimaryRelayer
  rw [Proc.bind_run, getConfig_run, Res.andThen_ok, Res.after_nil, Proc.ite_run, if_pos hfast]
  rfl

/-- A fast relayer never queues a relay again. -/
theorem enqueuedOf_relayOrDefer {self : RbcEvent} {p : SendParamTuple}
    (h : relayOrDefer self env s = ⟨.ok p, s', w⟩) : enqueuedOf w = [] := by
  unfold relayOrDefer at h
  rw [Proc.bind_run, self.isPrimaryRelayer_fast hfast, Res.andThen_ok, Res.after_nil] at h
  obtain ⟨c, s₁, w₁, w₂, h₁, h₂, rfl⟩ := Proc.bind_ok h
  rw [enqueuedOf_append, enqueuedOf_local (RbcEvent.quiet_targetChain.run h₁).2,
    enqueuedOf_local ((RbcEvent.quiet_aggregatedRelay c).run h₂).2]
  rfl

theorem enqueuedOf_buildRelay {self : RbcEvent} {p : SendParamTuple}
    (h : buildTransactionParams self env s = ⟨.ok p, s', w⟩) : enqueuedOf w = [] := by
  unfold buildTransactionParams at h
  rcases RbcEvent.guarded_ok h with ⟨hcheck, -⟩ | ⟨s₁, w₁, w₂, h₁, h₂, rfl⟩
  · exact enqueuedOf_local (RbcEvent.quiet_checkMyEvent.run hcheck).2
  obtain ⟨call, s₂, w₃, w₄, h₃, h₄, rfl⟩ := Proc.bind_ok h₂
  obtain ⟨tx, s₃, w₅, w₆, h₅, h₆, rfl⟩ := Proc.bind_ok h₄
  obtain ⟨-, rfl, rfl⟩ := Proc.ofOption_ok h₅
  obtain ⟨info, s₄, w₇, w₈, h₇, h₈, rfl⟩ := Proc.bind_ok h₆
  obtain ⟨rfl, rfl⟩ := getRequest_ok h₇
  obtain ⟨⟨st, final⟩, s₅, w₉, w₀, h₉, h₀, rfl⟩ := Proc.bind_ok h₈
  obtain ⟨-, -, rfl, rfl⟩ := checkAlreadyDone_ok h₉
  have hcall : enqueuedOf w₃ = [] :=
    enqueuedOf_local (RbcEvent.quiet_guarded
      (RbcEvent.quiet_getRequestCall RbcEvent.quiet_targetChain) |>.run h₃).2
  have hlast : enqueuedOf w₀ = [] := by
    dsimp only at h₀
    split at h₀
    · rw [(Proc.pure_ok h₀).2.2]
      rfl
    · exact enqueuedOf_relayOrDefer hfast h₀
  simp only [enqueuedOf_append, enqueuedOf_local (RbcEvent.quiet_checkMyEvent.run h₁).2, hcall,
    hlast, List.nil_append]
  rfl

end Primary

/-! ## Handlings -/

/-- The Socket events are to be sent, and relayed or final. -/
def Swift (queue : List Queued) : Prop :=
  ∀ e, .socket e ∈ queue → e.mode = .send ∧
    e.status ∈ [ChainEventStatus.accepted, .rejected, .committed, .rollbacked]

/-- `e'` is the REJECTED clone that a failed relay of `e` leaves: on the same log, to be sent at
once, and not to be deferred. -/
structure RbcEvent.FallsBack (e e' : RbcEvent) : Prop where
  accepted : e.cls = .accepted
  rejected : e'.cls = .rejected
  detectedEvent : e'.detectedEvent = e.detectedEvent
  mode : e'.mode = .send
  timeLock : e'.timeLock = e.timeLock
  aggregated : e'.aggregated = false

/-- A handling in send mode that leaves nothing but the REJECTED clone of a failed relay, or the
clones that a RoundUp event splits into. -/
structure Handling.Prompt (cfg : Config) (h : Handling) : Prop where
  send : ∀ e, h.event = .socket e → e.mode = .send
  socket : ∀ e', .socket e' ∈ h.queued → h.sent ≠ [] ∧ h.outcome ≠ .success ∧
    ∃ e, h.event = .socket e ∧ e.FallsBack e'
  roundUp : ∀ e', .roundUp e' ∈ h.queued → ∃ e, h.event = .roundUp e ∧ e.selectedChain = .none ∧
    ∃ c ∈ e.updatingChains, e' = e.cloned cfg c

theorem Handling.Prompt.of_nil {cfg : Config} {h : Handling} (hq : h.queued = [])
    (hsend : ∀ e, h.event = .socket e → e.mode = .send) : h.Prompt cfg := by
  refine ⟨hsend, fun e' he' => ?_, fun e' he' => ?_⟩
  · rw [hq] at he'
    cases he'
  · rw [hq] at he'
    cases he'

section Handle

variable {h : Handling} (hfast : env.cfg.isFastRelayer = true)

include hfast

theorem lock_of_fail {e e' : RbcEvent} (hacc : e.cls = .accepted)
    (h : e.handleTxResultFail env s = ⟨.ok (some e'), s', w⟩) : e'.timeLock = e.timeLock := by
  have hrole : env.cfg.relayerRole ≠ .slowRelayer := by
    intro hslow
    simp [Config.isFastRelayer, hslow] at hfast
  have hdisp : e.handleTxResultFail = ChainAcceptedEvent.handleTxResultFail e := by
    simp only [RbcEvent.handleTxResultFail, hacc]
  rw [hdisp] at h
  rcases RbcEvent.guarded_ok h with ⟨-, hnone⟩ | ⟨s₁, w₁, w₂, -, h₂, -⟩
  · cases hnone
  · obtain ⟨inbound, s₂, w₃, w₄, -, h₄, -⟩ := Proc.bind_ok h₂
    split at h₄
    · obtain ⟨_, s₃, w₅, w₆, -, h₆, -⟩ := Proc.bind_ok h₄
      cases (Proc.pure_ok h₆).1
    · obtain ⟨clone, s₃, w₅, w₆, h₅, h₆, -⟩ := Proc.bind_ok h₄
      rw [Option.some.inj (Proc.pure_ok h₆).1]
      unfold RbcEvent.cloneWithOtherStatus at h₅
      simp only [Proc.bind_run, Proc.pure_run, Res.andThen_ok, Res.after_nil,
        Proc.modify_run] at h₅
      show clone.timeLock = e.timeLock
      exact RbcEvent.lock_of_init hrole h₅

/-- The clone of a relay that failed. -/
theorem fallsBack_of_handleTxResult {e e' : RbcEvent} {outcome : TxOutcome}
    (hreq : e.cls ≠ .requested)
    (h : e.handleTxResult outcome env s = ⟨.ok (some e'), s', w⟩) : e.FallsBack e' := by
  rcases cloned_of_handleTxResult h with ⟨hcls, -⟩ |
    ⟨href, hmode, ⟨hcls, -⟩ | ⟨hacc, hrej, haggregated⟩⟩
  · exact absurd hcls hreq
  · exact absurd hcls hreq
  · refine ⟨hacc, hrej, href, hmode, ?_, haggregated⟩
    cases outcome with
    | success =>
      rcases (RbcEvent.handleTxResultSuccess_ok h).1 with hnone | ⟨hcls, -⟩
      · cases hnone
      · exact absurd hcls hreq
    | fail => exact lock_of_fail hfast hacc h
    | noReceipt =>
      have h' : e.handleTxResultNoReceipt env s = ⟨.ok (some e'), s', w⟩ := h
      rcases RbcEvent.guarded_ok h' with ⟨-, hnone⟩ | ⟨s₁, w₁, w₂, -, h₂, -⟩
      · cases hnone
      · obtain ⟨_, s₂, w₃, w₄, -, h₄, -⟩ := Proc.bind_ok h₂
        exact lock_of_fail hfast hacc h₄

theorem prompt_of_socket {e : RbcEvent} (hmode : e.mode = .send)
    (hst : e.status ∈ [ChainEventStatus.accepted, .rejected, .committed, .rollbacked])
    (hev : h.event = .socket e)
    (hp : process h.outcome (.socket e) env s = ⟨.ok h.next, s', h.out⟩) : h.Prompt env.cfg := by
  obtain ⟨n, hn, hp⟩ := process_socket_ok hp
  have hsend : ∀ e', h.event = .socket e' → e'.mode = .send := by
    intro e' he'
    rw [hev] at he'
    cases he'
    exact hmode
  have hbuild : ∀ {p t v}, e.buildTransactionParams env s = ⟨.ok p, t, v⟩ →
      sentOf v = [] ∧ enqueuedOf v = [] := by
    intro p t v hb
    refine ⟨(build_effects hb).1, ?_⟩
    cases hagg : e.cls.isAggregated with
    | true =>
      rw [RbcEvent.build_of_aggregated hagg] at hb
      exact enqueuedOf_buildRelay hfast hb
    | false => exact enqueuedOf_local ((RbcEvent.quiet_buildTransactionParams hagg).run hb).2
  have hreq : e.cls ≠ .requested := by
    intro hcls
    rw [RbcEvent.status, hcls] at hst
    revert hst
    decide
  unfold RbcEvent.process at hp
  rw [hmode] at hp
  rcases processSend_ok hp with ⟨hb, rfl⟩ | ⟨tx, s₁, w₁, w₂, hb, hr, hout⟩
  · refine .of_nil ?_ hsend
    rw [Handling.queued, (hbuild hb).2, hn]
    rfl
  · obtain ⟨hcase, hw₂⟩ := handleTxResult_ok hr
    obtain ⟨-, hsent, hq⟩ := effects_of_send hout hw₂
    rw [(hbuild hb).2, List.nil_append, hn] at hq
    cases n with
    | none => exact .of_nil hq hsend
    | some e' =>
      have houtcome : h.outcome ≠ .success := by
        rcases hcase with ⟨-, hno | ⟨hcls, -⟩⟩ | ⟨hne, -⟩
        · cases hno
        · exact absurd hcls hreq
        · exact hne
      refine ⟨hsend, fun e'' he'' => ?_, fun u hu => ?_⟩
      · rw [hq] at he''
        obtain rfl : e'' = e' := by simpa using he''
        exact ⟨by rw [hsent]; simp, houtcome, e, hev, fallsBack_of_handleTxResult hfast hreq hr⟩
      · rw [hq] at hu
        simp at hu

theorem prompt_of_roundUp {e : RoundUpEvent} (hev : h.event = .roundUp e)
    (hp : process h.outcome (.roundUp e) env s = ⟨.ok h.next, s', h.out⟩) : h.Prompt env.cfg := by
  have hvalid : process h.outcome h.event env s = ⟨.ok h.next, s', h.out⟩ := by rw [hev]; exact hp
  have hcase : RoundUpCase env e ⟨s, h, s'⟩ := roundUpCase_of_valid hvalid hev
  refine ⟨fun e' he' => ?_, fun e' he' => absurd he' ((roundUp_of_process hp).2 e'),
    fun e' he' => ⟨e, hev, ?_⟩⟩
  · rw [hev] at he'
    cases he'
  cases hcase with
  | otherStatus _ _ hq | notMine _ _ hq | processed _ _ _ _ hq | relayed _ _ _ _ _ _ _ _ hq =>
    have hq' : h.queued = [] := hq
    rw [hq'] at he'
    cases he'
  | split hnone _ hq =>
    have hq' : h.queued = e.updatingChains.map fun c => .roundUp (e.cloned env.cfg c) := hq
    rw [hq'] at he'
    obtain ⟨c, hc, heq⟩ := List.mem_map.mp he'
    cases heq
    exact ⟨hnone, c, hc, rfl⟩
  | deferred _ _ _ hprim =>
    -- every fast relayer is the primary one
    rw [RoundUpEvent.isPrimaryRelayer_fast hfast] at hprim
    cases hprim

theorem Swift.step {σ σ' : LoopState} (hq : Swift σ.queue) (hstep : LoopStep env σ [h] σ') :
    h.Prompt env.cfg ∧ Swift σ'.queue := by
  cases hstep with
  | @handle st st' l₁ l₂ _ hp =>
    have hmem : h.event ∈ l₁ ++ h.event :: l₂ := List.mem_append_right _ List.mem_cons_self
    have hprompt : h.Prompt env.cfg := by
      cases hev : h.event with
      | socket e =>
        obtain ⟨hmode, hst⟩ := hq e (hev ▸ hmem)
        rw [hev] at hp
        exact prompt_of_socket hfast hmode hst hev hp
      | roundUp e =>
        rw [hev] at hp
        exact prompt_of_roundUp hfast hev hp
    refine ⟨hprompt, fun e' he' => ?_⟩
    rcases List.mem_append.mp he' with he' | he'
    · exact hq e' (mem_of_others he')
    · obtain ⟨-, -, e, -, hback⟩ := hprompt.socket e' he'
      refine ⟨hback.mode, ?_⟩
      rw [RbcEvent.status, hback.rejected]
      decide

end Handle

/-! ## Runs -/

/-- A relay of a message or of a round change that was detected among the acts `before`, in a step
from `n` to `n'`. -/
def RelayOf (env : Env) (before : List Act) (n n' : Node) (tx : SendTx) : Prop :=
  (∃ d ∈ detectedIn before, ∃ e, d.Becomes e ∧ e.cls.isAggregated ∧
      e.Sends env n.loop.st.now n'.loop.st.now tx) ∨
    ∃ d ∈ roundUpsIn before, ∃ e, d.Carries env.cfg e ∧
      e.Sends env n.loop.st.now n'.loop.st.now tx

/-- What an act of a fast relayer does, in a step from `n` to `n'`. -/
structure Act.Relays (env : Env) (before : List Act) (n n' : Node) (a : Act) : Prop where
  unsigned : ∀ msg, .signed msg ∉ a.out
  relay : ∀ tx, .sent tx ∈ a.out → RelayOf env before n n' tx
  prompt : ∀ h, a = .handled h → h.Prompt env.cfg

section Runs

variable {hist acts : List Act} {n n' : Node}

/-- The classes of a fast relayer's events vote for nothing. -/
theorem RbcEvent.signedStatus?_swift {net : Network} (e : RbcEvent)
    (hst : e.status ∈ [ChainEventStatus.accepted, .rejected, .committed, .rollbacked]) :
    e.signedStatus? net = none := by
  revert hst
  unfold status signedStatus? votedStatus?
  cases e.cls <;> simp [EventClass.status]

theorem RbcEvent.Sends.aggregated {e : RbcEvent} {l hi : Nat} {tx : SendTx}
    (h : e.Sends env l hi tx)
    (hst : e.status ∈ [ChainEventStatus.accepted, .rejected, .committed, .rollbacked]) :
    e.cls.isAggregated := by
  cases h with
  | vote t ht =>
    rw [e.signedStatus?_swift hst] at ht
    cases ht
  | inbound c hcls => exact absurd hst (by rw [status, hcls]; decide)
  | relay c k rid a b hagg => exact hagg

theorem swift_step (hfast : env.cfg.isFastRelayer = true) (hq : Swift n.loop.queue)
    (hstep : NodeStep env n acts n') : Swift n'.loop.queue := by
  cases hstep with
  | @detect st st' queue next log timeLock e w hd =>
    intro e' he'
    rcases List.mem_append.mp he' with he' | he'
    · exact hq e' he'
    · obtain rfl : e' = e := by simpa using he'
      obtain ⟨-, -, he⟩ := RbcEvent.externalInit_ok (RbcEvent.detect_of_fast hfast hd)
      obtain ⟨⟨-, -, hmode⟩, hst⟩ := he e' rfl
      exact ⟨hmode, hst⟩
  | detectRoundUp next log timeLock e w hinit => exact fun e' he' => hq e' (by simpa using he')
  | passOver | wait => exact hq
  | restart queue order roundUpOrder timeLock logs roundUps es us w hboot =>
    obtain ⟨-, hfresh, -, -⟩ := Relayer.boot_ok hboot
    intro e he
    have hmem : e ∈ es := by simpa using he
    obtain ⟨hf, hacc⟩ := hfresh e hmem
    exact ⟨hf.mode, by rw [hacc hfast]; decide⟩
  | period st queue next outcome hslow =>
    rw [hfast] at hslow
    cases hslow
  | handle next h hloop => exact (Swift.step hfast hq hloop).2

theorem relays_step (hfast : env.cfg.isFastRelayer = true) (ht : Traced env.cfg hist n)
    (hq : Swift n.loop.queue) {a : Act} (hstep : NodeStep env n [a] n') :
    a.Relays env hist n n' := by
  cases hstep with
  | detect | detectRoundUp =>
    refine ⟨fun _ hs => ?_, fun _ hs => ?_, fun _ he => ?_⟩
    · cases hs
    · cases hs
    · cases he
  | restart queue order roundUpOrder timeLock logs roundUps es us w hboot =>
    obtain ⟨hnothing, -, -, -⟩ := Relayer.boot_ok hboot
    exact ⟨fun msg hs => (hnothing _ hs).elim, fun tx hs => (hnothing _ hs).elim,
      fun _ he => by cases he⟩
  | period st queue next outcome hslow =>
    rw [hfast] at hslow
    cases hslow
  | handle next h hloop =>
    have hmem := mem_queue_of_step hloop
    refine ⟨fun msg hmsg => ?_, fun tx htx => ?_, fun h' heq => ?_⟩
    · obtain ⟨e, hev, t, hsigned, -⟩ := (ht.issues hloop).2.1 msg hmsg
      have hst := (hq e (hev ▸ hmem)).2
      rw [e.signedStatus?_swift hst] at hsigned
      cases hsigned
    · rcases ht.warranted hloop htx with ⟨d, hd, e, hev, hbec, hs⟩ | ⟨d, hd, e, -, hcar, hs⟩
      · exact .inl ⟨d, hd, e, hbec, hs.aggregated (hq e (hev ▸ hmem)).2, hs⟩
      · exact .inr ⟨d, hd, e, hcar, hs⟩
    · cases heq
      exact (Swift.step hfast hq hloop).1

/-- **Only relays.** In every run of a fast relayer no act signs anything, each transaction is the
relay of a message or a round change detected before, and no handling puts its event off. -/
theorem fast_relays (hfast : env.cfg.isFastRelayer = true) (hrun : NodeRun env n acts n')
    (hstart : n.loop.queue = []) :
    ∀ before a rest, acts = before ++ a :: rest → ∃ m m', NodeRun env n before m ∧
      NodeStep env m [a] m' ∧ NodeRun env m' rest n' ∧ a.Relays env before m m' := by
  intro before a rest hacts
  obtain ⟨m, m', hbefore, hstep, hrest⟩ := hrun.at_label NodeStep.length_le hacts
  have hswift : Swift m.loop.queue := by
    refine hbefore.invariant (P := fun _ n => Swift n.loop.queue) ?_
      fun hq hstep => swift_step hfast hq hstep
    rw [hstart]
    intro e he
    cases he
  exact ⟨m, m', hbefore, hstep, hrest,
    relays_step hfast (traced_run hbefore hstart) hswift hstep⟩

end Runs

def Sample.relayingEnv : Env :=
  { soleEnv .requested with cfg := { cfg with relayerRole := .fastRelayer } }

/-- A relay of an ACCEPTED request to ETHEREUM fails, and its REJECTED clone is relayed. -/
theorem fast_relays_accepted : ∃ acts n', NodeRun Sample.relayingEnv Sample.node acts n' ∧
    2 ≤ (acts.filter fun a => sentOf a.out ≠ []).length ∧
    ∀ before a rest, acts = before ++ a :: rest → ∃ m m',
      NodeRun Sample.relayingEnv Sample.node before m ∧ NodeStep Sample.relayingEnv m [a] m' ∧
      NodeRun Sample.relayingEnv m' rest n' ∧ a.Relays Sample.relayingEnv before m m' := by
  obtain ⟨acts, n', hrun, hsent⟩ := exists_nodeRun Sample.relayingEnv
    [.detect (.ofMsg (Sample.msg .bifrost .ethereum .accepted) 7) 1, .handleHead .fail,
      .handleHead .success]
    Sample.node (fun acts _ => 2 ≤ (acts.filter fun a => sentOf a.out ≠ []).length)
    (by decide +kernel)
  exact ⟨acts, n', hrun, hsent, fast_relays rfl hrun rfl⟩

end Bifrost
