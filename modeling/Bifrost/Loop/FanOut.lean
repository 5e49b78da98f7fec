import Bifrost.Loop.Exec
import Bifrost.Loop.RoundUpCase

/-!
# The fan-out of a RoundUp event

A RoundUp event splits into one clone for each external chain, and each clone
may come back once. The entries on its log are it and its clones (`Kin`), so its
runs are counted with the budgets of the work queue: `1 + 2 * n` handlings for
`n` external chains, and for each of these one relay, which is built in every
run where no read shows that the chain already has the round (`fanOut`).
-/

namespace Bifrost

open Bifrost.Lib

deriving instance DecidableEq for RoundUpLog

/-- The supported chains other than BIFROST. -/
def Config.externalChains (c : Config) : List ChainEnum :=
  c.supportedChainList.filter (· ≠ .bifrost)

namespace Queued

/-- An entry for a RoundUp event of the log. -/
def onLog (log : RoundUpLog) : Queued → Bool
  | .roundUp e => e.log = log
  | .socket _ => false

/-- An entry for a clone that updates the chain. -/
def updates (log : RoundUpLog) (chain : ChainEnum) : Queued → Bool
  | .roundUp e => e.log = log ∧ e.selectedChain = chain
  | .socket _ => false

/-- The weight of the RoundUp events of the log. -/
def weighUp (log : RoundUpLog) (f : RoundUpEvent → Nat) : Queued → Nat
  | .roundUp e => if e.log = log then f e else 0
  | .socket _ => 0

theorem exists_of_onLog {log : RoundUpLog} {q : Queued} (h : q.onLog log) :
    ∃ e, q = .roundUp e ∧ e.log = log := by
  cases q with
  | socket e => cases h
  | roundUp e => exact ⟨e, rfl, of_decide_eq_true h⟩

theorem updates_iff {e : RoundUpEvent} {log : RoundUpLog} {c : ChainEnum} :
    (Queued.roundUp e).updates log c ↔ e.log = log ∧ e.selectedChain = c :=
  decide_eq_true_iff

theorem onLog_of_updates {log : RoundUpLog} {c : ChainEnum} {q : Queued} (h : q.updates log c) :
    q.onLog log := by
  cases q with
  | socket e => cases h
  | roundUp e => exact decide_eq_true (updates_iff.mp h).1

theorem weighUp_of_not_onLog {log : RoundUpLog} {q : Queued} (h : q.onLog log = false)
    (f : RoundUpEvent → Nat) : q.weighUp log f = 0 := by
  cases q with
  | socket e => rfl
  | roundUp e => exact if_neg (of_decide_eq_false h)

end Queued

namespace RoundUpEvent

variable {env : Env} {o : Observed} {log : RoundUpLog} {e e' : RoundUpEvent}

/-- The event itself, or one of its clones as it may be queued. -/
def Kin (cfg : Config) (e e' : RoundUpEvent) : Prop :=
  e' = e ∨ ∃ c ∈ cfg.externalChains, ∃ timeLock aggregated,
    e' = { e.cloned cfg c with timeLock, aggregated }

theorem Kin.log_eq {cfg : Config} (h : Kin cfg e e') : e'.log = e.log := by
  rcases h with rfl | ⟨c, -, t, a, rfl⟩
  · rfl
  · rfl

/-! ## Entries of other logs -/

theorem log_of_queued (hok : o.Valid env) (hev : o.event = .roundUp e) :
    ∀ q ∈ o.queued, ∃ e', q = .roundUp e' ∧ e'.log = e.log := by
  intro q hq
  rcases (roundUpCase_of_valid hok hev).of_queued hq with ⟨c, rfl⟩ | ⟨rfl, -⟩
  · exact ⟨_, rfl, rfl⟩
  · exact ⟨_, rfl, rfl⟩

theorem not_onLog_of_queued (hok : o.Valid env) (hoff : o.event.onLog log = false) :
    ∀ q ∈ o.queued, q.onLog log = false := by
  intro q hq
  cases hev : o.event with
  | roundUp e =>
    rw [hev] at hoff
    obtain ⟨e', rfl, hlog⟩ := log_of_queued hok hev q hq
    exact decide_eq_false (hlog ▸ of_decide_eq_false hoff)
  | socket e =>
    have hp : Bifrost.process o.handling.outcome o.event env o.before = _ := hok
    rw [hev] at hp
    have hleaves : Leaves e o.before o.after o.queued := leaves_of_process hp
    cases hl : o.queued with
    | nil =>
      rw [hl] at hq
      cases hq
    | cons q' l =>
      rw [hl] at hq hleaves
      cases hleaves with
      | again e' => rw [List.mem_singleton.mp hq]; rfl
      | clone t e' => rw [List.mem_singleton.mp hq]; rfl

theorem total_weighUp_of_off (hok : o.Valid env) (hoff : o.event.onLog log = false)
    (b : RoundUpEvent → Nat) : total (Queued.weighUp log b) o.queued = 0 :=
  total_eq_zero fun q hq => Queued.weighUp_of_not_onLog (not_onLog_of_queued hok hoff q hq) b

end RoundUpEvent

/-! ## The event and its clones -/

/-- A RoundUp event of a completed round change, as it is made, in a process with a list of
supported chains. -/
structure RoundUpEvent.Original (env : Env) (e : RoundUpEvent) : Prop where
  made : ∃ t s, (RoundUpEvent.init e.log t env s).val = .ok e
  committed : e.statusData = ChainEventStatus.nextAuthorityCommitted.value
  nodup : env.cfg.supportedChainList.Nodup
  /-- NONE is no chain. -/
  none_notMem : ChainEnum.none ∉ env.cfg.supportedChainList

section Kin

open RoundUpEvent

variable {env : Env} {o : Observed} {e e' : RoundUpEvent}

/-- A handling of the event or a clone by a relayer of the previous round. -/
inductive KinCase (env : Env) (e e' : RoundUpEvent) (o : Observed) : Prop where
  | split : e' = e → o.sent = [] →
      o.queued = env.cfg.externalChains.map (fun c => .roundUp (e.cloned env.cfg c)) →
      KinCase env e e' o
  | processed (c : ChainEnum) : c ∈ env.cfg.externalChains → c ≠ .none → e'.selectedChain = c →
      o.AsksRound c → e.round ≤ o.targetRound env c → o.sent = [] → o.queued = [] →
      KinCase env e e' o
  | relayed (c : ChainEnum) (tx : SendTx) : c ∈ env.cfg.externalChains → c ≠ .none →
      e'.selectedChain = c → o.AsksRound c → o.targetRound env c < e.round → tx.chain = c →
      tx.method = ROUND_UP_VOTING_FUNCTION_NAME → o.sent = [tx] → o.queued = [] →
      KinCase env e e' o
  | deferred (c : ChainEnum) (t : Nat) : c ∈ env.cfg.externalChains → c ≠ .none →
      e'.selectedChain = c → o.AsksRound c → o.targetRound env c < e.round →
      e'.aggregated = true → o.sent = [] → o.queued = [.roundUp (e'.deferred t)] →
      KinCase env e e' o

theorem RoundUpEvent.Original.eq_made (h : e.Original env) :
    ∃ t, e = RoundUpEvent.made env.cfg e.log t := by
  obtain ⟨t, s, hval⟩ := h.made
  cases hinit : RoundUpEvent.init e.log t env s with
  | mk val s' w =>
    rw [hinit] at hval
    cases hval
    exact init_ok hinit

theorem RoundUpEvent.Original.selectedChain (h : e.Original env) : e.selectedChain = .none := by
  obtain ⟨t, ht⟩ := h.eq_made
  rw [ht]
  rfl

theorem RoundUpEvent.Original.updatingChains (h : e.Original env) :
    e.updatingChains = env.cfg.externalChains := by
  obtain ⟨t, ht⟩ := h.eq_made
  rw [ht]
  show env.cfg.supportedChainList.erase .bifrost = env.cfg.supportedChainList.filter (· ≠ .bifrost)
  rw [h.nodup.erase_eq_filter]
  refine List.filter_congr fun c _ => ?_
  by_cases hc : c = .bifrost <;> simp [hc]

theorem RoundUpEvent.Original.ne_none (h : e.Original env) {c : ChainEnum}
    (hc : c ∈ env.cfg.externalChains) : c ≠ .none := by
  rintro rfl
  exact h.none_notMem (List.mem_filter.mp hc).1

theorem kinCase_of_valid (h : e.Original env) (hkin : Kin env.cfg e e') (hok : o.Valid env)
    (hev : o.event = .roundUp e')
    (hmine : (e.isPreviousRelayer env o.before).val = .ok true) : KinCase env e e' o := by
  have hmine' : (e'.isPreviousRelayer env o.before).val = .ok true := by
    rcases hkin with rfl | ⟨c, -, t, a, rfl⟩
    · exact hmine
    · exact hmine
  have hround : e'.round = e.round := by
    rcases hkin with rfl | ⟨c, -, t, a, rfl⟩
    · rfl
    · rfl
  have hchain : e'.selectedChain ≠ .none → e'.selectedChain ∈ env.cfg.externalChains := by
    rcases hkin with rfl | ⟨c, hc, t, a, rfl⟩
    · intro hne
      exact absurd h.selectedChain hne
    · exact fun _ => hc
  cases roundUpCase_of_valid hok hev with
  | otherStatus hst =>
    have hst' : e'.statusData = e.statusData := congrArg RoundUpLog.statusData hkin.log_eq
    exact absurd (hst'.trans h.committed) hst
  | notMine hnot =>
    rw [hmine'] at hnot
    cases hnot
  | split hnone hs hl =>
    rcases hkin with rfl | ⟨c, hc, t, a, rfl⟩
    · rw [h.updatingChains] at hl
      exact .split rfl hs hl
    · exact absurd hnone (h.ne_none hc)
  | processed hne hask hle hs hl =>
    exact .processed _ (hchain hne) hne rfl hask (hround ▸ hle) hs hl
  | relayed tx hne hask hlt _ htx hm hs hl =>
    exact .relayed _ tx (hchain hne) hne rfl hask (hround ▸ hlt) htx hm hs hl
  | deferred hne hask hlt _ ha _ hs hl =>
    exact .deferred _ _ (hchain hne) hne rfl hask (hround ▸ hlt) ha hs hl

theorem RoundUpEvent.Kin.deferred (h : e.Original env) (hkin : Kin env.cfg e e')
    (hne : e'.selectedChain ≠ .none) (t : Nat) : Kin env.cfg e (e'.deferred t) := by
  rcases hkin with rfl | ⟨c, hc, t', a, rfl⟩
  · exact absurd h.selectedChain hne
  · exact .inr ⟨c, hc, _, _, rfl⟩

theorem kin_of_kinCase (h : e.Original env) (hkin : Kin env.cfg e e') (hcase : KinCase env e e' o) :
    ∀ q ∈ o.queued, ∃ e'', q = .roundUp e'' ∧ Kin env.cfg e e'' := by
  intro q hq
  cases hcase with
  | split _ _ hl =>
    rw [hl] at hq
    obtain ⟨c, hc, rfl⟩ := List.mem_map.mp hq
    exact ⟨_, rfl, .inr ⟨c, hc, _, _, rfl⟩⟩
  | processed _ _ _ _ _ _ _ hl =>
    rw [hl] at hq
    cases hq
  | relayed _ _ _ _ _ _ _ _ _ _ hl =>
    rw [hl] at hq
    cases hq
  | deferred c t hc hne hsel _ _ _ _ hl =>
    rw [hl, List.mem_singleton] at hq
    exact ⟨_, hq, hkin.deferred h (hsel ▸ hne) t⟩

/-- Every entry of a run on the log of the event is the event or a clone. -/
theorem kin_of_run {os : List Observed} {σ σ' : LoopState} (h : e.Original env)
    (hown : σ.queue.filter (·.onLog e.log) = [.roundUp e]) (hrun : ObservedRun env σ os σ')
    (hmine : ∀ o ∈ os, o.event.onLog e.log → (e.isPreviousRelayer env o.before).val = .ok true) :
    (∀ o ∈ os, o.event.onLog e.log → ∃ e', o.event = .roundUp e' ∧ Kin env.cfg e e') ∧
      ∀ q ∈ σ'.queue, q.onLog e.log → ∃ e', q = .roundUp e' ∧ Kin env.cfg e e' := by
  refine Worker.entries_of_run
    (P := fun q => q.onLog e.log → ∃ e', q = .roundUp e' ∧ Kin env.cfg e e')
    (work_of_observed hrun) (fun o ho hok hentry q hq hon => ?_) ?_
  · cases hoff : o.event.onLog e.log with
    | false =>
      rw [not_onLog_of_queued hok hoff q hq] at hon
      cases hon
    | true =>
      obtain ⟨e', hev, hkin⟩ := hentry hoff
      exact kin_of_kinCase h hkin (kinCase_of_valid h hkin hok hev (hmine o ho hoff)) q hq
  · intro q hq hon
    have hmem : q ∈ σ.queue.filter (·.onLog e.log) := List.mem_filter.mpr ⟨hq, hon⟩
    rw [hown, List.mem_singleton] at hmem
    exact ⟨e, hmem, .inl rfl⟩

end Kin

/-! ## Budgets -/

/-- A budget of `orig` for the original, and of `clone c a` for a clone of the chain `c`. -/
def RoundUpEvent.budget (orig : Nat) (clone : ChainEnum → Bool → Nat) (e : RoundUpEvent) : Nat :=
  if e.selectedChain = .none then orig else clone e.selectedChain e.aggregated

/-- What a handling on the log costs. -/
def Observed.costOn (log : RoundUpLog) (f : Observed → Nat) (o : Observed) : Nat :=
  if o.event.onLog log then f o else 0

section Budget

open RoundUpEvent

variable {env : Env} {o : Observed} {e e' : RoundUpEvent} {orig : Nat}
  {clone : ChainEnum → Bool → Nat} {f : Observed → Nat}

theorem budget_of_ne_none {c : ChainEnum} (hsel : e'.selectedChain = c) (hne : c ≠ .none) :
    e'.budget orig clone = clone c e'.aggregated := by
  rw [budget, if_neg (hsel ▸ hne), hsel]

theorem weighUp_kin (hkin : Kin env.cfg e e') (b : RoundUpEvent → Nat) :
    (Queued.roundUp e').weighUp e.log b = b e' :=
  if_pos hkin.log_eq

theorem total_split (h : e.Original env) :
    total (Queued.weighUp e.log (budget orig clone))
        (env.cfg.externalChains.map fun c => .roundUp (e.cloned env.cfg c)) =
      total (fun c => clone c true) env.cfg.externalChains := by
  rw [total_map]
  refine congrArg List.sum (List.map_congr_left fun c hc => ?_)
  have hkin : Kin env.cfg e (e.cloned env.cfg c) := .inr ⟨c, hc, _, _, rfl⟩
  rw [weighUp_kin hkin, budget_of_ne_none rfl (h.ne_none hc)]
  rfl

theorem costOn_of_kin (hkin : Kin env.cfg e e') (hev : o.event = .roundUp e') :
    o.costOn e.log f = f o := by
  refine if_pos ?_
  rw [hev]
  exact decide_eq_true hkin.log_eq

/-- A budget is paid when it is paid for the split, at the end of a clone and for its deferral. -/
theorem pays_of_kinCase (h : e.Original env) (hkin : Kin env.cfg e e')
    (hev : o.event = .roundUp e') (hcase : KinCase env e e' o)
    (hsplit : e' = e → o.sent = [] →
      f o + total (fun c => clone c true) env.cfg.externalChains ≤ orig)
    (hdone : ∀ c ∈ env.cfg.externalChains, e'.selectedChain = c → o.queued = [] →
      o.sent.length ≤ 1 → (∀ tx ∈ o.sent, tx.chain = c) → f o ≤ clone c e'.aggregated)
    (hdefer : ∀ c ∈ env.cfg.externalChains, e'.selectedChain = c → o.queued.length = 1 →
      o.sent = [] → f o + clone c false ≤ clone c true) :
    (loopWorker env).Pays (Observed.costOn e.log f) (Queued.weighUp e.log (budget orig clone))
      o := by
  show o.costOn e.log f + total _ o.queued ≤ o.event.weighUp e.log _
  rw [costOn_of_kin hkin hev, hev, weighUp_kin hkin]
  cases hcase with
  | split heq hs hl =>
    rw [hl, total_split h, heq, budget, if_pos h.selectedChain]
    exact hsplit heq hs
  | processed c hc hne hsel _ _ hs hl =>
    have hpay := hdone c hc hsel hl (by simp [hs]) (by simp [hs])
    rw [hl, budget_of_ne_none hsel hne, total_nil]
    exact hpay
  | relayed c tx hc hne hsel _ _ htx _ hs hl =>
    have hpay := hdone c hc hsel hl (by simp [hs]) (by simp [hs, htx])
    rw [hl, budget_of_ne_none hsel hne, total_nil]
    exact hpay
  | deferred c t hc hne hsel _ _ ha hs hl =>
    have hpay := hdefer c hc hsel (by simp [hl]) hs
    have hkin' : Kin env.cfg e (e'.deferred t) := hkin.deferred h (hsel ▸ hne) t
    have hsel' : (e'.deferred t).selectedChain = c := hsel
    rw [hl, total_cons, total_nil, weighUp_kin hkin', budget_of_ne_none hsel' hne,
      budget_of_ne_none hsel hne, ha]
    exact hpay

theorem pays_off (hok : o.Valid env) (hoff : o.event.onLog e.log = false)
    (b : RoundUpEvent → Nat) :
    o.costOn e.log f = 0 ∧ total (Queued.weighUp e.log b) o.queued = 0 ∧
      o.event.weighUp e.log b = 0 :=
  ⟨by simp [Observed.costOn, hoff], total_weighUp_of_off hok hoff b,
    Queued.weighUp_of_not_onLog hoff b⟩

theorem total_own {σ : LoopState} (h : e.Original env)
    (hown : σ.queue.filter (·.onLog e.log) = [.roundUp e]) :
    total (Queued.weighUp e.log (budget orig clone)) σ.queue = orig := by
  have hkin : Kin env.cfg e e := .inl rfl
  have hoff : ∀ q : Queued, q.onLog e.log = false → q.weighUp e.log (budget orig clone) = 0 :=
    fun q hq => Queued.weighUp_of_not_onLog hq _
  rw [← total_filter σ.queue hoff, hown, total_cons, total_nil, weighUp_kin hkin, budget,
    if_pos h.selectedChain]
  rfl

end Budget

/-! ## Runs -/

/-- A `round_control_relay` to the chain. -/
def SendTx.isRoundRelay (chain : ChainEnum) (tx : SendTx) : Bool :=
  tx.chain = chain ∧ tx.method = ROUND_UP_VOTING_FUNCTION_NAME

/-- The entry may still relay to the chain. -/
def Queued.mayRelay (log : RoundUpLog) (chain : ChainEnum) (q : Queued) : Bool :=
  q.onLog log && (q.updates log .none || q.updates log chain)

/-- What the event and its clones relay to a chain. -/
def relaysTo (log : RoundUpLog) (chain : ChainEnum) (os : List Observed) : List SendTx :=
  ((os.filter (·.event.onLog log)).flatMap Observed.sent).filter (SendTx.isRoundRelay chain)

theorem length_relaysTo (log : RoundUpLog) (chain : ChainEnum) (os : List Observed) :
    (relaysTo log chain os).length =
      total (Observed.costOn log fun o => o.sent.countP (SendTx.isRoundRelay chain)) os := by
  induction os with
  | nil => rfl
  | cons o os ih =>
    rw [total_cons, ← ih, relaysTo, relaysTo, Observed.costOn, List.filter_cons]
    split
    · rw [List.flatMap_cons, List.filter_append, List.length_append, List.countP_eq_length_filter]
    · rw [Nat.zero_add]

/-- The fan-out of the RoundUp event `e` in a run, which leaves `rest` in the queue. -/
structure FanOut (env : Env) (e : RoundUpEvent) (os : List Observed) (rest : List Queued) :
    Prop where
  split : ∀ o ∈ os, o.event = .roundUp e → o.sent = [] ∧
    o.queued = env.cfg.externalChains.map fun c => .roundUp (e.cloned env.cfg c)
  /-- A clone comes back at most once. -/
  requeued : ∀ c ∈ env.cfg.externalChains,
    os.countP (fun o => o.event.updates e.log c && !o.queued.isEmpty) ≤ 1
  handled : os.countP (·.event.onLog e.log) + rest.countP (·.onLog e.log) ≤
    1 + 2 * env.cfg.externalChains.length
  relayed : ∀ c ∈ env.cfg.externalChains, (relaysTo e.log c os).length ≤ 1
  /-- What is relayed was not there yet. -/
  missing : ∀ o ∈ os, o.event.onLog e.log → ∀ tx ∈ o.sent, tx.chain ∈ env.cfg.externalChains ∧
    o.AsksRound tx.chain ∧ o.targetRound env tx.chain < e.round
  exactlyOne : ∀ c ∈ env.cfg.externalChains,
    (∀ o ∈ os, o.event.updates e.log c → o.targetRound env c < e.round) →
      (relaysTo e.log c os).length + rest.countP (·.mayRelay e.log c) = 1

section FanOut

open RoundUpEvent

variable {env : Env} {e : RoundUpEvent} {os : List Observed} {σ σ' : LoopState}

/-- A run costs at most the budget of the original. -/
theorem roundUp_cost_le (f : Observed → Nat) (orig : Nat) (clone : ChainEnum → Bool → Nat)
    (h : e.Original env) (hown : σ.queue.filter (·.onLog e.log) = [.roundUp e])
    (hrun : ObservedRun env σ os σ')
    (hmine : ∀ o ∈ os, o.event.onLog e.log → (e.isPreviousRelayer env o.before).val = .ok true)
    (hsplit : ∀ o : Observed, o.event = .roundUp e → o.sent = [] →
      f o + total (fun c => clone c true) env.cfg.externalChains ≤ orig)
    (hdone : ∀ (o : Observed) e', o.event = .roundUp e' →
      e'.selectedChain ∈ env.cfg.externalChains → o.queued = [] →
      o.sent.length ≤ 1 → (∀ tx ∈ o.sent, tx.chain = e'.selectedChain) →
      f o ≤ clone e'.selectedChain e'.aggregated)
    (hdefer : ∀ (o : Observed) e', o.event = .roundUp e' →
      e'.selectedChain ∈ env.cfg.externalChains → o.queued.length = 1 → o.sent = [] →
      f o + clone e'.selectedChain false ≤ clone e'.selectedChain true) :
    total (Observed.costOn e.log f) os +
      total (Queued.weighUp e.log (budget orig clone)) σ'.queue ≤ orig := by
  obtain ⟨hkin, -⟩ := kin_of_run h hown hrun hmine
  have hbudget : total (Queued.weighUp e.log (budget orig clone)) σ.queue = orig := total_own h hown
  refine le_of_le_of_eq (Worker.cost_le (work_of_observed hrun) fun o ho => ?_) hbudget
  have hok : o.Valid env := Worker.ok_of_run (work_of_observed hrun) o ho
  cases hoff : o.event.onLog e.log with
  | false =>
    obtain ⟨hcost, hleft, hentry⟩ := pays_off (f := f) hok hoff (budget orig clone)
    show o.costOn e.log f + total _ o.queued ≤ o.event.weighUp e.log _
    omega
  | true =>
    obtain ⟨e', hev, hkin'⟩ := hkin o ho hoff
    refine pays_of_kinCase h hkin' hev (kinCase_of_valid h hkin' hok hev (hmine o ho hoff)) ?_ ?_ ?_
    · rintro rfl hs
      exact hsplit o hev hs
    · rintro c hc rfl hl hlen htx
      exact hdone o e' hev hc hl hlen htx
    · rintro c hc rfl hl hs
      exact hdefer o e' hev hc hl hs

theorem RoundUpEvent.Original.total_eq (h : e.Original env) {c : ChainEnum}
    (hc : c ∈ env.cfg.externalChains) :
    total (fun c' => if c' = c then 1 else 0) env.cfg.externalChains = 1 := by
  have hcount := total_indicator env.cfg.externalChains (fun c' => decide (c' = c))
  simp only [decide_eq_true_eq] at hcount
  rw [hcount]
  exact List.count_eq_one_of_mem (h.nodup.filter _) hc

theorem handled_fanOut (h : e.Original env)
    (hown : σ.queue.filter (·.onLog e.log) = [.roundUp e]) (hrun : ObservedRun env σ os σ')
    (hmine : ∀ o ∈ os, o.event.onLog e.log → (e.isPreviousRelayer env o.before).val = .ok true) :
    os.countP (·.event.onLog e.log) + σ'.queue.countP (·.onLog e.log) ≤
      1 + 2 * env.cfg.externalChains.length := by
  have hcost := roundUp_cost_le (fun _ => 1) (1 + 2 * env.cfg.externalChains.length)
    (fun _ aggregated => if aggregated then 2 else 1) h hown hrun hmine
    (fun o _ _ => by simp [total, Nat.mul_comm])
    (fun o e' _ _ _ _ _ => by cases e'.aggregated <;> simp) (fun o e' _ _ _ _ => by simp)
  have hrest : σ'.queue.countP (·.onLog e.log) ≤ total (Queued.weighUp e.log
      (budget (1 + 2 * env.cfg.externalChains.length)
        fun _ aggregated => if aggregated then 2 else 1)) σ'.queue := by
    refine countP_le_total _ fun q _ hon => ?_
    obtain ⟨e', rfl, hlog⟩ := Queued.exists_of_onLog hon
    rw [Queued.weighUp, if_pos hlog, budget]
    split
    · omega
    · cases e'.aggregated <;> simp
  have hos : total (Observed.costOn e.log fun _ => 1) os = os.countP (·.event.onLog e.log) :=
    total_indicator os (·.event.onLog e.log)
  rw [hos] at hcost
  omega

theorem requeued_fanOut (h : e.Original env)
    (hown : σ.queue.filter (·.onLog e.log) = [.roundUp e]) (hrun : ObservedRun env σ os σ')
    (hmine : ∀ o ∈ os, o.event.onLog e.log → (e.isPreviousRelayer env o.before).val = .ok true)
    {c : ChainEnum} (hc : c ∈ env.cfg.externalChains) :
    os.countP (fun o => o.event.updates e.log c && !o.queued.isEmpty) ≤ 1 := by
  have hcost := roundUp_cost_le
    (fun o => if o.event.updates e.log c && !o.queued.isEmpty then 1 else 0) 1
    (fun c' aggregated => if c' = c ∧ aggregated then 1 else 0) h hown hrun hmine ?_ ?_ ?_
  · refine le_trans (countP_le_total os fun o _ hre => ?_) (le_trans (Nat.le_add_right _ _) hcost)
    obtain ⟨hup, -⟩ := Bool.and_eq_true_iff.mp hre
    rw [Observed.costOn, if_pos (Queued.onLog_of_updates hup), if_pos hre]
  · -- the original is no clone
    intro o hev _
    have hnot : (Queued.roundUp e).updates e.log c = false := by
      refine Bool.eq_false_iff.mpr fun hup => ?_
      exact h.ne_none hc ((Queued.updates_iff.mp hup).2.symm.trans h.selectedChain)
    simp [hev, hnot, h.total_eq hc]
  · intro o e' _ _ hl _ _
    simp [hl]
  · intro o e' hev _ _ _
    by_cases hsel : e'.selectedChain = c
    · simp only [hsel]
      split <;> simp
    · simp [hev, Queued.updates, hsel]

/-- The budget of the relays to a chain. -/
abbrev relayBudget (c : ChainEnum) : RoundUpEvent → Nat :=
  budget 1 fun c' _ => if c' = c then 1 else 0

theorem relayed_fanOut (h : e.Original env)
    (hown : σ.queue.filter (·.onLog e.log) = [.roundUp e]) (hrun : ObservedRun env σ os σ')
    (hmine : ∀ o ∈ os, o.event.onLog e.log → (e.isPreviousRelayer env o.before).val = .ok true)
    {c : ChainEnum} (hc : c ∈ env.cfg.externalChains) : (relaysTo e.log c os).length ≤ 1 := by
  have hcost := roundUp_cost_le (fun o => o.sent.countP (SendTx.isRoundRelay c)) 1
    (fun c' _ => if c' = c then 1 else 0) h hown hrun hmine ?_ ?_ ?_
  · rw [length_relaysTo]
    exact le_trans (Nat.le_add_right _ _) hcost
  · intro o _ hs
    simp [hs, h.total_eq hc]
  · intro o e' _ _ _ hlen htx
    by_cases hsel : e'.selectedChain = c
    · rw [if_pos hsel]
      exact le_trans List.countP_le_length hlen
    · rw [if_neg hsel, Nat.le_zero, List.countP_eq_zero]
      intro tx hmem hrelay
      exact hsel ((htx tx hmem).symm.trans (of_decide_eq_true hrelay).1)
  · intro o e' _ _ _ hs
    simp [hs]

theorem mayRelay_eq (e : RoundUpEvent) (c : ChainEnum) (q : Queued) :
    q.weighUp e.log (relayBudget c) = if q.mayRelay e.log c then 1 else 0 := by
  cases q with
  | socket e' => rfl
  | roundUp e' =>
    by_cases hlog : e'.log = e.log
    · by_cases hsel : e'.selectedChain = .none <;>
        simp [Queued.weighUp, Queued.mayRelay, Queued.onLog, Queued.updates, relayBudget, budget,
          hlog, hsel]
    · simp [Queued.weighUp, Queued.mayRelay, Queued.onLog, hlog]

/-- With no answer that shows the round, every handling settles the budget of a chain. -/
theorem settles_of_kinCase {o : Observed} {e' : RoundUpEvent} {c : ChainEnum} (h : e.Original env)
    (hkin : Kin env.cfg e e') (hev : o.event = .roundUp e') (hcase : KinCase env e e' o)
    (hc : c ∈ env.cfg.externalChains)
    (hbelow : o.event.updates e.log c → o.targetRound env c < e.round) :
    (loopWorker env).Settles (Observed.costOn e.log fun o => o.sent.countP (SendTx.isRoundRelay c))
      (Queued.weighUp e.log (relayBudget c)) o := by
  show o.costOn e.log _ + total _ o.queued = o.event.weighUp e.log _
  rw [costOn_of_kin hkin hev, hev, weighUp_kin hkin]
  cases hcase with
  | split heq hs hl =>
    rw [hl, total_split h, hs, heq, relayBudget, budget, if_pos h.selectedChain, h.total_eq hc]
    rfl
  | processed c' hc' hne hsel _ hle hs hl =>
    rw [hl, hs, relayBudget, budget_of_ne_none hsel hne, if_neg]
    · rfl
    · rintro rfl
      have hup : o.event.updates e.log c' := by
        rw [hev]
        exact Queued.updates_iff.mpr ⟨hkin.log_eq, hsel⟩
      exact absurd (hbelow hup) (not_lt.mpr hle)
  | relayed c' tx hc' hne hsel _ _ htx hm hs hl =>
    rw [hl, hs, relayBudget, budget_of_ne_none hsel hne, total_nil, Nat.add_zero]
    simp [SendTx.isRoundRelay, htx, hm]
  | deferred c' t hc' hne hsel _ _ ha hs hl =>
    have hkin' : Kin env.cfg e (e'.deferred t) := hkin.deferred h (hsel ▸ hne) t
    have hsel' : (e'.deferred t).selectedChain = c' := hsel
    rw [hl, hs, total_cons, total_nil, weighUp_kin hkin', relayBudget, budget_of_ne_none hsel' hne,
      budget_of_ne_none hsel hne, List.countP_nil]
    omega

theorem exactlyOne_fanOut (h : e.Original env)
    (hown : σ.queue.filter (·.onLog e.log) = [.roundUp e]) (hrun : ObservedRun env σ os σ')
    (hmine : ∀ o ∈ os, o.event.onLog e.log → (e.isPreviousRelayer env o.before).val = .ok true)
    {c : ChainEnum} (hc : c ∈ env.cfg.externalChains)
    (hbelow : ∀ o ∈ os, o.event.updates e.log c → o.targetRound env c < e.round) :
    (relaysTo e.log c os).length + σ'.queue.countP (·.mayRelay e.log c) = 1 := by
  obtain ⟨hkin, -⟩ := kin_of_run h hown hrun hmine
  have hbudget : total (Queued.weighUp e.log (relayBudget c)) σ.queue = 1 := total_own h hown
  have hrest : total (Queued.weighUp e.log (relayBudget c)) σ'.queue =
      σ'.queue.countP (·.mayRelay e.log c) := by
    rw [← total_indicator]
    exact congrArg List.sum (List.map_congr_left fun q _ => mayRelay_eq e c q)
  rw [length_relaysTo, ← hrest, ← hbudget]
  refine Worker.cost_eq (work_of_observed hrun) fun o ho => ?_
  have hok : o.Valid env := Worker.ok_of_run (work_of_observed hrun) o ho
  cases hoff : o.event.onLog e.log with
  | false =>
    obtain ⟨hcost, hleft, hentry⟩ := pays_off (e := e)
      (f := fun o => o.sent.countP (SendTx.isRoundRelay c)) hok hoff (relayBudget c)
    show o.costOn e.log _ + total _ o.queued = o.event.weighUp e.log _
    omega
  | true =>
    obtain ⟨e', hev, hkin'⟩ := hkin o ho hoff
    exact settles_of_kinCase h hkin' hev (kinCase_of_valid h hkin' hok hev (hmine o ho hoff)) hc
      (hbelow o ho)

/-- **The fan-out of a RoundUp event**, in every run in which the relayer stays one of the previous
round. -/
theorem fanOut (h : e.Original env) (hown : σ.queue.filter (·.onLog e.log) = [.roundUp e])
    (hrun : ObservedRun env σ os σ')
    (hmine : ∀ o ∈ os, o.event.onLog e.log → (e.isPreviousRelayer env o.before).val = .ok true) :
    FanOut env e os σ'.queue where
  split := by
    intro o ho hev
    have hon : o.event.onLog e.log := by
      rw [hev]
      exact decide_eq_true rfl
    have hok : o.Valid env := Worker.ok_of_run (work_of_observed hrun) o ho
    cases kinCase_of_valid h (.inl rfl) hok hev (hmine o ho hon) with
    | split _ hs hl => exact ⟨hs, hl⟩
    | processed c _ hne hsel => exact absurd (hsel.symm.trans h.selectedChain) hne
    | relayed c _ _ hne hsel => exact absurd (hsel.symm.trans h.selectedChain) hne
    | deferred c _ _ hne hsel => exact absurd (hsel.symm.trans h.selectedChain) hne
  requeued := fun c hc => requeued_fanOut h hown hrun hmine hc
  handled := handled_fanOut h hown hrun hmine
  relayed := fun c hc => relayed_fanOut h hown hrun hmine hc
  missing := by
    intro o ho hon tx htx
    obtain ⟨hkin, -⟩ := kin_of_run h hown hrun hmine
    obtain ⟨e', hev, hkin'⟩ := hkin o ho hon
    have hok : o.Valid env := Worker.ok_of_run (work_of_observed hrun) o ho
    cases kinCase_of_valid h hkin' hok hev (hmine o ho hon) with
    | split _ hs => simp [hs] at htx
    | processed _ _ _ _ _ _ hs => simp [hs] at htx
    | deferred _ _ _ _ _ _ _ _ hs => simp [hs] at htx
    | relayed c tx' hc _ _ hask hlt hchain _ hs =>
      rw [hs, List.mem_singleton] at htx
      rw [htx, hchain]
      exact ⟨hc, hask, hlt⟩
  exactlyOne := fun c hc => exactlyOne_fanOut h hown hrun hmine hc

end FanOut

/-! ## A fan-out to two chains -/

/-- Handles the first event, and keeps the states around it. -/
def observeHead (env : Env) (outcome : TxOutcome) (σ : LoopState) :
    Option (Observed × LoopState) :=
  (handleHead env outcome σ).map fun p => (⟨σ.st, p.1, p.2.st⟩, p.2)

theorem step_of_observeHead {env : Env} {outcome : TxOutcome} {σ σ' : LoopState} {o : Observed}
    (h : observeHead env outcome σ = some (o, σ')) : ObservedStep env σ [o] σ' := by
  obtain ⟨⟨d, σ₁⟩, hhead, heq⟩ := Option.map_eq_some_iff.mp h
  cases heq
  obtain ⟨queue, hσ, hσ', hp⟩ := handleHead_some hhead
  rw [hσ, hσ']
  exact .handle [] queue ⟨σ.st, d, _⟩ hp

namespace Sample

/-- The second of two relayers, which serves two external chains. -/
def pairEnv : Env :=
  { memberEnv [1, 2] 2 .accepted with
    cfg := { cfg with supportedChainList := [.bifrost, .ethereum, .binance] } }

/-- The log of a completed change to round 7, of which the chains do not know yet. -/
def committedLog : RoundUpLog where
  statusData := ChainEventStatus.nextAuthorityCommitted.value
  round := 7
  validatorList := [account.address.hex]
  sigs := ⟨[], [], []⟩
  blockNumber := 0

def committed : RoundUpEvent := RoundUpEvent.made pairEnv.cfg committedLog 0

/-- The relayer knows its index in round 6. -/
def committedState : LoopState where
  st := { state outbound.msg with cache := fun k => if k = 6 then some (some 1) else none }
  queue := [.roundUp committed]

theorem original_committed : committed.Original pairEnv where
  made := ⟨0, state outbound.msg, rfl⟩
  committed := rfl
  nodup := by decide
  none_notMem := by decide

end Sample

/-- A split into two clones, both of which the secondary relayer queues again, and then relays. -/
theorem fanOut_two : ∃ os σ', ObservedRun Sample.pairEnv Sample.committedState os σ' ∧
    os.map (·.queued.length) = [2, 1, 1, 0, 0] ∧
    (os.flatMap Observed.sent).map SendTx.chain = [.ethereum, .binance] ∧
    FanOut Sample.pairEnv Sample.committed os σ'.queue := by
  have hexec : (Run.exec (observeHead Sample.pairEnv) (List.replicate 5 .success)
      Sample.committedState).any fun p => decide (p.1.map (·.queued.length) = [2, 1, 1, 0, 0] ∧
        (p.1.flatMap Observed.sent).map SendTx.chain = [.ethereum, .binance] ∧
        ∀ o ∈ p.1, (o.before.cache 6).isSome) := by
    decide +kernel
  obtain ⟨⟨os, σ'⟩, hrun, hP⟩ := (Option.any_eq_true _ _).mp hexec
  obtain ⟨hqueued, hsent, hcache⟩ := of_decide_eq_true hP
  have hobs := Run.of_exec (f := observeHead Sample.pairEnv)
    (fun _ _ _ _ => step_of_observeHead) hrun
  refine ⟨os, σ', hobs, hqueued, hsent, fanOut Sample.original_committed rfl hobs fun o ho _ => ?_⟩
  rw [RoundUpEvent.isPreviousRelayer_val]
  exact congrArg Except.ok (hcache o ho)

end Bifrost
