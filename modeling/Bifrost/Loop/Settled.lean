import Bifrost.Loop.Coherent

/-!
# Relays onto a settled request

Several relayers run their loops side by side: `SysStep` is a step of one of
them. `check_already_done` compares the answer of the target chain with the one
status of the event's own branch, so a handling stops on a settled request
exactly when it was settled on that branch (`stops_iff`): an ACCEPTED event on
EXECUTED or COMMITTED, a REJECTED one on REVERTED or ROLLBACKED.
-/

namespace Bifrost

open Bifrost.Lib

/-! ## Several relayers -/

section System

variable {ι : Type} [DecidableEq ι] {envs : ι → Env}

/-- One relayer takes a step of its loop; its handlings carry its name. -/
inductive SysStep (envs : ι → Env) : (ι → LoopState) → List (ι × Handling) → (ι → LoopState) → Prop
  | relayer {σ : ι → LoopState} (i : ι) {hs : List Handling} {σ' : LoopState} :
      LoopStep (envs i) (σ i) hs σ' →
      SysStep envs σ (hs.map (Prod.mk i)) (Function.update σ i σ')

abbrev SysRun (envs : ι → Env) := Run (SysStep envs)

/-- A run of one relayer is a run of the system in which the others rest. -/
theorem sysRun_of_loopRun (i : ι) {σ : ι → LoopState} {hist : List Handling} {s s' : LoopState}
    (hrun : LoopRun (envs i) s hist s') (hs : σ i = s) :
    SysRun envs σ (hist.map (Prod.mk i)) (Function.update σ i s') := by
  induction hrun generalizing σ with
  | nil s =>
    rw [← hs, Function.update_eq_self]
    exact .nil σ
  | @cons s t u ls ms hstep _ ih =>
    rw [List.map_append]
    rw [← hs] at hstep
    have hrest := @ih (Function.update σ i t) (Function.update_self ..)
    rw [Function.update_idem] at hrest
    exact .cons (.relayer i hstep) hrest

end System

/-! ## Settled requests -/

/-- The request of `e` is settled with `st` on the chain it is relayed to. -/
def RbcEvent.Settles (e : RbcEvent) (net : Network) (st : ChainEventStatus) : Prop :=
  ∃ c, e.srcChain? net = some c ∧
    if c = .bifrost then st = .executed ∨ st = .reverted else st = .committed ∨ st = .rollbacked

namespace Handling

variable (h : Handling) (net : Network)

/-- No transaction was built, and neither a queue entry nor a next event is left. -/
def Stops : Prop := h.sent = [] ∧ h.queued = []

/-- On an answer that shows the request settled, the handling of a relay event stops. -/
def RespectsSettled : Prop :=
  ∀ e st, h.event = .socket e → e.cls.isAggregated → h.Asked net e st → e.Settles net st → h.Stops

/-- A request that an answer shows settled was settled on the event's own branch. -/
def SettledOnOwnBranch : Prop :=
  ∀ e st, h.event = .socket e → e.cls.isAggregated → h.Asked net e st → e.Settles net st →
    e.EndsWith net st

variable {h net}

/-- The handling read its request once, so the answer showed one status. -/
theorem Asked.unique {e : RbcEvent} {st st' : ChainEventStatus} (ha : h.Asked net e st)
    (ha' : h.Asked net e st') : st = st' := by
  obtain ⟨c, rid, info, -, -, hst, hreq⟩ := ha
  obtain ⟨c', rid', info', -, -, hst', hreq'⟩ := ha'
  rw [hreq] at hreq'
  obtain ⟨⟨-, -, rfl⟩, -⟩ : ((c = c' ∧ rid = rid' ∧ info = info') ∧ True) := by simpa using hreq'
  exact Option.some.inj (hst.symm.trans hst')

theorem Asked.eq_of_requests {e : RbcEvent} {st st' : ChainEventStatus} {c : ChainEnum}
    {rid : RequestId} (ha : h.Asked net e st)
    (hreq : h.requests = [(c, rid, ⟨fun _ => ⟨st'.value, st'.value_lt⟩⟩)]) : st = st' := by
  obtain ⟨c', rid', info, -, -, hst, hreq'⟩ := ha
  rw [hreq] at hreq'
  cases hreq'
  exact Option.some.inj (hst.symm.trans (ChainEventStatus.ofValue?_value st'))

end Handling

/-- A handling stops on exactly one answer: the final status of the event's own branch. -/
theorem stops_iff {env : Env} {s s' : RState} {h : Handling} {e : RbcEvent}
    {st : ChainEventStatus} (hev : h.event = .socket e) (hagg : e.cls.isAggregated)
    (hask : h.Asked env.cfg.network e st)
    (hp : process h.outcome h.event env s = ⟨.ok h.next, s', h.out⟩) :
    h.Stops ↔ e.EndsWith env.cfg.network st := by
  rw [AggregatedRelayEvent.endsWith_iff hagg]
  rw [hev] at hp
  cases relayCase_of_process hagg hp with
  | notMine _ _ _ _ _ hreq =>
    obtain ⟨c, rid, info, -, -, -, hreq'⟩ := hask
    rw [hreq] at hreq'
    cases hreq'
  | done final hask' hfin _ hsent hq =>
    rw [hask.unique hask']
    exact iff_of_true ⟨hsent, hq⟩ hfin
  | again st' final e' hask' hfin hne _ _ _ hq =>
    refine iff_of_false (fun hstop => ?_) (fun heq => hne ?_)
    · rw [hstop.2] at hq
      cases hq
    · rw [hfin, hask.unique hask'] at heq
      exact (Option.some.inj heq).symm
  | relayed st' final tx n hask' hfin hne _ hsent =>
    refine iff_of_false (fun hstop => ?_) (fun heq => hne ?_)
    · rw [hstop.1] at hsent
      cases hsent
    · rw [hfin, hask.unique hask'] at heq
      exact (Option.some.inj heq).symm

section System

variable {ι : Type} [DecidableEq ι] {envs : ι → Env}

/-- What a step gives to each of its handlings. -/
theorem stops_iff_of_step {σ σ' : ι → LoopState} {hs : List (ι × Handling)}
    (hstep : SysStep envs σ hs σ') : ∀ l ∈ hs, ∀ e st, l.2.event = .socket e →
      e.cls.isAggregated → l.2.Asked (envs l.1).cfg.network e st →
      (l.2.Stops ↔ e.EndsWith (envs l.1).cfg.network st) := by
  obtain ⟨i, hloop⟩ := hstep
  intro l hl e st hev hagg hask
  obtain ⟨h, hh, rfl⟩ := List.mem_map.mp hl
  generalize σ i = s at hloop
  cases hloop with
  | handle l₁ l₂ h' hp =>
    obtain rfl := List.mem_singleton.mp hh
    exact stops_iff hev hagg hask hp
  | period => cases hh
  | wait => cases hh

/-- **Relays onto settled requests.** In a run of any number of relayers, every handling that
reads a settled request stops if and only if every such request was settled on the branch of
the event that is handled. -/
theorem respectsSettled_iff {σ σ' : ι → LoopState} {hist : List (ι × Handling)}
    (hrun : SysRun envs σ hist σ') :
    (∀ l ∈ hist, l.2.RespectsSettled (envs l.1).cfg.network) ↔
      ∀ l ∈ hist, l.2.SettledOnOwnBranch (envs l.1).cfg.network := by
  have hlabel : ∀ l ∈ hist, ∀ e st, l.2.event = .socket e → e.cls.isAggregated →
      l.2.Asked (envs l.1).cfg.network e st →
      (l.2.Stops ↔ e.EndsWith (envs l.1).cfg.network st) :=
    hrun.label stops_iff_of_step
  constructor
  · intro hr l hl e st hev hagg hask hset
    exact (hlabel l hl e st hev hagg hask).mp (hr l hl e st hev hagg hask hset)
  · intro hown l hl e st hev hagg hask hset
    exact (hlabel l hl e st hev hagg hask).mpr (hown l hl e st hev hagg hask hset)

end System

/-! ## Runs of an outbound event -/

theorem Sample.outbound_asked {h : Handling} {st : ChainEventStatus}
    (hreq : h.requests = [(.ethereum, ⟨ChainEnum.bifrost.formattedBytes .mainnet, 5, 1⟩,
      ⟨fun _ => ⟨st.value, st.value_lt⟩⟩)]) : h.Asked .mainnet Sample.outbound st := by
  have htarget : Sample.outbound.targetChain? .mainnet = some .ethereum := by decide +kernel
  have hrid : Sample.outbound.requestId? .mainnet =
      some ⟨ChainEnum.bifrost.formattedBytes .mainnet, 5, 1⟩ := by decide +kernel
  refine ⟨_, _, _, htarget, hrid, ?_, hreq⟩
  exact ChainEventStatus.ofValue?_value st

/-- Both relayers are selected. The first finds the request accepted, the second executed. -/
def Sample.executedEnv (second : Bool) : Env :=
  Sample.soleEnv (if second then .executed else .accepted)

/-- The first relayer's ACCEPTED relay fails and its REJECTED relay goes out; the second reads
EXECUTED and stops. -/
theorem respectsSettled_executed : ∃ hist σ', SysRun Sample.executedEnv
    (fun _ => Sample.loopState Sample.outbound) hist σ' ∧ hist.length = 3 ∧
      ∀ l ∈ hist, l.2.RespectsSettled (Sample.executedEnv l.1).cfg.network := by
  have hfirst : (exec (Sample.executedEnv false) [.fail, .success]
      (Sample.loopState Sample.outbound)).any (fun p => p.1.length = 2 ∧ ∀ h ∈ p.1,
        h.requests = [(.ethereum, ⟨ChainEnum.bifrost.formattedBytes .mainnet, 5, 1⟩,
          ⟨fun _ => 5⟩)]) := by decide +kernel
  have hsecond : (exec (Sample.executedEnv true) [.success]
      (Sample.loopState Sample.outbound)).any (fun p => p.1.length = 1 ∧ ∀ h ∈ p.1,
        h.event = .socket Sample.outbound ∧ h.requests = [(.ethereum,
          ⟨ChainEnum.bifrost.formattedBytes .mainnet, 5, 1⟩, ⟨fun _ => 3⟩)]) := by decide +kernel
  obtain ⟨hist₁, σ₁, hrun₁, hlen₁, h₁⟩ := exists_run (fun hist _ => hist.length = 2 ∧ ∀ h ∈ hist,
    h.requests = [(.ethereum, ⟨ChainEnum.bifrost.formattedBytes .mainnet, 5, 1⟩,
      ⟨fun _ => 5⟩)]) hfirst
  obtain ⟨hist₂, σ₂, hrun₂, hlen₂, h₂⟩ := exists_run (fun hist _ => hist.length = 1 ∧ ∀ h ∈ hist,
    h.event = .socket Sample.outbound ∧ h.requests = [(.ethereum,
      ⟨ChainEnum.bifrost.formattedBytes .mainnet, 5, 1⟩, ⟨fun _ => 3⟩)]) hsecond
  have hsys : SysRun Sample.executedEnv _ _ _ :=
    (sysRun_of_loopRun false hrun₁ (σ := fun _ => Sample.loopState Sample.outbound) rfl).trans
      (sysRun_of_loopRun true hrun₂ rfl)
  refine ⟨_, _, hsys, by simp [hlen₁, hlen₂], ?_⟩
  refine (respectsSettled_iff hsys).mpr fun l hl e st hev _ hask hset => ?_
  rcases List.mem_append.mp hl with hl | hl
  · -- the first relayer reads no settled request
    obtain ⟨h, hmem, rfl⟩ := List.mem_map.mp hl
    have hst : st = .accepted := hask.eq_of_requests (h₁ h hmem)
    subst hst
    obtain ⟨c, -, hc⟩ := hset
    split at hc <;> rcases hc with hc | hc <;> cases hc
  · obtain ⟨h, hmem, rfl⟩ := List.mem_map.mp hl
    obtain ⟨hev', hreq⟩ := h₂ h hmem
    have hst : st = .executed := hask.eq_of_requests hreq
    subst hst
    rw [hev', Queued.socket.injEq] at hev
    subst hev
    exact ⟨.bifrost, Sample.outbound_srcChain, rfl⟩

/-- Both relayers are selected. The first finds the request accepted, the second reverted. -/
def Sample.settledEnv (second : Bool) : Env :=
  Sample.soleEnv (if second then .reverted else .accepted)

/-- The first relayer's ACCEPTED relay fails and its REJECTED relay succeeds; the second then
reads that the request is reverted, and still builds a poll. -/
theorem not_respectsSettled : ¬ ∀ (envs : Bool → Env) (σ σ' : Bool → LoopState)
    (hist : List (Bool × Handling)), SysRun envs σ hist σ' →
      ∀ l ∈ hist, l.2.RespectsSettled (envs l.1).cfg.network := by
  intro hall
  have hfirst : (exec (Sample.settledEnv false) [.fail, .success]
      (Sample.loopState Sample.outbound)).any (fun p => p.1.length = 2) := by decide +kernel
  have hsecond : (exec (Sample.settledEnv true) [.success]
      (Sample.loopState Sample.outbound)).any (fun p => ∃ h ∈ p.1,
        h.event = .socket Sample.outbound ∧ h.sent ≠ [] ∧ h.requests =
          [(.ethereum, ⟨ChainEnum.bifrost.formattedBytes .mainnet, 5, 1⟩, ⟨fun _ => 4⟩)]) := by
    decide +kernel
  obtain ⟨hist₁, σ₁, hrun₁, -⟩ := exists_run (fun hist _ => hist.length = 2) hfirst
  obtain ⟨hist₂, σ₂, hrun₂, h, hh, hev, hsent, hreq⟩ := exists_run (fun hist _ => ∃ h ∈ hist,
    h.event = .socket Sample.outbound ∧ h.sent ≠ [] ∧ h.requests =
      [(.ethereum, ⟨ChainEnum.bifrost.formattedBytes .mainnet, 5, 1⟩, ⟨fun _ => 4⟩)]) hsecond
  have hsys : SysRun Sample.settledEnv _ _ _ :=
    (sysRun_of_loopRun false hrun₁ (σ := fun _ => Sample.loopState Sample.outbound) rfl).trans
      (sysRun_of_loopRun true hrun₂ rfl)
  have hask : h.Asked .mainnet Sample.outbound .reverted := Sample.outbound_asked hreq
  have hstop := hall _ _ _ _ hsys (true, h) (by simp [hh]) Sample.outbound .reverted hev rfl
    hask ⟨.bifrost, Sample.outbound_srcChain, .inr rfl⟩
  exact hsent hstop.1

end Bifrost
