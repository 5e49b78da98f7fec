import Bifrost.Loop.Reports

/-!
# What is due

An event in send mode reports one more metric, unless it is an outbound FAILED
one; `due` is its score. A handling reports what was due to the event it took,
less what it leaves due (`settles_of_process`), with one exception: a call that
finds no quorum leaves a FAILED clone, whose metric nothing made due.
-/

namespace Bifrost

open Bifrost.Lib

variable {env : Env} {s s' : RState} {net : Network} {c src : ChainEnum}

/-! ## Kin -/

/-- The events of one log, with the chain and the round of its request. -/
def RbcEvent.Kin (e e' : RbcEvent) : Prop :=
  e'.detectedEvent = e.detectedEvent ∧ e'.msg.chain = e.msg.chain ∧ e'.msg.roundId = e.msg.roundId

namespace RbcEvent

variable {e e' e'' : RbcEvent}

theorem Kin.refl (e : RbcEvent) : e.Kin e := ⟨rfl, rfl, rfl⟩

theorem Kin.trans (h : e.Kin e') (h' : e'.Kin e'') : e.Kin e'' :=
  ⟨h'.1.trans h.1, h'.2.1.trans h.2.1, h'.2.2.trans h.2.2⟩

theorem Same.kin (h : e.Same e') : e.Kin e' := by
  obtain ⟨-, href, hmsg⟩ := h
  exact ⟨href, by rw [hmsg], by rw [hmsg]⟩

theorem Kin.srcChain? (h : e.Kin e') (net : Network) : e'.srcChain? net = e.srcChain? net := by
  unfold RbcEvent.srcChain?
  rw [h.2.1]

theorem Kin.serves (h : e.Kin e') (hs : e.Serves env) : e'.Serves env := by
  unfold Serves at hs ⊢
  rwa [h.srcChain?, h.2.2]

end RbcEvent

/-- `e` has become of `d`, and nothing becomes a REQUESTED event. -/
def RbcEvent.Stems (d e : RbcEvent) : Prop := d.Kin e ∧ (e.cls = .requested → d.cls = .requested)

theorem RbcEvent.Stems.refl (e : RbcEvent) : e.Stems e := ⟨.refl e, id⟩

theorem RbcEvent.Stems.trans {d e e' : RbcEvent} (h : d.Stems e) (h' : e.Stems e') : d.Stems e' :=
  ⟨h.1.trans h'.1, fun hreq => h.2 (h'.2 hreq)⟩

theorem Leaves.stems {e : RbcEvent} {l : List Queued} (h : Leaves e s s' l)
    (hmsg : (s.heap e.detectedEvent).decoded = e.msg) : ∀ e', .socket e' ∈ l → e.Stems e' := by
  intro e' he'
  cases h with
  | nothing => cases he'
  | again e'' _ hsame =>
    obtain rfl : e' = e'' := by simpa using he'
    exact ⟨hsame.kin, fun hreq => hsame.1 ▸ hreq⟩
  | clone t e'' ht hclone =>
    obtain rfl : e' = e'' := by simpa using he'
    refine ⟨⟨hclone.detectedEvent, ?_, ?_⟩, fun hreq => ?_⟩
    · rw [hclone.msg, hmsg]
      rfl
    · rw [hclone.msg, hmsg]
      rfl
    · have hcls := hclone.cls
      rw [hreq] at hcls
      unfold RbcEvent.failStatus at ht
      split at ht
      · cases ht
        cases hcls
      · cases ht
        cases hcls
      · cases ht

/-- What a handling leaves stems from the event it took. -/
theorem stems_of_process {h : Handling}
    (hp : process h.outcome h.event env s = ⟨.ok h.next, s', h.out⟩)
    (hmsg : ∀ e, h.event = .socket e → (s.heap e.detectedEvent).decoded = e.msg) {e' : RbcEvent}
    (he' : .socket e' ∈ h.queued) : ∃ e, h.event = .socket e ∧ e.Stems e' := by
  cases hev : h.event with
  | socket e =>
    have hm := hmsg e hev
    rw [hev] at hp
    exact ⟨e, rfl, (leaves_of_process hp).stems hm e' he'⟩
  | roundUp e =>
    rw [hev] at hp
    exact absurd he' ((roundUp_of_process hp).2 e')

/-! ## Tracked events -/

/-- The relayer serves the event and knows its chain; only an inbound request waits for a call. -/
structure RbcEvent.Tracked (env : Env) (e : RbcEvent) : Prop where
  serves : e.Serves env
  known : (e.srcChain? env.cfg.network).isSome
  inbound : e.cls = .requested → e.mode = .call → e.srcChain? env.cfg.network ≠ some .bifrost

theorem Reports.tracked {e : RbcEvent} {ms : List (ChainEnum × ChainEventStatus)} {l : List Queued}
    (h : Reports src e ms l) (ht : e.Tracked env) (hsrc : e.srcChain? env.cfg.network = some src)
    (hkin : ∀ e', .socket e' ∈ l → e.Kin e') : ∀ e', .socket e' ∈ l → e'.Tracked env := by
  intro e' he'
  have hk := hkin e' he'
  refine ⟨hk.serves ht.serves, by rw [hk.srcChain?]; exact ht.known, fun hreq hcall => ?_⟩
  rw [hk.srcChain?, hsrc]
  have hagg : e.cls.isAggregated → e.Same e' → src ≠ .bifrost := by
    intro hagg hsame
    rw [← hsame.1, hreq] at hagg
    cases hagg
  cases h with
  | reported => cases he'
  | silent => cases he'
  | called => cases he'
  | awaited t _ _ hne => simpa using hne
  | deferred e'' ha _ hsame =>
    obtain rfl : e' = e'' := by simpa using he'
    simpa using hagg ha hsame
  | resumed e'' ha _ hsame =>
    obtain rfl : e' = e'' := by simpa using he'
    simpa using hagg ha hsame
  | noQuorum e'' _ _ hclone =>
    obtain rfl : e' = e'' := by simpa using he'
    rw [hclone.2.1] at hcall
    cases hcall

/-! ## Dues -/

/-- What the event still adds to the gauge of `c`, when its transaction succeeds. -/
def RbcEvent.due (net : Network) (c : ChainEnum) (e : RbcEvent) : Int :=
  if e.mode = .send ∧ e.srcChain? net = some c ∧ ¬ (e.cls = .failed ∧ c = .bifrost) then
    score e.status
  else 0

def Queued.due (net : Network) (c : ChainEnum) : Queued → Int
  | .socket e => e.due net c
  | .roundUp _ => 0

/-- What the entries of a queue still add. -/
def dueOf (net : Network) (c : ChainEnum) (queue : List Queued) : Int :=
  (queue.map (Queued.due net c)).sum

@[simp] theorem dueOf_nil : dueOf net c [] = 0 := rfl

@[simp] theorem dueOf_append (l l' : List Queued) :
    dueOf net c (l ++ l') = dueOf net c l + dueOf net c l' := by
  simp [dueOf]

@[simp] theorem dueOf_cons (q : Queued) (l : List Queued) :
    dueOf net c (q :: l) = q.due net c + dueOf net c l := by
  simp [dueOf]

/-- RoundUp events add nothing. -/
theorem dueOf_eq_zero {l : List Queued} (h : ∀ e, .socket e ∈ l → e.due net c = 0) :
    dueOf net c l = 0 := by
  refine List.sum_eq_zero fun n hn => ?_
  obtain ⟨q, hq, rfl⟩ := List.mem_map.mp hn
  cases q with
  | socket e => exact h e hq
  | roundUp e => rfl

namespace RbcEvent

variable {e e' : RbcEvent}

theorem due_of_call (hmode : e.mode = .call) : e.due net c = 0 := by
  simp [due, hmode]

/-- A settled request and its relay are ignored. -/
theorem due_of_aggregated (hagg : e.cls.isAggregated) : e.due net c = 0 := by
  unfold due status
  cases hcls : e.cls <;> simp_all [EventClass.isAggregated, EventClass.status, score,
    Exporter.ignored]

theorem due_of_outboundFailed (hsrc : e.srcChain? net = some .bifrost) (hcls : e.cls = .failed) :
    e.due net c = 0 := by
  unfold due
  rw [if_neg]
  rintro ⟨-, hc, hnot⟩
  rw [hsrc] at hc
  exact hnot ⟨hcls, (Option.some.inj hc).symm⟩

theorem due_of_send (hmode : e.mode = .send) (hsrc : e.srcChain? net = some src)
    (hnot : ¬ (e.cls = .failed ∧ src = .bifrost)) :
    e.due net c = if src = c then score e.status else 0 := by
  unfold due
  by_cases hc : src = c
  · rw [if_pos hc, if_pos ⟨hmode, by rw [hsrc, hc], hc ▸ hnot⟩]
  · rw [if_neg hc, if_neg]
    rintro ⟨-, hc', -⟩
    rw [hsrc] at hc'
    exact hc (Option.some.inj hc')

end RbcEvent

/-! ## Calls without a quorum -/

/-- The event whose call the handling made and found without a quorum. -/
def Handling.noQuorum? (h : Handling) : Option RbcEvent :=
  match h.event with
  | .socket e => if e.cls = .requested ∧ e.mode = .call ∧ h.queued ≠ [] then some e else none
  | .roundUp _ => none

theorem Handling.of_noQuorum? {h : Handling} {e : RbcEvent} (hno : h.noQuorum? = some e) :
    h.event = .socket e ∧ e.cls = .requested ∧ e.mode = .call := by
  unfold noQuorum? at hno
  split at hno
  · next e' hev =>
    split at hno
    · next hcall =>
      cases hno
      exact ⟨hev, hcall.1, hcall.2.1⟩
    · cases hno
  · cases hno

/-- The quorum of the event's round, in the answers to the read `t`. -/
def RbcEvent.quorumAt (env : Env) (e : RbcEvent) (t : Nat) : Nat :=
  (env.view t).previousMajority .bifrost e.msg.roundId.val true

/-- The handler of a call leaves a clone if and only if there is a quorum and the votes stay below
it. -/
theorem requestedCallResult_iff {e : RbcEvent} {info : RequestInfo} {n : Option RbcEvent}
    {w : List Effect} (hs : e.Serves env) (hsrc : e.srcChain? env.cfg.network = some src)
    (h : ChainRequestedEvent.handleCallResult e info env s = ⟨.ok n, s', w⟩) :
    ∃ t, n.isSome ↔ e.quorumAt env t ≠ 0 ∧
      ChainRequestedEvent.votingNum info e.status < e.quorumAt env t := by
  obtain ⟨s₁, w₁, w₂, -, h₂, -⟩ := hs.guarded_ok h
  rw [Proc.bind_run, RbcEvent.rnd_run hsrc, Res.andThen_ok, Res.after_nil] at h₂
  obtain ⟨quorum, s₃, w₅, w₆, h₅, h₆, -⟩ := Proc.bind_ok h₂
  have hread : RM.worldCall .bifrost "previous_majority"
      (fun v => v.previousMajority .bifrost e.msg.roundId.val true) env s₁ = _ := h₅
  obtain ⟨hq, -, -⟩ := worldCall_ok hread
  have hquorum : e.quorumAt env s₁.now = quorum := hq.symm
  refine ⟨s₁.now, ?_⟩
  rw [hquorum]
  split at h₆
  · next hzero =>
    obtain ⟨rfl, -, -⟩ := Proc.pure_ok h₆
    simp [hzero]
  split at h₆
  · next hle =>
    obtain ⟨rfl, -, -⟩ := Proc.pure_ok h₆
    simp only [Option.isSome_none, Bool.false_eq_true, false_iff]
    omega
  · next hzero hlt =>
    obtain ⟨s₄, w₇, w₈, -, h₈, -⟩ := hs.guarded_ok h₆
    obtain ⟨clone, s₅, w₉, w₁₀, -, h₁₀, -⟩ := Proc.bind_ok h₈
    obtain ⟨rfl, -, -⟩ := Proc.pure_ok h₁₀
    simp only [Option.isSome_some, true_iff]
    omega

/-- What `noQuorum?` says of the call of a REQUESTED event. -/
theorem noQuorum_iff {e : RbcEvent} {h : Handling} (hs : e.Serves env)
    (hsrc : e.srcChain? env.cfg.network = some src) (hreq : e.cls = .requested)
    (hcall : e.mode = .call) (hev : h.event = .socket e)
    (hp : process h.outcome h.event env s = ⟨.ok h.next, s', h.out⟩) :
    ∃ chain rid info t, h.requests = [(chain, rid, info)] ∧
      (h.noQuorum? = some e ↔ e.quorumAt env t ≠ 0 ∧
        ChainRequestedEvent.votingNum info e.status < e.quorumAt env t) := by
  rw [hev] at hp
  obtain ⟨n, hn, hp⟩ := process_socket_ok hp
  unfold RbcEvent.process at hp
  rw [hcall] at hp
  have hcallResult : ∀ info,
      e.handleCallResult info = ChainRequestedEvent.handleCallResult e info := by
    intro info
    simp only [RbcEvent.handleCallResult, hreq]
  rcases processCall_ok hp with ⟨hb, -⟩ | ⟨tx, info, s₁, w₁, w₂, hb, hr, hw⟩
  · simp only [RbcEvent.buildCallTransactionParams, hreq] at hb
    obtain ⟨s₁, w₁, w₂, -, h₂, -⟩ := hs.guarded_ok hb
    obtain ⟨_, _, _, -, -, hnone, -⟩ := AggregatedRelayEvent.getRequestCall_ok h₂
    cases hnone
  · obtain ⟨-, hw₁⟩ := RbcEvent.quiet_buildCallTransactionParams.run hb
    have hagg : e.cls.isAggregated = false := by rw [hreq]; rfl
    obtain ⟨-, hw₂⟩ := RbcEvent.handleCallResult_ok hagg hr
    rw [hcallResult] at hr
    obtain ⟨t, hiff⟩ := requestedCallResult_iff hs hsrc hr
    obtain ⟨hrequests, -, hq⟩ := effects_of_call hw hw₁ hw₂
    rw [hn] at hq
    refine ⟨tx.chain, tx.rid, info, t, hrequests, ?_⟩
    rw [← hiff, Handling.noQuorum?, hev]
    cases n <;> simp [hq, hreq, hcall]

/-- The metrics of the chain that nothing made due. -/
def Handling.undue (net : Network) (c : ChainEnum) (h : Handling) : Int :=
  if h.noQuorum?.bind (·.srcChain? net) = some c then -1 else 0

/-- What is reported and what is left due is what was due, but for a call without a quorum. -/
theorem Reports.settles {e : RbcEvent} {ms : List (ChainEnum × ChainEventStatus)}
    {l : List Queued} (h : Reports src e ms l) (hsrc : e.srcChain? net = some src)
    (hin : e.cls = .requested → e.mode = .call → src ≠ .bifrost)
    (hkin : ∀ e', .socket e' ∈ l → e.Kin e') (c : ChainEnum) :
    (ms.map fun p => if p.1 = c then score p.2 else 0).sum + dueOf net c l =
      e.due net c +
        if src = c ∧ e.cls = .requested ∧ e.mode = .call ∧ l ≠ [] then -1 else 0 := by
  cases h with
  | reported hmode hnot => simp [RbcEvent.due_of_send hmode hsrc hnot, hmode]
  | awaited t hcls hmode hne =>
    have hdue := RbcEvent.due_of_send (c := c) hmode hsrc fun hf => hne hf.2
    have hwait : (e.switchToCall t).due net c = 0 := RbcEvent.due_of_call rfl
    simp [hdue, Queued.due, hwait, hmode]
  | silent hmode hsilent =>
    have hdue : e.due net c = 0 := by
      rcases hsilent with hagg | ⟨hcls, hb⟩
      · exact RbcEvent.due_of_aggregated hagg
      · exact RbcEvent.due_of_outboundFailed (hb ▸ hsrc) hcls
    simp [hdue, hmode]
  | deferred e' hagg hmode hsame hmode' =>
    simp [RbcEvent.due_of_aggregated hagg, Queued.due, RbcEvent.due_of_call hmode', hmode]
  | called hmode => simp [RbcEvent.due_of_call hmode]
  | resumed e' hagg hmode hsame hmode' =>
    have hagg' : e'.cls.isAggregated := by rwa [hsame.1]
    have hne : e.cls ≠ .requested := by
      intro hcls
      rw [hcls] at hagg
      cases hagg
    simp [RbcEvent.due_of_aggregated hagg, Queued.due, RbcEvent.due_of_aggregated hagg', hne]
  | noQuorum e' hcls hmode hclone =>
    obtain ⟨-, hmode', ⟨-, hcls'⟩ | ⟨hacc, -⟩⟩ := hclone
    · have hsrc' : e'.srcChain? net = some src := by
        rw [(hkin e' (List.mem_singleton_self _)).srcChain?, hsrc]
      have hfailed : e'.due net c = if src = c then -1 else 0 := by
        rw [RbcEvent.due_of_send hmode' hsrc' fun hf => hin hcls hmode hf.2, RbcEvent.status, hcls']
        rfl
      simp [RbcEvent.due_of_call hmode, Queued.due, hfailed, hcls, hmode]
    · rw [hcls] at hacc
      cases hacc

/-- What a handling reports and leaves due, of an entry whose events the relayer tracks. -/
theorem settles_of_process {h : Handling} (hon : env.cfg.prometheusOn = true)
    (hp : process h.outcome h.event env s = ⟨.ok h.next, s', h.out⟩)
    (hout : h.sent ≠ [] → h.outcome = .success)
    (htracked : ∀ e, h.event = .socket e →
      e.Tracked env ∧ (s.heap e.detectedEvent).decoded = e.msg) :
    (∀ e', .socket e' ∈ h.queued → e'.Tracked env) ∧ ∀ c, scoreOf c h.out +
      dueOf env.cfg.network c h.queued =
        h.event.due env.cfg.network c + h.undue env.cfg.network c := by
  cases hev : h.event with
  | socket e =>
    obtain ⟨ht, hmsg⟩ := htracked e hev
    obtain ⟨src, hsrc⟩ := Option.isSome_iff_exists.mp ht.known
    rw [hev] at hp
    have hrep := reports_of_process hon ht.serves hsrc hp hout
    have hkin : ∀ e', .socket e' ∈ h.queued → e.Kin e' := fun e' he' =>
      ((leaves_of_process hp).stems hmsg e' he').1
    refine ⟨hrep.tracked ht hsrc hkin, fun c => ?_⟩
    have hin : e.cls = .requested → e.mode = .call → src ≠ .bifrost := by
      intro hreq hcall hb
      exact ht.inbound hreq hcall (by rw [hsrc, hb])
    rw [scoreOf, hrep.settles hsrc hin hkin c]
    congr 1
    unfold Handling.undue Handling.noQuorum?
    rw [hev]
    by_cases hno : e.cls = .requested ∧ e.mode = .call ∧ h.queued ≠ []
    · simp [hno, hsrc]
    · simp only [hno, and_false, if_false, Option.bind_none]
      rfl
  | roundUp e =>
    rw [hev] at hp
    obtain ⟨-, hnone⟩ := roundUp_of_process hp
    refine ⟨fun e' he' => absurd he' (hnone e'), fun c => ?_⟩
    have hscore : scoreOf c h.out = 0 := by
      rw [scoreOf, metrics_of_roundUp hp]
      rfl
    have hdue : dueOf env.cfg.network c h.queued = 0 := by
      refine dueOf_eq_zero fun e' he' => absurd he' (hnone e')
    rw [hscore, hdue]
    simp [Queued.due, Handling.undue, Handling.noQuorum?, hev]

end Bifrost
