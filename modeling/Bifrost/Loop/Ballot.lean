import Bifrost.Loop.Reports
import Bifrost.Loop.Warrant

/-!
# Votes are cast once

A detected log whose status calls for a signature is voted on exactly once
(`votes_once`): in every run of a relayer that is not fast and serves the log, as
long as the event waits in the queue nothing is sent for its log, and from its
handling on exactly the vote, whatever became of the transaction. What a handling
leaves of it is spent (`Spent`): a failed outbound request is cloned, but its
clone casts no vote. Only a restart can lose the vote, with the queue.
-/

namespace Bifrost

open Bifrost.Lib

/-- The transactions that an act sends for the log `r`. -/
def Act.sentOn (r : Ref) : Act → List SendTx
  | .handled h => if h.event.ref? = some r then h.sent else []
  | _ => []

/-- The transactions sent for the log `r`, in order. -/
def sentOn (r : Ref) (acts : List Act) : List SendTx := acts.flatMap (Act.sentOn r)

@[simp] theorem sentOn_append (r : Ref) (acts acts' : List Act) :
    sentOn r (acts ++ acts') = sentOn r acts ++ sentOn r acts' :=
  List.flatMap_append

@[simp] theorem sentOn_singleton (r : Ref) (a : Act) : sentOn r [a] = a.sentOn r :=
  List.append_nil _

theorem Queued.exists_of_ref? {q : Queued} {r : Ref} (h : q.ref? = some r) :
    ∃ e, q = .socket e ∧ e.detectedEvent = r := by
  cases q with
  | socket e => exact ⟨e, rfl, Option.some.inj h⟩
  | roundUp e => cases h

namespace RbcEvent

/-- The vote with the status `t`. -/
def ballot (env : Env) (self : RbcEvent) (t : ChainEventStatus) : SendTx :=
  self.poll .bifrost (.ofSigs [wireSig env.lib.toEthV env.account
    (self.msg.withStatus t).encode])

/-- Neither the event nor a clone of it sends anything any more. -/
structure Spent (net : Network) (e : RbcEvent) : Prop where
  outbound : e.srcChain? net = some .bifrost
  cls : e.cls = .failed ∨ e.cls = .requested ∧ e.mode = .call

variable {env : Env} {self e : RbcEvent} {t : ChainEventStatus}

theorem isAggregated_of_signed (ht : self.signedStatus? env.cfg.network = some t) :
    self.cls.isAggregated = false ∧ self.cls.isFinal = false := by
  unfold signedStatus? votedStatus? at ht
  cases hcls : self.cls <;> simp_all [EventClass.isAggregated, EventClass.isFinal]

theorem srcChain_of_signed (ht : self.signedStatus? env.cfg.network = some t)
    (hcls : self.cls = .requested) : self.srcChain? env.cfg.network = some .bifrost := by
  unfold signedStatus? votedStatus? at ht
  by_contra hne
  simp [hcls, hne] at ht

theorem Sends.ballot {l hi : Nat} {tx : SendTx} (h : self.Sends env l hi tx)
    (ht : self.signedStatus? env.cfg.network = some t) : tx = self.ballot env t := by
  cases h with
  | vote t' ht' =>
    obtain rfl := Option.some.inj (ht'.symm.trans ht)
    rfl
  | inbound c hcls hsrc hne =>
    have hb := srcChain_of_signed ht hcls
    exact absurd (Option.some.inj (hsrc.symm.trans hb)) hne
  | relay c k rid a b hagg =>
    rw [(isAggregated_of_signed ht).1] at hagg
    cases hagg

/-- A poll with a signature signs. -/
theorem signed_of_pollWithSig {msg : Bytes} {p : SendParamTuple} {s s' : RState}
    {w : List Effect} (h : self.pollWithSig msg env s = ⟨.ok p, s', w⟩) : .signed msg ∈ w := by
  unfold pollWithSig at h
  rw [Proc.bind_run, Proc.ask_run, Res.andThen_ok, Res.after_nil] at h
  obtain ⟨sig, s₁, w₁, w₂, h₁, -, rfl⟩ := Proc.bind_ok h
  rw [sign_run] at h₁
  cases h₁
  exact List.mem_append_left _ (List.mem_singleton_self _)

/-- A vote that is built has been signed. -/
theorem signed_of_build {tx : SendTx} {s s' : RState} {w : List Effect}
    (ht : self.signedStatus? env.cfg.network = some t)
    (hmsg : (s.heap self.detectedEvent).decoded = self.msg)
    (h : self.buildTransactionParams env s = ⟨.ok (some tx), s', w⟩) :
    .signed (self.msg.withStatus t).encode ∈ w := by
  have hbody : ∃ body : RM SendParamTuple, self.buildTransactionParams = self.guarded body ∧
      ∀ s₁ p s₂ w₂, (s₁.heap self.detectedEvent).decoded = self.msg →
        body env s₁ = ⟨.ok p, s₂, w₂⟩ → .signed (self.msg.withStatus t).encode ∈ w₂ := by
    unfold signedStatus? at ht
    split at ht
    · next hcls =>
      obtain ⟨c, hc, hne⟩ := Option.bind_eq_some_iff.mp ht
      have hinbound : c ≠ .bifrost ∧ t = .failed := by
        split at hne
        · cases hne
        · next hc => exact ⟨hc, (Option.some.inj hne).symm⟩
      refine ⟨_, by unfold buildTransactionParams; rw [hcls]; rfl, fun s₁ p s₂ w₂ hm hb => ?_⟩
      have hdata : (s₁.heap self.detectedEvent).data = (self.msg.withStatus t).encode := by
        rw [DetectedEvent.data_eq, hm, hinbound.2]
        have hst : self.status = .failed := by rw [status, hcls]; rfl
        rw [← hst, self.msg_withStatus]
      rw [Proc.bind_run, isInbound_run hc, Res.andThen_ok, Res.after_nil, Proc.ite_run,
        if_neg (by simpa using hinbound.1), Proc.bind_run, RM.detectedEvent_run, Res.andThen_ok,
        Res.after_nil, hdata] at hb
      exact signed_of_pollWithSig hb
    · obtain ⟨body, heq, hvote⟩ := exists_voteBody ht
      refine ⟨body, heq, fun s₁ p s₂ w₂ hm hb => ?_⟩
      have hdata : self.dataWithStatus t env s₁ =
          ⟨.ok (self.msg.withStatus t).encode, s₁, []⟩ := by
        unfold dataWithStatus
        rw [Proc.bind_run, RM.detectedEvent_run, Res.andThen_ok, Proc.pure_run,
          DetectedEvent.data_eq, changeStatusOfData_encode, hm]
        rfl
      rw [hvote, voteBody, Proc.bind_run, hdata, Res.andThen_ok, Res.after_nil] at hb
      exact signed_of_pollWithSig hb
  obtain ⟨body, heq, hsigned⟩ := hbody
  rw [heq] at h
  rcases guarded_ok h with ⟨-, hnone⟩ | ⟨s₁, w₁, w₂, h₁, h₂, rfl⟩
  · cases hnone
  · obtain ⟨hheap, -⟩ := quiet_checkMyEvent.run h₁
    exact List.mem_append_right _ (hsigned _ _ _ _ (by rw [hheap]; exact hmsg) h₂)

theorem Spent.signedStatus? {net : Network} (h : Spent net self) (hmode : self.mode = .send) :
    self.signedStatus? net = none := by
  rcases h.cls with hcls | ⟨-, hcall⟩
  · rw [RbcEvent.signedStatus?, if_pos hcls, h.outbound]
    rfl
  · rw [hmode] at hcall
    cases hcall

/-- A spent event sends nothing. -/
theorem Spent.not_sends {l hi : Nat} {tx : SendTx} (h : Spent env.cfg.network self)
    (hmode : self.mode = .send) : ¬ self.Sends env l hi tx := by
  have hcls : self.cls = .failed := by
    rcases h.cls with hcls | ⟨-, hcall⟩
    · exact hcls
    · rw [hmode] at hcall
      cases hcall
  intro hsends
  cases hsends with
  | vote t ht =>
    rw [h.signedStatus? hmode] at ht
    cases ht
  | inbound c hreq =>
    rw [hcls] at hreq
    cases hreq
  | relay c k rid a b hagg =>
    rw [hcls] at hagg
    cases hagg

end RbcEvent

/-! ## One handling -/

section Handlings

variable {env : Env} {s s' : RState} {e : RbcEvent} {h : Handling}

/-- What a handling sends, its event sends. -/
theorem sends_of_process (hmsg : (s.heap e.detectedEvent).decoded = e.msg)
    (hp : process h.outcome (.socket e) env s = ⟨.ok h.next, s', h.out⟩) :
    ∀ tx ∈ h.sent, e.Sends env s.now s'.now tx := by
  obtain ⟨n, -, hp⟩ := process_socket_ok hp
  exact fun tx htx => (RbcEvent.process_issues hmsg hp).2.2 tx (mem_sentOf.mp htx)

/-- What a handling leaves of an event has its source chain. -/
theorem srcChain_of_process (hmsg : (s.heap e.detectedEvent).decoded = e.msg)
    (hp : process h.outcome (.socket e) env s = ⟨.ok h.next, s', h.out⟩) :
    ∀ e', .socket e' ∈ h.queued →
      e'.srcChain? env.cfg.network = e.srcChain? env.cfg.network :=
  fun e' he' => ((leaves_of_process hp).becomes hmsg (.refl e) e' he').srcChain? _

theorem spent_of_process (hspent : e.Spent env.cfg.network)
    (hmsg : (s.heap e.detectedEvent).decoded = e.msg)
    (hp : process h.outcome (.socket e) env s = ⟨.ok h.next, s', h.out⟩) :
    h.sent = [] ∧ ∀ e', .socket e' ∈ h.queued → e'.Spent env.cfg.network := by
  have hsends := sends_of_process hmsg hp
  have hsrc := srcChain_of_process hmsg hp
  have hnagg : e.cls.isAggregated = false := by
    rcases hspent.cls with hcls | ⟨hcls, -⟩
    · rw [hcls]
      rfl
    · rw [hcls]
      rfl
  have hmoves := moves_of_process hp
  generalize h.queued = l at hmoves hsrc ⊢
  generalize h.sent = txs at hmoves hsends ⊢
  cases hmoves with
  | dropped => exact ⟨rfl, fun e' he' => by cases he'⟩
  | sent tx hmode =>
    exact absurd (hsends tx (List.mem_singleton_self _)) (hspent.not_sends hmode)
  | awaited tx _ _ hmode =>
    exact absurd (hsends tx (List.mem_singleton_self _)) (hspent.not_sends hmode)
  | failed tx _ hmode =>
    exact absurd (hsends tx (List.mem_singleton_self _)) (hspent.not_sends hmode)
  | deferred e' hagg =>
    rw [hnagg] at hagg
    cases hagg
  | resumed e' hagg =>
    rw [hnagg] at hagg
    cases hagg
  | noQuorum e' hcls _ hclone =>
    refine ⟨rfl, fun e'' he'' => ?_⟩
    obtain rfl : e'' = e' := by simpa using he''
    refine ⟨(hsrc e'' (List.mem_singleton_self _)).trans hspent.outbound, ?_⟩
    rcases hclone.2.2 with ⟨-, hfailed⟩ | ⟨hacc, -⟩
    · exact .inl hfailed
    · rw [hacc] at hcls
      cases hcls

/-- What a handling leaves is on the log of its event. -/
theorem ref_of_process {l₁ l₂ : List Queued} (hc : Coherent ⟨s, l₁ ++ h.event :: l₂⟩)
    (hp : process h.outcome h.event env s = ⟨.ok h.next, s', h.out⟩)
    (he : .socket e ∈ h.queued) : h.event.ref? = some e.detectedEvent := by
  cases hev : h.event with
  | socket e₀ =>
    have hmem : .socket e₀ ∈ l₁ ++ h.event :: l₂ := by
      rw [hev]
      exact List.mem_append_right _ List.mem_cons_self
    rw [hev] at hp
    have hbec := (leaves_of_process hp).becomes (hc.msg e₀ hmem) (.refl e₀) e he
    exact congrArg some hbec.ref.symm
  | roundUp e₀ =>
    rw [hev] at hp
    exact absurd he ((roundUp_of_process hp).2 e)

/-- The handling of an event that calls for a vote signs and casts it. -/
theorem voted_of_process {t : ChainEventStatus} (hslow : env.cfg.isFastRelayer = false)
    (hs : e.Serves env) (ht : e.signedStatus? env.cfg.network = some t) (hmode : e.mode = .send)
    (hmsg : (s.heap e.detectedEvent).decoded = e.msg)
    (hp : process h.outcome (.socket e) env s = ⟨.ok h.next, s', h.out⟩) :
    h.sent = [e.ballot env t] ∧ .signed (e.msg.withStatus t).encode ∈ h.out ∧
      ∀ e', .socket e' ∈ h.queued → e'.Spent env.cfg.network := by
  have hsends := fun tx htx => (sends_of_process hmsg hp tx htx).ballot ht
  have hsrc := srcChain_of_process hmsg hp
  obtain ⟨hnagg, hnfinal⟩ := RbcEvent.isAggregated_of_signed ht
  have hcast : h.sent ≠ [] ∧ .signed (e.msg.withStatus t).encode ∈ h.out := by
    obtain ⟨n, -, hp⟩ := process_socket_ok hp
    simp only [RbcEvent.process, hmode] at hp
    rcases processSend_ok hp with ⟨hb, -⟩ | ⟨tx, s₁, w₁, w₂, hb, hr, hout⟩
    · obtain ⟨c, -, hc⟩ : ∃ c ∈ env.cfg.supportedChainList,
          e.srcChain? env.cfg.network = some c := by
        rcases hs with hfast | ⟨hc, -⟩
        · rw [hslow] at hfast
          cases hfast
        · exact hc
      obtain ⟨hfailed, rfl⟩ := (RbcEvent.build_eq_none_iff hs hc hnagg hnfinal hb).mp rfl
      rw [RbcEvent.signedStatus?, if_pos hfailed, hc] at ht
      cases ht
    · rw [(effects_of_send hout (handleTxResult_ok hr).2).2.1]
      refine ⟨List.concat_ne_nil _ _, ?_⟩
      rw [hout]
      exact List.mem_append_left _ (RbcEvent.signed_of_build ht hmsg hb)
  obtain ⟨hne, hsigned⟩ := hcast
  have hmoves := moves_of_process hp
  generalize h.queued = l at hmoves hsrc ⊢
  generalize h.sent = txs at hmoves hsends hne ⊢
  cases hmoves with
  | dropped | deferred | resumed | noQuorum => exact absurd rfl hne
  | sent tx _ =>
    rw [hsends tx (List.mem_singleton_self _)]
    exact ⟨rfl, hsigned, fun e' he' => by cases he'⟩
  | awaited tx e' hcls _ hsame hcall =>
    rw [hsends tx (List.mem_singleton_self _)]
    refine ⟨rfl, hsigned, fun e'' he'' => ?_⟩
    obtain rfl : e'' = e' := by simpa using he''
    exact ⟨(hsrc e'' (List.mem_singleton_self _)).trans (RbcEvent.srcChain_of_signed ht hcls),
      .inr ⟨hsame.1.trans hcls, hcall⟩⟩
  | failed tx e' _ hclone =>
    rw [hsends tx (List.mem_singleton_self _)]
    refine ⟨rfl, hsigned, fun e'' he'' => ?_⟩
    obtain rfl : e'' = e' := by simpa using he''
    rcases hclone.2.2 with ⟨hcls, hfailed⟩ | ⟨hacc, -⟩
    · exact ⟨(hsrc e'' (List.mem_singleton_self _)).trans
        (RbcEvent.srcChain_of_signed ht hcls), .inl hfailed⟩
    · rw [hacc] at hnagg
      cases hnagg

end Handlings

/-! ## Runs -/

section Runs

variable {env : Env} {hist acts : List Act} {n n' : Node}

/-- The acts of the process that runs now, from its start on. -/
def sinceBoot : List Act → List Act
  | [] => []
  | a :: acts => if acts.any Act.isBoot then sinceBoot acts else a :: acts

theorem sinceBoot_snoc (acts : List Act) (a : Act) :
    sinceBoot (acts ++ [a]) = if a.isBoot then [a] else sinceBoot acts ++ [a] := by
  induction acts with
  | nil => simp [sinceBoot]
  | cons b acts ih =>
    cases ha : a.isBoot with
    | true =>
      have hany : (acts ++ [a]).any Act.isBoot = true := by simp [ha]
      rw [List.cons_append, sinceBoot, if_pos hany, ih, if_pos ha, if_pos rfl]
    | false =>
      rw [ha] at ih
      simp only [Bool.false_eq_true, if_false] at ih ⊢
      simp only [List.cons_append, sinceBoot, List.any_append, List.any_cons, List.any_nil, ha,
        Bool.or_false, ih]
      split <;> rfl

/-- Where the vote on `d` stands. -/
inductive RbcEvent.Due (env : Env) (hist : List Act) (queue : List Queued) (d : RbcEvent)
    (t : ChainEventStatus) : Prop where
  | waiting : .socket d ∈ queue → sentOn d.detectedEvent hist = [] → Due env hist queue d t
  | cast : sentOn d.detectedEvent hist = [d.ballot env t] →
      SignedIn hist (.request (d.msg.withStatus t)) →
      (∀ e, .socket e ∈ queue → e.detectedEvent = d.detectedEvent → e.Spent env.cfg.network) →
      Due env hist queue d t
  /-- The process that has detected the log has ended. -/
  | lost : d ∉ detectedIn (sinceBoot hist) → sentOn d.detectedEvent hist = [] →
      (∀ e, .socket e ∈ queue → e.detectedEvent ≠ d.detectedEvent) → Due env hist queue d t

/-- Nothing happens on the log of `d`. -/
theorem RbcEvent.Due.frame {queue queue' : List Queued} {d : RbcEvent} {t : ChainEventStatus}
    {a : Act} (h : d.Due env hist queue t) (hboot : a.isBoot = false) (hnew : d ∉ a.events)
    (hsent : a.sentOn d.detectedEvent = [])
    (hq : ∀ e, e.detectedEvent = d.detectedEvent → (.socket e ∈ queue' ↔ .socket e ∈ queue)) :
    d.Due env (hist ++ [a]) queue' t := by
  have hsentOn : sentOn d.detectedEvent (hist ++ [a]) = sentOn d.detectedEvent hist := by
    rw [sentOn_append, sentOn_singleton, hsent, List.append_nil]
  cases h with
  | waiting hqueued hnone => exact .waiting ((hq d rfl).mpr hqueued) (hsentOn.trans hnone)
  | cast hvote hsigned hspent =>
    exact .cast (hsentOn.trans hvote) (hsigned.mono a) fun e he href =>
      hspent e ((hq e href).mp he) href
  | lost hold hnone hoff =>
    refine .lost ?_ (hsentOn.trans hnone) fun e he href => hoff e ((hq e href).mp he) href
    rw [sinceBoot_snoc, hboot, if_neg Bool.false_ne_true, detectedIn_append,
      detectedIn_singleton, List.mem_append]
    exact not_or.mpr ⟨hold, hnew⟩

structure Polled (env : Env) (hist : List Act) (n : Node) : Prop where
  traced : Traced env.cfg hist n
  mode : ∀ d ∈ detectedIn hist, d.mode = .send
  /-- Nothing has been sent for a log without an event. -/
  silent : ∀ r, (∀ d ∈ detectedIn hist, d.detectedEvent ≠ r) → sentOn r hist = []
  due : ∀ d ∈ detectedIn hist, d.Serves env → ∀ t, d.signedStatus? env.cfg.network = some t →
    d.Due env hist n.loop.queue t

/-- Nothing has been sent for the logs to come. -/
theorem Polled.unused (hp : Polled env hist n) {r : Ref} (hr : n.next ≤ r) :
    sentOn r hist = [] :=
  hp.silent r fun d hd heq => absurd (heq ▸ hr) (Nat.not_le.mpr (hp.traced.below d hd))

/-- What is polled stays so through an act that detects and sends nothing. -/
theorem Polled.mono {σ σ' : LoopState} {next : Ref} {a : Act}
    (hp : Polled env hist ⟨σ, next⟩) (ht : Traced env.cfg (hist ++ [a]) ⟨σ', next⟩)
    (hboot : a.isBoot = false) (hd : a.events = []) (hsent : ∀ r, a.sentOn r = [])
    (hq : ∀ e, .socket e ∈ σ'.queue ↔ .socket e ∈ σ.queue) :
    Polled env (hist ++ [a]) ⟨σ', next⟩ := by
  have hdetected : detectedIn (hist ++ [a]) = detectedIn hist := by
    rw [detectedIn_append, detectedIn_singleton, hd, List.append_nil]
  refine ⟨ht, hdetected ▸ hp.mode, fun r hr => ?_, fun d hmem hs t hst => ?_⟩
  · rw [sentOn_append, sentOn_singleton, hsent, List.append_nil]
    exact hp.silent r (hdetected ▸ hr)
  · exact (hp.due d (hdetected ▸ hmem) hs t hst).frame hboot (by rw [hd]; exact List.not_mem_nil)
      (hsent _) fun e _ => hq e

/-- Of the logs that have been detected, an entry in the queue is on one. -/
theorem Polled.off_new {st : RState} {queue : List Queued} {next : Ref}
    (hp : Polled env hist ⟨⟨st, queue⟩, next⟩) {d e : RbcEvent} (hd : d ∈ detectedIn hist)
    (he : next ≤ e.detectedEvent) : e.detectedEvent ≠ d.detectedEvent := by
  have hlt : d.detectedEvent < next := hp.traced.below d hd
  exact fun heq => absurd (heq ▸ he) (Nat.not_le.mpr hlt)

theorem Polled.handle {σ σ' : LoopState} {next : Ref} {h : Handling}
    (hslow : env.cfg.isFastRelayer = false) (hp : Polled env hist ⟨σ, next⟩)
    (ht : Traced env.cfg (hist ++ [.handled h]) ⟨σ', next⟩) (hstep : LoopStep env σ [h] σ') :
    Polled env (hist ++ [.handled h]) ⟨σ', next⟩ := by
  have hdetected : detectedIn (hist ++ [.handled h]) = detectedIn hist := by
    rw [detectedIn_append]
    exact List.append_nil _
  have hmem := mem_queue_of_step hstep
  refine ⟨ht, hdetected ▸ hp.mode, fun r hr => ?_, fun d hd hs t hst => ?_⟩
  · rw [hdetected] at hr
    rw [sentOn_append, hp.silent r hr, List.nil_append, sentOn_singleton]
    refine if_neg fun href => ?_
    obtain ⟨e, hev, rfl⟩ := Queued.exists_of_ref? href
    obtain ⟨d, hd, hbec⟩ := hp.traced.queued e (hev ▸ hmem)
    exact hr d hd hbec.ref.symm
  rw [hdetected] at hd
  have hdue := hp.due d hd hs t hst
  cases hstep with
  | @handle st st' l₁ l₂ _ hproc =>
    have hcoherent := hp.traced.coherent
    by_cases href : h.event.ref? = some d.detectedEvent
    · -- the entry on the log of `d`: the event itself, or a spent one
      obtain ⟨e, hev, hed⟩ := Queued.exists_of_ref? href
      have hmsg := hcoherent.msg e (hev ▸ hmem)
      have hproc' := hproc
      rw [hev] at hproc'
      have hsentOn : sentOn d.detectedEvent (hist ++ [.handled h]) =
          sentOn d.detectedEvent hist ++ h.sent := by
        rw [sentOn_append, sentOn_singleton]
        exact congrArg _ (if_pos href)
      have hleft : (∀ e', .socket e' ∈ h.queued → e'.Spent env.cfg.network) →
          ∀ e', .socket e' ∈ l₁ ++ l₂ ++ h.queued → e'.detectedEvent = d.detectedEvent →
            e'.Spent env.cfg.network := by
        intro hqueued e' he' hed'
        rcases List.mem_append.mp he' with he' | he'
        · exact absurd (href.trans (congrArg some hed'.symm)) (hcoherent.ref_ne he')
        · exact hqueued e' he'
      cases hdue with
      | waiting hqueued hnone =>
        obtain rfl : e = d := hcoherent.unique hqueued (hev ▸ hmem) hed
        obtain ⟨hsent, hsigned, hspent⟩ :=
          voted_of_process hslow hs hst (hp.mode e hd) hmsg hproc'
        refine .cast ?_ (.last hsigned) (hleft hspent)
        rw [hsentOn, hnone, hsent]
        rfl
      | cast hvote hsigned hspent =>
        obtain ⟨hsent, hspent'⟩ := spent_of_process (hspent e (hev ▸ hmem) hed) hmsg hproc'
        refine .cast ?_ (hsigned.mono _) (hleft hspent')
        rw [hsentOn, hvote, hsent]
        rfl
      | lost _ _ hoff => exact absurd hed (hoff e (hev ▸ hmem))
    · refine hdue.frame rfl List.not_mem_nil (if_neg href) fun e hed => ?_
      have hne : h.event ≠ .socket e := by
        intro hev
        rw [hev] at href
        exact href (congrArg some hed)
      have hnot : .socket e ∉ h.queued := fun he =>
        href ((ref_of_process hcoherent hproc he).trans (congrArg some hed))
      simp only [List.mem_append, List.mem_cons, hnot, hne.symm, or_false, false_or]

/-- Step lemma. -/
theorem polled_step (hslow : env.cfg.isFastRelayer = false) (hp : Polled env hist n)
    (hstep : NodeStep env n acts n') : Polled env (hist ++ acts) n' := by
  have ht := traced_step hp.traced hstep
  cases hstep with
  | @detect st st' queue next log timeLock e w hd =>
    obtain ⟨-, -, he⟩ := RbcEvent.detect_ok hd
    obtain ⟨href, -, hmode⟩ := he e rfl
    refine ⟨ht, fun d hmem => ?_, fun r hr => ?_, fun d hmem hs t hst => ?_⟩
    · rcases List.mem_append.mp (detectedIn_append .. ▸ hmem) with hold | hnew
      · exact hp.mode d hold
      · obtain rfl : d = e := by simpa [Act.events] using hnew
        exact hmode
    · rw [sentOn_append, hp.silent r fun d hd => hr d (by simp [hd])]
      rfl
    · rcases List.mem_append.mp (detectedIn_append .. ▸ hmem) with hold | hnew
      · have hne : e.detectedEvent ≠ d.detectedEvent := hp.off_new hold href.ge
        refine (hp.due d hold hs t hst).frame rfl ?_ rfl fun e' hed => ?_
        · intro hmem
          obtain rfl : d = e := by simpa [Act.events] using hmem
          exact hne rfl
        · have hne' : e' ≠ e := fun heq => hne (heq ▸ hed)
          simp [hne']
      · obtain rfl : d = e := by simpa [Act.events] using hnew
        refine .waiting (List.mem_append_right _ (List.mem_singleton_self _)) ?_
        rw [sentOn_append, hp.unused href.ge]
        rfl
  | @passOver st st' next queue log timeLock w hd =>
    rw [List.append_nil] at ht ⊢
    exact ⟨ht, hp.mode, hp.silent, hp.due⟩
  | detectRoundUp next log timeLock e w hinit =>
    exact hp.mono ht rfl rfl (fun _ => rfl) fun _ => by simp
  | handle next h hloop => exact hp.handle hslow ht hloop
  | period st queue next outcome _ => exact hp.mono ht rfl rfl (fun _ => rfl) fun _ => .rfl
  | wait st queue next =>
    rw [List.append_nil] at ht ⊢
    exact ⟨ht, hp.mode, hp.silent, hp.due⟩
  | @restart st st' next queue order roundUpOrder timeLock logs roundUps es us w hboot =>
    obtain ⟨-, hfresh, -, -⟩ := Relayer.boot_ok hboot
    have hle : ∀ e ∈ es, next ≤ e.detectedEvent := fun e he =>
      (List.mem_range'_1.mp (hfresh e he).1.ref).1
    have hsentOn : ∀ r, sentOn r (hist ++ [.booted es us w]) = sentOn r hist := by
      intro r
      rw [sentOn_append]
      exact List.append_nil _
    refine ⟨ht, fun d hmem => ?_, fun r hr => ?_, fun d hmem hs t hst => ?_⟩
    · rcases List.mem_append.mp (detectedIn_append .. ▸ hmem) with hold | hnew
      · exact hp.mode d hold
      · exact (hfresh d (by simpa [Act.events] using hnew)).1.mode
    · rw [hsentOn]
      exact hp.silent r fun d hd => hr d (by simp [hd])
    · rcases List.mem_append.mp (detectedIn_append .. ▸ hmem) with hold | hnew
      · have hoff : ∀ e, .socket e ∈ es.map Queued.socket ++ us.map Queued.roundUp →
            e.detectedEvent ≠ d.detectedEvent :=
          fun e he => hp.off_new hold (hle e (by simpa using he))
        have hlost : d ∉ detectedIn (sinceBoot (hist ++ [.booted es us w])) := by
          have hboots : (Act.booted es us w).isBoot = true := rfl
          rw [sinceBoot_snoc, if_pos hboots, detectedIn_singleton]
          exact fun hd => hoff d (by simpa [Act.events] using hd) rfl
        cases hp.due d hold hs t hst with
        | waiting _ hnone => exact .lost hlost ((hsentOn _).trans hnone) hoff
        | cast hvote hsigned =>
          exact .cast ((hsentOn _).trans hvote) (hsigned.mono _) fun e he hed =>
            absurd hed (hoff e he)
        | lost _ hnone => exact .lost hlost ((hsentOn _).trans hnone) hoff
      · have hd : d ∈ es := by simpa [Act.events] using hnew
        refine .waiting (by simpa using hd) ?_
        rw [hsentOn]
        exact hp.unused (hle d hd)

/-- Run lemma. -/
theorem polled_run (hslow : env.cfg.isFastRelayer = false) (hrun : NodeRun env n acts n')
    (hstart : n.loop.queue = []) : Polled env acts n' :=
  hrun.invariant
    ⟨.start hstart, fun d hd => by (cases hd), fun _ _ => rfl, fun d hd => by (cases hd)⟩
    fun hp hstep => polled_step hslow hp hstep

/-- What has been sent for the log of `d`. -/
theorem Polled.sentOn (hp : Polled env acts n) {d : RbcEvent} (hd : d ∈ detectedIn acts)
    (hs : d.Serves env) {t : ChainEventStatus} (ht : d.signedStatus? env.cfg.network = some t) :
    (sentOn d.detectedEvent acts = [] ∨ sentOn d.detectedEvent acts = [d.ballot env t]) ∧
      (d ∈ detectedIn (sinceBoot acts) → sentOn d.detectedEvent acts =
        if .socket d ∈ n.loop.queue then [] else [d.ballot env t]) := by
  cases hp.due d hd hs t ht with
  | waiting hqueued hnone => exact ⟨.inl hnone, fun _ => by rw [if_pos hqueued, hnone]⟩
  | cast hvote _ hspent =>
    refine ⟨.inr hvote, fun _ => ?_⟩
    rw [if_neg, hvote]
    intro hqueued
    have hnone := (hspent d hqueued rfl).signedStatus? (hp.mode d hd)
    rw [ht] at hnone
    cases hnone
  | lost hold hnone => exact ⟨.inl hnone, fun hd => absurd hd hold⟩

/-- **Each vote is cast exactly once.** In every run of a relayer that is not fast, its restarts
included, at most the vote is sent for the log of a detected event that calls for a vote and that
the relayer serves; for an event of the process that runs now, nothing as long as the event is
queued, and exactly the vote from then on. -/
theorem votes_once (hslow : env.cfg.isFastRelayer = false) (hrun : NodeRun env n acts n')
    (hstart : n.loop.queue = []) {d : RbcEvent} (hd : d ∈ detectedIn acts) (hs : d.Serves env)
    {t : ChainEventStatus} (ht : d.signedStatus? env.cfg.network = some t) :
    (sentOn d.detectedEvent acts = [] ∨ sentOn d.detectedEvent acts = [d.ballot env t]) ∧
      (d ∈ detectedIn (sinceBoot acts) → sentOn d.detectedEvent acts =
        if .socket d ∈ n'.loop.queue then [] else [d.ballot env t]) :=
  (polled_run hslow hrun hstart).sentOn hd hs ht

end Runs

/-- A member serves what comes from its chains. -/
theorem Sample.serves (members : List Byte) (b : Byte)
    (hb : (address b).hex ∈ sortedLower (members.map fun b => (address b).hex))
    {status : ChainEventStatus} {c : ChainEnum} {d : RbcEvent}
    (hc : c ∈ cfg.supportedChainList) (hsrc : d.srcChain? .mainnet = some c) :
    d.Serves (memberEnv members b status) :=
  .inr ⟨⟨c, hc, hsrc⟩, fun _ => hb⟩

/-- The vote on an outbound request reverts, and its FAILED clone is handled too. -/
theorem votes_once_failed : ∃ acts n', NodeRun (Sample.soleEnv .requested) Sample.node acts n' ∧
    n'.loop.queue = [] ∧ ∃ d ∈ detectedIn acts, sentOn d.detectedEvent acts =
      [d.ballot (Sample.soleEnv .requested) .accepted] := by
  obtain ⟨acts, n', hrun, hempty, d, hd, hsince, hsrc, hst⟩ := exists_nodeRun
    (Sample.soleEnv .requested)
    [.detect (.ofMsg (Sample.msg .bifrost .ethereum .requested) 7) 1, .handleHead .fail,
      .handleHead .success]
    Sample.node (fun acts n' => n'.loop.queue = [] ∧ ∃ d ∈ detectedIn acts,
      d ∈ detectedIn (sinceBoot acts) ∧ d.srcChain? .mainnet = some .bifrost ∧
        d.signedStatus? .mainnet = some .accepted)
    (by decide +kernel)
  have hserves : d.Serves (Sample.soleEnv .requested) :=
    Sample.serves [1] 1 (by decide +kernel) List.mem_cons_self hsrc
  have hvote := (votes_once rfl hrun rfl hd hserves hst).2 hsince
  rw [hempty, if_neg List.not_mem_nil] at hvote
  exact ⟨acts, n', hrun, hempty, d, hd, hvote⟩

end Bifrost
