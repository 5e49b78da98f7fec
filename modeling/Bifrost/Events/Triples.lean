import Bifrost.Lib.Hoare
import Bifrost.Submits.Canonical
import Bifrost.Votes.Poll

/-!
# Triples of the handlers

`Copes env X e`: whatever can go wrong in a handling of the Socket event `e` (a
read that fails, an unknown chain, an answer that does not parse) raises an
exception that `X` allows. Under it every method of `e` has a triple that says
what it signs and which transaction it builds (`Sends`); its precondition is that
the log of `e` holds the message of `e`, and it leaves the marker of the feed as
it is. With an `X` that allows everything this bounds what every run issues; with
one that allows nothing the same triples say that the handling returns.
-/

namespace Bifrost

open Bifrost.Lib Proc

/-- A signature is over a string of `S`, a transaction one of `T`. -/
def Effect.IssuedIn (S : Bytes → Prop) (T : SendTx → Prop) : Effect → Prop
  | .signed msg => S msg
  | .sent tx => T tx
  | _ => True

/-- Raises what `X` allows, signs what `S` allows and sends what `T` allows. -/
def issuing (X : Exn → Prop) (S : Bytes → Prop) (T : SendTx → Prop) : Policy Exn Effect :=
  ⟨X, Effect.IssuedIn S T⟩

/-- What holds by the logs and the marker of the feed, from some read on. -/
class Framed (I : RState → Prop) : Prop where
  frame : ∀ s s', s'.heap = s.heap → s'.currentRound = s.currentRound → s.now ≤ s'.now →
    I s → I s'

/-- The marker is `n`, and the next read is the `l`-th or a later one. -/
def Marked (n l : Nat) (s : RState) : Prop := s.currentRound = n ∧ l ≤ s.now

instance (n l : Nat) : Framed (Marked n l) where
  frame := fun _ _ _ hround hnow hs => ⟨hround.trans hs.1, hs.2.trans hnow⟩

/-- The log of the event holds its message, besides. -/
def RbcEvent.Held (e : RbcEvent) (n l : Nat) (s : RState) : Prop :=
  (s.heap e.detectedEvent).decoded = e.msg ∧ Marked n l s

instance (e : RbcEvent) (n l : Nat) : Framed (e.Held n l) where
  frame := fun s s' hheap hround hnow hs =>
    ⟨by rw [hheap]; exact hs.1, Framed.frame s s' hheap hround hnow hs.2⟩

/-- What holds from the `l`-th read on: a read moves the bound behind itself. -/
class Clocked (I : Nat → RState → Prop) : Prop where
  tick : ∀ l s, I l s → l ≤ s.now ∧ I (s.now + 1) s.tick

instance (n : Nat) : Clocked (Marked n) where
  tick := fun _ _ hs => ⟨hs.2, hs.1, le_rfl⟩

instance (e : RbcEvent) (n : Nat) : Clocked (e.Held n) where
  tick := fun _ _ hs => ⟨hs.2.2, hs.1, hs.2.1, le_rfl⟩

/-- The `k`-th read came through, and is the `l`-th or a later one, but none from the `hi`-th
on. -/
structure ReadIn (env : Env) (l hi k : Nat) : Prop where
  le : l ≤ k
  lt : k < hi
  up : env.down k = false

theorem ReadIn.mono {env : Env} {l hi hi' k : Nat} (h : ReadIn env l hi k) (hle : hi ≤ hi') :
    ReadIn env l hi' k :=
  ⟨h.le, h.lt.trans_le hle, h.up⟩

/-- What can go wrong in a handling of `e`, and the exceptions it gives. -/
structure Copes (env : Env) (X : Exn → Prop) (e : RbcEvent) : Prop where
  rpc : ∀ t, env.down t = true → X .rpc
  chain : e.srcChain? env.cfg.network = none → X .valueError
  inst : e.inst? env.cfg.network = none → X .valueError
  /-- A status that is no member of `ChainEventStatus`. -/
  status : ∀ t c rid, ChainEventStatus.ofValue? ((env.view t).getRequest c rid).status = none →
    X .valueError
  /-- Nobody is selected, so there is no primary relayer. -/
  relayers : ∀ t, (env.view t).selectedRelayers .bifrost true = [] → X .zeroDivision
  /-- A recovery id of more than one byte. -/
  recovery : ∀ msg, 256 ≤ env.lib.toEthV (env.account.sign msg).v →
    X (.exception "Not matched list size")
  /-- A batch of signatures whose parts differ in length. -/
  batch : ∀ t rid status,
    SocketSignature.ofTuple ((env.view t).getSignatures rid status) = none →
      X (.exception "Not matched list size")
  delay : env.cfg.relayerRole = .slowRelayer → env.cfg.slowRelayerDelaySec = none → X .typeError

/-- Everything may be raised. -/
theorem Copes.any (env : Env) (e : RbcEvent) : Copes env (fun _ => True) e :=
  ⟨fun _ _ => trivial, fun _ => trivial, fun _ => trivial, fun _ _ _ _ => trivial,
    fun _ _ => trivial, fun _ _ => trivial, fun _ _ _ _ => trivial, fun _ _ => trivial⟩

/-! ## Reads -/

section Reads

variable {X : Exn → Prop} {S : Bytes → Prop} {T : SendTx → Prop} {env : Env} {I : RState → Prop}

theorem triple_getConfig :
    Triple (issuing X S T) env I RM.getConfig fun cfg s => cfg = env.cfg ∧ I s :=
  .of_reader (fun _ => getConfig_run) (fun _ h => by cases h) fun a s h hs =>
    ⟨(Except.ok.inj h).symm, hs⟩

theorem triple_timestampMsec : Triple (issuing X S T) env I RM.timestampMsec fun _ => I :=
  .of_run fun _ hs => ⟨_, _, _, timestampMsec_run, hs, List.forall_mem_nil _⟩

theorem triple_getValueByKey (k : Int) :
    Triple (issuing X S T) env I (RM.getValueByKey k) fun _ => I :=
  .of_run fun _ hs => ⟨_, _, _, getValueByKey_run k, hs, List.forall_mem_nil _⟩

theorem triple_detectedEvent (ref : Ref) :
    Triple (issuing X S T) env I (RM.detectedEvent ref) fun d s => d = s.heap ref ∧ I s :=
  .of_run fun s hs => ⟨_, _, _, RM.detectedEvent_run ref env s, ⟨rfl, hs⟩, List.forall_mem_nil _⟩

theorem triple_sortSigs (msg : Bytes) (sigs : SocketSignature) :
    Triple (issuing X S T) env I (RM.sortSigs msg sigs)
      fun b s => SubmitWithSig.sortSigs env.lib msg sigs = some b ∧ I s := by
  refine .bind (.ask (Q := fun r s => r = env ∧ I s) fun _ hs => ⟨rfl, hs⟩) fun r => .pull ?_
  rintro rfl
  exact .ofOption (fun h => absurd h (SubmitWithSig.sortSigs_ne_none _ _ _))
    fun _ _ hb hs => ⟨hb, hs⟩

variable [Framed I]

theorem Framed.tick {s : RState} (h : I s) : I s.tick :=
  Framed.frame s _ rfl rfl (Nat.le_succ _) h

theorem triple_setValueByKey (k : Int) (v : Option Nat) :
    Triple (issuing X S T) env I (RM.setValueByKey k v) fun _ => I :=
  .modify fun s hs => Framed.frame s _ rfl rfl le_rfl hs

variable (hrpc : ∀ t, env.down t = true → X .rpc)

include hrpc

theorem triple_worldCall {α : Type} (chain : ChainEnum) (method : String) (answer : View → α) :
    Triple (issuing X S T) env I (RM.worldCall chain method answer)
      fun a s => (∃ t, a = answer (env.view t)) ∧ I s := by
  intro s hs
  rw [worldCall_run]
  refine ⟨fun o ho => ?_, ?_⟩
  · rw [List.mem_singleton.mp ho]
    trivial
  · cases hd : env.down s.now with
    | true => exact hrpc _ hd
    | false => exact ⟨⟨s.now, rfl⟩, Framed.tick hs⟩

omit [Framed I] in
/-- The read that gives an answer lies behind when the answer is there. -/
theorem triple_answer {α : Type} {I : Nat → RState → Prop} [Clocked I] {l : Nat}
    (chain : ChainEnum) (method : String) (answer : View → α) :
    Triple (issuing X S T) env (I l) (RM.worldCall chain method answer) fun a s =>
      ∃ k, (a = answer (env.view k) ∧ l ≤ k ∧ env.down k = false) ∧ I (k + 1) s := by
  intro s hs
  rw [worldCall_run]
  refine ⟨fun o ho => ?_, ?_⟩
  · rw [List.mem_singleton.mp ho]
    trivial
  · obtain ⟨hle, hs'⟩ := Clocked.tick l s hs
    cases hd : env.down s.now with
    | true => exact hrpc _ hd
    | false => exact ⟨s.now, ⟨rfl, hle, hd⟩, hs'⟩

theorem triple_fetchList (chain : ChainEnum) (rnd : Option Int) (b : Bool) :
    Triple (issuing X S T) env I (RM.fetchSortedRelayerListLower chain rnd b)
      fun l s => (∃ t, l = sortedLower ((env.view t).relayers chain rnd b)) ∧ I s := by
  refine .bind (triple_worldCall hrpc _ _ _) fun a => .pull ?_
  rintro ⟨t, rfl⟩
  exact .pure fun s hs => ⟨⟨t, rfl⟩, hs⟩

theorem triple_fetchRelayerIndex (chain : ChainEnum) (rnd : Option Int) (a : Option Address) :
    Triple (issuing X S T) env I (RM.fetchRelayerIndex chain rnd a) fun _ => I :=
  .bind (triple_fetchList hrpc _ _ _) fun _ => .pull fun _ =>
    .bind (.ask (Q := fun _ => I) fun _ hs => hs) fun _ => .pure fun _ hs => hs

theorem triple_fetchRelayerNum (chain : ChainEnum) (b : Bool) :
    Triple (issuing X S T) env I (RM.fetchRelayerNum chain b)
      fun n s => (∃ t, n = ((env.view t).selectedRelayers chain b).length) ∧ I s := by
  refine .bind (triple_fetchList hrpc _ _ _) fun l => .pull ?_
  rintro ⟨t, rfl⟩
  exact .pure fun s hs => ⟨⟨t, by simp [sortedLower, View.relayers]⟩, hs⟩

theorem triple_fetchQuorum (chain : ChainEnum) (rnd : Option Int) (b : Bool) :
    Triple (issuing X S T) env I (RM.fetchQuorum chain rnd b) fun _ => I := by
  unfold RM.fetchQuorum
  split <;> exact (triple_worldCall hrpc _ _ _).weaken fun _ _ h => h.2

theorem triple_getRequest (tx : CallTx) :
    Triple (issuing X S T) env I (RM.getRequest tx)
      fun info s => (∃ t c rid, info = (env.view t).getRequest c rid) ∧ I s := by
  refine .bind (triple_worldCall hrpc _ _ _) fun info => .pull ?_
  rintro ⟨t, rfl⟩
  refine .bind (.emit (Q := fun _ => I) trivial fun _ hs => hs) fun _ => ?_
  exact .pure fun s hs => ⟨⟨t, _, _, rfl⟩, hs⟩

end Reads

namespace RbcEvent

variable {X : Exn → Prop} {S : Bytes → Prop} {T : SendTx → Prop} {env : Env} {self : RbcEvent}
  {I J : RState → Prop}

/-! ## Decoded fields -/

section Fields

variable (hc : Copes env X self)

include hc

theorem triple_reqId : Triple (issuing X S T) env I self.reqId
    fun p s => (self.srcChain? env.cfg.network = some p.1 ∧
      p.2 = (self.msg.roundId.val, self.msg.sequence.val)) ∧ I s := by
  cases h : self.srcChain? env.cfg.network with
  | none =>
    refine .of_reader (fun _ => reqId_error h) (fun e he => ?_) fun _ _ he => by cases he
    cases he
    exact hc.chain h
  | some c =>
    refine .of_reader (fun _ => reqId_run h) (fun _ he => by cases he) fun p s hp hs => ?_
    cases hp
    exact ⟨⟨rfl, rfl⟩, hs⟩

theorem triple_srcChain : Triple (issuing X S T) env I self.srcChain
    fun c s => self.srcChain? env.cfg.network = some c ∧ I s :=
  .bind (triple_reqId hc) fun _ => .pure fun _ hs => ⟨hs.1.1, hs.2⟩

theorem triple_rnd : Triple (issuing X S T) env I self.rnd fun _ => I :=
  .bind (triple_reqId hc) fun _ => .pure fun _ hs => hs.2

theorem triple_summary : Triple (issuing X S T) env I self.summary fun _ => I :=
  .bind (triple_reqId hc) fun _ => .pure fun _ hs => hs.2

theorem triple_requestId : Triple (issuing X S T) env I self.requestId
    fun rid s => self.requestId? env.cfg.network = some rid ∧ I s := by
  refine .bind (triple_reqId hc) fun p => .pull fun hp => .bind triple_getConfig fun cfg =>
    .pull ?_
  rintro rfl
  obtain ⟨c, rnd, seq⟩ := p
  obtain ⟨hsrc, hid⟩ := hp
  cases hid
  exact .pure fun _ hs => ⟨by rw [requestId?, hsrc]; rfl, hs⟩

theorem triple_isInbound : Triple (issuing X S T) env I self.isInbound
    fun b s => (∃ c, self.srcChain? env.cfg.network = some c ∧ b = decide (c ≠ .bifrost)) ∧ I s :=
  .bind (triple_srcChain hc) fun c => .pure fun _ hs => ⟨⟨c, hs.1, rfl⟩, hs.2⟩

theorem triple_dstChain : Triple (issuing X S T) env I self.dstChain
    fun c s => (self.inst? env.cfg.network).map Prod.fst = some c ∧ I s := by
  have hinst : Triple (issuing X S T) env I self.inst
      fun i s => self.inst? env.cfg.network = some i ∧ I s := by
    refine .bind triple_getConfig fun cfg => .pull ?_
    rintro rfl
    exact .ofOption hc.inst fun _ _ hi hs => ⟨hi, hs⟩
  exact .bind hinst fun i => .pure fun _ hs => ⟨by rw [hs.1]; rfl, hs.2⟩

theorem triple_targetChain : Triple (issuing X S T) env I (AggregatedRelayEvent.targetChain self)
    fun c s => self.targetChain? env.cfg.network = some c ∧ I s := by
  refine .bind (triple_isInbound hc) fun b => .pull ?_
  rintro ⟨c, hsrc, rfl⟩
  unfold targetChain?
  rw [hsrc, Option.bind_some]
  refine .ite (fun hin => ?_) fun hin => ?_
  · have hne : c ≠ .bifrost := by simpa using hin
    rw [if_neg hne, ← hsrc]
    exact triple_srcChain hc
  · have heq : c = .bifrost := by simpa using hin
    rw [if_pos heq]
    exact triple_dstChain hc

theorem triple_getRequestCall {chain : RM ChainEnum}
    (h : Triple (issuing X S T) env I chain fun _ => I) :
    Triple (issuing X S T) env I (self.getRequestCall chain) fun p s => p.isSome ∧ I s :=
  .bind h fun _ => .bind (triple_requestId hc) fun _ => .pure fun _ hs => ⟨rfl, hs.2⟩

theorem triple_checkAlreadyDone {info : RequestInfo}
    (hinfo : ∃ t c rid, info = (env.view t).getRequest c rid) :
    Triple (issuing X S T) env I (AggregatedRelayEvent.checkAlreadyDone self info) fun _ => I := by
  obtain ⟨t, c, rid, rfl⟩ := hinfo
  exact .bind (.ofOption (Q := fun _ => I) (fun h => hc.status t c rid h) fun _ _ _ hs => hs)
    fun _ => .bind ((triple_isInbound hc).weaken fun _ _ h => h.2) fun _ => .pure fun _ hs => hs

/-! ## Authority -/

variable [Framed I]

theorem triple_checkMyEvent : Triple (issuing X S T) env I self.checkMyEvent
    fun b s => (b = true → Passed env self s) ∧ I s := by
  have hkeep : Triple (issuing X S T) env I self.checkMyEvent fun _ => I := by
    refine .bind triple_getConfig fun cfg => .pull fun _ =>
      .ite (fun _ => .pure fun _ hs => hs) fun _ => .bind (triple_srcChain hc) fun src =>
        .pull fun _ => .ite (fun _ => .pure fun _ hs => hs) fun _ => ?_
    refine .bind (triple_rnd hc) fun rnd => .bind (triple_getValueByKey _) fun v =>
      .ite (fun _ => .pure fun _ hs => hs) fun _ => ?_
    refine .bind (triple_fetchRelayerIndex hc.rpc _ _ _) fun i => ?_
    cases i with
    | none => exact .pure fun _ hs => hs
    | some i => exact .bind (triple_setValueByKey _ _) fun _ => .pure fun _ hs => hs
  intro s hs
  obtain ⟨hout, hval⟩ := hkeep s hs
  refine ⟨hout, ?_⟩
  rcases hrun : self.checkMyEvent env s with ⟨e | b, t, w⟩
  · rwa [hrun] at hval
  · rw [hrun] at hval
    refine ⟨fun hb => ?_, hval⟩
    subst hb
    exact passed_of_check hrun

/-- Behind the check it has passed. -/
theorem triple_guarded {α : Type} {body : RM (Option α)} {J : Option α → RState → Prop}
    (hIJ : ∀ s, I s → J none s)
    (h : Triple (issuing X S T) env (fun s => Passed env self s ∧ I s) body J) :
    Triple (issuing X S T) env I (self.guarded body) J :=
  .bind (triple_checkMyEvent hc) fun _ => .ite
    (fun hb => h.conseq (fun _ hs => ⟨hs.1 hb, hs.2⟩) fun _ _ hs => hs)
    fun _ => .pure fun s hs => hIJ s hs.2

theorem triple_guarded_of {α : Type} {body : RM (Option α)} {J : Option α → RState → Prop}
    (hIJ : ∀ s, I s → J none s) (h : Triple (issuing X S T) env I body J) :
    Triple (issuing X S T) env I (self.guarded body) J :=
  triple_guarded hc hIJ (h.conseq (fun _ hs => hs.2) fun _ _ hs => hs)

theorem triple_isPrimaryRelayer :
    Triple (issuing X S T) env I self.isPrimaryRelayer fun _ => I := by
  refine .bind triple_getConfig fun cfg => .pull fun _ =>
    .ite (fun _ => .pure fun _ hs => hs) fun _ => ?_
  refine .bind (triple_fetchRelayerNum hc.rpc _ _) fun total => .pull ?_
  rintro ⟨t, rfl⟩
  refine .bind ((triple_detectedEvent _).weaken fun _ _ h => h.2) fun log => .ite (fun h => ?_)
    fun _ => .bind (triple_rnd hc) fun _ => .bind (triple_getValueByKey _) fun _ =>
      .pure fun _ hs => hs
  exact .throw (hc.relayers t (List.length_eq_zero_iff.mp h))

end Fields

/-! ## Builders -/

/-- The status that a handling of the event can sign its message with. -/
def signedStatus? (self : RbcEvent) (net : Network) : Option ChainEventStatus :=
  if self.cls = .failed then
    (self.srcChain? net).bind fun c => if c = .bifrost then none else some .failed
  else self.votedStatus? net

/-- The poll of the event's message. -/
def poll (self : RbcEvent) (chain : ChainEnum) (sigs : SigTuple) : SendTx :=
  ⟨chain, SOCKET_CONTRACT_NAME, SUBMIT_FUNCTION_NAME, .poll self.msg sigs 0⟩

/-- The transactions that the builder of the event returns, with reads between `l` and `hi`. -/
inductive Sends (env : Env) (self : RbcEvent) (l hi : Nat) : SendTx → Prop where
  /-- A vote, with the signature of its status. -/
  | vote (t : ChainEventStatus) : self.signedStatus? env.cfg.network = some t →
      Sends env self l hi (self.poll .bifrost (.ofSigs [wireSig env.lib.toEthV env.account
        (self.msg.withStatus t).encode]))
  /-- The vote on an inbound request carries no signature. -/
  | inbound (c : ChainEnum) : self.cls = .requested → self.srcChain? env.cfg.network = some c →
      c ≠ .bifrost → Sends env self l hi (self.poll .bifrost (.ofSigs []))
  /-- A relay, with the signatures that BIFROST has answered. -/
  | relay (c : ChainEnum) (k : Nat) (rid : RequestId) (a b : SocketSignature) :
      self.cls.isAggregated → self.targetChain? env.cfg.network = some c →
      self.requestId? env.cfg.network = some rid → ReadIn env l hi k →
      SocketSignature.ofTuple ((env.view k).getSignatures rid self.status.value) = some a →
      SubmitWithSig.sortSigs env.lib self.msg.encode a = some b →
      Sends env self l hi (self.poll c b.tuple)

theorem Sends.mono {env : Env} {l hi hi' : Nat} {tx : SendTx} (h : self.Sends env l hi tx)
    (hle : hi ≤ hi') : self.Sends env l hi' tx := by
  cases h with
  | vote t ht => exact .vote t ht
  | inbound c hcls hsrc hne => exact .inbound c hcls hsrc hne
  | relay c k rid a b hagg htarget hrid hk hbatch hsort =>
    exact .relay c k rid a b hagg htarget hrid (hk.mono hle) hbatch hsort

section Builders

variable {n l : Nat}

theorem Held.marked {s : RState} (h : self.Held n l s) : Marked n l s := h.2

theorem Held.since {l' : Nat} {s : RState} (h : self.Held n l' s) (hle : l ≤ l') :
    self.Held n l s :=
  ⟨h.1, h.2.1, hle.trans h.2.2⟩

theorem msg_withStatus (self : RbcEvent) : self.msg.withStatus self.status = self.msg := by
  have hst : (⟨self.status.value, self.status.value_lt⟩ : Fin (2 ^ 8)) = self.msg.status :=
    Fin.ext self.status_eq.symm
  rw [SocketMsg.withStatus, hst]

/-- What a builder returns is sent for the event, and the log stays. -/
def Built (env : Env) (self : RbcEvent) (n l : Nat) (p : SendParamTuple) (s : RState) : Prop :=
  (∀ tx, p = some tx → Sends env self l s.now tx) ∧ self.Held n l s

theorem built_none {s : RState} (hs : self.Held n l s) : Built env self n l none s :=
  ⟨fun _ htx => (Option.some_ne_none _ htx.symm).elim, hs⟩

theorem built_some {tx : SendTx} {s : RState} (htx : Sends env self l s.now tx)
    (hs : self.Held n l s) : Built env self n l (some tx) s :=
  ⟨fun _ heq => Option.some.inj heq ▸ htx, hs⟩

theorem triple_export (c : ChainEnum) (t : ChainEventStatus) :
    Triple (issuing X S T) env I (RM.exportingRequestMetric c t) fun _ => I :=
  .bind triple_getConfig fun _ => .ite (fun _ => .emit trivial fun _ hs => hs.2)
    fun _ => .pure fun _ hs => hs.2

theorem triple_dataWithStatus (t : ChainEventStatus) :
    Triple (issuing X S T) env (self.Held n l) (self.dataWithStatus t)
      fun msg s => msg = (self.msg.withStatus t).encode ∧ self.Held n l s := by
  refine .bind (triple_detectedEvent _) fun d => .pure fun s hs => ⟨?_, hs.2⟩
  obtain ⟨rfl, hmsg, -⟩ := hs
  rw [DetectedEvent.data_eq, changeStatusOfData_encode, hmsg]

theorem triple_submitTuple (sigs : SocketSignature) :
    Triple (issuing X S T) env (self.Held n l) (PollSubmit.submitTuple self sigs false)
      fun args s => (∃ b, SubmitWithSig.sortSigs env.lib self.msg.encode sigs = some b ∧
        args = .poll self.msg b.tuple 0) ∧ self.Held n l s := by
  refine .bind (Q := fun d s => d.decoded = self.msg ∧ self.Held n l s)
    ((triple_detectedEvent _).weaken fun d s hs => ⟨?_, hs.2⟩) fun d => .pull fun hd => ?_
  · obtain ⟨rfl, hheld, -⟩ := hs
    exact hheld
  · refine .bind (triple_sortSigs _ _) fun b => .pure fun s hs => ⟨⟨b, ?_, ?_⟩, hs.2⟩
    · rw [← hd, ← d.data_eq]
      exact hs.1
    · rw [hd]
      rfl

variable (hc : Copes env X self)

include hc

/-- The poll with the signature of a string that the event may sign. -/
theorem triple_pollWithSig {t : ChainEventStatus} {msg : Bytes} (hmsg : S msg)
    (heq : msg = (self.msg.withStatus t).encode)
    (ht : self.signedStatus? env.cfg.network = some t) :
    Triple (issuing X S T) env (self.Held n l) (self.pollWithSig msg) (Built env self n l) := by
  subst heq
  refine .bind (.ask (Q := fun r s => r = env ∧ self.Held n l s) fun _ hs => ⟨rfl, hs⟩) fun r =>
    .pull ?_
  rintro rfl
  refine .bind (.of_run (Q := fun sig s => sig = r.account.sign _ ∧ self.Held n l s) fun s hs =>
    ⟨_, _, _, sign_run _, ⟨rfl, hs⟩, fun o ho => ?_⟩) fun sig => .pull ?_
  · rw [List.mem_singleton.mp ho]
    exact hmsg
  rintro rfl
  refine .bind (.ofOption (Q := fun a s => a = .ofSigs [wireSig r.lib.toEthV r.account
    (self.msg.withStatus t).encode] ∧ self.Held n l s)
      (fun h => hc.recovery (self.msg.withStatus t).encode ?_) fun a s h hs => ⟨?_, hs⟩)
        fun a => .pull ?_
  · by_contra hlt
    rw [SocketSignature.addSingleSig, SocketSignature.fromSingleSig_byte _ _ (not_le.mp hlt)] at h
    cases h
  · obtain ⟨b, hb, rfl⟩ := Option.map_eq_some_iff.mp h
    have hlt := SocketSignature.lt_of_fromSingleSig hb
    rw [SocketSignature.fromSingleSig_byte _ _ hlt] at hb
    rw [SocketSignature.init_mergeSigs, ← Option.some.inj hb, wireSig, byteOf_of_lt hlt]
  · rintro rfl
    refine .bind (triple_submitTuple _) fun args => .pure fun s hs => ?_
    obtain ⟨⟨b, hsort, rfl⟩, hheld⟩ := hs
    obtain rfl : SocketSignature.ofSigs [wireSig r.lib.toEthV r.account
        (self.msg.withStatus t).encode] = b := Option.some.inj hsort
    exact built_some (.vote t ht) hheld

theorem triple_voteBody {t : ChainEventStatus}
    (ht : self.signedStatus? env.cfg.network = some t) (hS : S (self.msg.withStatus t).encode) :
    Triple (issuing X S T) env (self.Held n l) (self.voteBody t) (Built env self n l) := by
  refine .bind (triple_dataWithStatus t) fun msg => .pull ?_
  rintro rfl
  exact triple_pollWithSig hc hS rfl ht

/-- The FAILED event signs the log as it is. -/
theorem triple_buildFailed (hcls : self.cls = .failed)
    (hS : ∀ t, self.signedStatus? env.cfg.network = some t → S (self.msg.withStatus t).encode) :
    Triple (issuing X S T) env (self.Held n l) (ChainFailedEvent.buildTransactionParams self)
      (Built env self n l) := by
  refine triple_guarded_of hc (fun _ => built_none) (.bind (triple_isInbound hc) fun b => .pull ?_)
  rintro ⟨c, hsrc, rfl⟩
  refine .ite (fun _ => .pure fun _ => built_none) fun hin => ?_
  have hne : c ≠ .bifrost := by simpa using hin
  have hst : self.signedStatus? env.cfg.network = some .failed := by
    simp [signedStatus?, hcls, hsrc, hne]
  have hmsg : self.msg.withStatus .failed = self.msg := by
    have h := self.msg_withStatus
    rwa [status, hcls] at h
  refine .bind (Q := fun d s => d.data = (self.msg.withStatus .failed).encode ∧ self.Held n l s)
    ((triple_detectedEvent _).weaken fun d s hs => ⟨?_, hs.2⟩) fun d => .pull fun hd => ?_
  · obtain ⟨rfl, hheld, -⟩ := hs
    rw [DetectedEvent.data_eq, hheld, hmsg]
  · exact triple_pollWithSig hc (hd ▸ hS _ hst) hd hst

/-! ## Relays -/

variable (hagg : self.cls.isAggregated)

include hagg

theorem triple_aggregatedRelay {c : ChainEnum}
    (htarget : self.targetChain? env.cfg.network = some c) :
    Triple (issuing X S T) env (self.Held n l) (AggregatedRelayEvent.aggregatedRelay self c)
      (Built env self n l) := by
  refine .bind (triple_requestId hc) fun rid => .pull fun hrid =>
    .bind (triple_answer (I := self.Held n) hc.rpc _ _ _) fun sigs => .choose fun k => .pull ?_
  rintro ⟨rfl, hle, hup⟩
  refine .bind (.ofOption (Q := fun a s => SocketSignature.ofTuple ((env.view k).getSignatures rid
    self.status.value) = some a ∧ self.Held n (k + 1) s)
      (fun h => hc.batch k rid self.status.value ?_)
      fun a s h hs => ⟨?_, hs⟩) fun a => .pull fun ha => .bind (triple_submitTuple _) fun args =>
        .pure fun s hs => ?_
  · rwa [SocketSignature.addTupleSigs, Option.map_eq_none_iff] at h
  · obtain ⟨b, hb, rfl⟩ := Option.map_eq_some_iff.mp h
    rw [SocketSignature.init_mergeSigs]
    exact hb
  · obtain ⟨⟨b, hsort, rfl⟩, hheld⟩ := hs
    exact built_some (.relay c k rid a b hagg htarget hrid ⟨hle, hheld.2.2, hup⟩ ha hsort)
      (hheld.since (hle.trans (Nat.le_succ k)))

theorem triple_relayOrDefer :
    Triple (issuing X S T) env (self.Held n l) (AggregatedRelayEvent.relayOrDefer self)
      (Built env self n l) :=
  .bind (triple_isPrimaryRelayer hc) fun _ => .ite
    (fun _ => .bind (triple_targetChain hc) fun _ => .pull fun htarget =>
      triple_aggregatedRelay hc hagg htarget)
    fun _ => .bind triple_getConfig fun _ => .bind
      (.emit (Q := fun _ => self.Held n l) trivial fun _ hs => hs.2) fun _ =>
        .pure fun _ => built_none

theorem triple_buildRelay :
    Triple (issuing X S T) env (self.Held n l) (AggregatedRelayEvent.buildTransactionParams self)
      (Built env self n l) := by
  have hbuild : Triple (issuing X S T) env (fun s => Passed env self s ∧ self.Held n l s)
      (AggregatedRelayEvent.buildCallTransactionParams self) fun p s =>
        p.isSome ∧ self.Held n l s :=
    ((triple_getRequestCall hc (I := self.Held n l) ((triple_targetChain hc).weaken
      fun _ _ h => h.2)).conseq (fun _ hs => hs.2) fun _ _ hs => hs).congr
        fun _ hs => guarded_passed hs.1
  refine triple_guarded hc (fun _ => built_none) (.bind hbuild fun call => .pull fun hsome => ?_)
  obtain ⟨tx, rfl⟩ := Option.isSome_iff_exists.mp hsome
  refine .bind (.pure (Q := fun tx' s => tx' = tx ∧ self.Held n l s) fun _ hs => ⟨rfl, hs⟩)
    fun _ => .pull ?_
  rintro rfl
  refine .bind (triple_getRequest hc.rpc _) fun info => .pull fun hinfo => ?_
  exact .bind (triple_checkAlreadyDone hc hinfo) fun _ =>
    .ite (fun _ => .pure fun _ => built_none) fun _ => triple_relayOrDefer hc hagg

omit hagg

/-- A builder signs the message of the event with the status it votes for, if anything. -/
theorem triple_build
    (hS : ∀ t, self.signedStatus? env.cfg.network = some t → S (self.msg.withStatus t).encode) :
    Triple (issuing X S T) env (self.Held n l) self.buildTransactionParams
      (Built env self n l) := by
  have hfinal : Triple (issuing X S T) env (self.Held n l)
      (FinalStatusEvent.buildTransactionParams self) (Built env self n l) :=
    triple_guarded_of hc (fun _ => built_none) (.bind (triple_srcChain hc) fun _ => .pull fun _ =>
      .bind (triple_export _ _) fun _ => .pure fun _ => built_none)
  have hvote : ∀ t, ChainEventStatus.ofValue? (self.status.value + 2) = some t →
      self.signedStatus? env.cfg.network = some t →
      Triple (issuing X S T) env (self.Held n l) (self.guarded self.buildTransactionParamWithSig)
        (Built env self n l) := fun t ht hsigned => by
    rw [buildTransactionParamWithSig_eq ht]
    exact triple_guarded_of hc (fun _ => built_none) (triple_voteBody hc hsigned (hS t hsigned))
  unfold buildTransactionParams
  cases hcls : self.cls with
  | failed => exact triple_buildFailed hc hcls hS
  | requested =>
    refine triple_guarded_of hc (fun _ => built_none) (.bind (triple_isInbound hc)
      fun b => .pull ?_)
    rintro ⟨c, hsrc, rfl⟩
    refine .ite (fun hin => .bind (triple_submitTuple _) fun args => .pure fun s hs => ?_)
      fun hin => ?_
    · obtain ⟨⟨b, hsort, rfl⟩, hheld⟩ := hs
      obtain rfl : b = .ofSigs [] := Option.some.inj hsort.symm
      exact built_some (.inbound c hcls hsrc (by simpa using hin)) hheld
    · have heq : c = .bifrost := by simpa using hin
      have hst : self.signedStatus? env.cfg.network = some .accepted := by
        simp [signedStatus?, votedStatus?, hcls, hsrc, heq]
      exact triple_voteBody hc hst (hS .accepted hst)
  | executed =>
    refine hvote .accepted ?_ ?_
    · rw [status, hcls]
      rfl
    · simp [signedStatus?, votedStatus?, hcls]
  | reverted =>
    refine hvote .rejected ?_ ?_
    · rw [status, hcls]
      rfl
    · simp [signedStatus?, votedStatus?, hcls]
  | accepted => exact triple_buildRelay hc (by rw [hcls]; rfl)
  | rejected => exact triple_buildRelay hc (by rw [hcls]; rfl)
  | committed => exact hfinal
  | rollbacked => exact hfinal

theorem triple_buildCall :
    Triple (issuing X S T) env (self.Held n l) self.buildCallTransactionParams
      fun _ => self.Held n l := by
  have hbase : Triple (issuing X S T) env (self.Held n l) (Base.buildCallTransactionParams self)
      fun _ => self.Held n l :=
    triple_guarded_of hc (fun _ hs => hs) (.bind (triple_summary hc) fun _ => .pure fun _ hs => hs)
  have hcall : ∀ chain, Triple (issuing X S T) env (self.Held n l) chain (fun _ => self.Held n l) →
      Triple (issuing X S T) env (self.Held n l) (self.guarded (self.getRequestCall chain))
        fun _ => self.Held n l := fun chain h =>
    triple_guarded_of hc (fun _ hs => hs)
      ((triple_getRequestCall hc h).weaken fun _ _ hs => hs.2)
  have htarget := hcall _ ((triple_targetChain hc).weaken fun _ _ hs => hs.2)
  unfold buildCallTransactionParams
  split
  · exact hcall _ ((triple_dstChain hc).weaken fun _ _ hs => hs.2)
  · exact htarget
  · exact htarget
  · exact hbase

/-! ## Results -/

/-- The constructor that `init` chooses fits the status of the log. -/
theorem triple_init {m : SocketMsg} {cls : EventClass} {ref : Ref} (timeLock : Nat)
    (hm : m.status.val = cls.status.value) (hchain : m.chain = self.msg.chain) :
    Triple (issuing X S T) env (fun s => (s.heap ref).decoded = m ∧ Marked n l s)
      (init ref timeLock) fun _ => Marked n l := by
  have hconstruct : ∀ t, Triple (issuing X S T) env
      (fun s => (s.heap ref).decoded = m ∧ Marked n l s) (construct cls ref t)
      fun e s => e.msg = m ∧ Marked n l s := fun t => .of_run fun s ⟨hs, hn⟩ =>
    ⟨_, _, _, construct_run t (by rw [hs]; exact hm), ⟨hs, hn⟩, List.forall_mem_nil _⟩
  have hplain : ∀ t, Triple (issuing X S T) env
      (fun s => (s.heap ref).decoded = m ∧ Marked n l s) (construct cls ref t)
      fun _ => Marked n l := fun t => (hconstruct t).weaken fun _ _ hs => hs.2
  unfold init
  refine .bind triple_getConfig fun cfg => .pull ?_
  rintro rfl
  refine .bind (.of_run (Q := fun st s => st = cls.status ∧ (s.heap ref).decoded = m ∧ Marked n l s)
    fun s hs => ⟨_, _, _, statusOfLog_run (by rw [hs.1]; exact hm), ⟨rfl, hs⟩,
      List.forall_mem_nil _⟩) fun st => .pull ?_
  rintro rfl
  rw [selectChild_status]
  refine .bind (.pure (Q := fun c s => c = cls ∧ (s.heap ref).decoded = m ∧ Marked n l s)
    fun s hs => ⟨rfl, hs⟩) fun c => .pull ?_
  rintro rfl
  refine .ite (fun _ => hplain _) fun _ => .ite (fun hslow => ?_) fun _ => hplain _
  refine .bind (.ofOption (hc.delay hslow.1) fun _ _ _ hs => hs) fun d => .bind (hconstruct _)
    fun e => .pull fun he => ?_
  -- the summary of the new event reads its chain, which is that of its original
  have hsrc : e.srcChain? env.cfg.network = self.srcChain? env.cfg.network := by
    rw [srcChain?, srcChain?, he, hchain]
  have hreq : Triple (issuing X S T) env (Marked n l) e.reqId fun _ => Marked n l := by
    cases h : e.srcChain? env.cfg.network with
    | none =>
      refine .of_reader (fun _ => reqId_error h) (fun e he => ?_) fun _ _ he => by cases he
      cases he
      exact hc.chain (hsrc ▸ h)
    | some c =>
      exact .of_reader (fun _ => reqId_run h) (fun _ he => by cases he) fun _ _ _ hs => hs
  exact .bind (.bind hreq fun _ => .pure fun _ hs => hs) fun _ => .pure fun _ hs => hs

/-- A clone overwrites the log of its original. -/
theorem triple_clone {t : ChainEventStatus} (timeLock : Nat) (cls : EventClass)
    (ht : t = cls.status) :
    Triple (issuing X S T) env (self.Held n l) (self.cloneWithOtherStatus t (some timeLock))
      fun _ => Marked n l := by
  subst ht
  refine .bind (.pure (Q := fun _ => self.Held n l) fun _ hs => hs) fun _ => .bind (Q := fun _ s =>
    (s.heap self.detectedEvent).decoded = self.msg.withStatus cls.status ∧ Marked n l s)
    (.modify fun s hs => ⟨?_, hs.2⟩) fun _ =>
      triple_init (m := self.msg.withStatus cls.status) hc _ rfl rfl
  rw [setStatus_heap_self, DetectedEvent.decoded_setStatus, hs.1]

theorem triple_base : Triple (issuing X S T) env (self.Held n l)
    (self.guarded do self.summary; pure (none : Option RbcEvent)) fun _ => Marked n l :=
  triple_guarded_of hc (fun _ => Held.marked) (.bind (triple_summary hc) fun _ =>
    .pure fun _ => Held.marked)

theorem triple_requestedFail : Triple (issuing X S T) env (self.Held n l)
    (ChainRequestedEvent.handleTxResultFail self) fun _ => Marked n l :=
  triple_guarded_of hc (fun _ => Held.marked) (.bind (triple_clone hc self.timeLock .failed rfl)
    fun _ => .pure fun _ hs => hs)

theorem triple_handleTxResultFail :
    Triple (issuing X S T) env (self.Held n l) self.handleTxResultFail fun _ => Marked n l := by
  unfold handleTxResultFail
  cases self.cls with
  | requested => exact triple_requestedFail hc
  | accepted =>
    have hbody : Triple (issuing X S T) env (self.Held n l) (do
        let inbound ← self.isInbound
        if inbound then do
          self.summary
          pure none
        else do
          let clone ← self.cloneWithOtherStatus .rejected (some self.timeLock)
          pure (some { clone with aggregated := false })) fun _ => Marked n l :=
      .bind (triple_isInbound hc) fun _ => .pull fun _ => .ite
        (fun _ => .bind (triple_summary hc) fun _ => .pure fun _ => Held.marked)
        fun _ => .bind (triple_clone hc _ .rejected rfl) fun _ => .pure fun _ hs => hs
    exact triple_guarded_of hc (fun _ => Held.marked) hbody
  | _ => exact triple_base hc

theorem triple_handleTxResultSuccess :
    Triple (issuing X S T) env (self.Held n l) self.handleTxResultSuccess
      fun _ => self.Held n l := by
  unfold handleTxResultSuccess
  split
  · refine triple_guarded_of hc (fun _ hs => hs) (.bind (triple_srcChain hc) fun _ =>
      .pull fun _ => .bind (triple_export _ _) fun _ => .bind (triple_isInbound hc) fun _ =>
        .pull fun _ => ?_)
    exact .ite (fun _ => .bind triple_getConfig fun _ => .pure fun _ hs => hs.2)
      fun _ => .pure fun _ hs => hs
  · exact triple_guarded_of hc (fun _ hs => hs) (.bind (triple_srcChain hc) fun _ =>
      .pull fun _ => .bind (triple_export _ _) fun _ => .pure fun _ hs => hs)

theorem triple_handleCallResult {info : RequestInfo}
    (hinfo : ∃ t c rid, info = (env.view t).getRequest c rid) :
    Triple (issuing X S T) env (self.Held n l) (self.handleCallResult info)
      fun _ => Marked n l := by
  have hrelay : Triple (issuing X S T) env (self.Held n l)
      (AggregatedRelayEvent.handleCallResult self info) fun _ => Marked n l := by
    refine (triple_guarded_of (J := fun _ => self.Held n l) hc (fun _ hs => hs)
      (.bind (triple_checkAlreadyDone hc hinfo) fun p => ?_)).weaken fun _ _ => Held.marked
    have hlogged : Triple (issuing X S T) env (self.Held n l)
        (RM.logged (AggregatedRelayEvent.targetChain self)) fun _ => self.Held n l :=
      .bind (triple_targetChain hc) fun _ => .pure fun _ hs => hs.2
    exact .ite (fun _ => .pure fun _ hs => hs) fun _ => .bind hlogged fun _ =>
      .bind triple_timestampMsec fun _ => .pure fun _ hs => hs
  unfold handleCallResult
  split
  · have hbody : Triple (issuing X S T) env (self.Held n l) (do
        let rnd ← self.rnd
        let quorum ← RM.fetchQuorum .bifrost (some rnd) true
        if quorum = 0 then pure none
        else if quorum ≤ ChainRequestedEvent.votingNum info self.status then pure none
        else ChainRequestedEvent.handleTxResultFail self) fun _ => Marked n l :=
      .bind (triple_rnd hc) fun _ => .bind (triple_fetchQuorum hc.rpc _ _ _) fun _ => .ite
        (fun _ => .pure fun _ => Held.marked) fun _ => .ite
          (fun _ => .pure fun _ => Held.marked) fun _ => triple_requestedFail hc
    exact triple_guarded_of hc (fun _ => Held.marked) hbody
  · exact hrelay
  · exact hrelay
  · exact triple_base hc

end Builders

end RbcEvent

end Bifrost
