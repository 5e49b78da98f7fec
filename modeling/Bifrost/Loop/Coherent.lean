import Bifrost.Loop.Exec
import Bifrost.Loop.Handling
import Bifrost.Periodic.VspCase

/-!
# Coherent states

The log of an event object is overwritten when the object is cloned. That is
harmless because no two queued objects share a log: a handling leaves at most
one entry, with the log of the event it took (`leaves_of_process`), so in every
run from a coherent state each queued object holds the message its log holds.
-/

namespace Bifrost

open Bifrost.Lib

variable {env : Env} {s s' : RState}

/-- What a handling of `e` leaves in the queue and in the logs. -/
inductive Leaves (e : RbcEvent) (s s' : RState) : List Queued → Prop where
  | nothing : s'.heap = s.heap → Leaves e s s' []
  | again (e' : RbcEvent) : s'.heap = s.heap → e.Same e' → Leaves e s s' [.socket e']
  | clone (t : ChainEventStatus) (e' : RbcEvent) : RbcEvent.failStatus e.cls = some t →
      e.IsClone s t e' → s'.heap = (s.setStatus e.detectedEvent t).heap →
      Leaves e s s' [.socket e']

theorem leaves_of_failCase {e : RbcEvent} {n : Option RbcEvent} (h : e.FailCase s s' n) :
    Leaves e s s' (n.map Queued.socket).toList := by
  rcases h with ⟨rfl, hs⟩ | ⟨t, e', ht, rfl, he, hs⟩
  · exact .nothing hs
  · exact .clone t e' ht he hs

theorem leaves_of_send {e : RbcEvent} {outcome : TxOutcome} {n : Option RbcEvent}
    {w : List Effect} (hagg : e.cls.isAggregated = false)
    (h : e.processSend outcome env s = ⟨.ok n, s', w⟩) :
    Leaves e s s' (enqueuedOf w ++ (n.map Queued.socket).toList) := by
  rcases processSend_ok h with ⟨hb, rfl⟩ | ⟨tx, s₁, w₁, w₂, hb, hr, rfl⟩
  · obtain ⟨hheap, hw⟩ := (RbcEvent.quiet_buildTransactionParams hagg).run hb
    rw [enqueuedOf_local hw]
    exact .nothing hheap
  · obtain ⟨hheap, hw₁⟩ := (RbcEvent.quiet_buildTransactionParams hagg).run hb
    obtain ⟨hcase, hw₂⟩ := handleTxResult_ok hr
    rw [enqueuedOf_append, enqueuedOf_sent, enqueuedOf_local hw₁, enqueuedOf_local hw₂]
    rcases hcase with ⟨hs, rfl | ⟨-, t, rfl⟩⟩ | ⟨-, hfail⟩
    · exact .nothing (hs.trans hheap)
    · exact .again _ (hs.trans hheap) ⟨rfl, rfl, rfl⟩
    · exact leaves_of_failCase (hfail.of_heap hheap)

theorem leaves_of_call {e : RbcEvent} {n : Option RbcEvent} {w : List Effect}
    (hagg : e.cls.isAggregated = false) (h : e.processCall env s = ⟨.ok n, s', w⟩) :
    Leaves e s s' (enqueuedOf w ++ (n.map Queued.socket).toList) := by
  rcases processCall_ok h with ⟨hb, rfl⟩ | ⟨tx, info, s₁, w₁, w₂, hb, hr, rfl⟩
  · obtain ⟨hheap, hw⟩ := RbcEvent.quiet_buildCallTransactionParams.run hb
    rw [enqueuedOf_local hw]
    exact .nothing hheap
  · obtain ⟨hheap, hw₁⟩ := RbcEvent.quiet_buildCallTransactionParams.run hb
    obtain ⟨hfail, hw₂⟩ := RbcEvent.handleCallResult_ok hagg hr
    rw [enqueuedOf_append, enqueuedOf_append, enqueuedOf_local hw₁, enqueuedOf_local hw₂]
    have hheap' : s₁.tick.heap = s.heap := hheap
    exact leaves_of_failCase (hfail.of_heap hheap')

/-- A handling of any Socket event leaves at most one entry, with the event's log. -/
theorem leaves_of_process {e : RbcEvent} {h : Handling}
    (hp : process h.outcome (.socket e) env s = ⟨.ok h.next, s', h.out⟩) :
    Leaves e s s' h.queued := by
  cases hagg : e.cls.isAggregated with
  | true =>
    cases relayCase_of_process hagg hp with
    | notMine _ _ _ _ hheap _ _ hq => rw [hq]; exact .nothing hheap
    | done _ _ _ hheap _ hq => rw [hq]; exact .nothing hheap
    | again _ _ e' _ _ _ hheap _ hsame hq => rw [hq]; exact .again e' hheap hsame
    | relayed _ _ _ n _ _ _ _ _ hcase hq =>
      rw [hq]
      rcases hcase with ⟨hheap, rfl⟩ | ⟨-, hfail⟩
      · exact .nothing hheap
      · exact leaves_of_failCase hfail
  | false =>
    obtain ⟨n, hn, hp⟩ := process_socket_ok hp
    rw [Handling.queued, hn]
    unfold RbcEvent.process at hp
    cases hm : e.mode with
    | send =>
      rw [hm] at hp
      exact leaves_of_send hagg hp
    | call =>
      rw [hm] at hp
      exact leaves_of_call hagg hp

/-! ## RoundUp events and the feed -/

/-- No Socket event enters the queue. -/
def Effect.NoSocket : Effect → Prop
  | .enqueued (.socket _) => False
  | _ => True

theorem Effect.IsLocal.noSocket : ∀ o : Effect, o.IsLocal → o.NoSocket := by
  intro o ho
  cases o with
  | enqueued q => cases ho
  | _ => trivial

/-- Keeps the logs and the cache, and queues no Socket event. -/
structure KeepsSockets {α : Type} (x : RM α) : Prop where
  keeps : ∀ h, Proc.Keeps (fun _ s => s.heap = h) x
  cache : KeepsCache x
  emits : Proc.Emits Effect.NoSocket x

namespace KeepsSockets

variable {α β : Type} {x : RM α} {f : α → RM β}

theorem of_quiet (h : Quiet x) : KeepsSockets x :=
  ⟨h.keeps, h.cache, h.emits.mono Effect.IsLocal.noSocket⟩

theorem pure (a : α) : KeepsSockets (pure a : RM α) := of_quiet (.pure a)

theorem bind (hx : KeepsSockets x) (hf : ∀ a, KeepsSockets (f a)) : KeepsSockets (x >>= f) :=
  ⟨fun h => .bind (hx.keeps h) fun a => (hf a).keeps h, .bind hx.cache fun a => (hf a).cache,
    .bind hx.emits fun a => (hf a).emits⟩

theorem ite {c : Prop} [Decidable c] {y : RM α} (hx : KeepsSockets x) (hy : KeepsSockets y) :
    KeepsSockets (if c then x else y) :=
  ⟨fun h => .ite (hx.keeps h) (hy.keeps h), .ite hx.cache hy.cache, .ite hx.emits hy.emits⟩

theorem emit {o : Effect} (h : o.NoSocket) : KeepsSockets (Proc.emit o : RM Unit) :=
  ⟨fun _ => .emit o, fun _ _ => .emit o, .emit h⟩

end KeepsSockets

namespace RoundUpEvent

variable {self : RoundUpEvent}

theorem quiet_clone (c : ChainEnum) : Quiet (self.clone c) :=
  .bind (.bind .getConfig fun _ => .ite (.throw _) (.pure _)) fun _ => .pure _

theorem keepsSockets_enqueueClones (chains : List ChainEnum) :
    KeepsSockets (self.enqueueClones chains) := by
  induction chains with
  | nil => exact .pure _
  | cons c chains ih =>
    exact .bind (.of_quiet (quiet_clone c)) fun _ => .bind (.emit trivial) fun _ => ih

theorem quiet_isPreviousRelayer : Quiet self.isPreviousRelayer :=
  .bind .getConfig fun _ => .ite (.pure _) (.isInCache _)

theorem quiet_isPrimaryRelayer : Quiet self.isPrimaryRelayer := by
  unfold isPrimaryRelayer
  refine .bind .getConfig fun _ => .ite (.pure _) ?_
  refine .bind (.fetchSortedRelayerListLower ..) fun _ => .bind (.ofOption ..) fun _ => ?_
  exact .ite (.throw _) (.bind (.getValueByKey _) fun _ => .pure _)

theorem quiet_submitTuple (sigs : SocketSignature) :
    Quiet (AggregatedRoundUpSubmit.submitTuple self sigs) :=
  .bind (.ofOption ..) fun _ => .bind (.bind .ask fun _ => .ofOption ..) fun _ => .pure _

theorem keepsSockets_relayOrDefer : KeepsSockets self.relayOrDefer := by
  unfold relayOrDefer
  refine .bind (.of_quiet quiet_isPrimaryRelayer) fun _ => .ite (.of_quiet ?_) ?_
  · refine .bind (.fetchSocketVspSigs _) fun _ => .bind (.ofOption ..) fun _ => ?_
    exact .bind (quiet_submitTuple _) fun _ => .pure _
  · refine .bind (.of_quiet .timestampMsec) fun _ => .bind (.of_quiet .getConfig) fun _ => ?_
    exact .bind (.emit trivial) fun _ => .pure _

theorem keepsSockets_process (outcome : TxOutcome) : KeepsSockets (self.process outcome) := by
  unfold process
  split
  · refine .bind ?_ fun p => ?_
    · unfold buildTransactionParams
      refine .bind (.of_quiet (.ofOption ..)) fun _ => .ite (.pure _) ?_
      refine .bind (.of_quiet quiet_isPreviousRelayer) fun _ => .ite (.pure _) (.ite ?_ ?_)
      · exact .bind (keepsSockets_enqueueClones _) fun _ => .pure _
      · exact .bind (.of_quiet (.fetchLatestRound _)) fun _ =>
          .ite (.pure _) keepsSockets_relayOrDefer
    · cases p with
      | none => exact .pure _
      | some tx => exact .bind (.emit trivial) fun _ => by cases outcome <;> exact .pure _
  · exact .of_quiet (.throw _)

end RoundUpEvent

theorem VSPFeed.quiet_exportRounds (chains : List ChainEnum) :
    Quiet (VSPFeed.exportRounds chains) := by
  induction chains with
  | nil => exact .pure _
  | cons c chains ih => exact .bind (.fetchLatestRound c) fun _ => ih

theorem VSPFeed.quiet_buildTransactionParams : Quiet VSPFeed.buildTransactionParams := by
  unfold VSPFeed.buildTransactionParams
  refine .bind (.fetchLatestRound _) fun rnd => .bind .getConfig fun _ => ?_
  refine .bind (VSPFeed.quiet_exportRounds _) fun _ => .bind .get fun _ => .ite (.pure _) ?_
  refine .bind (.modify (fun _ => rfl) fun _ => rfl) fun _ =>
    .bind (.storeIndex _ (.pure _) (.pure _)) fun _ => .bind .ask fun _ => ?_
  exact .bind (.isSelectedRelayer ..) fun _ => .ite (.pure _) (VSPFeed.quiet_vote _)

theorem VSPFeed.keepsSockets_period (outcome : TxOutcome) :
    KeepsSockets (VSPFeed.period outcome) := by
  refine .bind (.of_quiet VSPFeed.quiet_buildTransactionParams) fun p => ?_
  cases p with
  | none => exact .pure _
  | some tx => exact .bind (.emit trivial) fun _ => by cases outcome <;> exact .pure _

/-- A handling of a RoundUp event leaves the logs, and no Socket event. -/
theorem roundUp_of_process {e : RoundUpEvent} {h : Handling}
    (hp : process h.outcome (.roundUp e) env s = ⟨.ok h.next, s', h.out⟩) :
    s'.heap = s.heap ∧ ∀ e', .socket e' ∉ h.queued := by
  obtain ⟨n, hnext, hp⟩ := process_roundUp_ok hp
  have hk : KeepsSockets (e.process h.outcome) := RoundUpEvent.keepsSockets_process h.outcome
  have hheap := hk.keeps s.heap env s rfl
  rw [hp] at hheap
  refine ⟨hheap, fun e' he' => ?_⟩
  rw [Handling.queued, hnext] at he'
  rcases List.mem_append.mp he' with he' | he'
  · exact hk.emits.run hp _ ((mem_enqueuedOf _).mp he')
  · cases n <;> simp at he'

/-! ## The invariant -/

/-- The log of a queued Socket event. -/
def Queued.ref? : Queued → Option Ref
  | .socket e => some e.detectedEvent
  | .roundUp _ => none

/-- The queued Socket events have logs of their own and hold the messages of their logs. -/
structure Coherent (σ : LoopState) : Prop where
  nodup : (σ.queue.filterMap Queued.ref?).Nodup
  msg : ∀ e, .socket e ∈ σ.queue → (σ.st.heap e.detectedEvent).decoded = e.msg

/-- Two queued events on one log are one. -/
theorem Coherent.unique {σ : LoopState} (hc : Coherent σ) {e e' : RbcEvent}
    (he : .socket e ∈ σ.queue) (he' : .socket e' ∈ σ.queue)
    (href : e'.detectedEvent = e.detectedEvent) : e' = e := by
  have h := eq_of_nodup_filterMap hc.nodup he' he rfl (by rw [href]; rfl)
  simpa using h

/-- Only the handled event's log is written, only one entry with this log is left, and it holds
the message of the log when the handled event did. -/
structure Frame (ev : Queued) (s s' : RState) (l : List Queued) : Prop where
  heap : ∀ r, ev.ref? ≠ some r → s'.heap r = s.heap r
  refs : (l.filterMap Queued.ref?).Sublist ev.ref?.toList
  msg : (∀ e, ev = .socket e → (s.heap e.detectedEvent).decoded = e.msg) →
    ∀ e', .socket e' ∈ l → (s'.heap e'.detectedEvent).decoded = e'.msg

theorem Leaves.frame {e : RbcEvent} {l : List Queued} (h : Leaves e s s' l) :
    Frame (.socket e) s s' l := by
  cases h with
  | nothing hheap =>
    exact ⟨fun r _ => congrFun hheap r, List.nil_sublist _, fun _ e' he' => by cases he'⟩
  | again e' hheap hsame =>
    refine ⟨fun r _ => congrFun hheap r, ?_, fun hmsg e'' he'' => ?_⟩
    · simp [Queued.ref?, hsame.2.1]
    · obtain rfl : e'' = e' := by simpa using he''
      rw [hheap, hsame.2.1, hsame.2.2]
      exact hmsg e rfl
  | clone t e' ht he hheap =>
    refine ⟨fun r hr => ?_, ?_, fun hmsg e'' he'' => ?_⟩
    · have hne : r ≠ e.detectedEvent := fun heq => hr (by rw [heq]; rfl)
      rw [hheap, RbcEvent.setStatus_heap_of_ne _ _ hne]
    · simp [Queued.ref?, he.detectedEvent]
    · obtain rfl : e'' = e' := by simpa using he''
      rw [hheap, he.detectedEvent, RbcEvent.setStatus_heap_self,
        DetectedEvent.decoded_setStatus, he.msg]

theorem frame_of_process {h : Handling}
    (hp : process h.outcome h.event env s = ⟨.ok h.next, s', h.out⟩) :
    Frame h.event s s' h.queued := by
  cases hev : h.event with
  | socket e =>
    rw [hev] at hp
    exact (leaves_of_process hp).frame
  | roundUp e =>
    rw [hev] at hp
    obtain ⟨hheap, hnone⟩ := roundUp_of_process hp
    refine ⟨fun r _ => congrFun hheap r, ?_, fun _ e' he' => absurd he' (hnone e')⟩
    have hnil : h.queued.filterMap Queued.ref? = [] := by
      refine List.filterMap_eq_nil_iff.mpr fun q hq => ?_
      cases q with
      | socket e' => exact absurd hq (hnone e')
      | roundUp _ => rfl
    rw [hnil]
    exact List.nil_sublist _

section Others

variable {l₁ l₂ : List Queued} {ev : Queued}

theorem perm_refs : ((l₁ ++ ev :: l₂).filterMap Queued.ref?).Perm
    ((l₁ ++ l₂).filterMap Queued.ref? ++ ev.ref?.toList) := by
  have hcons : (ev :: (l₁ ++ l₂)).filterMap Queued.ref? =
      ev.ref?.toList ++ (l₁ ++ l₂).filterMap Queued.ref? := by
    cases ev <;> rfl
  have hmiddle := (@List.perm_middle _ ev l₁ l₂).filterMap Queued.ref?
  rw [hcons] at hmiddle
  exact hmiddle.trans List.perm_append_comm

/-- The other entries have other logs than the handled one. -/
theorem Coherent.ref_ne (hc : Coherent ⟨s, l₁ ++ ev :: l₂⟩) {e : RbcEvent}
    (he : .socket e ∈ l₁ ++ l₂) : ev.ref? ≠ some e.detectedEvent := by
  intro heq
  have hdisj := List.disjoint_of_nodup_append (perm_refs.nodup_iff.mp hc.nodup)
  have hin : e.detectedEvent ∈ (l₁ ++ l₂).filterMap Queued.ref? :=
    List.mem_filterMap.mpr ⟨_, he, rfl⟩
  rw [heq] at hdisj
  exact hdisj hin (List.mem_singleton_self _)

/-- Every other entry is one of the queue. -/
theorem mem_of_others {q : Queued} (h : q ∈ l₁ ++ l₂) : q ∈ l₁ ++ ev :: l₂ :=
  ((List.sublist_cons_self ev l₂).append_left l₁).subset h

theorem eq_or_mem_others {q : Queued} (h : q ∈ l₁ ++ ev :: l₂) : q = ev ∨ q ∈ l₁ ++ l₂ := by
  rw [List.mem_append, List.mem_cons] at h
  rcases h with h | h | h
  · exact .inr (List.mem_append_left _ h)
  · exact .inl h
  · exact .inr (List.mem_append_right _ h)

/-- What a handling leaves takes the place of the handled entry. -/
theorem Frame.coherent {l : List Queued} (hf : Frame ev s s' l)
    (hc : Coherent ⟨s, l₁ ++ ev :: l₂⟩) : Coherent ⟨s', l₁ ++ l₂ ++ l⟩ := by
  refine ⟨?_, fun e he => ?_⟩
  · rw [List.filterMap_append]
    exact (hf.refs.append_left _).nodup (perm_refs.nodup_iff.mp hc.nodup)
  · rcases List.mem_append.mp he with he | he
    · show (s'.heap e.detectedEvent).decoded = e.msg
      rw [hf.heap _ (hc.ref_ne he)]
      exact hc.msg e (mem_of_others he)
    · refine hf.msg (fun e₀ he₀ => hc.msg e₀ ?_) e he
      rw [← he₀]
      exact List.mem_append_right _ List.mem_cons_self

end Others

/-- One step keeps the state coherent. -/
theorem coherent_step {σ σ' : LoopState} {hs : List Handling} (hc : Coherent σ)
    (hstep : LoopStep env σ hs σ') : Coherent σ' := by
  cases hstep with
  | handle l₁ l₂ h hp => exact (frame_of_process hp).coherent hc
  | period st queue outcome =>
    have hheap : (VSPFeed.period outcome env st).st.heap = st.heap :=
      (VSPFeed.keepsSockets_period outcome).keeps st.heap env st rfl
    refine ⟨hc.nodup, fun e he => ?_⟩
    show ((VSPFeed.period outcome env st).st.heap e.detectedEvent).decoded = e.msg
    rw [hheap]
    exact hc.msg e he
  | wait st queue => exact ⟨hc.nodup, hc.msg⟩

theorem coherent_sample (e : RbcEvent) : Coherent (Sample.loopState e) := by
  refine ⟨List.nodup_singleton _, fun e' he' => ?_⟩
  obtain rfl : e' = e := by simpa [Sample.loopState] using he'
  exact DetectedEvent.decoded_ofMsg _ _

end Bifrost
