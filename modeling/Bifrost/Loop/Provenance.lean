import Bifrost.Loop.Handled
import Bifrost.Loop.Lifecycle
import Bifrost.Loop.Node
import Bifrost.Loop.RoundUpCase
import Bifrost.Votes.Payload

/-!
# Where signatures come from

In every run of a process, its restarts included, each queued event has become of
a detected one, with the message of that log up to the status (`Traced`). A
signature is therefore over the message of a log that was detected before, in a
status that this log justifies, or it is the vote of a period of the feed for the
list and the round it has read (`signed_grounded`). The two kinds of strings are
disjoint, so the signed string decides which of the two it is.
-/

namespace Bifrost

open Bifrost.Lib

/-- The events that were made of Socket logs. -/
def detectedIn (acts : List Act) : List RbcEvent := acts.flatMap Act.events

/-- The events that were made of RoundUp logs. -/
def roundUpsIn (acts : List Act) : List RoundUpEvent := acts.flatMap Act.roundUps

section Histories

variable (acts acts' : List Act) (a : Act)

@[simp] theorem detectedIn_append :
    detectedIn (acts ++ acts') = detectedIn acts ++ detectedIn acts' :=
  List.flatMap_append

@[simp] theorem roundUpsIn_append :
    roundUpsIn (acts ++ acts') = roundUpsIn acts ++ roundUpsIn acts' :=
  List.flatMap_append

@[simp] theorem detectedIn_singleton : detectedIn [a] = a.events := List.append_nil _

@[simp] theorem roundUpsIn_singleton : roundUpsIn [a] = a.roundUps := List.append_nil _

end Histories

/-- The strings signed among some effects. -/
def signedOf (w : List Effect) : List Bytes :=
  w.filterMap fun
    | .signed msg => some msg
    | _ => none

theorem mem_signedOf {w : List Effect} {msg : Bytes} : msg ∈ signedOf w ↔ .signed msg ∈ w := by
  simp only [signedOf, List.mem_filterMap]
  constructor
  · rintro ⟨o, ho, h⟩
    cases o <;> simp_all
  · intro h
    exact ⟨_, h, rfl⟩

/-- Some act has signed the payload. -/
def SignedIn (acts : List Act) (p : Payload) : Prop := ∃ a ∈ acts, .signed p.encode ∈ a.out

instance (acts : List Act) (p : Payload) : Decidable (SignedIn acts p) :=
  decidable_of_iff (∃ a ∈ acts, p.encode ∈ signedOf a.out) <| by
    simp only [mem_signedOf, SignedIn]

theorem SignedIn.append {acts : List Act} {p : Payload} {a : Act}
    (h : SignedIn (acts ++ [a]) p) : SignedIn acts p ∨ .signed p.encode ∈ a.out := by
  obtain ⟨b, hb, hp⟩ := h
  rcases List.mem_append.mp hb with hb | hb
  · exact .inl ⟨b, hb, hp⟩
  · rw [List.mem_singleton.mp hb] at hp
    exact .inr hp

theorem SignedIn.mono {acts : List Act} {p : Payload} (h : SignedIn acts p) (a : Act) :
    SignedIn (acts ++ [a]) p := by
  obtain ⟨b, hb, hp⟩ := h
  exact ⟨b, List.mem_append_left _ hb, hp⟩

theorem SignedIn.last {acts : List Act} {p : Payload} {a : Act} (h : .signed p.encode ∈ a.out) :
    SignedIn (acts ++ [a]) p :=
  ⟨a, List.mem_append_right _ (List.mem_singleton_self a), h⟩

/-! ## What becomes of a detected event -/

/-- `e` is on the log of `d`, and holds its message with a status that `d`'s descends to. -/
structure RbcEvent.Becomes (d e : RbcEvent) : Prop where
  ref : e.detectedEvent = d.detectedEvent
  msg : e.msg = d.msg.withStatus e.status
  status : Descends d.status e.status

/-- A RoundUp event carries the data of its log along, and is for a supported chain other than
BIFROST, or for none. -/
structure RoundUpEvent.Carries (cfg : Config) (d e : RoundUpEvent) : Prop where
  round : e.round = d.round
  validatorList : e.validatorList = d.validatorList
  statusData : e.statusData = d.statusData
  updating : e.updatingChains = cfg.supportedChainList.erase .bifrost
  chain : e.selectedChain = .none ∨ e.selectedChain ∈ cfg.supportedChainList.erase .bifrost
  mode : e.mode = .send

theorem RoundUpEvent.Carries.made (cfg : Config) (log : RoundUpLog) (timeLock : Nat) :
    (made cfg log timeLock).Carries cfg (made cfg log timeLock) :=
  ⟨rfl, rfl, rfl, rfl, .inl rfl, rfl⟩

namespace RbcEvent

variable {d e e' : RbcEvent}

theorem Becomes.refl (e : RbcEvent) : e.Becomes e := ⟨rfl, e.msg_withStatus.symm, .inl rfl⟩

theorem Becomes.srcChain? (h : d.Becomes e) (net : Network) :
    e.srcChain? net = d.srcChain? net := by
  unfold RbcEvent.srcChain?
  rw [h.msg]
  rfl

theorem Becomes.inst? (h : d.Becomes e) (net : Network) : e.inst? net = d.inst? net := by
  unfold RbcEvent.inst?
  rw [h.msg]
  rfl

theorem Becomes.withStatus (h : d.Becomes e) (t : ChainEventStatus) :
    e.msg.withStatus t = d.msg.withStatus t := by
  rw [h.msg, SocketMsg.withStatus_withStatus]

/-- The statuses that a relayer may sign the message of a detected log with. -/
def Justifies (net : Network) (d : RbcEvent) : ChainEventStatus → Prop
  | .accepted => d.cls = .executed ∨ d.cls = .requested ∧ d.srcChain? net = some .bifrost
  | .rejected => d.cls = .reverted
  | .failed =>
    (d.cls = .failed ∨ d.cls = .requested) ∧ ∃ c, d.srcChain? net = some c ∧ c ≠ .bifrost
  | _ => False

instance (net : Network) (d : RbcEvent) (t : ChainEventStatus) :
    Decidable (d.Justifies net t) := by
  unfold Justifies
  split <;> infer_instance

theorem Becomes.cls_eq (h : d.Becomes e) (hf : e.cls ≠ .failed) (hr : e.cls ≠ .rejected) :
    d.cls = e.cls := by
  have hst := h.status
  revert hst
  unfold RbcEvent.status
  cases d.cls <;> cases hcls : e.cls <;> simp_all [Descends, EventClass.status]

theorem descends_of_failStatus {cls : EventClass} {t : ChainEventStatus}
    (h : failStatus cls = some t) : Descends cls.status t := by
  unfold failStatus at h
  split at h
  · cases h
    decide
  · cases h
    decide
  · cases h

/-- What an event signs, the log it stems from justifies. -/
theorem Becomes.justifies {net : Network} (h : d.Becomes e) {t : ChainEventStatus}
    (ht : e.signedStatus? net = some t) : d.Justifies net t := by
  have hsrc := h.srcChain? net
  unfold signedStatus? at ht
  cases hcls : e.cls with
  | failed =>
    rw [hcls, if_pos rfl] at ht
    obtain ⟨c, hc, hne⟩ := Option.bind_eq_some_iff.mp ht
    split at hne
    · cases hne
    · next hb =>
      cases hne
      refine ⟨?_, c, hsrc ▸ hc, hb⟩
      have hst := h.status
      revert hst
      unfold RbcEvent.status
      rw [hcls]
      cases d.cls <;> simp [Descends, EventClass.status]
  | requested =>
    rw [hcls, if_neg (by decide), votedStatus?, hcls] at ht
    dsimp only at ht
    split at ht
    · next hb =>
      cases ht
      exact .inr ⟨(h.cls_eq (by simp [hcls]) (by simp [hcls])).trans hcls, hsrc ▸ hb⟩
    · cases ht
  | executed =>
    rw [hcls, if_neg (by decide), votedStatus?, hcls] at ht
    cases ht
    exact .inl ((h.cls_eq (by simp [hcls]) (by simp [hcls])).trans hcls)
  | reverted =>
    rw [hcls, if_neg (by decide), votedStatus?, hcls] at ht
    cases ht
    exact (h.cls_eq (by simp [hcls]) (by simp [hcls])).trans hcls
  | _ =>
    rw [hcls, if_neg (by decide), votedStatus?, hcls] at ht
    cases ht

end RbcEvent

section Leaves

variable {env : Env} {s s' : RState} {d e : RbcEvent} {l : List Queued}

theorem Leaves.becomes (h : Leaves e s s' l) (hmsg : (s.heap e.detectedEvent).decoded = e.msg)
    (hd : d.Becomes e) : ∀ e', .socket e' ∈ l → d.Becomes e' := by
  intro e' he'
  cases h with
  | nothing => cases he'
  | again e'' _ hsame =>
    obtain rfl : e' = e'' := by simpa using he'
    obtain ⟨hcls, href, hmsg'⟩ := hsame
    have hst : e'.status = e.status := congrArg EventClass.status hcls
    exact ⟨href.trans hd.ref, by rw [hmsg', hst, hd.msg], by rw [hst]; exact hd.status⟩
  | clone t e'' ht hclone =>
    obtain rfl : e' = e'' := by simpa using he'
    have hst : e'.status = t := by
      apply ChainEventStatus.value_inj
      rw [RbcEvent.status, ← e'.status_eq, hclone.msg, SocketMsg.withStatus_status]
    refine ⟨hclone.detectedEvent.trans hd.ref, ?_, hd.status.trans ?_⟩
    · rw [hclone.msg, hmsg, hd.withStatus, hst]
    · rw [hst]
      exact RbcEvent.descends_of_failStatus ht

theorem Leaves.no_roundUp (h : Leaves e s s' l) : ∀ u, .roundUp u ∉ l := by
  intro u hu
  cases h <;> simp at hu

end Leaves

/-! ## The invariant -/

/-- Every queued event has become of a detected one, and the logs to come are new. -/
structure Traced (cfg : Config) (hist : List Act) (n : Node) : Prop where
  coherent : Coherent n.loop
  queued : ∀ e, .socket e ∈ n.loop.queue → ∃ d ∈ detectedIn hist, d.Becomes e
  below : ∀ d ∈ detectedIn hist, d.detectedEvent < n.next
  roundUps : ∀ e, .roundUp e ∈ n.loop.queue → ∃ d ∈ roundUpsIn hist, d.Carries cfg e

/-- A process starts with an empty queue. -/
theorem Traced.start {cfg : Config} {n : Node} (h : n.loop.queue = []) : Traced cfg [] n := by
  refine ⟨⟨?_, fun e he => ?_⟩, fun e he => ?_, fun d hd => ?_, fun e he => ?_⟩
  · rw [h]
    exact List.nodup_nil
  · rw [h] at he
    cases he
  · rw [h] at he
    cases he
  · cases hd
  · rw [h] at he
    cases he

section Steps

variable {env : Env} {hist : List Act} {n n' : Node} {acts : List Act}

/-- What is traced stays so as acts are added. -/
theorem Traced.mono {σ : LoopState} {next : Ref} (ht : Traced env.cfg hist ⟨σ, next⟩) {a : Act}
    (ha : detectedIn [a] = []) {σ' : LoopState} (hc : Coherent σ')
    (hs : ∀ e, .socket e ∈ σ'.queue → .socket e ∈ σ.queue)
    (hr : ∀ e, .roundUp e ∈ σ'.queue →
      .roundUp e ∈ σ.queue ∨ e ∈ roundUpsIn [a] ∧ e.Carries env.cfg e) :
    Traced env.cfg (hist ++ [a]) ⟨σ', next⟩ := by
  refine ⟨hc, fun e he => ?_, fun d hd => ?_, fun e he => ?_⟩
  · rw [detectedIn_append, ha, List.append_nil]
    exact ht.queued e (hs e he)
  · rw [detectedIn_append, ha, List.append_nil] at hd
    exact ht.below d hd
  · rw [roundUpsIn_append]
    rcases hr e he with he | ⟨he, hcar⟩
    · obtain ⟨d, hd, hcar⟩ := ht.roundUps e he
      exact ⟨d, List.mem_append_left _ hd, hcar⟩
    · exact ⟨e, List.mem_append_right _ he, hcar⟩

theorem RoundUpCase.carries {d e : RoundUpEvent} {o : Observed} (h : RoundUpCase env e o)
    (hd : d.Carries env.cfg e) : ∀ e', .roundUp e' ∈ o.queued → d.Carries env.cfg e' := by
  intro e' he'
  cases h with
  | otherStatus _ _ hq | notMine _ _ hq | processed _ _ _ _ hq | relayed _ _ _ _ _ _ _ _ hq =>
    rw [hq] at he'
    cases he'
  | split _ _ hq =>
    rw [hq] at he'
    obtain ⟨c, hc, hce⟩ := List.mem_map.mp he'
    cases hce
    exact ⟨hd.round, hd.validatorList, hd.statusData, rfl, .inr (hd.updating ▸ hc),
      rfl⟩
  | deferred _ _ _ _ _ _ _ hq =>
    rw [hq] at he'
    obtain rfl : e' = _ := by simpa using he'
    exact ⟨hd.round, hd.validatorList, hd.statusData, hd.updating, hd.chain, rfl⟩

theorem Traced.handle {σ σ' : LoopState} {next : Ref} {h : Handling}
    (ht : Traced env.cfg hist ⟨σ, next⟩) (hstep : LoopStep env σ [h] σ') :
    Traced env.cfg (hist ++ [.handled h]) ⟨σ', next⟩ := by
  have hc' := coherent_step ht.coherent hstep
  have hdetected : detectedIn (hist ++ [.handled h]) = detectedIn hist := by
    simp [Act.events]
  have hroundUps : roundUpsIn (hist ++ [.handled h]) = roundUpsIn hist := by
    simp [Act.roundUps]
  cases hstep with
  | @handle st st' l₁ l₂ _ hp =>
    have hmem : ∀ q, h.event = q → q ∈ l₁ ++ h.event :: l₂ := by
      rintro q rfl
      exact List.mem_append_right _ List.mem_cons_self
    -- the handled event leaves what has become of its own log
    have hleft : (∀ e, .socket e ∈ h.queued → ∃ d ∈ detectedIn hist, d.Becomes e) ∧
        ∀ e, .roundUp e ∈ h.queued → ∃ d ∈ roundUpsIn hist, d.Carries env.cfg e := by
      cases hev : h.event with
      | socket e =>
        rw [hev] at hp
        have hleaves := leaves_of_process hp
        obtain ⟨d, hd, hbec⟩ := ht.queued e (hmem _ hev)
        have hmsg := ht.coherent.msg e (hmem _ hev)
        exact ⟨fun e' he' => ⟨d, hd, hleaves.becomes hmsg hbec e' he'⟩,
          fun u hu => absurd hu (hleaves.no_roundUp u)⟩
      | roundUp e =>
        have hcase : RoundUpCase env e ⟨st, h, st'⟩ := roundUpCase_of_valid hp hev
        rw [hev] at hp
        obtain ⟨d, hd, hcar⟩ := ht.roundUps e (hmem _ hev)
        exact ⟨fun e' he' => absurd he' ((roundUp_of_process hp).2 e'),
          fun e' he' => ⟨d, hd, hcase.carries hcar e' he'⟩⟩
    refine ⟨hc', fun e he => ?_, fun d hd => ?_, fun e he => ?_⟩
    · rw [hdetected]
      rcases List.mem_append.mp he with he | he
      · exact ht.queued e (mem_of_others he)
      · exact hleft.1 e he
    · rw [hdetected] at hd
      exact ht.below d hd
    · rw [hroundUps]
      rcases List.mem_append.mp he with he | he
      · exact ht.roundUps e (mem_of_others he)
      · exact hleft.2 e he

/-- The process goes on with other logs, or none. -/
theorem Coherent.of_heap {st st' : RState} {queue : List Queued} (hc : Coherent ⟨st, queue⟩)
    (hheap : ∀ e, .socket e ∈ queue → st'.heap e.detectedEvent = st.heap e.detectedEvent) :
    Coherent ⟨st', queue⟩ := by
  refine ⟨hc.nodup, fun e he => ?_⟩
  show (st'.heap e.detectedEvent).decoded = e.msg
  rw [hheap e he]
  exact hc.msg e he

theorem Coherent.roundUp {st : RState} {queue : List Queued} (hc : Coherent ⟨st, queue⟩)
    (e : RoundUpEvent) : Coherent ⟨st, queue ++ [.roundUp e]⟩ := by
  refine ⟨?_, fun e' he' => hc.msg e' (by simpa using he')⟩
  have hnil : [Queued.roundUp e].filterMap Queued.ref? = [] := rfl
  rw [List.filterMap_append, hnil, List.append_nil]
  exact hc.nodup

theorem Traced.below_next {st : RState} {queue : List Queued} {next : Ref}
    (ht : Traced env.cfg hist ⟨⟨st, queue⟩, next⟩) {e : RbcEvent} (he : .socket e ∈ queue) :
    e.detectedEvent < next := by
  obtain ⟨d, hd, hbec⟩ := ht.queued e he
  rw [hbec.ref]
  exact ht.below d hd

/-- A start queues events of new logs. -/
theorem Traced.boot {st st' : RState} {queue : List Queued} {next : Ref}
    {order : Comparison RbcEvent} {roundUpOrder : Comparison RoundUpEvent} {timeLock : Nat}
    {logs : List DetectedEvent} {roundUps : List RoundUpLog} {es : List RbcEvent}
    {us : List RoundUpEvent} {w : List Effect}
    (ht : Traced env.cfg hist ⟨⟨st, queue⟩, next⟩)
    (h : Relayer.boot order roundUpOrder timeLock (List.range' next logs.length) roundUps env
      (st.restarted next logs) = ⟨.ok (es, us), st', w⟩) :
    Traced env.cfg (hist ++ [.booted es us w])
      ⟨⟨st', es.map .socket ++ us.map .roundUp⟩, next + logs.length⟩ := by
  obtain ⟨-, hfresh, hnodup, hres⟩ := Relayer.boot_ok h
  have hsocket : ∀ e, .socket e ∈ es.map Queued.socket ++ us.map .roundUp → e ∈ es := by simp
  have hroundUp : ∀ u, .roundUp u ∈ es.map Queued.socket ++ us.map .roundUp → u ∈ us := by simp
  refine ⟨⟨?_, fun e he => ?_⟩, fun e he => ?_, fun d hd => ?_, fun u hu => ?_⟩
  · have hnone : (us.map Queued.roundUp).filterMap Queued.ref? = [] :=
      List.filterMap_eq_nil_iff.mpr fun q hq => by
        obtain ⟨u, -, rfl⟩ := List.mem_map.mp hq
        rfl
    have hrefs : (es.map Queued.socket).filterMap Queued.ref? = es.map RbcEvent.detectedEvent := by
      rw [List.filterMap_map]
      exact congrFun (List.filterMap_eq_map (f := RbcEvent.detectedEvent)) es
    show ((es.map Queued.socket ++ us.map Queued.roundUp).filterMap Queued.ref?).Nodup
    rw [List.filterMap_append, hnone, List.append_nil, hrefs]
    exact hnodup
  · exact (hfresh e (hsocket e he)).1.msg.symm
  · rw [detectedIn_append, detectedIn_singleton]
    exact ⟨e, List.mem_append_right _ (hsocket e he), .refl e⟩
  · rw [detectedIn_append, detectedIn_singleton] at hd
    rcases List.mem_append.mp hd with hd | hd
    · exact lt_of_lt_of_le (ht.below d hd) (Nat.le_add_right _ _)
    · exact (List.mem_range'_1.mp (hfresh d hd).1.ref).2
  · rw [roundUpsIn_append, roundUpsIn_singleton]
    refine ⟨u, List.mem_append_right _ (hroundUp u hu), ?_⟩
    have hu' := hroundUp u hu
    cases hres with
    | nothing => cases hu'
    | latest log =>
      rw [List.mem_singleton.mp hu']
      exact .made env.cfg log 0

/-- Step lemma. -/
theorem traced_step (ht : Traced env.cfg hist n) (hstep : NodeStep env n acts n') :
    Traced env.cfg (hist ++ acts) n' := by
  cases hstep with
  | @detect st st' queue next log timeLock e w hd =>
    obtain ⟨rfl, -, he⟩ := RbcEvent.detect_ok hd
    obtain ⟨href, hmsg, -⟩ := he e rfl
    rw [RState.place_heap_self] at hmsg
    refine ⟨ht.coherent.detect (fun e' he' => ht.below_next he') href hmsg, fun e' he' => ?_,
      fun d hd => ?_, fun u hu => ?_⟩
    · rw [detectedIn_append]
      rcases List.mem_append.mp he' with he' | he'
      · obtain ⟨d, hd, hbec⟩ := ht.queued e' he'
        exact ⟨d, List.mem_append_left _ hd, hbec⟩
      · obtain rfl : e' = e := by simpa using he'
        exact ⟨e', List.mem_append_right _ (by simp [Act.events]), .refl e'⟩
    · rw [detectedIn_append] at hd
      rcases List.mem_append.mp hd with hd | hd
      · exact Nat.lt_succ_of_lt (ht.below d hd)
      · obtain rfl : d = e := by simpa [Act.events] using hd
        rw [href]
        exact Nat.lt_succ_self _
    · obtain ⟨d, hd, hcar⟩ := ht.roundUps u (by simpa using hu)
      exact ⟨d, by rw [roundUpsIn_append]; exact List.mem_append_left _ hd, hcar⟩
  | @passOver st st' next queue log timeLock w hd =>
    obtain ⟨rfl, -, -⟩ := RbcEvent.detect_ok hd
    rw [List.append_nil]
    exact ⟨ht.coherent.of_heap fun e he =>
        RState.place_heap_of_ne _ _ (Nat.ne_of_lt (ht.below_next he)), ht.queued,
      fun d hd => Nat.lt_succ_of_lt (ht.below d hd), ht.roundUps⟩
  | @detectRoundUp st st' queue next log timeLock e w hinit =>
    obtain ⟨hheap, -⟩ := (RoundUpEvent.quiet_init log timeLock).run hinit
    refine ht.mono rfl ((ht.coherent.of_heap fun _ _ => by rw [hheap]).roundUp e)
      (fun e' he' => by simpa using he') fun u hu => ?_
    rcases List.mem_append.mp hu with hu | hu
    · exact .inl hu
    · obtain rfl : u = e := by simpa using hu
      obtain ⟨t, ht⟩ := RoundUpEvent.init_ok hinit
      exact .inr ⟨by simp [Act.roundUps], ht ▸ .made env.cfg log t⟩
  | handle next h hloop => exact ht.handle hloop
  | period st queue next outcome _ =>
    have hheap : (VSPFeed.period outcome env st).st.heap = st.heap :=
      (VSPFeed.keepsSockets_period outcome).keeps st.heap env st rfl
    exact ht.mono rfl (ht.coherent.of_heap fun _ _ => by rw [hheap]) (fun _ he => he)
      fun _ hu => .inl hu
  | wait st queue next =>
    rw [List.append_nil]
    exact ⟨ht.coherent.of_heap fun _ _ => rfl, ht.queued, ht.below, ht.roundUps⟩
  | restart queue order roundUpOrder timeLock logs roundUps es us w hboot => exact ht.boot hboot

/-- Run lemma. -/
theorem traced_run (hrun : NodeRun env n acts n') (hstart : n.loop.queue = []) :
    Traced env.cfg acts n' :=
  hrun.invariant (.start hstart) fun ht hstep => traced_step ht hstep

/-! ## Signatures -/

/-- What stands behind a payload that a step from `n`, after the acts `before`, signs with its
act. -/
inductive Grounded (env : Env) (before : List Act) (n : Node) : Act → Payload → Prop where
  /-- The handled event has become of a detected log, which justifies the status. -/
  | request (h : Handling) (d e : RbcEvent) (t : ChainEventStatus) : h.event = .socket e →
      d ∈ detectedIn before → d.Becomes e → d.Justifies env.cfg.network t →
      Grounded env before n (.handled h) (.request (d.msg.withStatus t))
  /-- The period that begins in `n` has read the round, above its marker, and the list. -/
  | validators (out : List Effect) (round : Fin (2 ^ 256)) (list : List Address) :
      VSPFeed.RoundsUp env n.loop.st → VSPFeed.readRound env n.loop.st = round.val →
      n.loop.st.currentRound < round.val →
      env.down (VSPFeed.listRead env.cfg n.loop.st.now) = false →
      (sortedLower ((env.view (VSPFeed.listRead env.cfg n.loop.st.now)).selectedRelayers
        .bifrost true)).mapM Address.ofHex? = some list →
      Grounded env before n (.fed out) (.validators round list)

/-- What a handling issues: the signature that its event votes with, and the transaction of its
event, with reads of its own; the marker stays. -/
theorem Traced.issues {σ σ' : LoopState} {next : Ref} {h : Handling}
    (ht : Traced env.cfg hist ⟨σ, next⟩) (hstep : LoopStep env σ [h] σ') :
    σ'.st.currentRound = σ.st.currentRound ∧
      (∀ msg, .signed msg ∈ h.out → ∃ e, h.event = .socket e ∧ ∃ t,
        e.signedStatus? env.cfg.network = some t ∧ msg = (e.msg.withStatus t).encode) ∧
      ∀ tx, .sent tx ∈ h.out →
        (∃ e, h.event = .socket e ∧ e.Sends env σ.st.now σ'.st.now tx) ∨
        ∃ e, h.event = .roundUp e ∧ e.Sends env σ.st.now σ'.st.now tx := by
  cases hstep with
  | @handle st st' l₁ l₂ _ hp =>
    cases hev : h.event with
    | socket e =>
      have hmem : .socket e ∈ l₁ ++ h.event :: l₂ := by
        rw [hev]
        exact List.mem_append_right _ List.mem_cons_self
      rw [hev] at hp
      obtain ⟨n, -, hp⟩ := process_socket_ok hp
      obtain ⟨hround, hsigned, hsent⟩ := RbcEvent.process_issues (ht.coherent.msg e hmem) hp
      exact ⟨hround, fun msg hmsg => ⟨e, rfl, hsigned msg hmsg⟩,
        fun tx htx => .inl ⟨e, rfl, hsent tx htx⟩⟩
    | roundUp e =>
      rw [hev] at hp
      obtain ⟨n, -, hp⟩ := process_roundUp_ok hp
      obtain ⟨hround, hsigned, hsent⟩ := RoundUpEvent.process_issues hp
      exact ⟨hround, fun msg hmsg => absurd hmsg (hsigned msg),
        fun tx htx => .inr ⟨e, rfl, hsent tx htx⟩⟩

/-- The event of a handling was queued. -/
theorem mem_queue_of_step {σ σ' : LoopState} {h : Handling} (hstep : LoopStep env σ [h] σ') :
    h.event ∈ σ.queue := by
  cases hstep with
  | handle => exact List.mem_append_right _ List.mem_cons_self

/-- Step lemma. -/
theorem grounded_step (ht : Traced env.cfg hist n) {a : Act} (hstep : NodeStep env n [a] n')
    {msg : Bytes} (hmsg : .signed msg ∈ a.out) :
    ∃ p : Payload, p.encode = msg ∧ Grounded env hist n a p := by
  cases hstep with
  | detect | detectRoundUp => cases hmsg
  | handle next h hloop =>
    obtain ⟨e, hev, t, hst, rfl⟩ := (ht.issues hloop).2.1 msg hmsg
    obtain ⟨d, hd, hbec⟩ := ht.queued e (hev ▸ mem_queue_of_step hloop)
    refine ⟨_, ?_, .request h d e t hev hd hbec (hbec.justifies hst)⟩
    rw [← hbec.withStatus t]
    rfl
  | period st queue next outcome hslow =>
    obtain ⟨⟨hup, hnew, hlist, hvote⟩, -⟩ := VSPFeed.marker_of_signed hmsg
    obtain ⟨r, list, hr, hlist', hb⟩ := encodeRound_payload.mp hvote
    exact ⟨_, hb.symm, .validators _ r list hup hr.symm (hr ▸ hnew) hlist hlist'⟩
  | restart queue order roundUpOrder timeLock logs roundUps es us w hboot =>
    exact ((Relayer.boot_ok hboot).1 _ hmsg).elim

end Steps

/-- What a request was signed for: a log that was detected before. -/
theorem exists_justified {env : Env} {n n' : Node} {acts : List Act}
    (hrun : NodeRun env n acts n') (hstart : n.loop.queue = []) {m : SocketMsg}
    (h : SignedIn acts (.request m)) :
    ∃ d ∈ detectedIn acts, ∃ t, d.Justifies env.cfg.network t ∧ m = d.msg.withStatus t := by
  obtain ⟨a, ha, hsigned⟩ := h
  obtain ⟨before, rest, rfl⟩ := List.append_of_mem ha
  obtain ⟨m₁, m₂, hbefore, hstep, -⟩ := hrun.at_label NodeStep.length_le rfl
  obtain ⟨p, hp, hground⟩ := grounded_step (traced_run hbefore hstart) hstep hsigned
  obtain rfl : p = .request m := Payload.encode_injective hp
  cases hground with
  | request h d e t hev hd hbec hjust =>
    rw [detectedIn_append]
    exact ⟨d, List.mem_append_left _ hd, t, hjust, rfl⟩

/-- **Provenance.** In every run of a process, each string that a step of it signs is the string of
exactly one payload: a message that was detected before, in a status that the detected log
justifies, or the round and the validator list that BIFROST has answered to the period of the feed
that this step is. -/
theorem signed_grounded {env : Env} {n n' : Node} {acts : List Act}
    (hrun : NodeRun env n acts n') (hstart : n.loop.queue = []) :
    ∀ before a rest, acts = before ++ a :: rest → ∃ m m', NodeRun env n before m ∧
      NodeStep env m [a] m' ∧ NodeRun env m' rest n' ∧ ∀ msg, .signed msg ∈ a.out →
        ∃! p : Payload, p.encode = msg ∧ Grounded env before m a p := by
  intro before a rest hacts
  obtain ⟨m, m', hbefore, hstep, hrest⟩ := hrun.at_label NodeStep.length_le hacts
  refine ⟨m, m', hbefore, hstep, hrest, fun msg hmsg => ?_⟩
  obtain ⟨p, hp, hground⟩ := grounded_step (traced_run hbefore hstart) hstep hmsg
  exact ⟨p, ⟨hp, hground⟩, fun q hq => Payload.encode_injective (hq.1.trans hp.symm)⟩

/-- The relayer signs the EXECUTED log of a request from ETHEREUM as ACCEPTED, and then the list of
a new round. -/
theorem signed_grounded_executed : ∃ acts n',
    NodeRun (Sample.soleEnv .requested) Sample.node acts n' ∧
    2 ≤ (acts.filter fun a => signedOf a.out ≠ []).length ∧
    ∀ before a rest, acts = before ++ a :: rest → ∃ m m',
      NodeRun (Sample.soleEnv .requested) Sample.node before m ∧
      NodeStep (Sample.soleEnv .requested) m [a] m' ∧
      NodeRun (Sample.soleEnv .requested) m' rest n' ∧ ∀ msg, .signed msg ∈ a.out →
        ∃! p : Payload, p.encode = msg ∧ Grounded (Sample.soleEnv .requested) before m a p := by
  obtain ⟨acts, n', hrun, hsigned⟩ := exists_nodeRun (Sample.soleEnv .requested)
    [.detect (.ofMsg (Sample.msg .ethereum .bifrost .executed) 7) 1, .handleHead .success,
      .period .success]
    Sample.node (fun acts _ => 2 ≤ (acts.filter fun a => signedOf a.out ≠ []).length)
    (by decide +kernel)
  exact ⟨acts, n', hrun, hsigned, signed_grounded hrun rfl⟩

end Bifrost
