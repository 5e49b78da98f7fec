import Bifrost.Loop.Boot
import Bifrost.Loop.Exec

/-!
# Relayer processes

`relayer-launcher.py` registers the classes of the detected logs: `RbcEvent` and
the periodic feed for a relayer, `ExternalRbcEvent` and no feed for a fast
relayer. A `Node` is such a process and an `Act` what one of its steps did; the
logs are detected in any order, with any time lock, between handlings, periods of
the feed and reads of other tasks. At any time the process may end, and start
again with what it bootstraps from the logs it then collects. The run of a relayer
that is not fast, as long as it does not start again, is one of the relayer that
watches the chains (`watch_of_node`).
-/

namespace Bifrost

open Bifrost.Lib

/-- The event object of a detected Socket log; a fast relayer passes over some logs. -/
def RbcEvent.detect (detectedEvent : Ref) (timeLock : Nat) : RM (Option RbcEvent) := do
  let cfg ← RM.getConfig
  if cfg.isFastRelayer then externalInit detectedEvent timeLock
  else do
    let e ← init detectedEvent timeLock
    pure (some e)

/-- A process, and the reference of the next detected log. -/
structure Node where
  loop : LoopState
  next : Ref

/-- A new process: nothing is cached, and the collected logs are at the references from `ref`
on. -/
def RState.restarted (s : RState) (ref : Ref) (logs : List DetectedEvent) : RState where
  cache := fun _ => none
  heap := fun r => if r < ref then s.heap r else (logs[r - ref]?).getD (s.heap r)
  currentRound := 0
  roundCache := none
  now := s.now

inductive Act where
  | detected (e : RbcEvent)
  | detectedRoundUp (e : RoundUpEvent)
  | handled (h : Handling)
  /-- A period of the feed, with its effects. -/
  | fed (out : List Effect)
  /-- A start of the process, with the events that it queues. -/
  | booted (es : List RbcEvent) (us : List RoundUpEvent) (out : List Effect)

inductive NodeStep (env : Env) : Node → List Act → Node → Prop where
  | detect {st st' : RState} {queue : List Queued} {next : Ref} (log : DetectedEvent)
      (timeLock : Nat) (e : RbcEvent) (w : List Effect) :
      RbcEvent.detect next timeLock env (st.place next log) = ⟨.ok (some e), st', w⟩ →
      NodeStep env ⟨⟨st, queue⟩, next⟩ [.detected e] ⟨⟨st', queue ++ [.socket e]⟩, next + 1⟩
  | passOver {st st' : RState} {next : Ref} (queue : List Queued) (log : DetectedEvent)
      (timeLock : Nat) (w : List Effect) :
      RbcEvent.detect next timeLock env (st.place next log) = ⟨.ok none, st', w⟩ →
      NodeStep env ⟨⟨st, queue⟩, next⟩ [] ⟨⟨st', queue⟩, next + 1⟩
  | detectRoundUp {st st' : RState} {queue : List Queued} (next : Ref) (log : RoundUpLog)
      (timeLock : Nat) (e : RoundUpEvent) (w : List Effect) :
      RoundUpEvent.init log timeLock env st = ⟨.ok e, st', w⟩ →
      NodeStep env ⟨⟨st, queue⟩, next⟩ [.detectedRoundUp e]
        ⟨⟨st', queue ++ [.roundUp e]⟩, next⟩
  | handle {σ σ' : LoopState} (next : Ref) (h : Handling) : LoopStep env σ [h] σ' →
      NodeStep env ⟨σ, next⟩ [.handled h] ⟨σ', next⟩
  | period (st : RState) (queue : List Queued) (next : Ref) (outcome : TxOutcome) :
      env.cfg.isFastRelayer = false →
      NodeStep env ⟨⟨st, queue⟩, next⟩ [.fed (VSPFeed.period outcome env st).out]
        ⟨⟨(VSPFeed.period outcome env st).st, queue⟩, next⟩
  | wait (st : RState) (queue : List Queued) (next : Ref) :
      NodeStep env ⟨⟨st, queue⟩, next⟩ [] ⟨⟨st.tick, queue⟩, next⟩
  | restart {st st' : RState} {next : Ref} (queue : List Queued) (order : Comparison RbcEvent)
      (roundUpOrder : Comparison RoundUpEvent) (timeLock : Nat) (logs : List DetectedEvent)
      (roundUps : List RoundUpLog) (es : List RbcEvent) (us : List RoundUpEvent)
      (w : List Effect) :
      Relayer.boot order roundUpOrder timeLock (List.range' next logs.length) roundUps env
        (st.restarted next logs) = ⟨.ok (es, us), st', w⟩ →
      NodeStep env ⟨⟨st, queue⟩, next⟩ [.booted es us w]
        ⟨⟨st', es.map .socket ++ us.map .roundUp⟩, next + logs.length⟩

abbrev NodeRun (env : Env) := Run (NodeStep env)

namespace Act

def out : Act → List Effect
  | detected _ | detectedRoundUp _ => []
  | handled h => h.out
  | fed out | booted _ _ out => out

/-- The events made of detected Socket logs. -/
def events : Act → List RbcEvent
  | detected e => [e]
  | booted es _ _ => es
  | _ => []

/-- The events made of detected RoundUp logs. -/
def roundUps : Act → List RoundUpEvent
  | detectedRoundUp e => [e]
  | booted _ us _ => us
  | _ => []

def isBoot : Act → Bool
  | booted .. => true
  | _ => false

/-- What the act is to a relayer that watches the chains. -/
def happening? : Act → Option Happening
  | detected e => some (.detected e)
  | handled h => some (.handled h)
  | detectedRoundUp _ | fed _ | booted .. => none

end Act

theorem NodeStep.length_le {env : Env} {n n' : Node} {acts : List Act}
    (h : NodeStep env n acts n') : acts.length ≤ 1 := by
  cases h with
  | passOver | wait => exact Nat.zero_le 1
  | detect | detectRoundUp | handle | period | restart => exact le_rfl

/-! ## Detections -/

namespace RbcEvent

variable {env : Env} {s s' : RState} {w : List Effect} {ref : Ref} {timeLock : Nat}

theorem detect_of_slow (h : env.cfg.isFastRelayer = false) {p : Option RbcEvent}
    (hd : detect ref timeLock env s = ⟨.ok p, s', w⟩) :
    ∃ e, p = some e ∧ init ref timeLock env s = ⟨.ok e, s', w⟩ := by
  unfold detect at hd
  rw [Proc.bind_run, getConfig_run, Res.andThen_ok, Res.after_nil, Proc.ite_run,
    if_neg (by simp [h])] at hd
  obtain ⟨e, s₁, w₁, w₂, h₁, h₂, rfl⟩ := Proc.bind_ok hd
  obtain ⟨rfl, rfl, rfl⟩ := Proc.pure_ok h₂
  exact ⟨e, rfl, by rw [List.append_nil]; exact h₁⟩

/-- A fast relayer takes the logs of four statuses. -/
theorem detect_of_fast (h : env.cfg.isFastRelayer = true) {p : Option RbcEvent}
    (hd : detect ref timeLock env s = ⟨.ok p, s', w⟩) :
    externalInit ref timeLock env s = ⟨.ok p, s', w⟩ := by
  unfold detect at hd
  rwa [Proc.bind_run, getConfig_run, Res.andThen_ok, Res.after_nil, Proc.ite_run, if_pos h] at hd

theorem externalInit_ok {p : Option RbcEvent}
    (h : externalInit ref timeLock env s = ⟨.ok p, s', w⟩) :
    s' = s ∧ w = [] ∧ ∀ e, p = some e → (e.detectedEvent = ref ∧
      e.msg = (s.heap ref).decoded ∧ e.mode = .send) ∧
        e.status ∈ [ChainEventStatus.accepted, .rejected, .committed, .rollbacked] := by
  unfold externalInit at h
  obtain ⟨st, s₁, w₁, w₂, h₁, h₂, rfl⟩ := Proc.bind_ok h
  obtain ⟨hst, rfl, rfl⟩ := statusOfLog_ok h₁
  split at h₂
  · next hmem =>
    obtain ⟨cls, s₂, w₃, w₄, h₃, h₄, rfl⟩ := Proc.bind_ok h₂
    obtain ⟨-, rfl, rfl⟩ := Proc.ofOption_ok h₃
    obtain ⟨e, s₃, w₅, w₆, h₅, h₆, rfl⟩ := Proc.bind_ok h₄
    obtain ⟨⟨rfl, href, hmsg, hmode⟩, rfl, rfl⟩ := construct_ok h₅
    obtain ⟨rfl, rfl, rfl⟩ := Proc.pure_ok h₆
    refine ⟨rfl, rfl, fun e' he' => ?_⟩
    obtain rfl := Option.some.inj he'
    have heq : e.status = st := by
      apply ChainEventStatus.value_inj
      rw [RbcEvent.status, ← e.status_eq, hmsg, hst]
    exact ⟨⟨href, hmsg, hmode⟩, heq ▸ hmem⟩
  · obtain ⟨rfl, rfl, rfl⟩ := Proc.pure_ok h₂
    exact ⟨rfl, rfl, fun e he => by cases he⟩

/-- A detected event has the message of its log; making it leaves no trace. -/
theorem detect_ok {p : Option RbcEvent} (h : detect ref timeLock env s = ⟨.ok p, s', w⟩) :
    s' = s ∧ w = [] ∧ ∀ e, p = some e →
      e.detectedEvent = ref ∧ e.msg = (s.heap ref).decoded ∧ e.mode = .send := by
  cases hf : env.cfg.isFastRelayer with
  | true =>
    obtain ⟨hs, hw, he⟩ := externalInit_ok (detect_of_fast hf h)
    exact ⟨hs, hw, fun e hp => (he e hp).1⟩
  | false =>
    obtain ⟨e, rfl, hinit⟩ := detect_of_slow hf h
    obtain ⟨he, rfl, rfl⟩ := init_ok hinit
    refine ⟨rfl, rfl, fun e' he' => ?_⟩
    obtain rfl := Option.some.inj he'
    exact he

end RbcEvent

/-! ## Relayers that are not fast -/

/-- Until it starts again, the process of a relayer is the loop that watches the chains, next to
any exporter. -/
theorem watch_of_node {env : Env} (hslow : env.cfg.isFastRelayer = false) {n n' : Node}
    {acts : List Act} (hrun : NodeRun env n acts n') (hacts : ∀ a ∈ acts, a.isBoot = false)
    (x : Exporter) :
    ∃ x', WatchRun env ⟨n.loop, x, n.next⟩ (acts.filterMap Act.happening?)
      ⟨n'.loop, x', n'.next⟩ := by
  induction hrun generalizing x with
  | nil => exact ⟨x, .nil _⟩
  | cons hstep _ ih =>
    rw [List.filterMap_append]
    replace ih := ih fun a ha => hacts a (List.mem_append_right _ ha)
    cases hstep with
    | detect log timeLock e w hd =>
      obtain ⟨e', he', hinit⟩ := RbcEvent.detect_of_slow hslow hd
      cases he'
      obtain ⟨x', hx'⟩ := ih (x.record w)
      exact ⟨x', .cons (.detect x log timeLock e w hinit) hx'⟩
    | passOver queue log timeLock w hd =>
      obtain ⟨e', he', -⟩ := RbcEvent.detect_of_slow hslow hd
      cases he'
    | detectRoundUp next log timeLock e w hinit =>
      obtain ⟨x', hx'⟩ := ih (x.record w)
      exact ⟨x', .cons (.detectRoundUp next x log timeLock e w hinit) hx'⟩
    | handle next h hloop =>
      obtain ⟨x', hx'⟩ := ih (x.record h.out)
      exact ⟨x', .cons (.handle next x h hloop) hx'⟩
    | period st queue next outcome _ =>
      obtain ⟨x', hx'⟩ := ih (x.record (VSPFeed.period outcome env st).out)
      exact ⟨x', .cons (.period st queue next x outcome) hx'⟩
    | wait st queue next =>
      obtain ⟨x', hx'⟩ := ih x
      exact ⟨x', .cons (.wait st queue next x) hx'⟩
    | restart => cases hacts _ List.mem_cons_self

/-! ## Executing a process -/

/-- A step that leaves a label. -/
inductive NodeInput where
  | detect (log : DetectedEvent) (timeLock : Nat)
  | detectRoundUp (log : RoundUpLog) (timeLock : Nat)
  | handleHead (outcome : TxOutcome)
  | period (outcome : TxOutcome)
  | restart (order : Comparison RbcEvent) (roundUpOrder : Comparison RoundUpEvent) (timeLock : Nat)
      (logs : List DetectedEvent) (roundUps : List RoundUpLog)

def Node.step? (env : Env) : NodeInput → Node → Option (Act × Node)
  | .detect log timeLock, n =>
    match RbcEvent.detect n.next timeLock env (n.loop.st.place n.next log) with
    | ⟨.ok (some e), st', _⟩ =>
      some (.detected e, ⟨⟨st', n.loop.queue ++ [.socket e]⟩, n.next + 1⟩)
    | _ => none
  | .detectRoundUp log timeLock, n =>
    match RoundUpEvent.init log timeLock env n.loop.st with
    | ⟨.ok e, st', _⟩ =>
      some (.detectedRoundUp e, ⟨⟨st', n.loop.queue ++ [.roundUp e]⟩, n.next⟩)
    | _ => none
  | .handleHead outcome, n =>
    (handleHead env outcome n.loop).map fun p => (.handled p.1, ⟨p.2, n.next⟩)
  | .period outcome, n =>
    if env.cfg.isFastRelayer then none
    else
      let res := VSPFeed.period outcome env n.loop.st
      some (.fed res.out, ⟨⟨res.st, n.loop.queue⟩, n.next⟩)
  | .restart order roundUpOrder timeLock logs roundUps, n =>
    match Relayer.boot order roundUpOrder timeLock (List.range' n.next logs.length) roundUps env
      (n.loop.st.restarted n.next logs) with
    | ⟨.ok (es, us), st', w⟩ => some (.booted es us w,
        ⟨⟨st', es.map .socket ++ us.map .roundUp⟩, n.next + logs.length⟩)
    | _ => none

theorem step_of_step? {env : Env} {i : NodeInput} {n n' : Node} {a : Act}
    (h : Node.step? env i n = some (a, n')) : NodeStep env n [a] n' := by
  obtain ⟨⟨st, queue⟩, next⟩ := n
  cases i with
  | detect log timeLock =>
    rcases hd : RbcEvent.detect next timeLock env (st.place next log) with ⟨e | _ | e, st', w⟩
    · simp [Node.step?, hd] at h
    · simp [Node.step?, hd] at h
    · simp only [Node.step?, hd, Option.some.injEq, Prod.mk.injEq] at h
      obtain ⟨rfl, rfl⟩ := h
      exact .detect log timeLock e w hd
  | detectRoundUp log timeLock =>
    rcases hd : RoundUpEvent.init log timeLock env st with ⟨e | e, st', w⟩
    · simp [Node.step?, hd] at h
    · simp only [Node.step?, hd, Option.some.injEq, Prod.mk.injEq] at h
      obtain ⟨rfl, rfl⟩ := h
      exact .detectRoundUp next log timeLock e w hd
  | handleHead outcome =>
    obtain ⟨⟨hh, σ'⟩, hstep, heq⟩ := Option.map_eq_some_iff.mp h
    cases heq
    exact .handle next hh (step_of_handleHead hstep)
  | period outcome =>
    simp only [Node.step?] at h
    split at h
    · cases h
    · next hslow =>
      cases h
      exact .period st queue next outcome (by simpa using hslow)
  | restart order roundUpOrder timeLock logs roundUps =>
    rcases hb : Relayer.boot order roundUpOrder timeLock (List.range' next logs.length) roundUps
      env (st.restarted next logs) with ⟨e | ⟨es, us⟩, st', w⟩
    · simp [Node.step?, hb] at h
    · simp only [Node.step?, hb, Option.some.injEq, Prod.mk.injEq] at h
      obtain ⟨rfl, rfl⟩ := h
      exact .restart queue order roundUpOrder timeLock logs roundUps es us w hb

/-- What the inputs compute is a run, of which a decidable property can be evaluated. -/
theorem exists_nodeRun (env : Env) (inputs : List NodeInput) (n : Node)
    (P : List Act → Node → Prop) [∀ acts n', Decidable (P acts n')]
    (h : (Run.exec (Node.step? env) inputs n).any fun p => P p.1 p.2) :
    ∃ acts n', NodeRun env n acts n' ∧ P acts n' := by
  obtain ⟨⟨acts, n'⟩, hr, hP⟩ := (Option.any_eq_true _ _).mp h
  exact ⟨acts, n', Run.of_exec (f := Node.step? env) (fun _ _ _ _ => step_of_step?) hr,
    by simpa using hP⟩

/-- Before the first log. -/
def Sample.node : Node := ⟨⟨state (msg .ethereum .bifrost .none), []⟩, 0⟩

end Bifrost
