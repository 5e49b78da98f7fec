import Bifrost.Loop.Dues

/-!
# A relayer that watches the chains

To the loop come the logs that the relayer detects, each with a reference of its
own, and the exporter. Along every run in which the relayer serves what it
detects and its transactions succeed, the gauge of a chain and what the queue
still adds to it change by what is detected and by the calls that find no quorum
(`balance_of_watch`).
-/

namespace Bifrost

open Bifrost.Lib

/-- The loop with the exporter, and the reference of the next detected log. -/
structure Watch where
  loop : LoopState
  exporter : Exporter
  next : Ref

inductive Happening where
  | detected (e : RbcEvent)
  | handled (h : Handling)

/-- A detected log at its reference. -/
def RState.place (s : RState) (ref : Ref) (log : DetectedEvent) : RState :=
  { s with heap := Function.update s.heap ref log }

@[simp] theorem RState.place_heap_self (s : RState) (ref : Ref) (log : DetectedEvent) :
    (s.place ref log).heap ref = log :=
  Function.update_self ..

theorem RState.place_heap_of_ne (s : RState) {ref r : Ref} (log : DetectedEvent) (h : r ≠ ref) :
    (s.place ref log).heap r = s.heap r :=
  Function.update_of_ne h ..

inductive WatchStep (env : Env) : Watch → List Happening → Watch → Prop where
  | detect {st st' : RState} {queue : List Queued} {next : Ref} (exporter : Exporter)
      (log : DetectedEvent) (timeLock : Nat) (e : RbcEvent) (w : List Effect) :
      RbcEvent.init next timeLock env (st.place next log) = ⟨.ok e, st', w⟩ →
      WatchStep env ⟨⟨st, queue⟩, exporter, next⟩ [.detected e]
        ⟨⟨st', queue ++ [.socket e]⟩, exporter.record w, next + 1⟩
  | detectRoundUp {st st' : RState} {queue : List Queued} (next : Ref) (exporter : Exporter)
      (log : RoundUpLog) (timeLock : Nat) (e : RoundUpEvent) (w : List Effect) :
      RoundUpEvent.init log timeLock env st = ⟨.ok e, st', w⟩ →
      WatchStep env ⟨⟨st, queue⟩, exporter, next⟩ []
        ⟨⟨st', queue ++ [.roundUp e]⟩, exporter.record w, next⟩
  | handle {σ σ' : LoopState} (next : Ref) (exporter : Exporter) (h : Handling) :
      LoopStep env σ [h] σ' →
      WatchStep env ⟨σ, exporter, next⟩ [.handled h] ⟨σ', exporter.record h.out, next⟩
  | period (st : RState) (queue : List Queued) (next : Ref) (exporter : Exporter)
      (outcome : TxOutcome) :
      WatchStep env ⟨⟨st, queue⟩, exporter, next⟩ []
        ⟨⟨(VSPFeed.period outcome env st).st, queue⟩,
          exporter.record (VSPFeed.period outcome env st).out, next⟩
  | wait (st : RState) (queue : List Queued) (next : Ref) (exporter : Exporter) :
      WatchStep env ⟨⟨st, queue⟩, exporter, next⟩ [] ⟨⟨st.tick, queue⟩, exporter, next⟩

abbrev WatchRun (env : Env) := Run (WatchStep env)

/-! ## Histories -/

def detectedOf (hist : List Happening) : List RbcEvent :=
  hist.filterMap fun
    | .detected e => some e
    | .handled _ => none

def handledOf (hist : List Happening) : List Handling :=
  hist.filterMap fun
    | .detected _ => none
    | .handled h => some h

section Histories

variable (hist hist' : List Happening) (e : RbcEvent) (h : Handling)

@[simp] theorem detectedOf_append :
    detectedOf (hist ++ hist') = detectedOf hist ++ detectedOf hist' :=
  List.filterMap_append ..

@[simp] theorem handledOf_append : handledOf (hist ++ hist') = handledOf hist ++ handledOf hist' :=
  List.filterMap_append ..

@[simp] theorem detectedOf_detected : detectedOf [.detected e] = [e] := rfl

@[simp] theorem handledOf_detected : handledOf [.detected e] = [] := rfl

@[simp] theorem detectedOf_handled : detectedOf [.handled h] = [] := rfl

@[simp] theorem handledOf_handled : handledOf [.handled h] = [h] := rfl

end Histories

/-- The events whose calls found no quorum. -/
def noQuorumOf (hist : List Happening) : List RbcEvent :=
  (handledOf hist).filterMap Handling.noQuorum?

@[simp] theorem noQuorumOf_append (hist hist' : List Happening) :
    noQuorumOf (hist ++ hist') = noQuorumOf hist ++ noQuorumOf hist' := by
  simp [noQuorumOf]

@[simp] theorem noQuorumOf_handled (h : Handling) :
    noQuorumOf [.handled h] = h.noQuorum?.toList := by
  cases hno : h.noQuorum? <;> simp [noQuorumOf, hno]

@[simp] theorem noQuorumOf_detected (e : RbcEvent) : noQuorumOf [.detected e] = [] := rfl

/-- The relayer serves what it detects, and its transaction succeeds. -/
def Happening.Smooth (env : Env) : Happening → Prop
  | .detected e => e.Serves env ∧ (e.srcChain? env.cfg.network).isSome
  | .handled h => h.sent ≠ [] → h.outcome = .success

/-- What the happening adds to the gauge, at once or later. -/
def Happening.adds (net : Network) (c : ChainEnum) : Happening → Int
  | .detected e => e.due net c
  | .handled h => h.undue net c

/-! ## The invariant -/

/-- Every detected event was given the next reference. -/
structure Detections (ds : List RbcEvent) (next : Ref) : Prop where
  below : ∀ d ∈ ds, d.detectedEvent < next
  distinct : (ds.map RbcEvent.detectedEvent).Nodup
  send : ∀ d ∈ ds, d.mode = .send

/-- A tracked event that stems from a detected one. -/
def TrackedFrom (env : Env) (ds : List RbcEvent) (e : RbcEvent) : Prop :=
  e.Tracked env ∧ ∃ d ∈ ds, d.Stems e

theorem TrackedFrom.append {env : Env} {ds : List RbcEvent} {e : RbcEvent}
    (h : TrackedFrom env ds e) (ds' : List RbcEvent) : TrackedFrom env (ds ++ ds') e := by
  obtain ⟨ht, d, hd, hstem⟩ := h
  exact ⟨ht, d, List.mem_append_left _ hd, hstem⟩

structure Watched (env : Env) (hist : List Happening) (σ : Watch) : Prop where
  coherent : Coherent σ.loop
  queued : ∀ e, .socket e ∈ σ.loop.queue → TrackedFrom env (detectedOf hist) e
  called : ∀ e ∈ noQuorumOf hist, TrackedFrom env (detectedOf hist) e
  detections : Detections (detectedOf hist) σ.next

/-! ## Detections -/

theorem Detections.snoc {ds : List RbcEvent} {d : RbcEvent} {next : Ref} (h : Detections ds next)
    (href : d.detectedEvent = next) (hmode : d.mode = .send) :
    Detections (ds ++ [d]) (next + 1) := by
  refine ⟨fun d' hd' => ?_, ?_, fun d' hd' => ?_⟩
  · rcases List.mem_append.mp hd' with hd' | hd'
    · exact Nat.lt_succ_of_lt (h.below d' hd')
    · rw [List.mem_singleton.mp hd', href]
      exact Nat.lt_succ_self _
  · rw [List.map_append, List.nodup_append]
    refine ⟨h.distinct, List.nodup_singleton _, fun r hr r' hr' => ?_⟩
    obtain ⟨d', hd', rfl⟩ := List.mem_map.mp hr
    obtain rfl : r' = next := by simpa [href] using hr'
    exact Nat.ne_of_lt (h.below d' hd')
  · rcases List.mem_append.mp hd' with hd' | hd'
    · exact h.send d' hd'
    · rw [List.mem_singleton.mp hd', hmode]

section Steps

variable {env : Env} {hist : List Happening} {st st' : RState} {queue : List Queued} {next : Ref}
  {exporter : Exporter}

/-- An event with a log of its own joins the queue. -/
theorem Coherent.detect {log : DetectedEvent} {e : RbcEvent} (hc : Coherent ⟨st, queue⟩)
    (hlt : ∀ e', .socket e' ∈ queue → e'.detectedEvent < next) (href : e.detectedEvent = next)
    (hmsg : e.msg = log.decoded) : Coherent ⟨st.place next log, queue ++ [.socket e]⟩ := by
  refine ⟨?_, fun e' he' => ?_⟩
  · rw [List.filterMap_append, List.nodup_append]
    refine ⟨hc.nodup, List.nodup_singleton _, fun r hr r' hr' => ?_⟩
    obtain ⟨q, hq, hqr⟩ := List.mem_filterMap.mp hr
    obtain rfl : r' = next := by simpa [Queued.ref?, href] using hr'
    cases q with
    | roundUp => cases hqr
    | socket e' =>
      cases hqr
      exact Nat.ne_of_lt (hlt e' hq)
  · show ((st.place next log).heap e'.detectedEvent).decoded = e'.msg
    rcases List.mem_append.mp he' with he' | he'
    · rw [RState.place_heap_of_ne _ _ (Nat.ne_of_lt (hlt e' he'))]
      exact hc.msg e' he'
    · obtain rfl : e' = e := by simpa using he'
      rw [href, hmsg, RState.place_heap_self]

/-- The log of a detected event is a new one. -/
theorem Watched.fresh (hw : Watched env hist ⟨⟨st, queue⟩, exporter, next⟩) {e : RbcEvent}
    (he : .socket e ∈ queue) : e.detectedEvent < next := by
  obtain ⟨-, d, hd, hkin, -⟩ := hw.queued e he
  rw [hkin.1]
  exact hw.detections.below d hd

theorem Watched.detect {log : DetectedEvent} {timeLock : Nat} {e : RbcEvent} {w : List Effect}
    (hw : Watched env hist ⟨⟨st, queue⟩, exporter, next⟩)
    (hinit : RbcEvent.init next timeLock env (st.place next log) = ⟨.ok e, st', w⟩)
    (hsmooth : (Happening.detected e).Smooth env) :
    Watched env (hist ++ [.detected e])
      ⟨⟨st', queue ++ [.socket e]⟩, exporter.record w, next + 1⟩ := by
  obtain ⟨⟨href, hmsg, hmode⟩, rfl, rfl⟩ := RbcEvent.init_ok hinit
  rw [RState.place_heap_self] at hmsg
  have htracked : TrackedFrom env (detectedOf hist ++ [e]) e := by
    refine ⟨⟨hsmooth.1, hsmooth.2, fun _ hcall => ?_⟩, e, by simp, .refl e⟩
    rw [hmode] at hcall
    cases hcall
  refine ⟨hw.coherent.detect (fun e' he' => hw.fresh he') href hmsg, fun e' he' => ?_,
    fun e' he' => ?_, ?_⟩ <;> rw [detectedOf_append, detectedOf_detected]
  · rcases List.mem_append.mp he' with he' | he'
    · exact (hw.queued e' he').append [e]
    · obtain rfl : e' = e := by simpa using he'
      exact htracked
  · exact (hw.called e' (by simpa using he')).append [e]
  · exact hw.detections.snoc href hmode

/-! ## Handlings -/

/-- What a handling leaves stems from what was detected, and is tracked in its turn. -/
theorem Watched.handle {σ σ' : LoopState} {h : Handling} (hon : env.cfg.prometheusOn = true)
    (hw : Watched env hist ⟨σ, exporter, next⟩) (hstep : LoopStep env σ [h] σ')
    (hsmooth : (Happening.handled h).Smooth env) :
    Watched env (hist ++ [.handled h]) ⟨σ', exporter.record h.out, next⟩ ∧
      ∀ c, (exporter.record h.out).gauge c + dueOf env.cfg.network c σ'.queue =
        exporter.gauge c + dueOf env.cfg.network c σ.queue + h.undue env.cfg.network c := by
  have hc' := coherent_step hw.coherent hstep
  cases hstep with
  | handle l₁ l₂ _ hp =>
    have hmem : ∀ e, h.event = .socket e → .socket e ∈ l₁ ++ h.event :: l₂ := by
      intro e he
      rw [← he]
      exact List.mem_append_right _ List.mem_cons_self
    have hmsg : ∀ e, h.event = .socket e → _ := fun e he => hw.coherent.msg e (hmem e he)
    obtain ⟨htracked, hsettles⟩ := settles_of_process hon hp hsmooth fun e he =>
      ⟨(hw.queued e (hmem e he)).1, hmsg e he⟩
    have hdetected : detectedOf (hist ++ [.handled h]) = detectedOf hist := by simp
    refine ⟨⟨hc', ?_, ?_, ?_⟩, fun c => ?_⟩
    · rw [hdetected]
      intro e' he'
      rcases List.mem_append.mp he' with he' | he'
      · exact hw.queued e' (mem_of_others he')
      · obtain ⟨e, he, hstem⟩ := stems_of_process hp hmsg he'
        obtain ⟨-, d, hd, hd'⟩ := hw.queued e (hmem e he)
        exact ⟨htracked e' he', d, hd, hd'.trans hstem⟩
    · rw [hdetected, noQuorumOf_append, noQuorumOf_handled]
      intro e he
      rcases List.mem_append.mp he with he | he
      · exact hw.called e he
      · exact hw.queued e (hmem e (Handling.of_noQuorum? (Option.mem_toList.mp he)).1)
    · rw [hdetected]
      exact hw.detections
    · have hset := hsettles c
      rw [Exporter.gauge_record]
      simp only [dueOf_append, dueOf_cons]
      omega

/-! ## Runs -/

/-- A step that detects and handles no Socket event, and reports nothing. -/
theorem Watched.idle (hw : Watched env hist ⟨⟨st, queue⟩, exporter, next⟩) (st' : RState)
    (w : List Effect) (hheap : st'.heap = st.heap) (l : List RoundUpEvent)
    (hw' : ∀ o ∈ w, o.NoMetric) :
    Watched env (hist ++ []) ⟨⟨st', queue ++ l.map .roundUp⟩, exporter.record w, next⟩ ∧
      ∀ c, (exporter.record w).gauge c +
          dueOf env.cfg.network c (queue ++ l.map .roundUp) =
        exporter.gauge c + dueOf env.cfg.network c queue := by
  have hmem : ∀ e, .socket e ∈ queue ++ l.map Queued.roundUp → .socket e ∈ queue := by
    intro e he
    simpa using he
  rw [List.append_nil]
  refine ⟨⟨⟨?_, fun e he => ?_⟩, fun e he => hw.queued e (hmem e he), hw.called, hw.detections⟩,
    fun c => ?_⟩
  · have hnil : (l.map Queued.roundUp).filterMap Queued.ref? = [] := by
      simp [List.filterMap_map, Function.comp_def, Queued.ref?]
    rw [List.filterMap_append, hnil, List.append_nil]
    exact hw.coherent.nodup
  · show (st'.heap e.detectedEvent).decoded = e.msg
    rw [hheap]
    exact hw.coherent.msg e (hmem e he)
  · have hnone : dueOf env.cfg.network c (l.map Queued.roundUp) = 0 :=
      dueOf_eq_zero fun e he => by simp at he
    rw [Exporter.gauge_record, scoreOf_noMetric c hw', dueOf_append, hnone]
    omega

theorem RoundUpEvent.quiet_init (log : RoundUpLog) (timeLock : Nat) :
    Quiet (RoundUpEvent.init log timeLock) := by
  have hconstruct : ∀ t, Quiet (RoundUpEvent.construct log t) := fun _ =>
    .bind .getConfig fun _ => .ite (.throw _) (.pure _)
  exact .bind .getConfig fun _ => .ite (hconstruct _)
    (.bind .timestampMsec fun _ => .bind (.ofOption ..) fun _ => hconstruct _)

theorem watched_step {σ σ' : Watch} {hs : List Happening} (hon : env.cfg.prometheusOn = true)
    (hw : Watched env hist σ) (hsmooth : ∀ l ∈ hs, l.Smooth env) (hstep : WatchStep env σ hs σ') :
    Watched env (hist ++ hs) σ' ∧ ∀ c, σ'.exporter.gauge c + dueOf env.cfg.network c σ'.loop.queue =
      σ.exporter.gauge c + dueOf env.cfg.network c σ.loop.queue +
        (hs.map (Happening.adds env.cfg.network c)).sum := by
  cases hstep with
  | detect exporter log timeLock e w hinit =>
    refine ⟨hw.detect hinit (hsmooth _ (List.mem_singleton_self _)), fun c => ?_⟩
    obtain ⟨-, -, rfl⟩ := RbcEvent.init_ok hinit
    simp [Exporter.gauge_record, scoreOf, metricsOf, Queued.due, Happening.adds]
    omega
  | @detectRoundUp st _ _ next exporter log timeLock e w hinit =>
    obtain ⟨hheap, -⟩ := (RoundUpEvent.quiet_init log timeLock).run hinit
    simpa using hw.idle _ w hheap [e] ((noMetric_init log timeLock).run hinit)
  | handle next exporter h hstep =>
    obtain ⟨hw', hgauge⟩ := hw.handle hon hstep (hsmooth _ (List.mem_singleton_self _))
    refine ⟨hw', fun c => ?_⟩
    simpa [Happening.adds] using hgauge c
  | period st queue next exporter outcome =>
    have hheap : (VSPFeed.period outcome env st).st.heap = st.heap :=
      (VSPFeed.keepsSockets_period outcome).keeps st.heap env st rfl
    simpa using hw.idle _ _ hheap [] (VSPFeed.noMetric_period outcome env st)
  | wait st queue next exporter =>
    have hidle := hw.idle st.tick [] rfl [] (by simp)
    simpa [Exporter.record, metricsOf] using hidle

end Steps

/-- **Balance.** Along a run that starts without Socket events, the gauge of a chain and what the
queue still adds to it change by the events that are detected and the calls without a quorum. -/
theorem balance_of_watch {env : Env} {σ σ' : Watch} {hist : List Happening}
    (hon : env.cfg.prometheusOn = true) (hrun : WatchRun env σ hist σ')
    (hstart : ∀ e, .socket e ∉ σ.loop.queue) (hsmooth : ∀ l ∈ hist, l.Smooth env)
    (c : ChainEnum) :
    Watched env hist σ' ∧ σ'.exporter.gauge c + dueOf env.cfg.network c σ'.loop.queue =
      σ.exporter.gauge c + dueOf env.cfg.network c σ.loop.queue +
        (hist.map (Happening.adds env.cfg.network c)).sum := by
  have h0 : Watched env [] σ := by
    refine ⟨⟨?_, fun e he => absurd he (hstart e)⟩, fun e he => absurd he (hstart e),
      fun e he => ?_, fun d hd => ?_, List.nodup_nil, fun d hd => ?_⟩
    · have hnil : σ.loop.queue.filterMap Queued.ref? = [] := by
        refine List.filterMap_eq_nil_iff.mpr fun q hq => ?_
        cases q with
        | socket e => exact absurd hq (hstart e)
        | roundUp e => rfl
      rw [hnil]
      exact List.nodup_nil
    · cases he
    · cases hd
    · cases hd
  exact hrun.balance (P := Watched env)
    (fun σ => σ.exporter.gauge c + dueOf env.cfg.network c σ.loop.queue) _ hsmooth h0
    fun hw hs hstep => (watched_step hon hw hs hstep).imp_right fun h => h c

end Bifrost
