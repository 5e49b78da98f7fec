import Bifrost.Loop.Watch
import Bifrost.Loop.Work

/-!
# The gauge of incomplete requests

A request goes to COMMITTED, or its call finds no quorum and it goes to
ROLLBACKED. What the relayer detects of it balances on both paths, but on the
second one it also votes FAILED itself, and the metric of that vote takes one
more off the gauge (`gauge_eq`). So the gauge of a chain returns if and only if
no request of the chain fails (`gauge_returns_iff`).
-/

namespace Bifrost

open Bifrost.Lib

/-- How a request goes; on the failure path the call of its REQUESTED event finds no quorum. -/
inductive Path where
  | success | failure
  deriving DecidableEq, Repr

/-- The statuses of the events that are detected. -/
def Path.statuses (inbound : Bool) : Path → List ChainEventStatus
  | .success =>
    if inbound then [.requested, .executed, .accepted, .committed]
    else [.requested, .accepted, .executed, .committed]
  | .failure =>
    if inbound then [.requested, .reverted, .rejected, .rollbacked]
    else [.requested, .rejected, .reverted, .rollbacked]

/-- A request with the events that are detected of it. -/
structure Journey where
  chain : ChainEnum
  request : RequestId
  path : Path
  events : List RbcEvent

/-- The events of the journey are those of its path, in a run with the history `hist`. -/
@[mk_iff]
structure Journey.Follows (net : Network) (hist : List Happening) (j : Journey) : Prop where
  chain : ∀ e ∈ j.events, e.srcChain? net = some j.chain
  request : ∀ e ∈ j.events, e.requestId? net = some j.request
  statuses : j.events.map RbcEvent.status = j.path.statuses (j.chain ≠ .bifrost)
  calls : ∀ e ∈ j.events, e.status = .requested →
    (noQuorumOf hist).countP (·.detectedEvent = e.detectedEvent) =
      if j.path = .failure then 1 else 0

instance (net : Network) (hist : List Happening) (j : Journey) :
    Decidable (j.Follows net hist) :=
  decidable_of_iff' _ (Journey.follows_iff net hist j)

/-- All that is left in the queue are calls and relays: every vote has been cast, and every final
event handled. -/
def Watch.Completed (σ : Watch) : Prop :=
  ∀ e, .socket e ∈ σ.loop.queue → e.mode = .call ∨ e.cls.isAggregated

variable {net : Network} {hist : List Happening} {j : Journey} {c : ChainEnum}

/-! ## Paths -/

theorem Path.score_eq (p : Path) (inbound : Bool) : ((p.statuses inbound).map score).sum = 0 := by
  cases p <;> cases inbound <;> rfl

theorem Path.failed_notMem (p : Path) (inbound : Bool) :
    ChainEventStatus.failed ∉ p.statuses inbound := by
  cases p <;> cases inbound <;> decide

theorem Path.requested_eq (p : Path) (inbound : Bool) (n : Nat) :
    total (fun t => if t = ChainEventStatus.requested then n else 0) (p.statuses inbound) = n := by
  cases p <;> cases inbound <;> simp [statuses]

/-! ## Journeys -/

/-- What is detected of a request balances. -/
theorem Journey.Follows.due_eq (h : j.Follows net hist) (hsend : ∀ e ∈ j.events, e.mode = .send) :
    (j.events.map (·.due net c)).sum = 0 := by
  have hdue : ∀ e ∈ j.events, e.due net c = if j.chain = c then score e.status else 0 := by
    intro e he
    refine RbcEvent.due_of_send (hsend e he) (h.chain e he) fun hf => ?_
    refine j.path.failed_notMem (j.chain ≠ .bifrost) ?_
    rw [← h.statuses]
    exact List.mem_map.mpr ⟨e, he, by rw [RbcEvent.status, hf.1]; rfl⟩
  rw [List.map_congr_left hdue]
  by_cases hc : j.chain = c
  · have hscore := j.path.score_eq (j.chain ≠ .bifrost)
    rw [← h.statuses, List.map_map] at hscore
    simpa only [if_pos hc, Function.comp_def] using hscore
  · simp [hc]

/-- The share of a request in the calls without a quorum. -/
def callShare (net : Network) (c : ChainEnum) (e : RbcEvent) : Nat :=
  if e.status = .requested ∧ e.srcChain? net = some c then 1 else 0

theorem Journey.Follows.calls_eq (h : j.Follows net hist) :
    total (fun e => callShare net c e *
      (noQuorumOf hist).countP (·.detectedEvent = e.detectedEvent)) j.events =
        if j.chain = c ∧ j.path = .failure then 1 else 0 := by
  have hshare : ∀ e ∈ j.events, callShare net c e *
      (noQuorumOf hist).countP (·.detectedEvent = e.detectedEvent) =
        if e.status = .requested then if j.chain = c ∧ j.path = .failure then 1 else 0 else 0 := by
    intro e he
    by_cases hreq : e.status = .requested
    · rw [callShare, h.calls e he hreq, h.chain e he]
      by_cases hc : j.chain = c <;> simp [hreq, hc]
    · simp [callShare, hreq]
  have hstatus := j.path.requested_eq (j.chain ≠ .bifrost)
    (if j.chain = c ∧ j.path = .failure then 1 else 0)
  rw [← h.statuses, total_map] at hstatus
  rw [← hstatus]
  exact congrArg List.sum (List.map_congr_left hshare)

/-- The journeys of all the requests that are detected in a run. -/
structure Journeys (net : Network) (hist : List Happening) (js : List Journey) : Prop where
  detected : (detectedOf hist).Perm (js.flatMap Journey.events)
  follows : ∀ j ∈ js, j.Follows net hist

theorem Journeys.mem {js : List Journey} (h : Journeys net hist js) (hj : j ∈ js) {e : RbcEvent}
    (he : e ∈ j.events) : e ∈ detectedOf hist :=
  h.detected.mem_iff.mpr (List.mem_flatMap.mpr ⟨j, hj, he⟩)

/-- What is detected balances. -/
theorem Journeys.due_eq {js : List Journey} (h : Journeys net hist js)
    (hsend : ∀ e ∈ detectedOf hist, e.mode = .send) :
    ((detectedOf hist).map (·.due net c)).sum = 0 := by
  have hjs : ∀ j ∈ js, (j.events.map (·.due net c)).sum = 0 := fun j hj =>
    (h.follows j hj).due_eq fun e he => hsend e (h.mem hj he)
  rw [(h.detected.map _).sum_eq, List.map_flatMap]
  clear h
  induction js with
  | nil => rfl
  | cons j js ih =>
    rw [List.flatMap_cons, List.sum_append, hjs j List.mem_cons_self,
      ih fun j' hj' => hjs j' (List.mem_cons_of_mem j hj'), Int.add_zero]

/-- The calls without a quorum are those of the requests that fail. -/
theorem Journeys.calls_eq {js : List Journey} (h : Journeys net hist js)
    (hdistinct : ((detectedOf hist).map RbcEvent.detectedEvent).Nodup)
    (hcalled : ∀ e ∈ noQuorumOf hist, ∃ d ∈ detectedOf hist, d.Stems e) :
    (noQuorumOf hist).countP (·.srcChain? net = some c) =
      js.countP fun j => j.chain = c ∧ j.path = .failure := by
  have hown : ∀ e ∈ noQuorumOf hist, ∃ d ∈ detectedOf hist, d.detectedEvent = e.detectedEvent ∧
      callShare net c d = if e.srcChain? net = some c then 1 else 0 := by
    intro e he
    obtain ⟨d, hd, hkin, hreq⟩ := hcalled e he
    obtain ⟨g, -, hno⟩ := List.mem_filterMap.mp he
    have hst : d.status = .requested := by
      rw [RbcEvent.status, hreq (Handling.of_noQuorum? hno).2.1]
      rfl
    refine ⟨d, hd, hkin.1.symm, ?_⟩
    rw [callShare, hkin.srcChain?]
    simp [hst]
  let share (e : RbcEvent) : Nat :=
    callShare net c e * (noQuorumOf hist).countP (·.detectedEvent = e.detectedEvent)
  calc (noQuorumOf hist).countP (·.srcChain? net = some c)
      = total (fun e => if e.srcChain? net = some c then 1 else 0) (noQuorumOf hist) := by
        rw [← total_indicator]
        simp
    _ = total share (detectedOf hist) := (total_owned hdistinct hown).symm
    _ = total share (js.flatMap Journey.events) := (h.detected.map share).sum_eq
    _ = total (fun j => total share j.events) js := total_flatMap ..
    _ = total (fun j => if j.chain = c ∧ j.path = .failure then 1 else 0) js :=
        congrArg List.sum (List.map_congr_left fun j hj => (h.follows j hj).calls_eq)
    _ = js.countP fun j => j.chain = c ∧ j.path = .failure := by
        rw [← total_indicator]
        simp

/-! ## The gauge -/

/-- The flow of a history, as detections and calls without a quorum. -/
theorem adds_eq (net : Network) (c : ChainEnum) (hist : List Happening) :
    (hist.map (Happening.adds net c)).sum = ((detectedOf hist).map (·.due net c)).sum -
      (noQuorumOf hist).countP (·.srcChain? net = some c) := by
  induction hist with
  | nil => rfl
  | cons l hist ih =>
    rw [List.map_cons, List.sum_cons, ih, ← List.singleton_append, detectedOf_append,
      noQuorumOf_append, List.map_append, List.sum_append, List.countP_append]
    cases l with
    | detected e =>
      simp [Happening.adds]
      omega
    | handled h =>
      rw [noQuorumOf_handled, detectedOf_handled, Happening.adds, Handling.undue]
      cases hno : h.noQuorum? with
      | none => simp
      | some e =>
        by_cases hc : e.srcChain? net = some c
        · simp [hc]
          omega
        · simp [hc]

theorem Watch.Completed.dueOf_eq {σ : Watch} (h : σ.Completed) :
    dueOf net c σ.loop.queue = 0 := by
  refine dueOf_eq_zero fun e he => ?_
  rcases h e he with hcall | hagg
  · exact RbcEvent.due_of_call hcall
  · exact RbcEvent.due_of_aggregated hagg

/-! ## A request on either path -/

inductive WatchInput where
  | detect (log : DetectedEvent) (timeLock : Nat)
  | handleHead (outcome : TxOutcome)

/-- A log is detected, or the head of the queue handled. -/
def Watch.exec (env : Env) (input : WatchInput) (σ : Watch) : Option (Happening × Watch) :=
  match input with
  | .detect log timeLock =>
    match RbcEvent.init σ.next timeLock env (σ.loop.st.place σ.next log) with
    | ⟨.ok e, st, w⟩ => some (.detected e,
        ⟨⟨st, σ.loop.queue ++ [.socket e]⟩, σ.exporter.record w, σ.next + 1⟩)
    | ⟨.error _, _, _⟩ => none
  | .handleHead outcome => (handleHead env outcome σ.loop).map fun p =>
      (.handled p.1, ⟨p.2, σ.exporter.record p.1.out, σ.next⟩)

theorem step_of_watchExec {env : Env} {input : WatchInput} {σ σ' : Watch} {l : Happening}
    (h : Watch.exec env input σ = some (l, σ')) : WatchStep env σ [l] σ' := by
  obtain ⟨⟨st, queue⟩, exporter, next⟩ := σ
  cases input with
  | detect log timeLock =>
    rcases hinit : RbcEvent.init next timeLock env (st.place next log) with ⟨x | e, st', w⟩
    · simp [Watch.exec, hinit] at h
    · simp only [Watch.exec, hinit, Option.some.injEq, Prod.mk.injEq] at h
      obtain ⟨rfl, rfl⟩ := h
      exact .detect exporter log timeLock e w hinit
  | handleHead outcome =>
    obtain ⟨⟨g, σ₁⟩, hg, heq⟩ := Option.map_eq_some_iff.mp h
    cases heq
    exact .handle next exporter g (step_of_handleHead hg)

namespace Sample

/-- The sample relayer with its exporter on. -/
def meteredEnv (status : ChainEventStatus) : Env :=
  { soleEnv status with cfg := { cfg with prometheusOn := true } }

/-- Before the first log. -/
def watch : Watch :=
  ⟨⟨state (msg .ethereum .bifrost .none), []⟩, ⟨fun _ => 0, fun _ => 0⟩, 0⟩

/-- The log of a request from ETHEREUM is detected, and its event handled. -/
def inputs (status : ChainEventStatus) : List WatchInput :=
  [.detect (.ofMsg (msg .ethereum .bifrost status) 7) 1, .handleHead .success]

/-- The requests of the path have the status that the call reads. -/
def pathStatus : Path → ChainEventStatus
  | .success => .requested
  | .failure => .none

/-- The events of the path; the call of the REQUESTED one comes next, and the FAILED clone. -/
def pathInputs : Path → List WatchInput
  | .success => inputs .requested ++ [.handleHead .success] ++ inputs .executed ++
      inputs .accepted ++ inputs .committed
  | .failure => inputs .requested ++ [.handleHead .success, .handleHead .success] ++
      inputs .reverted ++ inputs .rejected ++ inputs .rollbacked

def journey (path : Path) (hist : List Happening) : Journey where
  chain := .ethereum
  request := ⟨ChainEnum.ethereum.formattedBytes .mainnet, 5, 1⟩
  path := path
  events := detectedOf hist

/-- What the run of a path is checked for. -/
def Checked (path : Path) (hist : List Happening) (σ : Watch) : Prop :=
  (journey path hist).Follows .mainnet hist ∧ (∀ h ∈ handledOf hist, h.outcome = .success) ∧
    σ.loop.queue = [] ∧ σ.exporter.gauge .ethereum = if path = .failure then -1 else 0

instance (path : Path) (hist : List Happening) (σ : Watch) : Decidable (Checked path hist σ) :=
  inferInstanceAs (Decidable (_ ∧ _ ∧ _ ∧ _))

theorem exists_checked (path : Path) : ∃ hist σ',
    WatchRun (meteredEnv (pathStatus path)) watch hist σ' ∧ Checked path hist σ' := by
  have hexec : (Run.exec (Watch.exec (meteredEnv (pathStatus path))) (pathInputs path) watch).any
      fun p => Checked path p.1 p.2 := by
    cases path <;> decide +kernel
  obtain ⟨⟨hist, σ'⟩, hrun, hchecked⟩ := (Option.any_eq_true _ _).mp hexec
  refine ⟨hist, σ', Run.of_exec (f := Watch.exec (meteredEnv (pathStatus path)))
    (fun _ _ _ _ => step_of_watchExec) hrun, by simpa using hchecked⟩

theorem serves_metered (status : ChainEventStatus) {e : RbcEvent}
    (hsrc : e.srcChain? .mainnet = some .ethereum) : e.Serves (meteredEnv status) := by
  refine .inr ⟨⟨.ethereum, ?_, hsrc⟩, fun t => ?_⟩
  · show ChainEnum.ethereum ∈ cfg.supportedChainList
    decide
  · show account.address.hex ∈ sortedLower [account.address.hex]
    decide +kernel

/-- The runs meet what is assumed of all runs. -/
theorem exists_journey (path : Path) : ∃ hist σ',
    WatchRun (meteredEnv (pathStatus path)) watch hist σ' ∧
      (∀ e ∈ detectedOf hist, e.Serves (meteredEnv (pathStatus path))) ∧
      (∀ h ∈ handledOf hist, h.sent ≠ [] → h.outcome = .success) ∧
      Journeys .mainnet hist [journey path hist] ∧ σ'.Completed ∧
      σ'.exporter.gauge .ethereum = if path = .failure then -1 else 0 := by
  obtain ⟨hist, σ', hrun, hfollows, hout, hqueue, hgauge⟩ := exists_checked path
  refine ⟨hist, σ', hrun, fun e he => serves_metered _ (hfollows.chain e he),
    fun h hh _ => hout h hh, ⟨?_, fun j hj => ?_⟩, fun e he => ?_, hgauge⟩
  · simp [journey]
  · rw [List.mem_singleton.mp hj]
    exact hfollows
  · rw [hqueue] at he
    cases he

end Sample

/-! ## The value before -/

section Run

variable {env : Env} {σ σ' : Watch} {js : List Journey} (hon : env.cfg.prometheusOn = true)
  (hrun : WatchRun env σ hist σ') (hstart : ∀ e, .socket e ∉ σ.loop.queue)
  (hserves : ∀ e ∈ detectedOf hist, e.Serves env)
  (hsuccess : ∀ h ∈ handledOf hist, h.sent ≠ [] → h.outcome = .success)
  (hjs : Journeys env.cfg.network hist js) (hdone : σ'.Completed)

include hon hrun hstart hserves hsuccess hjs hdone

/-- Every call without a quorum takes one off the gauge of its chain. -/
theorem gauge_eq_calls (c : ChainEnum) :
    Watched env hist σ' ∧ σ'.exporter.gauge c = σ.exporter.gauge c -
      (noQuorumOf hist).countP (·.srcChain? env.cfg.network = some c) := by
  have hsmooth : ∀ l ∈ hist, l.Smooth env := by
    intro l hl
    cases l with
    | detected e =>
      have he : e ∈ detectedOf hist := List.mem_filterMap.mpr ⟨_, hl, rfl⟩
      obtain ⟨j, hj, hej⟩ := List.mem_flatMap.mp (hjs.detected.mem_iff.mp he)
      exact ⟨hserves e he, by rw [(hjs.follows j hj).chain e hej]; rfl⟩
    | handled h => exact hsuccess h (List.mem_filterMap.mpr ⟨_, hl, rfl⟩)
  obtain ⟨hw, hbalance⟩ := balance_of_watch hon hrun hstart hsmooth c
  have hempty : dueOf env.cfg.network c σ.loop.queue = 0 :=
    dueOf_eq_zero fun e he => absurd he (hstart e)
  rw [hdone.dueOf_eq, hempty, adds_eq, hjs.due_eq hw.detections.send] at hbalance
  exact ⟨hw, by omega⟩

/-- Every request that fails takes one off the gauge of its chain. -/
theorem gauge_eq (c : ChainEnum) : σ'.exporter.gauge c =
    σ.exporter.gauge c - js.countP fun j => j.chain = c ∧ j.path = .failure := by
  obtain ⟨hw, heq⟩ := gauge_eq_calls hon hrun hstart hserves hsuccess hjs hdone c
  rw [heq, hjs.calls_eq hw.detections.distinct fun e he => (hw.called e he).2]

/-- A request from BIFROST is not called again, so the gauge of BIFROST returns. -/
theorem gauge_bifrost : σ'.exporter.gauge .bifrost = σ.exporter.gauge .bifrost := by
  obtain ⟨hw, heq⟩ := gauge_eq_calls hon hrun hstart hserves hsuccess hjs hdone .bifrost
  have hzero : (noQuorumOf hist).countP (·.srcChain? env.cfg.network = some .bifrost) = 0 := by
    refine List.countP_eq_zero.mpr fun e he => ?_
    obtain ⟨g, -, hno⟩ := List.mem_filterMap.mp he
    obtain ⟨-, hreq, hcall⟩ := Handling.of_noQuorum? hno
    simpa using (hw.called e he).1.inbound hreq hcall
  rw [heq, hzero]
  omega

/-- **The gauge.** Once all requests are COMMITTED or ROLLBACKED, the gauge of a chain has returned
if and only if no request of the chain took the failure path. -/
theorem gauge_returns_iff (c : ChainEnum) :
    σ'.exporter.gauge c = σ.exporter.gauge c ↔ ∀ j ∈ js, j.chain = c → j.path = .success := by
  rw [gauge_eq hon hrun hstart hserves hsuccess hjs hdone c]
  constructor
  · intro h j hj hc
    have hzero : js.countP (fun j => j.chain = c ∧ j.path = .failure) = 0 := by omega
    have hnot := List.countP_eq_zero.mp hzero j hj
    cases hp : j.path with
    | success => rfl
    | failure => simp [hc, hp] at hnot
  · intro h
    have hzero : js.countP (fun j => j.chain = c ∧ j.path = .failure) = 0 := by
      refine List.countP_eq_zero.mpr fun j hj => ?_
      rw [decide_eq_true_eq]
      rintro ⟨hc, hp⟩
      rw [h j hj hc] at hp
      cases hp
    omega

end Run

/-- A request that is COMMITTED. -/
theorem gauge_returns_committed : ∃ hist σ',
    WatchRun (Sample.meteredEnv .requested) Sample.watch hist σ' ∧
      Journeys .mainnet hist [Sample.journey .success hist] ∧
      σ'.exporter.gauge .ethereum = Sample.watch.exporter.gauge .ethereum := by
  obtain ⟨hist, σ', hrun, hserves, hsuccess, hjs, hdone, -⟩ := Sample.exists_journey .success
  refine ⟨hist, σ', hrun, hjs, ?_⟩
  refine (gauge_returns_iff rfl hrun (by simp [Sample.watch]) hserves hsuccess hjs hdone
    .ethereum).mpr fun j hj _ => ?_
  rw [List.mem_singleton.mp hj]
  rfl

/-- A request from ETHEREUM without a quorum is ROLLBACKED, and the gauge is one less. -/
theorem gauge_not_returned : ¬ ∀ (env : Env) (σ σ' : Watch) (hist : List Happening)
    (js : List Journey), env.cfg.prometheusOn = true → WatchRun env σ hist σ' →
      (∀ e, .socket e ∉ σ.loop.queue) → (∀ e ∈ detectedOf hist, e.Serves env) →
      (∀ h ∈ handledOf hist, h.sent ≠ [] → h.outcome = .success) →
      Journeys env.cfg.network hist js → σ'.Completed →
      ∀ c, σ'.exporter.gauge c = σ.exporter.gauge c := by
  intro hall
  obtain ⟨hist, σ', hrun, hserves, hsuccess, hjs, hdone, hgauge⟩ := Sample.exists_journey .failure
  have hreturned := hall _ _ _ _ _ rfl hrun (by simp [Sample.watch]) hserves hsuccess hjs hdone
    .ethereum
  rw [hgauge] at hreturned
  cases hreturned

end Bifrost
