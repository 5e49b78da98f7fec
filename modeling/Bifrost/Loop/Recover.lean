import Bifrost.Loop.Ballot

/-!
# Recovery from a crash

A process that ends loses its queue. The next one collects logs again. If it gets
through them, it takes up exactly one event for each request of the last rounds that
none of them finishes, of a latest log (`takesUp_of_boot`). A vote that this log
calls for is then cast exactly once, however many logs of the request were collected
(`votes_of_boot`).
-/

namespace Bifrost

open Bifrost.Lib

/-- None of the logs finishes the request. -/
def OpenIn (logs : List DetectedEvent) (rid : RequestId) : Prop :=
  ∀ log ∈ logs, log.rid = rid → log.decoded.status.val ∉
    [ChainEventStatus.committed.value, ChainEventStatus.rollbacked.value]

instance (logs : List DetectedEvent) (rid : RequestId) : Decidable (OpenIn logs rid) :=
  inferInstanceAs (Decidable (∀ log ∈ logs, _ → _))

/-- `d` is the event of a latest one among the logs of the request. -/
structure RbcEvent.TakesUp (net : Network) (logs : List DetectedEvent) (rid : RequestId)
    (d : RbcEvent) : Prop where
  source : ∃ log ∈ logs, d.msg = log.decoded
  request : d.rid = rid
  latest : ∀ log ∈ logs, log.rid = rid → ∀ t : ChainEventStatus,
    log.decoded.status.val = t.value →
      (rid.direction net).rank t ≤ (rid.direction net).rank d.status

/-- The logs of a new process are at their references. -/
theorem heap_restarted (st : RState) (next : Ref) (logs : List DetectedEvent) {i : Nat}
    {log : DetectedEvent} (h : logs[i]? = some log) :
    (st.restarted next logs).heap (next + i) = log := by
  have hge : ¬ next + i < next := Nat.not_lt.mpr (Nat.le_add_right next i)
  show (if next + i < next then _ else _) = log
  rw [if_neg hge, Nat.add_sub_cancel_left, h]
  rfl

theorem map_heap_restarted (st : RState) (next : Ref) (logs : List DetectedEvent) :
    (List.range' next logs.length).map (st.restarted next logs).heap = logs := by
  refine List.ext_getElem (by simp) fun i hi hi' => ?_
  rw [List.getElem_map, List.getElem_range', Nat.one_mul,
    heap_restarted st next logs (List.getElem?_eq_getElem hi')]

section Boots

variable {env : Env} {st st' : RState} {next : Ref} {order : Comparison RbcEvent}
  {roundUpOrder : Comparison RoundUpEvent} {timeLock : Nat} {logs : List DetectedEvent}
  {roundUps : List RoundUpLog} {es : List RbcEvent} {us : List RoundUpEvent} {w : List Effect}
  (hboot : Relayer.boot order roundUpOrder timeLock (List.range' next logs.length) roundUps env
    (st.restarted next logs) = ⟨.ok (es, us), st', w⟩)

include hboot

/-- The message of an event is that of the log at its place. -/
theorem fresh_of_boot {e : RbcEvent} (he : e.Fresh (List.range' next logs.length) st') :
    ∃ i log, logs[i]? = some log ∧ e.detectedEvent = next + i ∧ e.msg = log.decoded := by
  obtain ⟨hheap, -⟩ := Relayer.boot_selects hboot
  obtain ⟨i, hi, href⟩ := List.mem_range'.mp he.ref
  rw [Nat.one_mul] at href
  refine ⟨i, logs[i], List.getElem?_eq_getElem hi, href, ?_⟩
  rw [he.msg, hheap, href, heap_restarted st next logs (List.getElem?_eq_getElem hi)]

theorem eq_of_rid {d d' : RbcEvent} (hd : d ∈ es) (hd' : d' ∈ es) (h : d.rid = d'.rid) :
    d = d' := by
  obtain ⟨-, -, ⟨made, hsel⟩, -⟩ := Relayer.boot_selects hboot
  exact List.inj_on_of_nodup_map hsel.nodup_rids hd hd' h

/-- A request of the last rounds that no log finishes is taken up. -/
theorem takesUp_of_boot (hslow : env.cfg.isFastRelayer = false) {log : DetectedEvent}
    (hlog : log ∈ logs) (hopen : OpenIn logs log.rid)
    (hrecent : ((env.view st.now).latestRound .bifrost : Int) - 6 ≤ log.decoded.roundId.val) :
    ∃ d ∈ es, d.TakesUp env.cfg.network logs log.rid := by
  obtain ⟨hheap, -, ⟨made, hsel⟩, -⟩ := Relayer.boot_selects hboot
  have hmade : ∀ e ∈ made, ∃ log ∈ logs, e.msg = log.decoded := by
    intro e he
    obtain ⟨i, log, hi, -, hmsg⟩ := fresh_of_boot hboot (RbcEvent.initAll_fresh hsel.detected e he)
    exact ⟨log, List.mem_of_getElem? hi, hmsg⟩
  have hevent : ∀ log ∈ logs, ∃ e ∈ made, e.msg = log.decoded := by
    intro log hlog
    obtain ⟨i, hi⟩ := List.mem_iff_getElem?.mp hlog
    have hlt := (List.getElem?_eq_some_iff.mp hi).1
    have href : next + i ∈ made.map RbcEvent.detectedEvent := by
      rw [RbcEvent.initAll_refs hsel.detected]
      exact List.mem_range'.mpr ⟨i, hlt, by rw [Nat.one_mul]⟩
    obtain ⟨e, he, href⟩ := List.mem_map.mp href
    refine ⟨e, he, ?_⟩
    rw [(RbcEvent.initAll_fresh hsel.detected e he).msg, href, hheap,
      heap_restarted st next logs hi]
  have hrid : ∀ {e : RbcEvent} {log : DetectedEvent}, e.msg = log.decoded → e.rid = log.rid := by
    intro e log hmsg
    rw [RbcEvent.rid, hmsg]
    rfl
  obtain ⟨e, he, hmsg⟩ := hevent log hlog
  have hopen' : ∀ e' ∈ made, e'.rid = e.rid → e'.isFinalized = false := by
    intro e' he' hsame
    obtain ⟨log', hlog', hmsg'⟩ := hmade e' he'
    have hnot := hopen log' hlog' (by rw [← hrid hmsg', hsame, hrid hmsg])
    rw [← hmsg', e'.status_eq] at hnot
    unfold RbcEvent.isFinalized RbcEvent.status
    revert hnot
    cases e'.cls <;> decide
  have hrecent' : e.IsRecent ((env.view st.now).latestRound .bifrost) := by
    rw [RbcEvent.IsRecent, hmsg]
    exact hrecent
  obtain ⟨d, hd, hsame, hlatest⟩ := hsel.resumes hslow he hopen' hrecent'
  have hdrid : d.rid = log.rid := hsame.trans (hrid hmsg)
  refine ⟨d, hd, ?_, hdrid, fun log' hlog' hreq t ht => ?_⟩
  · obtain ⟨i, log', hi, -, hdmsg⟩ := fresh_of_boot hboot (hsel.fresh d hd).1
    exact ⟨log', List.mem_of_getElem? hi, hdmsg⟩
  · obtain ⟨e', he', hmsg'⟩ := hevent log' hlog'
    have hst : e'.status = t := by
      apply ChainEventStatus.value_inj
      rw [RbcEvent.status, ← e'.status_eq, hmsg', ht]
    have hle := hlatest e' he' ((hrid hmsg').trans (hreq.trans hdrid.symm))
    rwa [hdrid, hst] at hle

end Boots

/-! ## The run of the new process -/

section Runs

variable {env : Env} {acts : List Act} {n n' : Node}

/-- The logs of a step are at references of its own. -/
theorem next_le_of_step (hstep : NodeStep env n acts n') :
    n.next ≤ n'.next ∧ ∀ d ∈ detectedIn acts, n.next ≤ d.detectedEvent := by
  cases hstep with
  | @detect st st' queue next log timeLock e w hd =>
    obtain ⟨-, -, he⟩ := RbcEvent.detect_ok hd
    refine ⟨Nat.le_succ next, fun d hmem => ?_⟩
    obtain rfl : d = e := by simpa [Act.events] using hmem
    exact (he d rfl).1.ge
  | passOver => exact ⟨Nat.le_succ _, fun d hd => by cases hd⟩
  | detectRoundUp | handle | period | wait => exact ⟨le_rfl, fun d hd => by cases hd⟩
  | @restart st st' next queue order roundUpOrder timeLock logs roundUps es us w hboot =>
    obtain ⟨-, hfresh, -, -⟩ := Relayer.boot_ok hboot
    refine ⟨Nat.le_add_right _ _, fun d hmem => ?_⟩
    have hd : d ∈ es := by simpa [Act.events] using hmem
    exact (List.mem_range'_1.mp (hfresh d hd).1.ref).1

theorem next_le_of_run (hrun : NodeRun env n acts n') :
    n.next ≤ n'.next ∧ ∀ d ∈ detectedIn acts, n.next ≤ d.detectedEvent := by
  refine hrun.invariant (P := fun hist m =>
    n.next ≤ m.next ∧ ∀ d ∈ detectedIn hist, n.next ≤ d.detectedEvent)
    ⟨le_rfl, fun d hd => by cases hd⟩ fun ⟨hle, hold⟩ hstep => ?_
  obtain ⟨hle', hnew⟩ := next_le_of_step hstep
  refine ⟨hle.trans hle', fun d hd => ?_⟩
  rcases List.mem_append.mp (detectedIn_append .. ▸ hd) with hd | hd
  · exact hold d hd
  · exact hle.trans (hnew d hd)

theorem sinceBoot_cons {a : Act} (h : ∀ b ∈ acts, b.isBoot = false) :
    sinceBoot (a :: acts) = a :: acts := by
  refine if_neg ?_
  simpa using h

end Runs

/-- Until the next crash, the vote that an event of a start calls for is cast once, and nothing is
sent for the other logs of its request. -/
theorem votes_of_boot {env : Env} {st st' : RState} {next : Ref} {order : Comparison RbcEvent}
    {roundUpOrder : Comparison RoundUpEvent} {timeLock : Nat} {logs : List DetectedEvent}
    {roundUps : List RoundUpLog} {es : List RbcEvent} {us : List RoundUpEvent} {w : List Effect}
    {acts : List Act} {n' : Node} (hslow : env.cfg.isFastRelayer = false)
    (hboot : Relayer.boot order roundUpOrder timeLock (List.range' next logs.length) roundUps env
      (st.restarted next logs) = ⟨.ok (es, us), st', w⟩)
    (hrun : NodeRun env ⟨⟨st', es.map .socket ++ us.map .roundUp⟩, next + logs.length⟩ acts n')
    (hlive : ∀ a ∈ acts, a.isBoot = false) {d : RbcEvent} (hd : d ∈ es) {t : ChainEventStatus}
    (hs : d.Serves env) (ht : d.signedStatus? env.cfg.network = some t) {i : Nat}
    {log : DetectedEvent} (hi : logs[i]? = some log) (hrid : log.rid = d.rid) :
    sentOn (next + i) acts =
      if next + i = d.detectedEvent ∧ .socket d ∉ n'.loop.queue then [d.ballot env t] else [] := by
  have hstep : NodeStep env ⟨⟨st, []⟩, next⟩ [.booted es us w]
      ⟨⟨st', es.map .socket ++ us.map .roundUp⟩, next + logs.length⟩ :=
    .restart [] order roundUpOrder timeLock logs roundUps es us w hboot
  have hpolled : Polled env (.booted es us w :: acts) n' :=
    polled_run hslow (.cons hstep hrun) rfl
  show sentOn (next + i) (.booted es us w :: acts) = _
  have hdetected : detectedIn (.booted es us w :: acts) = es ++ detectedIn acts := rfl
  by_cases heq : next + i = d.detectedEvent
  · have hmem : d ∈ detectedIn (.booted es us w :: acts) := by
      rw [hdetected]
      exact List.mem_append_left _ hd
    have hsent := (hpolled.sentOn hmem hs ht).2 (by rwa [sinceBoot_cons hlive])
    rw [heq, hsent]
    by_cases hq : .socket d ∈ n'.loop.queue
    · rw [if_pos hq, if_neg fun h => h.2 hq]
    · rw [if_neg hq, if_pos ⟨rfl, hq⟩]
  · rw [if_neg fun h => heq h.1]
    refine hpolled.silent _ fun d' hd' href => ?_
    rw [hdetected] at hd'
    rcases List.mem_append.mp hd' with hd' | hd'
    · -- two events of one request are one
      obtain ⟨-, hfresh, -, -⟩ := Relayer.boot_ok hboot
      obtain ⟨j, log', hj, hrefj, hmsg⟩ := fresh_of_boot hboot (hfresh d' hd').1
      obtain rfl : j = i := Nat.add_left_cancel (hrefj.symm.trans href)
      obtain rfl : log' = log := Option.some.inj (hj.symm.trans hi)
      have hd'rid : d'.rid = log'.rid := by
        rw [RbcEvent.rid, hmsg]
        rfl
      have hsame := eq_of_rid hboot hd' hd (hd'rid.trans hrid)
      exact heq (href.symm.trans (congrArg RbcEvent.detectedEvent hsame))
    · have hlt := (List.getElem?_eq_some_iff.mp hi).1
      have hle : next + logs.length ≤ d'.detectedEvent := (next_le_of_run hrun).2 d' hd'
      rw [href] at hle
      exact absurd hlt (Nat.not_lt.mpr (Nat.le_of_add_le_add_left hle))

namespace Sample

def roundUpOrder : Comparison RoundUpEvent where
  le := fun _ _ => true
  total := fun _ _ => .inl rfl
  trans := fun _ _ _ _ _ => rfl

/-- Two logs of one request from ETHEREUM. -/
def executedLog : DetectedEvent := .ofMsg (msg .ethereum .bifrost .executed) 9

def requestedLog : DetectedEvent := .ofMsg (msg .ethereum .bifrost .requested) 7

def rebooted : Res Exn RState Effect (List RbcEvent × List RoundUpEvent) :=
  Relayer.boot order roundUpOrder 1 (List.range' 0 2) [] (soleEnv .requested)
    (node.loop.st.restarted 0 [executedLog, requestedLog])

/-- The events that the new process takes up. -/
def resumed : List RbcEvent × List RoundUpEvent := rebooted.val.toOption.getD ([], [])

theorem rebooted_ok : Relayer.boot order roundUpOrder 1
    (List.range' 0 [executedLog, requestedLog].length) [] (soleEnv .requested)
    (node.loop.st.restarted 0 [executedLog, requestedLog]) =
      ⟨.ok (resumed.1, resumed.2), rebooted.st, rebooted.out⟩ := by
  have hsome : rebooted.val.toOption.isSome := by decide +kernel
  show rebooted = _
  unfold resumed
  generalize rebooted = res at hsome ⊢
  rcases res with ⟨e | p, st', w⟩
  · cases hsome
  · rfl

/-- The one event is of the EXECUTED log. -/
theorem resumed_executed : ∀ d ∈ resumed.1, d.detectedEvent = 0 ∧
    d.srcChain? .mainnet = some .ethereum ∧ d.signedStatus? .mainnet = some .accepted := by
  decide +kernel

end Sample

end Bifrost
