import Bifrost.Loop.Coherent

/-!
# Events and their logs

The class of an event is checked when it is made, and its log may be
overwritten later through a clone. In every run of the loop each queued Socket
event still has the class that its log selects, and its log differs from the
one it was detected from in the status word only: the coherence of the state
gives the class, and every handling changes nothing but status words.
-/

namespace Bifrost

open Bifrost.Lib

variable {env : Env} {s s' : RState}

/-- `select_child` of the status word in the data of a log. -/
def DetectedEvent.selectedClass (d : DetectedEvent) : Option EventClass :=
  (ChainEventStatus.ofValue? (statusData d.data)).bind selectChild

/-- The status word of a log selects the class of an event that holds its message. -/
theorem selectedClass_of_decoded {d : DetectedEvent} {e : RbcEvent} (h : d.decoded = e.msg) :
    d.selectedClass = some e.cls := by
  rw [DetectedEvent.selectedClass, d.statusData_eq, h, e.status_eq,
    ChainEventStatus.ofValue?_value, Option.bind_some, selectChild_status]

/-! ## What a run does to the logs -/

/-- The logs agree outside their status words. -/
def LogsAgree (s s' : RState) : Prop :=
  ∀ r, SameOutside statusStartIndex statusEndIndex (s.heap r).data (s'.heap r).data

theorem LogsAgree.trans {s'' : RState} (h : LogsAgree s s') (h' : LogsAgree s' s'') :
    LogsAgree s s'' :=
  fun r => (h r).trans (h' r)

theorem LogsAgree.of_heap (h : s'.heap = s.heap) : LogsAgree s s' := by
  intro r
  rw [h]
  exact .refl ..

theorem logsAgree_setStatus (s : RState) (ref : Ref) (t : ChainEventStatus) :
    LogsAgree s (s.setStatus ref t) := by
  intro r
  by_cases hr : r = ref
  · subst hr
    rw [RbcEvent.setStatus_heap_self]
    exact (s.heap r).sameOutside_setStatus t
  · rw [RbcEvent.setStatus_heap_of_ne _ _ hr]
    exact .refl ..

theorem Leaves.logsAgree {e : RbcEvent} {l : List Queued} (h : Leaves e s s' l) :
    LogsAgree s s' := by
  cases h with
  | nothing hheap => exact .of_heap hheap
  | again _ hheap _ => exact .of_heap hheap
  | clone t _ _ _ hheap => exact (logsAgree_setStatus s e.detectedEvent t).trans (.of_heap hheap)

/-- A step of the loop changes nothing but status words. -/
theorem logsAgree_step {σ σ' : LoopState} {hs : List Handling} (hstep : LoopStep env σ hs σ') :
    LogsAgree σ.st σ'.st := by
  cases hstep with
  | handle l₁ l₂ h hp =>
    cases hev : h.event with
    | socket e =>
      rw [hev] at hp
      exact (leaves_of_process hp).logsAgree
    | roundUp e =>
      rw [hev] at hp
      exact .of_heap (roundUp_of_process hp).1
  | period st queue outcome =>
    exact .of_heap ((VSPFeed.keepsSockets_period outcome).keeps st.heap env st rfl)
  | wait st queue => exact .of_heap rfl

/-! ## Whole runs -/

/-- Each queued Socket event has the class that its log selects, a log that differs from the
detected one in the status word only, and this log for itself. -/
structure SelfConsistent (detected : RState) (σ : LoopState) : Prop where
  cls : ∀ e, .socket e ∈ σ.queue → (σ.st.heap e.detectedEvent).selectedClass = some e.cls
  data : ∀ e, .socket e ∈ σ.queue → SameOutside statusStartIndex statusEndIndex
    (detected.heap e.detectedEvent).data (σ.st.heap e.detectedEvent).data
  own : (σ.queue.filterMap Queued.ref?).Nodup

/-- The queued Socket events are made by `RbcEvent.init` on the logs of `s`, one on each. -/
structure MadeByInit (env : Env) (σ : LoopState) : Prop where
  init : ∀ e, .socket e ∈ σ.queue → ∃ t s s' w, s.heap = σ.st.heap ∧
    RbcEvent.init e.detectedEvent t env s = ⟨.ok e, s', w⟩
  own : (σ.queue.filterMap Queued.ref?).Nodup

theorem MadeByInit.coherent {σ : LoopState} (h : MadeByInit env σ) : Coherent σ := by
  refine ⟨h.own, fun e he => ?_⟩
  obtain ⟨t, s, s', w, hheap, hinit⟩ := h.init e he
  obtain ⟨⟨-, hmsg, -⟩, -⟩ := RbcEvent.init_ok hinit
  rw [hmsg, hheap]

/-- **Self-consistency.** However the handlings of a run are ordered and end, every queued event
agrees with its log, and its log with the one it was detected from. -/
theorem selfConsistent_of_run {σ σ' : LoopState} {hs : List Handling} (hinit : MadeByInit env σ)
    (hrun : LoopRun env σ hs σ') : SelfConsistent σ.st σ' := by
  obtain ⟨hcoherent, hlogs⟩ := hrun.invariant
    (P := fun _ τ => Coherent τ ∧ LogsAgree σ.st τ.st)
    ⟨hinit.coherent, .of_heap rfl⟩ fun ⟨hc, hl⟩ hstep =>
      ⟨coherent_step hc hstep, hl.trans (logsAgree_step hstep)⟩
  exact ⟨fun e he => selectedClass_of_decoded (hcoherent.msg e he), fun e _ => hlogs _,
    hcoherent.nodup⟩

/-- Outside the slow role `init` makes the event of the log with the given time lock. -/
theorem RbcEvent.init_run {ref : Ref} {t : Nat} {cls : EventClass}
    (hrole : env.cfg.relayerRole ≠ .slowRelayer)
    (h : (s.heap ref).decoded.status.val = cls.status.value) :
    init ref t env s = ⟨.ok ⟨cls, ref, (s.heap ref).decoded, t, .send, true, h⟩, s, []⟩ := by
  rw [init_undelayed (fun _ hs => hrole hs.1) h, construct_run]

theorem madeByInit_sample (status : ChainEventStatus) (cls : EventClass) (src dst : ChainEnum) :
    MadeByInit (Sample.soleEnv status) (Sample.loopState (Sample.event cls src dst)) := by
  refine ⟨fun e he => ?_, List.nodup_singleton _⟩
  obtain rfl : e = Sample.event cls src dst := by simpa [Sample.loopState] using he
  let s := (Sample.loopState (Sample.event cls src dst)).st
  have hdec : (s.heap 0).decoded = Sample.msg src dst cls.status := DetectedEvent.decoded_ofMsg _ 7
  have hst : (s.heap 0).decoded.status.val = cls.status.value := by
    rw [hdec]
    rfl
  refine ⟨1, s, s, [], rfl, (RbcEvent.init_run RelayerRole.noConfusion hst).trans ?_⟩
  simp only [hdec]
  rfl

/-- A failed vote leaves the REQUESTED event's log to its FAILED clone. -/
theorem selfConsistent_of_run_failed : ∃ (hist : List Handling) (σ' : LoopState),
    LoopRun (Sample.soleEnv .accepted)
      (Sample.loopState (Sample.event .requested .ethereum .bifrost)) hist σ' ∧
    hist.length = 1 ∧ σ'.queue.length = 1 ∧
    SelfConsistent (Sample.state (Sample.msg .ethereum .bifrost .requested)) σ' := by
  let e := Sample.event .requested .ethereum .bifrost
  have hexec : (exec (Sample.soleEnv .accepted) [.fail] (Sample.loopState e)).any
      fun p => p.1.length = 1 ∧ p.2.queue.length = 1 := by decide +kernel
  obtain ⟨hist, σ', hrun, hlen⟩ :=
    exists_run (fun hist σ' => hist.length = 1 ∧ σ'.queue.length = 1) hexec
  exact ⟨hist, σ', hrun, hlen.1, hlen.2,
    selfConsistent_of_run (madeByInit_sample .accepted .requested .ethereum .bifrost) hrun⟩

end Bifrost
