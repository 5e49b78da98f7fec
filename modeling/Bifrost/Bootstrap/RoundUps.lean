import Bifrost.Lib.TupleOrder
import Bifrost.Loop.RoundUpCase

/-!
# Bootstrap of RoundUp events

`RoundUpEvent.bootstrap`: every collected log becomes an event, and of those with
the status NEXT_AUTHORITY_COMMITTED the last one of the sorted `(round, event)`
tuples is queued. So there is one exactly when a round change has been completed,
and it is one of the latest; chainpy's comparison of events decides between two
logs of one round (`bootstrap_exact`).
-/

namespace Bifrost

open Bifrost.Lib

/-- The log of a completed round change. -/
def RoundUpLog.IsCommitted (log : RoundUpLog) : Prop :=
  ChainEventStatus.ofValue? log.statusData = some .nextAuthorityCommitted

instance (log : RoundUpLog) : Decidable log.IsCommitted := inferInstanceAs (Decidable (_ = _))

namespace RoundUpEvent

/-- The loop that collects the events of completed round changes. -/
def targetEventObjects : List RoundUpLog → RM (List (Nat × RoundUpEvent))
  | [] => pure []
  | detectedEvent :: detectedEvents => do
    let eventObj ← init detectedEvent 0
    let status ← eventObj.status
    let targets ← targetEventObjects detectedEvents
    pure (if status = .nextAuthorityCommitted then (eventObj.round, eventObj) :: targets
      else targets)

def bootstrap (order : Comparison RoundUpEvent) (detectedEvents : List RoundUpLog) :
    RM (List RoundUpEvent) := do
  let targets ← targetEventObjects detectedEvents
  pure (((order.sorted targets).getLast?.map Prod.snd).toList)

/-! ## What it returns -/

variable {env : Env} {s s' : RState} {w : List Effect} {logs : List RoundUpLog}

/-- What the loop collects. -/
def targetsOf (cfg : Config) (logs : List RoundUpLog) : List (Nat × RoundUpEvent) :=
  (logs.filter (·.IsCommitted)).map fun log => (log.round, made cfg log 0)

theorem targetsOf_cons (cfg : Config) (log : RoundUpLog) (logs : List RoundUpLog) :
    targetsOf cfg (log :: logs) =
      if log.IsCommitted then (log.round, made cfg log 0) :: targetsOf cfg logs
      else targetsOf cfg logs := by
  unfold targetsOf
  by_cases h : log.IsCommitted <;> simp [h]

/-- The logs the bootstrap can read. -/
def Readable (cfg : Config) (logs : List RoundUpLog) : Prop :=
  ∀ log ∈ logs, .bifrost ∈ cfg.supportedChainList ∧
    (ChainEventStatus.ofValue? log.statusData).isSome

theorem init_zero (log : RoundUpLog) : init log 0 env s =
    if .bifrost ∈ env.cfg.supportedChainList then ⟨.ok (made env.cfg log 0), s, []⟩
    else ⟨.error .valueError, s, []⟩ := by
  unfold init construct
  by_cases h : ChainEnum.bifrost ∈ env.cfg.supportedChainList
  · simp [h, made]
  · simp [h]

theorem targetEventObjects_run (h : Readable env.cfg logs) :
    targetEventObjects logs env s = ⟨.ok (targetsOf env.cfg logs), s, []⟩ := by
  induction logs with
  | nil => rfl
  | cons log logs ih =>
    obtain ⟨hb, hst⟩ := h log List.mem_cons_self
    obtain ⟨t, ht⟩ := Option.isSome_iff_exists.mp hst
    have hstatus : (made env.cfg log 0).status env s = ⟨.ok t, s, []⟩ := by
      show Proc.ofOption Exn.valueError (ChainEventStatus.ofValue? log.statusData) env s = _
      rw [ht]
      rfl
    have ih' := ih fun l hl => h l (List.mem_cons_of_mem log hl)
    unfold targetEventObjects
    rw [Proc.bind_run, init_zero, if_pos hb, Res.andThen_ok, Res.after_nil, Proc.bind_run, hstatus,
      Res.andThen_ok, Res.after_nil, Proc.bind_run, ih', Res.andThen_ok, Res.after_nil,
      Proc.pure_run]
    by_cases hc : t = .nextAuthorityCommitted
    · have hlog : log.IsCommitted := ht.trans (congrArg some hc)
      rw [if_pos hc, targetsOf_cons, if_pos hlog]
      rfl
    · have hlog : ¬ log.IsCommitted := fun hl => hc (Option.some.inj (ht.symm.trans hl))
      rw [if_neg hc, targetsOf_cons, if_neg hlog]

theorem targetEventObjects_error (h : ¬ Readable env.cfg logs) :
    targetEventObjects logs env s = ⟨.error .valueError, s, []⟩ := by
  induction logs with
  | nil => exact absurd (fun log hlog => by cases hlog) h
  | cons log logs ih =>
    unfold targetEventObjects
    rw [Proc.bind_run, init_zero]
    by_cases hb : .bifrost ∈ env.cfg.supportedChainList
    · rw [if_pos hb, Res.andThen_ok, Res.after_nil, Proc.bind_run]
      have hstatus : (made env.cfg log 0).status env s =
          Proc.ofOption Exn.valueError (ChainEventStatus.ofValue? log.statusData) env s := rfl
      rw [hstatus]
      cases ht : ChainEventStatus.ofValue? log.statusData with
      | none => rfl
      | some t =>
        have hrest : ¬ Readable env.cfg logs := by
          refine fun hlogs => h fun log' hlog' => ?_
          rcases List.mem_cons.mp hlog' with rfl | hlog'
          · exact ⟨hb, by rw [ht]; rfl⟩
          · exact hlogs log' hlog'
        rw [Proc.ofOption_some, Proc.pure_run, Res.andThen_ok, Res.after_nil, Proc.bind_run,
          ih hrest, Res.andThen_error]
    · rw [if_neg hb, Res.andThen_error]

/-- One of the latest completed changes, if there is any. -/
inductive Resumes (cfg : Config) (logs : List RoundUpLog) : List RoundUpEvent → Prop where
  | nothing : (∀ log ∈ logs, ¬ log.IsCommitted) → Resumes cfg logs []
  | latest (log : RoundUpLog) : log ∈ logs → log.IsCommitted →
      (∀ log' ∈ logs, log'.IsCommitted → log'.round ≤ log.round) →
      Resumes cfg logs [made cfg log 0]

theorem resumes_of_sorted (order : Comparison RoundUpEvent) (cfg : Config)
    (logs : List RoundUpLog) : Resumes cfg logs
      (((order.sorted (targetsOf cfg logs)).getLast?.map Prod.snd).toList) := by
  cases hlast : (order.sorted (targetsOf cfg logs)).getLast? with
  | none =>
    rw [order.getLast?_sorted_eq_none, targetsOf, List.map_eq_nil_iff,
      List.filter_eq_nil_iff] at hlast
    exact .nothing fun log hlog => by simpa using hlast log hlog
  | some p =>
    obtain ⟨hp, hmax⟩ := order.getLast?_sorted hlast
    obtain ⟨log, hlog, rfl⟩ := List.mem_map.mp hp
    obtain ⟨hlog, hc⟩ := List.mem_filter.mp hlog
    refine .latest log hlog (by simpa using hc) fun log' hlog' hc' => ?_
    exact hmax _ (List.mem_map_of_mem (f := fun log => (log.round, made cfg log 0))
      (List.mem_filter.mpr ⟨hlog', by simpa using hc'⟩))

theorem bootstrap_run (order : Comparison RoundUpEvent) (h : Readable env.cfg logs) :
    bootstrap order logs env s =
      ⟨.ok (((order.sorted (targetsOf env.cfg logs)).getLast?.map Prod.snd).toList), s, []⟩ := by
  unfold bootstrap
  rw [Proc.bind_run, targetEventObjects_run h, Res.andThen_ok, Res.after_nil, Proc.pure_run]

theorem bootstrap_error (order : Comparison RoundUpEvent) (h : ¬ Readable env.cfg logs) :
    bootstrap order logs env s = ⟨.error .valueError, s, []⟩ := by
  unfold bootstrap
  rw [Proc.bind_run, targetEventObjects_error h, Res.andThen_error]

theorem bootstrap_ok {order : Comparison RoundUpEvent} {events : List RoundUpEvent}
    (h : bootstrap order logs env s = ⟨.ok events, s', w⟩) :
    Resumes env.cfg logs events ∧ s' = s ∧ w = [] := by
  by_cases hread : Readable env.cfg logs
  · rw [bootstrap_run order hread] at h
    cases h
    exact ⟨resumes_of_sorted order env.cfg logs, rfl, rfl⟩
  · rw [bootstrap_error order hread] at h
    cases h

/-- **Bootstrap of RoundUp events.** It leaves no trace, returns exactly where each log has a status
and BIFROST is supported, with one of the latest completed changes, if there is any, and raises
`ValueError` elsewhere. -/
theorem bootstrap_exact (order : Comparison RoundUpEvent) (logs : List RoundUpLog) (env : Env)
    (s : RState) :
    ∃ v, bootstrap order logs env s = ⟨v, s, []⟩ ∧
      ((∃ events, v = .ok events) ↔ Readable env.cfg logs) ∧
      (∀ events, v = .ok events → Resumes env.cfg logs events) ∧
      ∀ e, v = .error e → e = .valueError := by
  by_cases h : Readable env.cfg logs
  · refine ⟨_, bootstrap_run order h, ⟨fun _ => h, fun _ => ⟨_, rfl⟩⟩, fun events heq => ?_,
      fun e heq => ?_⟩
    · cases heq
      exact resumes_of_sorted order env.cfg logs
    · cases heq
  · refine ⟨_, bootstrap_error order h, ⟨?_, fun hread => absurd hread h⟩, fun events heq => ?_,
      fun e heq => ?_⟩
    · rintro ⟨events, heq⟩
      cases heq
    · cases heq
    · exact (Except.error.inj heq).symm

end RoundUpEvent

end Bifrost
