import Bifrost.Lib.Hex
import Bifrost.Relayer.Quiet
import Mathlib.Algebra.BigOperators.Group.List.Basic

/-!
# The exporter

`rbclib/metric.py`, as far as requests go: a counter for each status and, under
the lower-case name of each source chain, a gauge of what is incomplete.
`Exporter.record` is what the metrics among some effects do to them, and
`gauge_record` reads a gauge off the scores of these metrics.
-/

namespace Bifrost

open Bifrost.Lib

def ChainEnum.name : ChainEnum → Str
  | none => "NONE".toList
  | bifrost => "BIFROST".toList
  | ethereum => "ETHEREUM".toList
  | binance => "BINANCE".toList
  | matic => "MATIC".toList
  | avalanche => "AVALANCHE".toList
  | base => "BASE".toList

theorem ChainEnum.lower_name_inj {c d : ChainEnum} (h : lower c.name = lower d.name) : c = d := by
  revert h
  cases c <;> cases d <;> decide

def ChainEventStatus.name : ChainEventStatus → Str
  | none => "NONE".toList
  | requested => "REQUESTED".toList
  | failed => "FAILED".toList
  | executed => "EXECUTED".toList
  | reverted => "REVERTED".toList
  | accepted => "ACCEPTED".toList
  | rejected => "REJECTED".toList
  | committed => "COMMITTED".toList
  | rollbacked => "ROLLBACKED".toList
  | nextAuthorityRelayed => "NEXT_AUTHORITY_RELAYED".toList
  | nextAuthorityCommitted => "NEXT_AUTHORITY_COMMITTED".toList

structure Exporter where
  /-- `INCOMPLETE_SCORE_GAUGE`, by its label. -/
  incompleteScore : Str → Int
  /-- `REQUEST_COUNTERS`, by its label. -/
  requestCounters : Str → Nat

namespace Exporter

def inc (x : Exporter) (label : Str) (n : Int) : Exporter :=
  { x with incompleteScore :=
      Function.update x.incompleteScore label (x.incompleteScore label + n) }

def dec (x : Exporter) (label : Str) (n : Int) : Exporter := x.inc label (-n)

/-- `ignored` in `exporting_request_metric`. -/
def ignored : List ChainEventStatus :=
  [.none, .accepted, .rejected, .nextAuthorityRelayed, .nextAuthorityCommitted]

/-- `exporting_request_metric`, behind its check that the exporter is on. -/
def exportingRequestMetric (x : Exporter) (chain : ChainEnum) (status : ChainEventStatus) :
    Exporter :=
  let x := { x with requestCounters :=
      Function.update x.requestCounters status.name (x.requestCounters status.name + 1) }
  if status ∈ ignored then x
  else if status = .requested then x.inc (lower chain.name) 2
  else x.dec (lower chain.name) 1

end Exporter

namespace Effect

def metric? : Effect → Option (ChainEnum × ChainEventStatus)
  | .metric chain status => some (chain, status)
  | _ => none

end Effect

def metricsOf (w : List Effect) : List (ChainEnum × ChainEventStatus) := w.filterMap Effect.metric?

@[simp] theorem metricsOf_append (w w' : List Effect) :
    metricsOf (w ++ w') = metricsOf w ++ metricsOf w' :=
  List.filterMap_append ..

@[simp] theorem metricsOf_sent (tx : SendTx) (w : List Effect) :
    metricsOf (.sent tx :: w) = metricsOf w := rfl

/-- The exporter after the metrics among the effects. -/
def Exporter.record (x : Exporter) (w : List Effect) : Exporter :=
  (metricsOf w).foldl (fun x p => x.exportingRequestMetric p.1 p.2) x

/-! ## Scores -/

/-- The gauge of the chain. -/
def Exporter.gauge (x : Exporter) (c : ChainEnum) : Int := x.incompleteScore (lower c.name)

/-- What a metric of the status adds to the gauge of its chain. -/
def score (t : ChainEventStatus) : Int :=
  if t ∈ Exporter.ignored then 0 else if t = .requested then 2 else -1

/-- What the metrics add to the gauge of `c`. -/
def scoreOf (c : ChainEnum) (w : List Effect) : Int :=
  ((metricsOf w).map fun p => if p.1 = c then score p.2 else 0).sum

namespace Exporter

theorem gauge_inc (x : Exporter) (c d : ChainEnum) (n : Int) :
    (x.inc (lower c.name) n).gauge d = x.gauge d + if c = d then n else 0 := by
  unfold gauge inc
  by_cases hcd : c = d
  · rw [if_pos hcd, hcd]
    exact Function.update_self ..
  · rw [if_neg hcd, Int.add_zero]
    exact Function.update_of_ne (fun h => hcd (ChainEnum.lower_name_inj h).symm) ..

theorem gauge_exportingRequestMetric (x : Exporter) (c d : ChainEnum) (t : ChainEventStatus) :
    (x.exportingRequestMetric c t).gauge d = x.gauge d + if c = d then score t else 0 := by
  unfold exportingRequestMetric score
  split
  · simp [gauge]
  · split
    · exact gauge_inc ..
    · exact gauge_inc ..

/-- A gauge moves by the scores of its metrics. -/
theorem gauge_record (x : Exporter) (c : ChainEnum) (w : List Effect) :
    (x.record w).gauge c = x.gauge c + scoreOf c w := by
  unfold record scoreOf
  generalize metricsOf w = l
  induction l generalizing x with
  | nil => simp
  | cons p l ih =>
    rw [List.foldl_cons, ih, gauge_exportingRequestMetric, List.map_cons, List.sum_cons,
      Int.add_assoc]

end Exporter

end Bifrost
