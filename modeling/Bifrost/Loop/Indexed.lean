import Bifrost.Loop.AuthCache
import Bifrost.Loop.Node

/-!
# The cache of a process

What storing the relayer's own indices keeps, every step of a process keeps until
the process ends (`cacheProp_step`). And in every run of a process, its restarts
included, an index that the cache holds for a round is the relayer's index in some
answer of BIFROST for this round (`indexed_run`): of the start, of a check or of a
period of the feed.
-/

namespace Bifrost

open Bifrost.Lib

/-- An index is one that BIFROST has answered for the round. -/
def Answered (env : Env) (k : Int) (v : Option Nat) : Prop :=
  ∀ i, v = some i → ∃ t,
    rank ((env.view t).previousSelectedRelayers .bifrost k true) env.account.address = some i

/-- Every index of the cache is answered. -/
abbrev Indexed (env : Env) (s : RState) : Prop := CacheInv (Answered env) env s

variable {env : Env} {s s' : RState} {w : List Effect}

theorem Indexed.empty (h : ∀ k, s.cache k = none) : Indexed env s := by
  refine ⟨fun t k _ hi j hj => ?_, fun k v hv => ?_⟩
  · obtain rfl := Option.some.inj hj
    exact ⟨t, hi⟩
  · rw [h] at hv
    cases hv

theorem Indexed.of_cache (hcache : s'.cache = s.cache) (h : Indexed env s) : Indexed env s' :=
  (CacheInv.cacheProp _).of_cache hcache h

theorem Indexed.keeps {α : Type} {x : RM α} (hx : KeepsCache x) (h : Indexed env s) :
    Indexed env (x env s).st :=
  hx _ (CacheInv.cacheProp _) env s h

theorem admitsRound_answered (k : Int) : AdmitsRound env (Answered env) k :=
  fun t _ hi => ⟨t, hi⟩

/-! ## One step -/

namespace RbcEvent

variable {self : RbcEvent}

theorem keepsCache_handleTxResult (outcome : TxOutcome) :
    KeepsCache (self.handleTxResult outcome) := by
  cases outcome with
  | success => exact quiet_handleTxResultSuccess.cache
  | fail => exact keepsCache_handleTxResultFail
  | noReceipt => exact keepsCache_handleTxResultNoReceipt

theorem keepsCache_process (outcome : TxOutcome) : KeepsCache (self.process outcome) := by
  unfold process
  split
  · refine .bind keepsCache_buildTransactionParams fun p => ?_
    cases p with
    | none => exact .pure _
    | some tx => exact .bind (.emit _) fun _ => keepsCache_handleTxResult outcome
  · refine .bind quiet_buildCallTransactionParams.cache fun p => ?_
    cases p with
    | none => exact .pure _
    | some tx =>
      have hread : KeepsCache (RM.getRequest tx) :=
        .bind (Quiet.worldCall ..).cache fun _ => .bind (.emit _) fun _ => .pure _
      exact .bind hread fun info => keepsCache_handleCallResult info

end RbcEvent

theorem keepsCache_process (outcome : TxOutcome) (q : Queued) :
    KeepsCache (process outcome q) := by
  cases q with
  | socket e => exact .bind (RbcEvent.keepsCache_process outcome) fun _ => .pure _
  | roundUp e => exact .bind (RoundUpEvent.keepsSockets_process outcome).cache fun _ => .pure _

theorem keepsCache_bottomLoop (chains : List ChainEnum) (n : Nat) :
    KeepsCache (RM.bottomLoop chains n) := by
  induction chains generalizing n with
  | nil => exact .pure _
  | cons c chains ih => exact .bind (Quiet.fetchLatestRound c).cache fun _ => ih _

theorem keepsCache_registerFeed (timeLock : Nat) :
    KeepsCache (Relayer.registerFeed timeLock) := by
  have hcfg : KeepsCache RM.getConfig := Quiet.getConfig.cache
  refine .bind hcfg fun _ => .ite (.pure _) (.bind (.bind hcfg fun _ => ?_) fun _ => .pure _)
  refine .ite (Quiet.throw _).cache (.bind (.bind hcfg fun _ => ?_) fun _ => ?_)
  · exact keepsCache_bottomLoop _ _
  · exact .bind (.modify fun _ => rfl) fun _ => .pure _

/-- A start registers answers. -/
theorem Indexed.boot {order : Comparison RbcEvent} {roundUpOrder : Comparison RoundUpEvent}
    {timeLock : Nat} {refs : List Ref} {roundUps : List RoundUpLog} {es : List RbcEvent}
    {us : List RoundUpEvent} (h : Indexed env s)
    (hboot : Relayer.boot order roundUpOrder timeLock refs roundUps env s =
      ⟨.ok (es, us), s', w⟩) : Indexed env s' := by
  obtain ⟨_, s₁, w₁, w₂, h₁, h₂, -⟩ := Proc.bind_ok hboot
  have hstart : Indexed env s₁ := by
    have hkept := cacheProp_start (CacheInv.cacheProp (Answered env))
      (fun k _ => (admitsRound_answered k).kept) h
    rwa [h₁] at hkept
  obtain ⟨_, s₂, w₃, w₄, h₃, h₄, -⟩ := Proc.bind_ok h₂
  have hfed := hstart.keeps (keepsCache_registerFeed timeLock)
  rw [h₃] at hfed
  obtain ⟨es', s₃, w₅, w₆, h₅, h₆, -⟩ := Proc.bind_ok h₄
  obtain ⟨rfl, -, -⟩ := RbcEvent.bootstrap_selects h₅
  obtain ⟨us', s₄, w₇, w₈, h₇, h₈, -⟩ := Proc.bind_ok h₆
  obtain ⟨-, rfl, -⟩ := RoundUpEvent.bootstrap_ok h₇
  obtain ⟨-, rfl, -⟩ := Proc.pure_ok h₈
  exact hfed

/-- What storing the relayer's own indices keeps is kept until the process ends. -/
theorem cacheProp_step {P : Env → RState → Prop} {n n' : Node} {acts : List Act}
    (hP : CacheProp P) (h : P env n.loop.st) (hstep : NodeStep env n acts n')
    (hlive : ∀ a ∈ acts, a.isBoot = false) : P env n'.loop.st := by
  cases hstep with
  | @detect st _ _ _ _ _ _ _ hd | @passOver st _ _ _ _ _ _ hd =>
    obtain ⟨rfl, -, -⟩ := RbcEvent.detect_ok hd
    exact hP.of_cache (s := st) rfl h
  | @detectRoundUp st st' queue next log timeLock e w hinit =>
    have hkept := (RoundUpEvent.quiet_init log timeLock).cache P hP env st h
    rwa [hinit] at hkept
  | handle next hd hloop =>
    cases hloop with
    | @handle st st' l₁ l₂ _ hp =>
      have hkept := keepsCache_process hd.outcome hd.event P hP env st h
      rwa [hp] at hkept
  | period st queue next outcome _ =>
    exact (VSPFeed.keepsSockets_period outcome).cache P hP env st h
  | wait st queue next => exact hP.of_cache (RState.tick_cache st) h
  | restart => cases hlive _ (List.mem_singleton_self _)

/-- Step lemma. -/
theorem indexed_step {n n' : Node} {acts : List Act} (h : Indexed env n.loop.st)
    (hstep : NodeStep env n acts n') : Indexed env n'.loop.st := by
  by_cases hlive : ∀ a ∈ acts, a.isBoot = false
  · exact cacheProp_step (P := CacheInv (Answered env)) (CacheInv.cacheProp _) h hstep hlive
  · cases hstep with
    | restart queue order roundUpOrder timeLock logs roundUps es us w hboot =>
      -- a new process starts with an empty cache
      exact (Indexed.empty fun _ => rfl).boot hboot
    | detect | passOver | detectRoundUp | handle | period | wait =>
      exact absurd (by simp [Act.isBoot]) hlive

/-- Run lemma. -/
theorem indexed_run {n n' : Node} {acts : List Act} (h : ∀ k, n.loop.st.cache k = none)
    (hrun : NodeRun env n acts n') : Indexed env n'.loop.st :=
  hrun.invariant (P := fun _ n => Indexed env n.loop.st) (.empty h)
    fun hi hstep => indexed_step hi hstep

end Bifrost
