import Bifrost.Loop
import Bifrost.Periodic.VspSpec
import Mathlib.Data.Nat.Find
import Mathlib.Order.Bounds.Basic

/-!
# Runs of the feed

A feed starts at the least round of its chains; every period hands its marker
to the next one through `clone_next`. The marker never falls, a vote raises it
to the voted round, so the votes of a run are for ever higher rounds, whatever
the chains answer and whatever becomes of the transactions.
-/

namespace Bifrost

open Bifrost.Lib

namespace VSPFeed

/-- A period: the state it began in, and the outcome of its transaction. -/
structure Period where
  before : RState
  outcome : TxOutcome

/-- The transaction that the period returned, if any. -/
def Period.params (env : Env) (p : Period) : SendParamTuple :=
  (buildTransactionParams env p.before).val.toOption.join

/-- The round that a transaction votes for. -/
def votedRound (tx : SendTx) : Option Nat :=
  match tx.args with
  | .roundControlPoll rnd _ _ => some rnd
  | _ => none

/-- The rounds that the periods voted for, in order. -/
def votedRounds (env : Env) (ps : List Period) : List Nat :=
  ps.filterMap fun p => (p.params env).bind votedRound

/-- The markers at the beginning of the periods, in order. -/
def cachedRounds (ps : List Period) : List Nat := ps.map fun p => p.before.currentRound

structure FeedState where
  feed : VSPFeed
  st : RState

/-- A period and its clone, where the period may have raised; between periods the rest of the
process does anything but write the marker, which is the feed's own. -/
inductive FeedStep (env : Env) : FeedState → List Period → FeedState → Prop where
  | period {self next : VSPFeed} {s t : RState} {outcome : TxOutcome} {w : List Effect} :
      self.cloneNext env (VSPFeed.period outcome env s).st = ⟨.ok next, t, w⟩ →
      FeedStep env ⟨self, s⟩ [⟨s, outcome⟩] ⟨next, t⟩
  | elapse {self : VSPFeed} {s t : RState} : t.currentRound = s.currentRound →
      FeedStep env ⟨self, s⟩ [] ⟨self, t⟩

abbrev FeedRun (env : Env) := Run (FeedStep env)

variable {env : Env} {s s' : RState} {w : List Effect}

/-! ## The first round -/

/-- The answers to the reads of `fetch_bottom_round`, the first one at `t`. -/
def bottomReads (env : Env) : List ChainEnum → Nat → List Nat
  | [], _ => []
  | chain :: chains, t => (env.view t).latestRound chain :: bottomReads env chains (t + 1)

/-- The loop ends with the least of its reads and of the bound it began with. -/
theorem bottomLoop_ok {chains : List ChainEnum} {bound bottom : Nat}
    (h : RM.bottomLoop chains bound env s = ⟨.ok bottom, s', w⟩) :
    bottom ≤ bound ∧ (∀ rnd ∈ bottomReads env chains s.now, bottom ≤ rnd) ∧
      (bottom = bound ∨ bottom ∈ bottomReads env chains s.now) := by
  induction chains generalizing s w bound with
  | nil =>
    obtain ⟨rfl, -, -⟩ := Proc.pure_ok h
    exact ⟨le_rfl, fun rnd hrnd => (List.not_mem_nil hrnd).elim, .inl rfl⟩
  | cons c chains ih =>
    obtain ⟨rnd, s₁, w₁, w₂, h₁, h₂, rfl⟩ := Proc.bind_ok h
    obtain ⟨rfl, rfl, rfl⟩ := worldCall_ok h₁
    obtain ⟨hle, hall, hmem⟩ := ih h₂
    rw [RState.tick_now] at hall hmem
    simp only [bottomReads, List.mem_cons, forall_eq_or_imp]
    split at hle
    · next hlt =>
      rw [if_pos hlt] at hmem
      exact ⟨by omega, ⟨hle, hall⟩, .inr (hmem.imp id id)⟩
    · next hge =>
      rw [if_neg hge] at hmem
      exact ⟨hle, ⟨by omega, hall⟩, hmem.imp id .inr⟩

theorem bottomReads_ne_nil (env : Env) {chains : List ChainEnum} (h : chains ≠ []) (t : Nat) :
    bottomReads env chains t ≠ [] := by
  cases chains with
  | nil => exact absurd rfl h
  | cons c chains => exact List.cons_ne_nil _ _

/-- A feed without a round begins at the bottom round. -/
theorem construct_none_ok {periodSec timeLock : Nat} {feed : VSPFeed}
    (h : construct periodSec timeLock none env s = ⟨.ok feed, s', w⟩) :
    .bifrost ∈ env.cfg.supportedChainList ∧
      (∀ rnd ∈ bottomReads env env.cfg.supportedChainList s.now, s'.currentRound ≤ rnd) ∧
      (s'.currentRound = 2 ^ 256 - 1 ∨
        s'.currentRound ∈ bottomReads env env.cfg.supportedChainList s.now) := by
  unfold construct at h
  rw [Proc.bind_run, getConfig_run, Res.andThen_ok, Res.after_nil] at h
  dsimp only at h
  split at h
  · cases h
  next hmem =>
  obtain ⟨bottom, s₁, w₁, w₂, h₁, h₂, rfl⟩ := Proc.bind_ok h
  unfold RM.fetchBottomRound at h₁
  rw [Proc.bind_run, getConfig_run, Res.andThen_ok, Res.after_nil] at h₁
  obtain ⟨-, hall, hbot⟩ := bottomLoop_ok h₁
  cases h₂
  exact ⟨not_not.mp hmem, hall, hbot⟩

/-- A clone leaves the process as it is: the marker it takes over is the one there is. -/
theorem cloneNext_run (env : Env) (s : RState) (self : VSPFeed) :
    ∃ next, self.cloneNext env s = ⟨.ok next, s, []⟩ :=
  ⟨_, rfl⟩

/-! ## One period -/

theorem le_currentRound (env : Env) (s : RState) :
    s.currentRound ≤ (buildTransactionParams env s).st.currentRound := by
  have hcase := period_cases env s
  generalize buildTransactionParams env s = res at hcase ⊢
  cases hcase with
  | unread => exact le_rfl
  | stale => exact le_rfl
  | fresh hup hnew =>
    rw [Res.after_st, newRound_st]
    exact hnew.le

theorem params_run {p : Period} {tx : SendTx} (h : p.params env = some tx) :
    ∃ s' w, buildTransactionParams env p.before = ⟨.ok (some tx), s', w⟩ :=
  Res.ok_of_toOption (Option.join_eq_some_iff.mp h)

theorem encodeRound_lt {rnd : Nat} {l : List Str} {msg : Bytes}
    (h : encodeRound rnd l = some msg) : rnd < 2 ^ 256 := by
  obtain ⟨addrs, -, henc⟩ := Option.bind_eq_some_iff.mp h
  by_contra hge
  rw [encodeRoundObjs, dif_neg hge] at henc
  cases henc

/-- The round of a vote was above the marker, and is the marker afterwards. -/
theorem voted_round {p : Period} {rnd : Nat} (h : (p.params env).bind votedRound = some rnd) :
    p.before.currentRound < rnd ∧ rnd < 2 ^ 256 ∧
      (buildTransactionParams env p.before).st.currentRound = rnd := by
  obtain ⟨tx, htx, hrnd⟩ := Option.bind_eq_some_iff.mp h
  obtain ⟨s', w, hrun⟩ := params_run htx
  obtain ⟨hnew, hst, -, -, msg, sigs, hmsg, -, rfl, -⟩ := period_vote hrun
  cases hrnd
  rw [hrun]
  exact ⟨hnew, encodeRound_lt hmsg, hst⟩

/-! ## Runs -/

/-- What the periods so far have voted, from the first marker `bottom` to the marker of `s`. -/
structure Increasing (env : Env) (bottom : Nat) (ps : List Period) (s : RState) : Prop where
  bottom_le : bottom ≤ s.currentRound
  cached : (cachedRounds ps).Pairwise (· ≤ ·)
  cached_bounds : ∀ rnd ∈ cachedRounds ps, bottom ≤ rnd ∧ rnd ≤ s.currentRound
  voted : (votedRounds env ps).Pairwise (· < ·)
  voted_bounds : ∀ rnd ∈ votedRounds env ps, bottom < rnd ∧ rnd < 2 ^ 256 ∧ rnd ≤ s.currentRound

theorem Increasing.nil (env : Env) (s : RState) : Increasing env s.currentRound [] s where
  bottom_le := le_rfl
  cached := .nil
  cached_bounds := fun _ h => (List.not_mem_nil h).elim
  voted := .nil
  voted_bounds := fun _ h => (List.not_mem_nil h).elim

/-- Step lemma: one period. -/
theorem Increasing.period {bottom : Nat} {ps : List Period} (h : Increasing env bottom ps s)
    (outcome : TxOutcome) :
    Increasing env bottom (ps ++ [⟨s, outcome⟩]) (buildTransactionParams env s).st := by
  have hmark := le_currentRound env s
  have hvoted : ∀ rnd ∈ votedRounds env [⟨s, outcome⟩], s.currentRound < rnd ∧ rnd < 2 ^ 256 ∧
      (buildTransactionParams env s).st.currentRound = rnd := by
    intro rnd hrnd
    obtain ⟨p, hp, hr⟩ := List.mem_filterMap.mp hrnd
    obtain rfl := List.mem_singleton.mp hp
    exact voted_round hr
  refine ⟨h.bottom_le.trans hmark, ?_, ?_, ?_, ?_⟩
  · rw [cachedRounds, List.map_append, List.pairwise_append]
    refine ⟨h.cached, List.pairwise_singleton _ _, fun rnd hrnd rnd' hrnd' => ?_⟩
    obtain rfl := List.mem_singleton.mp hrnd'
    exact (h.cached_bounds rnd hrnd).2
  · intro rnd hrnd
    rw [cachedRounds, List.map_append] at hrnd
    rcases List.mem_append.mp hrnd with hrnd | hrnd
    · obtain ⟨hlo, hhi⟩ := h.cached_bounds rnd hrnd
      exact ⟨hlo, hhi.trans hmark⟩
    · obtain rfl := List.mem_singleton.mp hrnd
      exact ⟨h.bottom_le, hmark⟩
  · rw [votedRounds, List.filterMap_append, List.pairwise_append]
    refine ⟨h.voted, ?_, fun rnd hrnd rnd' hrnd' => ?_⟩
    · rw [List.filterMap_cons]
      split
      · exact .nil
      · exact List.pairwise_singleton _ _
    · -- an earlier vote is at most the marker, a new one is above it
      exact (h.voted_bounds rnd hrnd).2.2.trans_lt (hvoted rnd' hrnd').1
  · intro rnd hrnd
    rw [votedRounds, List.filterMap_append] at hrnd
    rcases List.mem_append.mp hrnd with hrnd | hrnd
    · obtain ⟨hlo, hlt, hhi⟩ := h.voted_bounds rnd hrnd
      exact ⟨hlo, hlt, hhi.trans hmark⟩
    · obtain ⟨hnew, hlt, hst⟩ := hvoted rnd hrnd
      exact ⟨h.bottom_le.trans_lt hnew, hlt, hst.ge⟩

/-- Run lemma. -/
theorem increasing_run {f f' : FeedState} {ps : List Period} (hrun : FeedRun env f ps f') :
    Increasing env f.st.currentRound ps f'.st := by
  refine hrun.invariant (P := fun hist f' => Increasing env f.st.currentRound hist f'.st)
    (.nil env f.st) ?_
  intro hist fs ls fs' ih hstep
  cases hstep with
  | @period self next s t outcome w hclone =>
    obtain ⟨next', hrun'⟩ := cloneNext_run env (VSPFeed.period outcome env s).st self
    rw [hrun'] at hclone
    cases hclone
    rw [period_st]
    exact ih.period outcome
  | elapse hmark =>
    rw [List.append_nil]
    exact { ih with
      bottom_le := ih.bottom_le.trans_eq hmark.symm
      cached_bounds := fun rnd hrnd =>
        (ih.cached_bounds rnd hrnd).imp_right fun h => h.trans_eq hmark.symm
      voted_bounds := fun rnd hrnd => (ih.voted_bounds rnd hrnd).imp_right fun h =>
        h.imp_right fun h => h.trans_eq hmark.symm }

/-- The reads of a period give the authority for its vote: before the vote they ask whether the
relayer was selected in the round before, and the answer is True. -/
def Authorises (env : Env) (p : Period) (tx : SendTx) : Prop :=
  ∃ rnd asked rest, votedRound tx = some rnd ∧ (buildTransactionParams env p.before).out =
      asked ++ .called .bifrost "is_previous_selected_relayer" :: rest ∧
    (∀ o ∈ asked, o.IsCall) ∧ env.down (p.before.now + asked.length) = false ∧
    (env.view (p.before.now + asked.length)).isPreviousSelectedRelayer .bifrost (rnd - 1)
      env.account.address.hex true = true

theorem params_authorised {p : Period} {tx : SendTx} (h : p.params env = some tx) :
    Authorises env p tx := by
  obtain ⟨s', w, hrun⟩ := params_run h
  obtain ⟨-, -, hup, hsel, msg, sigs, -, -, rfl, rfl⟩ := period_vote hrun
  rw [Authorises, hrun]
  let asked := roundCalls (.bifrost :: env.cfg.supportedChainList) ++
    [.called .bifrost "previous_selected_relayers"]
  have hread : p.before.now + asked.length = listRead env.cfg p.before.now - 1 := by
    simp only [asked, roundCalls, listRead, List.length_append, List.length_map, List.length_cons,
      List.length_nil]
    omega
  refine ⟨_, asked, [.called .bifrost "selected_relayers", .signed msg], rfl,
    by simp [asked], fun o ho => ?_, ?_, ?_⟩
  · rcases List.mem_append.mp ho with ho | ho
    · exact isCall_roundCalls ho
    · obtain rfl := List.mem_singleton.mp ho
      trivial
  · rwa [hread]
  · rwa [hread]

/-- **One vote per round.** From a feed that computed its first round, the marker never falls,
the voted rounds increase and are above the least round that the start has read, and every vote
has its authority from a read of its own period. -/
theorem votes_increasing {periodSec timeLock : Nat} {feed : VSPFeed} {f : FeedState}
    {ps : List Period} (hinit : construct periodSec timeLock none env s = ⟨.ok feed, s', w⟩)
    (hrun : FeedRun env ⟨feed, s'⟩ ps f) :
    (s'.currentRound :: cachedRounds ps ++ [f.st.currentRound]).Pairwise (· ≤ ·) ∧
      (votedRounds env ps).Pairwise (· < ·) ∧
      (∃ bottom, IsLeast {rnd | rnd ∈ bottomReads env env.cfg.supportedChainList s.now} bottom ∧
        ∀ rnd ∈ votedRounds env ps, bottom < rnd) ∧
      ∀ p ∈ ps, ∀ tx, p.params env = some tx → Authorises env p tx := by
  have hinc := increasing_run hrun
  obtain ⟨hmem, hall, hbot⟩ := construct_none_ok hinit
  refine ⟨?_, hinc.voted, ?_, fun p _ tx htx => params_authorised htx⟩
  · rw [List.cons_append, List.pairwise_cons, List.pairwise_append]
    refine ⟨fun rnd hrnd => ?_, hinc.cached, List.pairwise_singleton _ _,
      fun rnd hrnd rnd' hrnd' => ?_⟩
    · rcases List.mem_append.mp hrnd with hrnd | hrnd
      · exact (hinc.cached_bounds rnd hrnd).1
      · rw [List.mem_singleton.mp hrnd]
        exact hinc.bottom_le
    · rw [List.mem_singleton.mp hrnd']
      exact (hinc.cached_bounds rnd hrnd).2
  · have hread := List.exists_mem_of_ne_nil _
      (bottomReads_ne_nil env (List.ne_nil_of_mem hmem) s.now)
    have hleast : IsLeast {rnd | rnd ∈ bottomReads env env.cfg.supportedChainList s.now}
        (Nat.find hread) := ⟨Nat.find_spec hread, fun _ hrnd => Nat.find_min' hread hrnd⟩
    refine ⟨_, hleast, fun rnd hrnd => ?_⟩
    obtain ⟨hlo, hlt, -⟩ := hinc.voted_bounds rnd hrnd
    rcases hbot with hmax | hin
    · -- a vote above the bound of the loop does not fit the encoding
      dsimp only at hlo
      omega
    · exact (hleast.2 hin).trans_lt hlo

end VSPFeed

/-! ## A round change between two periods -/

namespace Sample

/-- BIFROST is in round 6 for the two reads of the start, and in round 7 from then on. -/
def risingEnv : Env := Sample.env (changingView 2)

def feedStart : Res Exn RState Effect VSPFeed :=
  VSPFeed.construct 0 1 none risingEnv (state outbound.msg)

/-- The state after the vote for round 7. -/
def feedVoted : RState := (VSPFeed.period .fail risingEnv feedStart.st).st

def feedPeriods : List VSPFeed.Period := [⟨feedStart.st, .fail⟩, ⟨feedVoted, .success⟩]

end Sample

namespace VSPFeed

/-- The first period votes for round 7, the second one has nothing to vote for. -/
theorem votes_increasing_rising :
    votedRounds Sample.risingEnv Sample.feedPeriods = [7] ∧
      (∃ bottom, IsLeast {rnd | rnd ∈ bottomReads Sample.risingEnv [.bifrost, .ethereum] 0} bottom ∧
        ∀ rnd ∈ votedRounds Sample.risingEnv Sample.feedPeriods, bottom < rnd) := by
  have hinit : Sample.feedStart = ⟨.ok ⟨60, 1⟩, Sample.feedStart.st, Sample.feedStart.out⟩ :=
    Res.eq_of_val rfl
  have hrun : FeedRun Sample.risingEnv ⟨⟨60, 1⟩, Sample.feedStart.st⟩ Sample.feedPeriods
      ⟨⟨60, 120001⟩, (VSPFeed.period .success Sample.risingEnv Sample.feedVoted).st⟩ :=
    .cons (FeedStep.period (w := []) rfl) (.single (FeedStep.period (w := []) rfl))
  exact ⟨by decide +kernel, (votes_increasing hinit hrun).2.2.1⟩

end VSPFeed

end Bifrost
