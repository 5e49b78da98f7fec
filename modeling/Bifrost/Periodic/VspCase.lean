import Bifrost.Periodic.Vsp
import Bifrost.Relayer.Quiet

/-!
# The cases of a period

A period reads the round of BIFROST and of every chain. A read that fails ends it
with the marker as it was; a round that is not above the marker ends it with no
transaction. A new round becomes the marker first, and then come the reads for
the vote (`newRound`), so whatever they do the marker stays (`keepsRound_newRound`).
-/

namespace Bifrost

open Bifrost.Lib

namespace VSPFeed

/-- What a period does after it has written the marker. -/
def newRound (rnd : Nat) : RM SendParamTuple := do
  updateIndex rnd
  let env ← Proc.ask
  let selected ← RM.isSelectedRelayer .bifrost (some (rnd - 1)) env.account.address true
  if !selected then pure none else vote rnd

variable {env : Env} {s s' : RState} {w : List Effect}

/-- The round that a period beginning in `s` reads. -/
def readRound (env : Env) (s : RState) : Nat := (env.view s.now).latestRound .bifrost

/-- The reads of the rounds, of BIFROST and of every chain, succeed. -/
def RoundsUp (env : Env) (s : RState) : Prop :=
  ∀ i ≤ env.cfg.supportedChainList.length, env.down (s.now + i) = false

/-- The state behind the reads of the rounds. -/
def afterRounds (env : Env) (s : RState) : RState :=
  { s with now := s.now + (env.cfg.supportedChainList.length + 1) }

/-- The calls of the round reads. -/
def roundCalls (chains : List ChainEnum) : List Effect :=
  chains.map fun c => .called c "latest_round"

theorem isCall_roundCalls {chains : List ChainEnum} {o : Effect} (ho : o ∈ roundCalls chains) :
    o.IsCall := by
  obtain ⟨c, -, rfl⟩ := List.mem_map.mp ho
  trivial

theorem tick_now_add (s : RState) (i : Nat) : s.tick.now + i = s.now + (i + 1) := by
  rw [RState.tick_now]
  omega

/-- The reads of the rounds of `chains` go through, or one fails and the rest is left out. -/
theorem exportRounds_cases (env : Env) (s : RState) (chains : List ChainEnum) :
    ((∀ i < chains.length, env.down (s.now + i) = false) ∧ exportRounds chains env s =
      ⟨.ok (), { s with now := s.now + chains.length }, roundCalls chains⟩) ∨
    ∃ i < chains.length, env.down (s.now + i) = true ∧ ∃ w, exportRounds chains env s =
      ⟨.error .rpc, { s with now := s.now + (i + 1) }, w⟩ := by
  induction chains generalizing s with
  | nil => exact .inl ⟨fun i hi => absurd hi (Nat.not_lt_zero i), rfl⟩
  | cons c chains ih =>
    unfold exportRounds
    rw [Proc.bind_run, fetchLatestRound_run]
    rcases hd : env.down s.now with _ | _
    · rw [read_up hd, Res.andThen_ok]
      rcases ih s.tick with ⟨hup, hrun⟩ | ⟨i, hi, hdown, w, hrun⟩
      · refine .inl ⟨fun i hi => ?_, ?_⟩
        · rcases i with _ | i
          · exact hd
          · rw [← tick_now_add]
            exact hup i (Nat.lt_of_succ_lt_succ hi)
        · rw [hrun, Res.after_mk, tick_now_add]
          rfl
      · rw [tick_now_add] at hdown hrun
        rw [hrun]
        exact .inr ⟨i + 1, Nat.succ_lt_succ hi, hdown, .called c "latest_round" :: w, rfl⟩
    · rw [Env.read, hd, if_pos rfl, Res.andThen_error]
      exact .inr ⟨0, Nat.succ_pos _, hd, _, rfl⟩

/-- The runs of a period. -/
inductive PeriodCase (env : Env) (s : RState) : Res Exn RState Effect SendParamTuple → Prop where
  /-- One of the round reads failed. -/
  | unread (i : Nat) (w : List Effect) (hi : i ≤ env.cfg.supportedChainList.length)
      (hdown : env.down (s.now + i) = true) :
      PeriodCase env s ⟨.error .rpc, { s with now := s.now + (i + 1) }, w⟩
  /-- The round is not above the marker. -/
  | stale (hup : RoundsUp env s) (hold : readRound env s ≤ s.currentRound) :
      PeriodCase env s ⟨.ok none, afterRounds env s,
        roundCalls (.bifrost :: env.cfg.supportedChainList)⟩
  | fresh (hup : RoundsUp env s) (hnew : s.currentRound < readRound env s) :
      PeriodCase env s ((newRound (readRound env s) env
        { afterRounds env s with currentRound := readRound env s }).after
          (roundCalls (.bifrost :: env.cfg.supportedChainList)))

/-- Step inversion: every period is one of the cases. -/
theorem period_cases (env : Env) (s : RState) :
    PeriodCase env s (buildTransactionParams env s) := by
  unfold buildTransactionParams
  rw [Proc.bind_run, fetchLatestRound_run]
  rcases hd : env.down s.now with _ | _
  · rw [read_up hd, Res.andThen_ok, Proc.bind_run, getConfig_run, Res.andThen_ok, Res.after_nil,
      Proc.bind_run]
    rcases exportRounds_cases env s.tick env.cfg.supportedChainList with
      ⟨hchains, hrun⟩ | ⟨i, hi, hdown, w, hrun⟩
    · have hup : RoundsUp env s := by
        intro i hi
        rcases i with _ | i
        · exact hd
        · rw [← tick_now_add]
          exact hchains i hi
      rw [hrun, tick_now_add, Res.andThen_ok, Proc.bind_run, Proc.get_run, Res.andThen_ok,
        Res.after_nil]
      by_cases hold : readRound env s ≤ s.currentRound
      · rw [if_pos (by exact hold), Proc.pure_run, Res.after_mk, Res.after_mk,
          List.append_nil]
        exact .stale hup hold
      · rw [if_neg (by exact hold)]
        exact .fresh hup (not_le.mp hold)
    · rw [tick_now_add] at hdown hrun
      rw [hrun, Res.andThen_error, Res.after_mk]
      exact .unread (i + 1) _ hi hdown
  · rw [Env.read, hd, if_pos rfl, Res.andThen_error]
    exact .unread 0 _ (Nat.zero_le _) hd

/-- A new round, with the round reads up. -/
theorem period_fresh (hup : RoundsUp env s) (hnew : s.currentRound < readRound env s) :
    buildTransactionParams env s = (newRound (readRound env s) env
      { afterRounds env s with currentRound := readRound env s }).after
        (roundCalls (.bifrost :: env.cfg.supportedChainList)) := by
  have hcase := period_cases env s
  generalize buildTransactionParams env s = res at hcase ⊢
  cases hcase with
  | unread i w hi hdown =>
    rw [hup i hi] at hdown
    cases hdown
  | stale _ hold => exact absurd hnew (not_lt.mpr hold)
  | fresh => rfl

/-- An old round, with the round reads up. -/
theorem period_stale (hup : RoundsUp env s) (hold : readRound env s ≤ s.currentRound) :
    buildTransactionParams env s =
      ⟨.ok none, afterRounds env s, roundCalls (.bifrost :: env.cfg.supportedChainList)⟩ := by
  have hcase := period_cases env s
  generalize buildTransactionParams env s = res at hcase ⊢
  cases hcase with
  | unread i w hi hdown =>
    rw [hup i hi] at hdown
    cases hdown
  | stale => rfl
  | fresh _ hnew => exact absurd hnew (not_lt.mpr hold)

/-! ## The reads for a vote -/

theorem updateIndex_ok {rnd : Nat} (h : updateIndex rnd env s = ⟨.ok (), s', w⟩) :
    s'.now = s.now + 1 ∧ w = [.called .bifrost "previous_selected_relayers"] := by
  unfold updateIndex at h
  obtain ⟨i, s₁, w₁, w₂, h₁, h₂, rfl⟩ := Proc.bind_ok h
  rw [fetchRelayerIndex_run] at h₁
  obtain ⟨-, rfl, rfl⟩ := Res.mk.inj h₁
  cases i with
  | none =>
    obtain ⟨-, rfl, rfl⟩ := Proc.pure_ok h₂
    exact ⟨rfl, rfl⟩
  | some i =>
    cases h₂
    exact ⟨rfl, rfl⟩

theorem quiet_vote (rnd : Nat) : Quiet (vote rnd) :=
  .bind (.fetchSortedRelayerListLower ..) fun _ => .bind (.ofOption ..) fun _ =>
    .bind (.sign _) fun _ => .bind (.ofOption ..) fun _ => .pure _

/-- The signature that the relayer sends with its vote on `msg`. -/
def voteSig (env : Env) (msg : Bytes) : Option SocketSignature :=
  let sig := env.account.sign msg
  SocketSignature.fromSingleSig sig.r sig.s (sig.v + 27)

/-- The vote: one read of the current relayer list, signed with the round. -/
theorem vote_ok {rnd : Nat} {p : SendParamTuple} (h : vote rnd env s = ⟨.ok p, s', w⟩) :
    ∃ msg sigs, encodeRound rnd (sortedLower ((env.view s.now).selectedRelayers .bifrost true)) =
        some msg ∧ voteSig env msg = some sigs ∧
      p = some ⟨.bifrost, SOCKET_CONTRACT_NAME, ROUND_UP_FUNCTION_NAME, .roundControlPoll rnd
        (sortedLower ((env.view s.now).selectedRelayers .bifrost true)) sigs.tuple⟩ ∧
      w = [.called .bifrost "selected_relayers", .signed msg] := by
  unfold vote at h
  obtain ⟨l, s₁, w₁, w₂, h₁, h₂, rfl⟩ := Proc.bind_ok h
  rw [fetchSortedRelayerListLower_run] at h₁
  obtain ⟨hl, rfl, rfl⟩ := Res.mk.inj h₁
  obtain ⟨-, rfl⟩ := read_ok hl
  obtain ⟨msg, s₂, w₃, w₄, h₃, h₄, rfl⟩ := Proc.bind_ok h₂
  obtain ⟨hmsg, rfl, rfl⟩ := Proc.ofOption_ok h₃
  obtain ⟨sig, s₃, w₅, w₆, h₅, h₆, rfl⟩ := Proc.bind_ok h₄
  rw [sign_run] at h₅
  cases h₅
  obtain ⟨sigs, s₄, w₇, w₈, h₇, h₈, rfl⟩ := Proc.bind_ok h₆
  obtain ⟨hsigs, rfl, rfl⟩ := Proc.ofOption_ok h₇
  obtain ⟨rfl, rfl, rfl⟩ := Proc.pure_ok h₈
  exact ⟨msg, sigs, hmsg, hsigs, rfl, rfl⟩

/-- A vote of a new round: the relayer was selected in the round before. -/
theorem newRound_vote {rnd : Nat} {tx : SendTx}
    (h : newRound rnd env s = ⟨.ok (some tx), s', w⟩) :
    env.down (s.now + 1) = false ∧ (env.view (s.now + 1)).isPreviousSelectedRelayer .bifrost
        (rnd - 1) env.account.address.hex true = true ∧
      ∃ msg sigs, encodeRound rnd (sortedLower ((env.view (s.now + 2)).selectedRelayers .bifrost
          true)) = some msg ∧ voteSig env msg = some sigs ∧
        tx = ⟨.bifrost, SOCKET_CONTRACT_NAME, ROUND_UP_FUNCTION_NAME, .roundControlPoll rnd
          (sortedLower ((env.view (s.now + 2)).selectedRelayers .bifrost true)) sigs.tuple⟩ ∧
        w = [.called .bifrost "previous_selected_relayers",
          .called .bifrost "is_previous_selected_relayer",
          .called .bifrost "selected_relayers", .signed msg] := by
  unfold newRound at h
  obtain ⟨_, s₁, w₁, w₂, h₁, h₂, rfl⟩ := Proc.bind_ok h
  obtain ⟨hnow, rfl⟩ := updateIndex_ok h₁
  rw [Proc.bind_run, Proc.ask_run, Res.andThen_ok, Res.after_nil] at h₂
  obtain ⟨selected, s₂, w₃, w₄, h₃, h₄, rfl⟩ := Proc.bind_ok h₂
  have hup : env.down s₁.now = false := isSelectedRelayer_up h₃
  obtain ⟨hsel, rfl, rfl⟩ := isSelectedRelayer_ok h₃
  rw [hnow] at hup hsel
  split at h₄
  · obtain ⟨hnone, -⟩ := Proc.pure_ok h₄
    cases hnone
  next hs =>
  obtain ⟨msg, sigs, hmsg, hsigs, htx, rfl⟩ := vote_ok h₄
  rw [RState.tick_now, hnow] at hmsg htx
  refine ⟨hup, ?_, msg, sigs, hmsg, hsigs, Option.some.inj htx, rfl⟩
  rw [← hsel]
  simpa using hs

/-- Keeps the marker, whatever its outcome. -/
def KeepsRound {α : Type} (x : RM α) : Prop :=
  ∀ rnd, Proc.Keeps (fun _ t => t.currentRound = rnd) x

theorem keepsRound_worldCall {α : Type} (chain : ChainEnum) (method : String)
    (answer : View → α) : KeepsRound (RM.worldCall chain method answer) := by
  intro rnd env t ht
  rw [worldCall_run]
  exact ht

theorem keepsRound_fetchList (chain : ChainEnum) (rnd : Option Int) (b : Bool) :
    KeepsRound (RM.fetchSortedRelayerListLower chain rnd b) :=
  fun n => .bind (keepsRound_worldCall _ _ _ n) fun _ => .pure _

theorem keepsRound_updateIndex (rnd : Nat) : KeepsRound (updateIndex rnd) := by
  refine fun n => .bind (.bind (keepsRound_fetchList _ _ _ n) fun _ => .bind .ask fun _ =>
    .pure _) fun i => ?_
  cases i with
  | none => exact .pure _
  | some i => exact .bind (.modify fun _ _ ht => ht) fun _ => .pure _

theorem keepsRound_vote (rnd : Nat) : KeepsRound (vote rnd) :=
  fun n => .bind (keepsRound_fetchList _ _ _ n) fun _ => .bind (.ofOption _ _) fun _ =>
    .bind (.bind .ask fun _ => .bind (.emit _) fun _ => .pure _) fun _ =>
    .bind (.ofOption _ _) fun _ => .pure _

/-- Whatever its reads do, the rest of the period keeps the marker. -/
theorem keepsRound_newRound (rnd : Nat) : KeepsRound (newRound rnd) := by
  refine fun n => .bind (keepsRound_updateIndex rnd n) fun _ => .bind .ask fun env => ?_
  exact .bind (keepsRound_worldCall _ _ _ n) fun b => .ite (.pure _) (keepsRound_vote rnd n)

theorem newRound_st (env : Env) (s : RState) (rnd : Nat) :
    (newRound rnd env s).st.currentRound = s.currentRound :=
  keepsRound_newRound rnd s.currentRound env s rfl

/-- The read of a period that gives the validator list: behind those of the round, of the
rounds of all chains, of the relayer's index and of its selection. -/
def listRead (cfg : Config) (now : Nat) : Nat := now + cfg.supportedChainList.length + 3

/-- **The period of a vote.** The round is above the marker and becomes the marker, and the
relayer was selected in the round before; the vote is for this round and the list of the last
read, and nothing else is signed. -/
theorem period_vote {tx : SendTx} (h : buildTransactionParams env s = ⟨.ok (some tx), s', w⟩) :
    s.currentRound < readRound env s ∧ s'.currentRound = readRound env s ∧
      env.down (listRead env.cfg s.now - 1) = false ∧
      (env.view (listRead env.cfg s.now - 1)).isPreviousSelectedRelayer .bifrost
        (readRound env s - 1) env.account.address.hex true = true ∧
      ∃ msg sigs, encodeRound (readRound env s) (sortedLower
          ((env.view (listRead env.cfg s.now)).selectedRelayers .bifrost true)) = some msg ∧
        voteSig env msg = some sigs ∧
        tx = ⟨.bifrost, SOCKET_CONTRACT_NAME, ROUND_UP_FUNCTION_NAME, .roundControlPoll
          (readRound env s) (sortedLower
            ((env.view (listRead env.cfg s.now)).selectedRelayers .bifrost true)) sigs.tuple⟩ ∧
        w = roundCalls (.bifrost :: env.cfg.supportedChainList) ++
          [.called .bifrost "previous_selected_relayers",
            .called .bifrost "is_previous_selected_relayer",
            .called .bifrost "selected_relayers", .signed msg] := by
  have hcase := period_cases env s
  rw [h] at hcase
  generalize hres : (⟨.ok (some tx), s', w⟩ : Res Exn RState Effect SendParamTuple) = res at hcase
  cases hcase with
  | unread => cases hres
  | stale => cases hres
  | fresh hup hnew =>
    have hst := newRound_st env { afterRounds env s with currentRound := readRound env s }
      (readRound env s)
    rcases hrun : newRound (readRound env s) env
      { afterRounds env s with currentRound := readRound env s } with ⟨v, t, w'⟩
    rw [hrun] at hres hst
    cases hres
    obtain ⟨hdown, hsel, hvote⟩ := newRound_vote hrun
    have hnow : listRead env.cfg s.now = (afterRounds env s).now + 2 := by
      simp only [listRead, afterRounds]
      omega
    rw [hnow]
    obtain ⟨msg, sigs, hmsg, hsigs, htx, rfl⟩ := hvote
    exact ⟨hnew, hst, hdown, hsel, msg, sigs, hmsg, hsigs, htx, rfl⟩

end VSPFeed

end Bifrost
