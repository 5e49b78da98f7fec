import Bifrost.Loop.Provenance

/-!
# Where transactions come from

In every run of a process each transaction is the vote on, or the relay of, a
message that was detected before, or the relay of a round change that was
detected before to one of the other chains, or the vote of a period of the feed
(`sent_warranted`). A relay carries a batch that BIFROST has answered, sorted; a
vote carries the signature of the relayer, or none.
-/

namespace Bifrost

open Bifrost.Lib

/-- The vote of a period of the feed that begins in `s`: its reads came through, the round is above
the marker, and the relayer was selected in the round before. -/
inductive VSPFeed.Votes (env : Env) (s : RState) : SendTx → Prop where
  | poll (msg : Bytes) (sigs : SocketSignature) : SignsAt env s msg →
      env.down (listRead env.cfg s.now - 1) = false →
      (env.view (listRead env.cfg s.now - 1)).isPreviousSelectedRelayer .bifrost
        (readRound env s - 1) env.account.address.hex true = true →
      voteSig env msg = some sigs →
      Votes env s ⟨.bifrost, SOCKET_CONTRACT_NAME, ROUND_UP_FUNCTION_NAME,
        .roundControlPoll (readRound env s) (sortedLower
          ((env.view (listRead env.cfg s.now)).selectedRelayers .bifrost true)) sigs.tuple⟩

/-- What warrants a transaction that a step from `n` to `n'`, after the acts `before`, sends with
its act. -/
inductive Warranted (env : Env) (before : List Act) (n n' : Node) : Act → SendTx → Prop where
  | request (h : Handling) (d e : RbcEvent) (tx : SendTx) : h.event = .socket e →
      d ∈ detectedIn before → d.Becomes e → e.Sends env n.loop.st.now n'.loop.st.now tx →
      Warranted env before n n' (.handled h) tx
  | roundUp (h : Handling) (d e : RoundUpEvent) (tx : SendTx) : h.event = .roundUp e →
      d ∈ roundUpsIn before → d.Carries env.cfg e →
      e.Sends env n.loop.st.now n'.loop.st.now tx → Warranted env before n n' (.handled h) tx
  | validators (out : List Effect) (tx : SendTx) : env.cfg.isFastRelayer = false →
      VSPFeed.Votes env n.loop.st tx → Warranted env before n n' (.fed out) tx

section Steps

variable {env : Env} {hist acts : List Act} {n n' : Node}

theorem VSPFeed.votes_of_period {s : RState} {outcome : TxOutcome} {tx : SendTx}
    (h : .sent tx ∈ (period outcome env s).out) : Votes env s tx := by
  obtain ⟨s', w, hrun⟩ := build_of_sent h
  obtain ⟨-, -, hup, hsel, msg, sigs, -, hsigs, rfl, rfl⟩ := period_vote hrun
  have hsigned : .signed msg ∈ (period outcome env s).out := by
    unfold period
    rw [Proc.bind_run, hrun]
    exact List.mem_append_left _ (by simp)
  exact .poll msg sigs (marker_of_signed hsigned).1 hup hsel hsigs

/-- A handling sends what the log of its event warrants. -/
theorem Traced.warranted {σ σ' : LoopState} {next : Ref} {h : Handling}
    (ht : Traced env.cfg hist ⟨σ, next⟩) (hstep : LoopStep env σ [h] σ') {tx : SendTx}
    (htx : .sent tx ∈ h.out) :
    (∃ d ∈ detectedIn hist, ∃ e, h.event = .socket e ∧ d.Becomes e ∧
        e.Sends env σ.st.now σ'.st.now tx) ∨
      ∃ d ∈ roundUpsIn hist, ∃ e, h.event = .roundUp e ∧ d.Carries env.cfg e ∧
        e.Sends env σ.st.now σ'.st.now tx := by
  have hmem := mem_queue_of_step hstep
  rcases (ht.issues hstep).2.2 tx htx with ⟨e, hev, hsends⟩ | ⟨e, hev, hsends⟩
  · obtain ⟨d, hd, hbec⟩ := ht.queued e (hev ▸ hmem)
    exact .inl ⟨d, hd, e, hev, hbec, hsends⟩
  · obtain ⟨d, hd, hcar⟩ := ht.roundUps e (hev ▸ hmem)
    exact .inr ⟨d, hd, e, hev, hcar, hsends⟩

/-- Step lemma. -/
theorem warranted_step (ht : Traced env.cfg hist n) {a : Act} (hstep : NodeStep env n [a] n')
    {tx : SendTx} (htx : .sent tx ∈ a.out) : Warranted env hist n n' a tx := by
  cases hstep with
  | detect | detectRoundUp => cases htx
  | handle next h hloop =>
    rcases ht.warranted hloop htx with ⟨d, hd, e, hev, hbec, hs⟩ | ⟨d, hd, e, hev, hcar, hs⟩
    · exact .request h d e tx hev hd hbec hs
    · exact .roundUp h d e tx hev hd hcar hs
  | period st queue next outcome hslow =>
    exact .validators _ tx hslow (VSPFeed.votes_of_period htx)
  | restart queue order roundUpOrder timeLock logs roundUps es us w hboot =>
    exact ((Relayer.boot_ok hboot).1 _ htx).elim

end Steps

/-- **No transaction out of nothing.** In every run of a process, each transaction that a step of it
sends is warranted by what was detected before and by the reads of this very step, or is the vote of
the period of the feed that this step is. -/
theorem sent_warranted {env : Env} {n n' : Node} {acts : List Act}
    (hrun : NodeRun env n acts n') (hstart : n.loop.queue = []) :
    ∀ before a rest, acts = before ++ a :: rest → ∃ m m', NodeRun env n before m ∧
      NodeStep env m [a] m' ∧ NodeRun env m' rest n' ∧ ∀ tx, .sent tx ∈ a.out →
        Warranted env before m m' a tx := by
  intro before a rest hacts
  obtain ⟨m, m', hbefore, hstep, hrest⟩ := hrun.at_label NodeStep.length_le hacts
  exact ⟨m, m', hbefore, hstep, hrest, fun tx htx =>
    warranted_step (traced_run hbefore hstart) hstep htx⟩

theorem mem_sentOf {w : List Effect} {tx : SendTx} : tx ∈ sentOf w ↔ .sent tx ∈ w := by
  simp only [sentOf, List.mem_filterMap]
  constructor
  · rintro ⟨o, ho, h⟩
    cases o <;> simp_all [Effect.sent?]
  · intro h
    exact ⟨_, h, rfl⟩

/-- The relayer relays an ACCEPTED request of BIFROST to ETHEREUM, and then votes for the list of a
new round. -/
theorem sent_warranted_accepted : ∃ acts n',
    NodeRun (Sample.soleEnv .requested) Sample.node acts n' ∧
    2 ≤ (acts.filter fun a => sentOf a.out ≠ []).length ∧
    ∀ before a rest, acts = before ++ a :: rest → ∃ m m',
      NodeRun (Sample.soleEnv .requested) Sample.node before m ∧
      NodeStep (Sample.soleEnv .requested) m [a] m' ∧
      NodeRun (Sample.soleEnv .requested) m' rest n' ∧ ∀ tx, .sent tx ∈ a.out →
        Warranted (Sample.soleEnv .requested) before m m' a tx := by
  obtain ⟨acts, n', hrun, hsent⟩ := exists_nodeRun (Sample.soleEnv .requested)
    [.detect (.ofMsg (Sample.msg .bifrost .ethereum .accepted) 7) 1, .handleHead .success,
      .period .success]
    Sample.node (fun acts _ => 2 ≤ (acts.filter fun a => sentOf a.out ≠ []).length)
    (by decide +kernel)
  exact ⟨acts, n', hrun, hsent, sent_warranted hrun rfl⟩

end Bifrost
