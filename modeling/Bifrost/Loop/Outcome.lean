import Bifrost.Loop.Relay

/-!
# Relays after an unknown outcome

The clone that `ChainAcceptedEvent.handle_tx_result_fail` makes is relayed as
REJECTED. It comes from a failed ACCEPTED relay or, through the handler of the
base class, from one whose receipt did not arrive. Along a run, the entry of the
event stays the ACCEPTED one until one of these happens (`Undecided`).
-/

namespace Bifrost

open Bifrost.Lib

namespace Handling

variable (h : Handling) (e : RbcEvent)

/-- The loop called `handle_tx_result_fail` for a transaction of the event. -/
def FailsFor : Prop := h.Of e ∧ h.sent ≠ [] ∧ h.outcome = .fail

/-- A transaction of the event got no receipt. -/
def NoReceiptFor : Prop := h.Of e ∧ h.sent ≠ [] ∧ h.outcome = .noReceipt

/-- A poll with the status REJECTED was built for an event on the log of `e`. -/
def PollsRejected : Prop :=
  ∃ e' tx m sigs option, h.event = .socket e' ∧ e'.detectedEvent = e.detectedEvent ∧
    tx ∈ h.sent ∧ tx.args = .poll m sigs option ∧
    m.status.val = ChainEventStatus.rejected.value

end Handling

variable {env : Env} {e : RbcEvent}

/-- Every entry on the log of the event is the event itself. -/
def Undecided (e : RbcEvent) (queue : List Queued) : Prop :=
  ∀ e', .socket e' ∈ queue → e'.detectedEvent = e.detectedEvent → e.Same e'

/-- A handling of an ACCEPTED event polls no other status. -/
theorem not_pollsRejected {s s' : RState} {h : Handling} (hacc : e.cls = .accepted)
    (hmsg : ∀ e', h.event = .socket e' → (s.heap e'.detectedEvent).decoded = e'.msg)
    (hsame : ∀ e', h.event = .socket e' → e'.detectedEvent = e.detectedEvent → e.Same e')
    (hp : process h.outcome h.event env s = ⟨.ok h.next, s', h.out⟩) : ¬ h.PollsRejected e := by
  rintro ⟨e', tx, m, sigs, option, hev, href, htx, hargs, hst⟩
  have hs := hsame e' hev href
  have hm := hmsg e' hev
  have hagg : e'.cls.isAggregated := by rw [hs.1, hacc]; rfl
  rw [hev] at hp
  have hnot : h.sent ≠ [] := fun hnil => by rw [hnil] at htx; cases htx
  cases relayCase_of_process hagg hp with
  | notMine _ _ _ _ _ _ hsent => exact hnot hsent
  | done _ _ _ _ hsent => exact hnot hsent
  | again _ _ _ _ _ _ _ hsent => exact hnot hsent
  | relayed st final tx' n _ _ _ hrelay hsent =>
    obtain ⟨c, sigs', -, rfl⟩ := hrelay
    rw [hsent] at htx
    obtain rfl := List.mem_singleton.mp htx
    cases hargs
    rw [hm, e'.status_eq, hs.1, hacc] at hst
    cases hst

/-- A handling of the event leaves the event itself, unless its transaction failed or got no
receipt. -/
theorem queued_of_own {s s' : RState} {h : Handling} {e₀ : RbcEvent} (hacc : e.cls = .accepted)
    (hev : h.event = .socket e₀) (hs : e.Same e₀)
    (hp : process h.outcome (.socket e₀) env s = ⟨.ok h.next, s', h.out⟩) :
    (∀ e', .socket e' ∈ h.queued → e.Same e') ∨ h.FailsFor e ∨ h.NoReceiptFor e := by
  have hagg : e₀.cls.isAggregated := by rw [hs.1, hacc]; rfl
  cases relayCase_of_process hagg hp with
  | notMine _ _ _ _ _ _ _ hq => exact .inl fun e' he' => by rw [hq] at he'; cases he'
  | done _ _ _ _ _ hq => exact .inl fun e' he' => by rw [hq] at he'; cases he'
  | again _ _ e₁ _ _ _ _ _ hs₁ hq =>
    refine .inl fun e' he' => ?_
    rw [hq] at he'
    obtain rfl : e' = e₁ := by simpa using he'
    exact hs.trans hs₁
  | relayed _ _ tx n _ _ _ _ hsent hcase hq =>
    have hof : h.Of e := ⟨e₀, hev, hs⟩
    have hne : h.sent ≠ [] := by rw [hsent]; simp
    rcases hcase with ⟨-, rfl⟩ | ⟨houtcome, -⟩
    · exact .inl fun e' he' => by rw [hq] at he'; cases he'
    · cases ho : h.outcome with
      | success => exact absurd ho houtcome
      | fail => exact .inr (.inl ⟨hof, hne, ho⟩)
      | noReceipt => exact .inr (.inr ⟨hof, hne, ho⟩)

/-- The entries that a handling leaves have the log of the handled event. -/
theorem ref_of_queued {s s' : RState} {h : Handling} {e' : RbcEvent}
    (hp : process h.outcome h.event env s = ⟨.ok h.next, s', h.out⟩)
    (he' : .socket e' ∈ h.queued) : h.event.ref? = some e'.detectedEvent := by
  have hmem : e'.detectedEvent ∈ h.queued.filterMap Queued.ref? :=
    List.mem_filterMap.mpr ⟨_, he', rfl⟩
  exact Option.mem_toList.mp ((frame_of_process hp).refs.subset hmem)

/-- A handling keeps the event undecided, or is one of a transaction of the event that failed
or got no receipt. -/
theorem undecided_step {s s' : RState} {l₁ l₂ : List Queued} {h : Handling}
    (hacc : e.cls = .accepted) (hu : Undecided e (l₁ ++ h.event :: l₂))
    (hp : process h.outcome h.event env s = ⟨.ok h.next, s', h.out⟩) :
    Undecided e (l₁ ++ l₂ ++ h.queued) ∨ h.FailsFor e ∨ h.NoReceiptFor e := by
  -- what is left of the handled event is all there is to look at
  have hleft : (∀ e', .socket e' ∈ h.queued → e'.detectedEvent = e.detectedEvent → e.Same e') →
      Undecided e (l₁ ++ l₂ ++ h.queued) := by
    intro hq e' he'
    rcases List.mem_append.mp he' with he' | he'
    · exact hu e' (mem_of_others he')
    · exact hq e' he'
  cases hev : h.event with
  | roundUp _ =>
    refine .inl (hleft fun e' he' => ?_)
    have href := ref_of_queued hp he'
    rw [hev] at href
    cases href
  | socket e₀ =>
    by_cases href : e₀.detectedEvent = e.detectedEvent
    · rw [hev] at hp hu
      have hs : e.Same e₀ := hu e₀ (by simp) href
      exact (queued_of_own hacc hev hs hp).imp_left fun hq => hleft fun e' he' _ => hq e' he'
    · refine .inl (hleft fun e' he' href' => absurd ?_ href)
      have hin := ref_of_queued hp he'
      rw [hev, href'] at hin
      exact Option.some.inj hin

/-- What holds at every point of a run in which no transaction of the event goes without a
receipt. -/
structure Definite (e : RbcEvent) (hist : List Handling) (σ : LoopState) : Prop where
  coherent : Coherent σ
  decided : Undecided e σ.queue ∨ ∃ h ∈ hist, h.FailsFor e
  precedes : Precedes (Handling.FailsFor · e) (Handling.PollsRejected · e) hist

theorem definite_step {hist hs : List Handling} {σ σ' : LoopState} (hacc : e.cls = .accepted)
    (hd : Definite e hist σ) (hstep : LoopStep env σ hs σ')
    (hreceipt : ∀ h ∈ hs, ¬ h.NoReceiptFor e) : Definite e (hist ++ hs) σ' := by
  have hc' := coherent_step hd.coherent hstep
  cases hstep with
  | @handle st st' l₁ l₂ h hp =>
    have hev : h.event ∈ l₁ ++ h.event :: l₂ := List.mem_append_right _ List.mem_cons_self
    refine ⟨hc', ?_, hd.precedes.snoc fun hpoll => ?_⟩
    · rcases hd.decided with hu | ⟨f, hf, hfail⟩
      · rcases undecided_step hacc hu hp with hu' | hfail | hno
        · exact .inl hu'
        · exact .inr ⟨h, by simp, hfail⟩
        · exact absurd hno (hreceipt h (List.mem_singleton_self h))
      · exact .inr ⟨f, List.mem_append_left _ hf, hfail⟩
    · rcases hd.decided with hu | hfail
      · refine absurd hpoll (not_pollsRejected hacc (fun e' he' => ?_) (fun e' he' => ?_) hp)
        · exact hd.coherent.msg e' (by rw [← he']; exact hev)
        · exact hu e' (by rw [← he']; exact hev)
      · exact hfail
  | period =>
    rw [List.append_nil]
    exact ⟨hc', hd.decided, hd.precedes⟩
  | wait =>
    rw [List.append_nil]
    exact ⟨hc', hd.decided, hd.precedes⟩

/-- **No contradictory relay.** In a run in which no transaction of an ACCEPTED event goes
without a receipt, a REJECTED poll on its log is built only after one of them has failed. -/
theorem rejected_after_fail {σ σ' : LoopState} {hist : List Handling} (hacc : e.cls = .accepted)
    (hc : Coherent σ) (he : .socket e ∈ σ.queue) (hrun : LoopRun env σ hist σ')
    (hreceipt : ∀ h ∈ hist, ¬ h.NoReceiptFor e) :
    Precedes (Handling.FailsFor · e) (Handling.PollsRejected · e) hist := by
  have h0 : (∀ h ∈ ([] : List Handling), ¬ h.NoReceiptFor e) → Definite e [] σ := by
    refine fun _ => ⟨hc, .inl fun e' he' href => ?_, .nil⟩
    rw [hc.unique he he' href]
    exact .refl e
  refine (hrun.invariant (P := fun hist σ => (∀ h ∈ hist, ¬ h.NoReceiptFor e) →
    Definite e hist σ) h0 ?_ hreceipt).precedes
  intro hist s hs s' ih hstep hno
  refine definite_step hacc (ih fun h hh => ?_) hstep fun h hh => ?_
  · exact hno h (List.mem_append_left _ hh)
  · exact hno h (List.mem_append_right _ hh)

/-! ## Runs of an outbound event -/

/-- The clone as it is queued after the ACCEPTED relay. -/
def Sample.rejectedClone : RbcEvent :=
  { Sample.event .rejected .bifrost .ethereum with aggregated := false }

/-- After a failed transaction, or one without a receipt, the event is relayed as REJECTED. -/
theorem Sample.exists_rejected {o : TxOutcome} (ho : o ≠ .success) : ∃ hist σ',
    LoopRun (soleEnv .accepted) (loopState outbound) hist σ' ∧
      (∀ h ∈ hist, h.outcome = o ∨ h.outcome = .success) ∧
      ∃ h ∈ hist, h.PollsRejected outbound := by
  let P : List Handling → LoopState → Prop := fun hist _ =>
    (∀ h ∈ hist, h.outcome = o ∨ h.outcome = .success) ∧ ∃ h ∈ hist,
      h.event = .socket rejectedClone ∧
        ∃ tx ∈ h.sent, tx.args = .poll rejectedClone.msg ⟨[], [], []⟩ 0
  have hexec : (exec (soleEnv .accepted) [o, .success] (loopState outbound)).any
      fun p => P p.1 p.2 := by
    cases o with
    | success => exact absurd rfl ho
    | fail => decide +kernel
    | noReceipt => decide +kernel
  obtain ⟨hist, σ', hrun, hout, h, hh, hev, tx, htx, hargs⟩ := exists_run P hexec
  exact ⟨hist, σ', hrun, hout, h, hh, _, tx, _, _, _, hev, rfl, htx, hargs, rfl⟩

theorem rejected_after_fail_sole : ∃ hist σ',
    LoopRun (Sample.soleEnv .accepted) (Sample.loopState Sample.outbound) hist σ' ∧
      (∃ h ∈ hist, h.PollsRejected Sample.outbound) ∧
      Precedes (Handling.FailsFor · Sample.outbound) (Handling.PollsRejected · Sample.outbound)
        hist := by
  obtain ⟨hist, σ', hrun, hout, hpoll⟩ := Sample.exists_rejected (o := .fail) (by decide)
  refine ⟨hist, σ', hrun, hpoll, ?_⟩
  refine rejected_after_fail rfl (coherent_sample _) (List.mem_singleton_self _) hrun
    fun g hg hng => ?_
  have hno := hout g hg
  rw [hng.2.2] at hno
  simp at hno

/-- The missing receipt is no failure. -/
theorem rejected_without_fail : ¬ ∀ (env : Env) (e : RbcEvent) (σ σ' : LoopState)
    (hist : List Handling), e.cls = .accepted → e.srcChain? env.cfg.network = some .bifrost →
      Coherent σ → .socket e ∈ σ.queue → LoopRun env σ hist σ' →
      Precedes (Handling.FailsFor · e) (Handling.PollsRejected · e) hist := by
  intro hall
  obtain ⟨hist, σ', hrun, hout, h, hh, hpoll⟩ :=
    Sample.exists_rejected (o := .noReceipt) (by decide)
  have hpre := hall _ _ _ _ hist rfl Sample.outbound_srcChain (coherent_sample Sample.outbound)
    (List.mem_singleton_self _) hrun
  obtain ⟨before, rest, rfl⟩ := List.append_of_mem hh
  obtain ⟨f, hf, -, -, hfail⟩ := hpre before h rest rfl hpoll
  have hno := hout f (List.mem_append_left _ hf)
  rw [hfail] at hno
  simp at hno

end Bifrost
