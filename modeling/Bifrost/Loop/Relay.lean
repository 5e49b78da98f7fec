import Bifrost.Loop.Coherent

/-!
# No relay is lost

In a run from a coherent state, an aggregated relay event of a relayer that
serves it stays in the queue until it is relayed to its target chain, or a read
of that chain shows the final status of its branch. The invariant is that one of
the three holds; a handling of the event that does neither of the last two
leaves an entry for it.
-/

namespace Bifrost

open Bifrost.Lib

namespace RbcEvent

variable {e e' : RbcEvent}

/-! ## Attributes that handlers do not change -/

theorem Same.srcChain? (h : e.Same e') (net : Network) : e'.srcChain? net = e.srcChain? net := by
  unfold RbcEvent.srcChain?
  rw [h.2.2]

theorem Same.targetChain? (h : e.Same e') (net : Network) :
    e'.targetChain? net = e.targetChain? net := by
  unfold RbcEvent.targetChain? inst?
  rw [h.srcChain? net, h.2.2]

theorem Same.requestId? (h : e.Same e') (net : Network) :
    e'.requestId? net = e.requestId? net := by
  unfold RbcEvent.requestId?
  rw [h.srcChain? net, h.2.2]

theorem Same.endsWith (h : e.Same e') {net : Network} {st : ChainEventStatus} :
    e'.EndsWith net st ↔ e.EndsWith net st := by
  unfold EndsWith
  rw [h.srcChain? net, h.1]

theorem Same.serves {env : Env} (h : e.Same e') (hs : e.Serves env) : e'.Serves env := by
  unfold Serves at hs ⊢
  rwa [h.srcChain?, h.2.2]

theorem Same.isRelay (h : e.Same e') {net : Network} {m : SocketMsg} {tx : SendTx}
    (hr : AggregatedRelayEvent.IsRelay e' net m tx) : AggregatedRelayEvent.IsRelay e net m tx := by
  unfold AggregatedRelayEvent.IsRelay at hr ⊢
  rwa [h.targetChain?] at hr

theorem Same.asked (h : e.Same e') {g : Handling} {net : Network} {st : ChainEventStatus}
    (ha : g.Asked net e' st) : g.Asked net e st := by
  unfold Handling.Asked at ha ⊢
  rwa [h.targetChain?, h.requestId?] at ha

end RbcEvent

namespace Handling

variable (h : Handling) (net : Network) (e : RbcEvent)

/-- The handling took the event `e`. -/
def Of : Prop := ∃ e', h.event = .socket e' ∧ e.Same e'

/-- A poll of the event's message was built for its target chain. -/
def Relays : Prop := ∃ tx ∈ h.sent, AggregatedRelayEvent.IsRelay e net e.msg tx

/-- A read of the event's target chain showed the final status of its branch. -/
def SeesFinal : Prop := ∃ final, e.EndsWith net final ∧ h.Asked net e final

/-- The handling left an entry of the event. -/
def Requeues : Prop := ∃ e', e.Same e' ∧ .socket e' ∈ h.queued

end Handling

variable {env : Env} {e : RbcEvent}

/-- A handling of the event relays it, sees its final status, or leaves an entry of it. -/
theorem relays_or_requeues {s s' : RState} {h : Handling} (hagg : e.cls.isAggregated)
    (hs : e.Serves env) (hof : h.Of e) (hmsg : (s.heap e.detectedEvent).decoded = e.msg)
    (hp : process h.outcome h.event env s = ⟨.ok h.next, s', h.out⟩) :
    h.Relays env.cfg.network e ∨ h.SeesFinal env.cfg.network e ∨ h.Requeues e := by
  obtain ⟨e', hev, hsame⟩ := hof
  rw [hev] at hp
  have hagg' : e'.cls.isAggregated := by rw [hsame.1]; exact hagg
  cases relayCase_of_process hagg' hp with
  | notMine s₁ s₂ w hcheck =>
    -- a relayer that serves the event passes every check
    have := (hsame.serves hs).check hcheck
    cases this
  | done final hask hfin =>
    have hends := (AggregatedRelayEvent.endsWith_iff hagg').mpr hfin
    exact .inr (.inl ⟨final, hsame.endsWith.mp hends, hsame.asked hask⟩)
  | again st final e'' _ _ _ _ _ hsame' hq =>
    refine .inr (.inr ⟨e'', hsame.trans hsame', ?_⟩)
    rw [hq]
    exact List.mem_singleton_self _
  | relayed st final tx n _ _ _ hrelay hsent =>
    rw [hsame.2.1, hmsg] at hrelay
    refine .inl ⟨tx, ?_, hsame.isRelay hrelay⟩
    rw [hsent]
    exact List.mem_singleton_self _

/-- What holds of an event at every point of a run. -/
structure NotLost (env : Env) (e : RbcEvent) (hist : List Handling) (σ : LoopState) : Prop where
  coherent : Coherent σ
  kept : (∃ e', e.Same e' ∧ .socket e' ∈ σ.queue) ∨
    ∃ h ∈ hist, h.Of e ∧ (h.Relays env.cfg.network e ∨ h.SeesFinal env.cfg.network e)
  handled : ∀ h ∈ hist, h.Of e → h.Relays env.cfg.network e ∨
    h.SeesFinal env.cfg.network e ∨ h.Requeues e

theorem notLost_step (hagg : e.cls.isAggregated) (hs : e.Serves env) {hist hs' : List Handling}
    {σ σ' : LoopState} (hn : NotLost env e hist σ) (hstep : LoopStep env σ hs' σ') :
    NotLost env e (hist ++ hs') σ' := by
  refine ⟨coherent_step hn.coherent hstep, ?_, ?_⟩
  · rcases hn.kept with ⟨e', hsame, hmem⟩ | ⟨h, hh, hdone⟩
    · cases hstep with
      | @handle st st' l₁ l₂ h hp =>
        by_cases hev : h.event = .socket e'
        · -- the entry of the event was taken
          have hmsg : (st.heap e.detectedEvent).decoded = e.msg := by
            rw [← hsame.2.1, ← hsame.2.2]
            exact hn.coherent.msg e' hmem
          rcases relays_or_requeues hagg hs ⟨e', hev, hsame⟩ hmsg hp with hr | hf | ⟨e'', hs'', hq⟩
          · exact .inr ⟨h, by simp, ⟨e', hev, hsame⟩, .inl hr⟩
          · exact .inr ⟨h, by simp, ⟨e', hev, hsame⟩, .inr hf⟩
          · exact .inl ⟨e'', hs'', List.mem_append_right _ hq⟩
        · have hrest : Queued.socket e' ∈ l₁ ++ l₂ := by
            simp only [List.mem_append, List.mem_cons] at hmem ⊢
            rcases hmem with hmem | hmem | hmem
            · exact .inl hmem
            · exact absurd hmem.symm hev
            · exact .inr hmem
          exact .inl ⟨e', hsame, List.mem_append_left _ hrest⟩
      | period => exact .inl ⟨e', hsame, hmem⟩
      | wait => exact .inl ⟨e', hsame, hmem⟩
    · exact .inr ⟨h, List.mem_append_left _ hh, hdone⟩
  · intro h hh hof
    rcases List.mem_append.mp hh with hh | hh
    · exact hn.handled h hh hof
    · cases hstep with
      | @handle st st' l₁ l₂ h' hp =>
        obtain rfl := List.mem_singleton.mp hh
        obtain ⟨e', hev, hsame⟩ := hof
        have hmsg : (st.heap e.detectedEvent).decoded = e.msg := by
          rw [← hsame.2.1, ← hsame.2.2]
          exact hn.coherent.msg e' (by rw [← hev]; exact List.mem_append_right _ List.mem_cons_self)
        exact relays_or_requeues hagg hs ⟨e', hev, hsame⟩ hmsg hp
      | period => cases hh
      | wait => cases hh

/-- **No lost relay.** When the event has no entry left, it was relayed to its target chain or a
read of that chain showed its final status; any other handling of it left an entry. -/
theorem relay_not_lost {σ σ' : LoopState} {hist : List Handling} (hagg : e.cls.isAggregated)
    (hs : e.Serves env) (hc : Coherent σ) (he : .socket e ∈ σ.queue)
    (hrun : LoopRun env σ hist σ') :
    ((¬ ∃ e', e.Same e' ∧ .socket e' ∈ σ'.queue) →
      ∃ h ∈ hist, h.Of e ∧ (h.Relays env.cfg.network e ∨ h.SeesFinal env.cfg.network e)) ∧
    ∀ h ∈ hist, h.Of e → h.Relays env.cfg.network e ∨ h.SeesFinal env.cfg.network e ∨
      h.Requeues e := by
  have h0 : NotLost env e [] σ := ⟨hc, .inl ⟨e, .refl e, he⟩, fun h hh => by cases hh⟩
  have hn := hrun.invariant h0 (notLost_step hagg hs)
  exact ⟨fun hgone => hn.kept.resolve_left hgone, hn.handled⟩

/-- The sample relayer is one of two, and not the primary one for the sample event. -/
def Sample.secondaryEnv : Env := Sample.env fun _ =>
  Sample.view [Sample.account.address.hex, (Sample.address 2).hex] .accepted

/-- The sample event waits for the primary relayer, asks again, and is relayed. -/
theorem relay_not_lost_secondary : ∃ hist σ', hist.length = 3 ∧
    LoopRun Sample.secondaryEnv (Sample.loopState Sample.outbound) hist σ' ∧
    ∃ h ∈ hist, h.Of Sample.outbound ∧
      (h.Relays .mainnet Sample.outbound ∨ h.SeesFinal .mainnet Sample.outbound) := by
  have hexec : (exec Sample.secondaryEnv [.success, .success, .success]
      (Sample.loopState Sample.outbound)).any
        (fun p => p.1.length = 3 ∧ p.2.queue = []) := by decide +kernel
  obtain ⟨hist, σ', hrun, hlen, hqueue⟩ :=
    exists_run (fun hist σ' => hist.length = 3 ∧ σ'.queue = []) hexec
  have hserves : Sample.outbound.Serves Sample.secondaryEnv := by
    refine .inr ⟨⟨.bifrost, by decide, by decide +kernel⟩, fun t => ?_⟩
    show _ ∈ sortedLower [Sample.account.address.hex, (Sample.address 2).hex]
    decide +kernel
  refine ⟨hist, σ', hlen, hrun, (relay_not_lost rfl hserves (coherent_sample _)
    (List.mem_singleton_self _) hrun).1 ?_⟩
  rintro ⟨e', -, he'⟩
  rw [hqueue] at he'
  cases he'

end Bifrost
