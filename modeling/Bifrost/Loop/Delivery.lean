import Bifrost.Loop.Certify
import Bifrost.Loop.Relay

/-!
# Delivery

Where a vote needs many relayers, a relay needs one. As long as its process runs,
an aggregated event that a relayer serves is in its queue, or was relayed to its
target chain, or a read of that chain showed the final status of its branch
(`Pursued`). So once one honest relayer has detected such an event, and nothing can
go wrong in its handlings, one of the last two is inevitable, whatever the other
relayers do and in whatever order it handles its events (`Fleet.delivers`).
-/

namespace Bifrost

open Bifrost.Lib

/-- A handling of `d` relayed it, or saw its final status on the target chain. -/
def Concluded (env : Env) (hist : List Act) (d : RbcEvent) : Prop :=
  ∃ h, .handled h ∈ hist ∧ h.Of d ∧
    (h.Relays env.cfg.network d ∨ h.SeesFinal env.cfg.network d)

section Runs

variable {env : Env} {hist acts : List Act} {n n' : Node} {d : RbcEvent}

theorem Concluded.append (h : Concluded env hist d) (acts : List Act) :
    Concluded env (hist ++ acts) d := by
  obtain ⟨h, hh, hd⟩ := h
  exact ⟨h, List.mem_append_left _ hh, hd⟩

/-- The aggregated events of the process that runs now are queued or concluded. -/
structure Pursued (env : Env) (hist : List Act) (n : Node) : Prop where
  traced : Traced env.cfg hist n
  held : ∀ d ∈ detectedIn (sinceBoot hist), d.cls.isAggregated → d.Serves env →
    (∃ e, d.Same e ∧ .socket e ∈ n.loop.queue) ∨ Concluded env hist d

/-- An act that takes nothing from the queue and puts in what it detects. -/
theorem Pursued.grow {σ σ' : LoopState} {next next' : Ref} {a : Act}
    (hp : Pursued env hist ⟨σ, next⟩) (ht : Traced env.cfg (hist ++ [a]) ⟨σ', next'⟩)
    (hboot : a.isBoot = false) (hq : ∀ q ∈ σ.queue, q ∈ σ'.queue)
    (hnew : ∀ e ∈ a.events, .socket e ∈ σ'.queue) :
    Pursued env (hist ++ [a]) ⟨σ', next'⟩ := by
  refine ⟨ht, fun d hd hagg hs => ?_⟩
  rw [detectedIn_sinceBoot_snoc, if_neg (by simp [hboot])] at hd
  rcases List.mem_append.mp hd with hold | hd
  · rcases hp.held d hold hagg hs with ⟨e, hsame, he⟩ | hdone
    · exact .inl ⟨e, hsame, hq _ he⟩
    · exact .inr (hdone.append _)
  · exact .inl ⟨d, .refl d, hnew d hd⟩

theorem Pursued.handle {σ σ' : LoopState} {next : Ref} {h : Handling}
    (hp : Pursued env hist ⟨σ, next⟩)
    (ht : Traced env.cfg (hist ++ [.handled h]) ⟨σ', next⟩) (hstep : LoopStep env σ [h] σ') :
    Pursued env (hist ++ [.handled h]) ⟨σ', next⟩ := by
  refine ⟨ht, fun d hd hagg hs => ?_⟩
  rw [detectedIn_sinceBoot_snoc, if_neg (by simp [Act.isBoot])] at hd
  have hold : d ∈ detectedIn (sinceBoot hist) := by simpa [Act.events] using hd
  rcases hp.held d hold hagg hs with ⟨e, hsame, he⟩ | hdone
  · cases hstep with
    | @handle st st' l₁ l₂ _ hproc =>
      rcases eq_or_mem_others he with hev | hrest
      · -- the entry of the event is taken
        have hmsg : (st.heap d.detectedEvent).decoded = d.msg := by
          rw [← hsame.2.1, ← hsame.2.2]
          exact hp.traced.coherent.msg e he
        have hof : h.Of d := ⟨e, hev.symm, hsame⟩
        have hlast : .handled h ∈ hist ++ [.handled h] := by simp
        rcases relays_or_requeues hagg hs hof hmsg hproc with hr | hf | ⟨e', hsame', he'⟩
        · exact .inr ⟨h, hlast, hof, .inl hr⟩
        · exact .inr ⟨h, hlast, hof, .inr hf⟩
        · exact .inl ⟨e', hsame', List.mem_append_right _ he'⟩
      · exact .inl ⟨e, hsame, List.mem_append_left _ hrest⟩
  · exact .inr (hdone.append _)

/-- Step lemma. -/
theorem pursued_step (hp : Pursued env hist n) (hstep : NodeStep env n acts n') :
    Pursued env (hist ++ acts) n' := by
  have ht := traced_step hp.traced hstep
  cases hstep with
  | detect log timeLock e w hd =>
    refine hp.grow ht rfl (fun q hq => List.mem_append_left _ hq) fun e' he' => ?_
    rw [List.mem_singleton.mp he']
    exact List.mem_append_right _ (List.mem_singleton_self _)
  | passOver queue log timeLock w hd =>
    rw [List.append_nil] at ht ⊢
    exact ⟨ht, hp.held⟩
  | detectRoundUp next log timeLock e w hinit =>
    exact hp.grow ht rfl (fun q hq => List.mem_append_left _ hq) fun _ he => by cases he
  | handle next h hloop => exact hp.handle ht hloop
  | period st queue next outcome _ =>
    exact hp.grow ht rfl (fun q hq => hq) fun _ he => by cases he
  | wait st queue next =>
    rw [List.append_nil] at ht ⊢
    exact ⟨ht, hp.held⟩
  | restart queue order roundUpOrder timeLock logs roundUps es us w hboot =>
    refine ⟨ht, fun d hd _ _ => .inl ⟨d, .refl d, ?_⟩⟩
    have hboots : (Act.booted es us w).isBoot = true := rfl
    rw [detectedIn_sinceBoot_snoc, if_pos hboots] at hd
    exact List.mem_append_left _ (List.mem_map_of_mem hd)

/-- Run lemma. -/
theorem pursued_run (hrun : NodeRun env n acts n') (hstart : n.loop.queue = []) :
    Pursued env acts n' :=
  hrun.invariant ⟨.start hstart, fun d hd => by (cases hd)⟩ pursued_step

end Runs

namespace Fleet

variable {ι : Type} [DecidableEq ι] {F : Fleet ι} {g₀ g : ι → Node} {acts : List (ι × Act)}
  {i : ι} {d : RbcEvent}

/-- **Delivery.** Once an honest relayer of any role has detected an aggregated event that it
serves, and nothing can go wrong in its handlings, it inevitably relays the event or sees its final
status on the target chain, in whatever order it handles its events and whatever the other relayers
do in between. -/
theorem delivers (hstart : ∀ i ∉ F.faulty, (g₀ i).loop.queue = []) (hi : F.Reliable {i})
    (hrun : Run (Interleave F.step) g₀ acts g) (hcopes : AllCope (F.env i) (labelsOf i acts))
    (hd : d ∈ detectedIn (sinceBoot (labelsOf i acts))) (hagg : d.cls.isAggregated)
    (hs : d.Serves (F.env i)) :
    Inevitably (F.Round {i}) (fun p => Concluded (F.env i) (labelsOf i p.1) d) (g i).work
      (acts, g) := by
  have hmem : i ∈ ({i} : Finset ι) := Finset.mem_singleton_self i
  have hgo := Ongoing.inevitably hstart hi (p := (acts, g))
    (P := fun p => Concluded (F.env i) (labelsOf i p.1) d)
    (I := fun p => d ∈ detectedIn (sinceBoot (labelsOf i p.1)))
    (fun p p' hd hround => hround.detected hmem hd) ?_
    ⟨hrun, fun j hj => by rw [Finset.mem_singleton.mp hj]; exact hcopes⟩ hd
  · rwa [Finset.sum_singleton] at hgo
  · intro p h hd hnot
    have hhonest := hi.honest i hmem
    have hpursued := pursued_run (process_run h.run hhonest) (hstart i hhonest)
    obtain ⟨e, -, he⟩ := (hpursued.held d hd hagg hs).resolve_right hnot
    exact ⟨i, hmem, .socket e, he⟩

end Fleet

/-- One relayer detects the ACCEPTED log of an outbound request, and an inbound one. -/
theorem Sample.exists_outboundRun : ∃ acts g,
    Run (Interleave fleet.step) (fun _ => node) acts g ∧ roundUpsIn (labelsOf 0 acts) = [] ∧
    (∀ d ∈ detectedIn (labelsOf 0 acts), d.srcChain? .mainnet ≠ none ∧
      d.inst? .mainnet ≠ none) ∧
    ∃ d ∈ detectedIn (sinceBoot (labelsOf 0 acts)), d.cls.isAggregated ∧
      d.srcChain? .mainnet = some .bifrost :=
  exists_fleetRun [.run 0 (.detect (.ofMsg (msg .bifrost .ethereum .accepted) 7) 1),
    .forge (.request (openRequest.withStatus .rejected)),
    .run 0 (.detect (.ofMsg (msg .ethereum .bifrost .executed) 8) 1)] _ (by decide +kernel)

/-- It relays the outbound request, or sees it settled. -/
theorem Fleet.delivers_alone : ∃ acts g d,
    Run (Interleave Sample.fleet.step) (fun _ => Sample.node) acts g ∧
    d ∈ detectedIn (labelsOf 0 acts) ∧ d.cls.isAggregated ∧
    Inevitably (Sample.fleet.Round {0})
      (fun p => Concluded (Sample.fleet.env 0) (labelsOf 0 p.1) d) (g 0).work (acts, g) := by
  obtain ⟨acts, g, hrun, hroundUps, hdetected, d, hd, hagg, hsrc⟩ := Sample.exists_outboundRun
  refine ⟨acts, g, d, hrun, detectedIn_sinceBoot hd, hagg, delivers (fun _ _ => rfl)
    (Sample.reliable_fleet _ (by decide)) hrun ⟨fun d hd => ?_, fun d hd => ?_⟩ hd hagg
      (Sample.serves_fleet 0 (by decide) hsrc)⟩
  · exact Sample.copes _ _ (List.cons_ne_nil _ _) (hdetected d hd).1 (hdetected d hd).2
  · rw [hroundUps] at hd
    cases hd

end Bifrost
