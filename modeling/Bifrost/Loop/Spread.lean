import Bifrost.Loop.Certify
import Bifrost.Loop.Indexed

/-!
# Round changes reach every chain

A queued round change of a relayer that recognises it is never lost: until the
process ends, it is in the queue, or for each external chain its clone is, unless
a handling of the clone has asked the chain for its round and found it there or
relayed it (`Spread`). So one honest relayer that has it queued, and in whose
handlings nothing can go wrong, inevitably brings every external chain to the round
or sees it there, whatever the other relayers do (`Fleet.spreads`).
-/

namespace Bifrost

open Bifrost.Lib

variable {env : Env} {e : RoundUpEvent} {c : ChainEnum}

namespace RoundUpEvent

/-- A relayer of the previous round stays one as long as its cache does. -/
theorem cacheProp_isPreviousRelayer (e : RoundUpEvent) :
    CacheProp fun env s => (e.isPreviousRelayer env s).val = .ok true := by
  refine ⟨fun {env s s'} hc hs => ?_, fun {env s t k i} hi hs => ?_⟩
  · rw [isPreviousRelayer_val, hc, ← isPreviousRelayer_val]
    exact hs
  · rw [isPreviousRelayer_val] at hs ⊢
    cases hf : env.cfg.isFastRelayer with
    | true => rfl
    | false =>
      rw [hf, Bool.false_or] at hs
      have hkey : (s.cache (e.round - 1)).isSome := Except.ok.inj hs
      exact congrArg Except.ok ((CacheProp.key (e.round - 1)).store hi hkey)

end RoundUpEvent

/-- A handling of the event's clone for the chain, in the state it was taken from, has asked the
chain for its round, and has found the event's round there or relayed it. -/
def Updated (env : Env) (n₀ : Node) (e : RoundUpEvent) (c : ChainEnum) (hist : List Act) : Prop :=
  ∃ before n, ∃ o : Observed, NodeRun env n₀ before n ∧ before ++ [.handled o.handling] <+: hist ∧
    o.before = n.loop.st ∧ o.Valid env ∧ o.event.updates e.log c ∧ o.AsksRound c ∧
    (e.round ≤ o.targetRound env c ∨ ∃ tx, o.sent = [tx] ∧ tx.isRoundRelay c)

/-- What is left to do of a round change: itself, or a clone for each chain. -/
structure Spread (env : Env) (n₀ : Node) (e : RoundUpEvent) (hist : List Act) (n : Node) :
    Prop where
  run : NodeRun env n₀ hist n
  mine : (e.isPreviousRelayer env n.loop.st).val = .ok true
  held : .roundUp e ∈ n.loop.queue ∨ ∀ c ∈ env.cfg.externalChains,
    (∃ e', .roundUp e' ∈ n.loop.queue ∧ e.Kin env.cfg e' ∧ e'.selectedChain = c) ∨
      Updated env n₀ e c hist

section Runs

variable {n₀ n n' : Node} {hist acts : List Act}

theorem Updated.append (h : Updated env n₀ e c hist) (acts : List Act) :
    Updated env n₀ e c (hist ++ acts) := by
  obtain ⟨before, n, o, hrun, hle, ho⟩ := h
  exact ⟨before, n, o, hrun, hle.trans (List.prefix_append _ _), ho⟩

/-- A step that takes nothing on the round change from the queue. -/
theorem Spread.frame (h : Spread env n₀ e hist n) (hstep : NodeStep env n acts n')
    (hlive : ∀ a ∈ acts, a.isBoot = false)
    (hq : ∀ e', .roundUp e' ∈ n.loop.queue → .roundUp e' ∈ n'.loop.queue) :
    Spread env n₀ e (hist ++ acts) n' := by
  refine ⟨h.run.trans (.single hstep),
    cacheProp_step e.cacheProp_isPreviousRelayer h.mine hstep hlive, ?_⟩
  rcases h.held with he | hclones
  · exact .inl (hq e he)
  · refine .inr fun c hc => ?_
    rcases hclones c hc with ⟨e', he', hkin⟩ | hdone
    · exact .inl ⟨e', hq e' he', hkin⟩
    · exact .inr (hdone.append acts)

/-- A handling of a clone answers for its chain, or leaves it deferred. -/
theorem left_of_clone {o : Observed} {e' : RoundUpEvent} (he : e.Original env)
    (hkin : e.Kin env.cfg e') (hok : o.Valid env) (hev : o.event = .roundUp e')
    (hmine : (e.isPreviousRelayer env o.before).val = .ok true) (hne : e'.selectedChain ≠ .none) :
    (∃ t, o.queued = [.roundUp (e'.deferred t)]) ∨ o.AsksRound e'.selectedChain ∧
      (e.round ≤ o.targetRound env e'.selectedChain ∨
        ∃ tx, o.sent = [tx] ∧ tx.isRoundRelay e'.selectedChain) := by
  cases kinCase_of_valid he hkin hok hev hmine with
  | split heq => exact absurd (heq ▸ he.selectedChain) hne
  | processed c _ _ hsel hask hround =>
    rw [hsel]
    exact .inr ⟨hask, .inl hround⟩
  | relayed c tx _ _ hsel hask _ hchain hmethod hsent =>
    rw [hsel]
    exact .inr ⟨hask, .inr ⟨tx, hsent, decide_eq_true ⟨hchain, hmethod⟩⟩⟩
  | deferred c t _ _ _ _ _ _ _ hl => exact .inl ⟨t, hl⟩

/-- Step lemma. -/
theorem spread_step (he : e.Original env) (h : Spread env n₀ e hist n)
    (hstep : NodeStep env n acts n') (hlive : ∀ a ∈ acts, a.isBoot = false) :
    Spread env n₀ e (hist ++ acts) n' := by
  have hstep' := hstep
  cases hstep with
  | detect | detectRoundUp =>
    exact h.frame hstep' hlive fun _ hmem => List.mem_append_left _ hmem
  | passOver | period | wait => exact h.frame hstep' hlive fun _ hmem => hmem
  | restart => cases hlive _ (List.mem_singleton_self _)
  | handle next hd hloop =>
    refine ⟨h.run.trans (.single hstep'),
      cacheProp_step e.cacheProp_isPreviousRelayer h.mine hstep' hlive, ?_⟩
    cases hloop with
    | @handle st st' l₁ l₂ _ hp =>
      have hok : (⟨st, hd, st'⟩ : Observed).Valid env := hp
      rcases h.held with hown | hclones
      · rcases eq_or_mem_others hown with hev | hrest
        · -- the event is split
          refine .inr fun c hc => .inl ?_
          cases kinCase_of_valid he (.inl rfl) hok hev.symm h.mine with
          | split _ _ hl =>
            refine ⟨e.cloned env.cfg c, ?_, .inr ⟨c, hc, _, _, rfl⟩, rfl⟩
            have hl' : hd.queued = _ := hl
            rw [hl']
            exact List.mem_append_right _ (List.mem_map_of_mem hc)
          | processed _ _ hne hsel | relayed _ _ _ hne hsel | deferred _ _ _ hne hsel =>
            exact absurd (hsel.symm.trans he.selectedChain) hne
        · exact .inl (List.mem_append_left _ hrest)
      · refine .inr fun c hc => ?_
        rcases hclones c hc with ⟨e', he', hkin, rfl⟩ | hdone
        · rcases eq_or_mem_others he' with hev | hrest
          · rcases left_of_clone he hkin hok hev.symm h.mine (he.ne_none hc) with ⟨t, hl⟩ | hdone
            · have hl' : hd.queued = _ := hl
              refine .inl ⟨e'.deferred t, ?_, hkin.deferred he (he.ne_none hc) t, rfl⟩
              rw [hl']
              exact List.mem_append_right _ (List.mem_singleton_self _)
            · refine .inr ⟨hist, _, ⟨st, hd, st'⟩, h.run, List.prefix_refl _, rfl, hok, ?_, hdone⟩
              have hupdates : (Queued.roundUp e').updates e.log e'.selectedChain :=
                Queued.updates_iff.mpr ⟨hkin.log_eq, rfl⟩
              rwa [hev] at hupdates
          · exact .inl ⟨e', List.mem_append_left _ hrest, hkin, rfl⟩
        · exact .inr (hdone.append _)

/-- Run lemma. -/
theorem spread_run (he : e.Original env) (h : Spread env n₀ e hist n)
    (hrun : NodeRun env n acts n') (hlive : ∀ a ∈ acts, a.isBoot = false) :
    Spread env n₀ e (hist ++ acts) n' := by
  induction hrun generalizing hist with
  | nil => rwa [List.append_nil]
  | cons hstep _ ih =>
    rw [← List.append_assoc]
    exact ih (spread_step he h hstep fun a ha => hlive a (List.mem_append_left _ ha))
      fun a ha => hlive a (List.mem_append_right _ ha)

end Runs

namespace Fleet

variable {ι : Type} [DecidableEq ι] {F : Fleet ι} {g₀ g : ι → Node} {acts : List (ι × Act)}
  {i : ι}

/-- **Round changes.** Once an honest relayer has a round change in its queue that it recognises,
and nothing can go wrong in its handlings, every external chain inevitably has its round or gets the
relay of it from this relayer, in whatever order it handles its events and whatever the other
relayers do in between. -/
theorem spreads (hstart : ∀ i ∉ F.faulty, (g₀ i).loop.queue = []) (hi : F.Reliable {i})
    (hrun : Run (Interleave F.step) g₀ acts g) (hcopes : AllCope (F.env i) (labelsOf i acts))
    (he : e.Original (F.env i)) (hqueued : .roundUp e ∈ (g i).loop.queue)
    (hmine : (e.isPreviousRelayer (F.env i) (g i).loop.st).val = .ok true) :
    Inevitably (F.Round {i}) (fun p => ∀ c ∈ (F.env i).cfg.externalChains,
      Updated (F.env i) (g₀ i) e c (labelsOf i p.1)) (g i).work (acts, g) := by
  have hmem : i ∈ ({i} : Finset ι) := Finset.mem_singleton_self i
  have hhonest := hi.honest i hmem
  have hgo := Ongoing.inevitably hstart hi (p := (acts, g))
    (P := fun p => ∀ c ∈ (F.env i).cfg.externalChains,
      Updated (F.env i) (g₀ i) e c (labelsOf i p.1))
    (I := fun p => Spread (F.env i) (g₀ i) e (labelsOf i p.1) (p.2 i)) ?_ ?_
    ⟨hrun, fun j hj => by rw [Finset.mem_singleton.mp hj]; exact hcopes⟩
    ⟨process_run hrun hhonest, hmine, .inl hqueued⟩
  · rwa [Finset.sum_singleton] at hgo
  · intro p p' hspread hround
    obtain ⟨more, heq, -, -, hlive, hown⟩ := hround.tail hmem
    rw [heq]
    exact spread_run he hspread (hown hhonest) hlive
  · -- unless every chain is updated, the event or a clone of it is in the queue
    intro p _ hspread hnot
    rcases hspread.held with hown | hclones
    · exact ⟨i, hmem, _, hown⟩
    · push Not at hnot
      obtain ⟨c, hc, hnone⟩ := hnot
      obtain ⟨e', he', -⟩ := (hclones c hc).resolve_right hnone
      exact ⟨i, hmem, _, he'⟩

end Fleet

namespace Sample

/-- The sample round change, as a general relayer detects it. -/
def roundChange : RoundUpEvent := RoundUpEvent.made cfg committedLog 0

theorem original_roundChange (i : Fin 4) : roundChange.Original (fleetEnv i) where
  made := ⟨0, state outbound.msg, rfl⟩
  committed := rfl
  nodup := (by decide : cfg.supportedChainList.Nodup)
  none_notMem := (by decide : ChainEnum.none ∉ cfg.supportedChainList)

end Sample

/-- One relayer has cached its index in a period of the feed, and detects a round change; the faulty
one votes for a list of no relayers. -/
theorem Fleet.spreads_alone : ∃ acts g,
    Run (Interleave Sample.fleet.step) (fun _ => Sample.node) acts g ∧
    .roundUp Sample.roundChange ∈ (g 0).loop.queue ∧
    Inevitably (Sample.fleet.Round {0}) (fun p => ∀ c ∈ Sample.cfg.externalChains,
      Updated (Sample.fleet.env 0) Sample.node Sample.roundChange c (labelsOf 0 p.1))
        (g 0).work (acts, g) := by
  obtain ⟨acts, g, hrun, hdetected, hroundUps, hqueued, hmine⟩ := Sample.exists_fleetRun
    [.run 0 (.period .success), .forge (.validators Sample.nextRound []),
      .run 0 (.detectRoundUp Sample.committedLog 0)]
    (fun acts g => (detectedIn (labelsOf 0 acts)).length = 0 ∧
      roundUpsIn (labelsOf 0 acts) = [Sample.roundChange] ∧
      .roundUp Sample.roundChange ∈ (g 0).loop.queue ∧ ((g 0).loop.st.cache 6).isSome)
    (by decide +kernel)
  refine ⟨acts, g, hrun, hqueued, spreads (fun _ _ => rfl) (Sample.reliable_fleet _ (by decide))
    hrun ⟨fun d hd => ?_, fun d hd => ?_⟩ (Sample.original_roundChange 0) hqueued ?_⟩
  · rw [List.length_eq_zero_iff.mp hdetected] at hd
    cases hd
  · rw [hroundUps] at hd
    cases List.mem_singleton.mp hd
    exact Sample.roundUpCopes _ _ (List.cons_ne_nil _ _) (by decide) (by decide) (by decide) rfl
  · rw [RoundUpEvent.isPreviousRelayer_val]
    exact congrArg Except.ok hmine

end Bifrost
