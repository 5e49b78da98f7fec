import Bifrost.Loop.Ballot
import Bifrost.Loop.Drain
import Bifrost.Loop.Network
import Mathlib.Algebra.Order.BigOperators.Group.Finset

/-!
# Certification

The other half of validity. A relayer that has detected a log that calls for a
vote, and has it in its queue no longer, has signed the message in the status it
votes for (`signed_of_handled`). So once enough honest relayers have detected such
a log of a request, and nothing can go wrong in their handlings, the request is
inevitably certified in this status, whatever the other relayers do meanwhile and
in whatever order events are handled (`Fleet.certifies`). The argument is one about
the work of any group of reliable relayers (`Fleet.Ongoing.inevitably`).
-/

namespace Bifrost

open Bifrost.Lib

section Histories

variable {acts acts' : List Act} {d : RbcEvent}

theorem detectedIn_sinceBoot (hd : d ∈ detectedIn (sinceBoot acts)) : d ∈ detectedIn acts := by
  induction acts with
  | nil => exact hd
  | cons a acts ih =>
    unfold sinceBoot at hd
    split at hd
    · exact List.mem_append_right _ (ih hd)
    · exact hd

/-- What the process that runs now has detected, after one more act. -/
theorem detectedIn_sinceBoot_snoc (acts : List Act) (a : Act) :
    detectedIn (sinceBoot (acts ++ [a])) =
      if a.isBoot then a.events else detectedIn (sinceBoot acts) ++ a.events := by
  rw [sinceBoot_snoc]
  split
  · exact detectedIn_singleton a
  · rw [detectedIn_append, detectedIn_singleton]

theorem sinceBoot_append (h : ∀ a ∈ acts', a.isBoot = false) :
    sinceBoot (acts ++ acts') = sinceBoot acts ++ acts' := by
  induction acts' using List.reverseRecOn with
  | nil => rw [List.append_nil, List.append_nil]
  | append_singleton acts' a ih =>
    have ha : ¬ a.isBoot = true := by simp [h a (by simp)]
    rw [← List.append_assoc, sinceBoot_snoc, if_neg ha,
      ih fun b hb => h b (List.mem_append_left _ hb), List.append_assoc]

end Histories

/-- The process that runs now has detected a log that calls for a vote on `m`. -/
structure CallsFor (env : Env) (acts : List Act) (m : SocketMsg) (d : RbcEvent) : Prop where
  detected : d ∈ detectedIn (sinceBoot acts)
  serves : d.Serves env
  vote : ∃ t, d.signedStatus? env.cfg.network = some t ∧ m = d.msg.withStatus t

theorem signed_of_handled {env : Env} {acts : List Act} {n n' : Node} {m : SocketMsg}
    {d : RbcEvent} (hslow : env.cfg.isFastRelayer = false) (hrun : NodeRun env n acts n')
    (hstart : n.loop.queue = []) (h : CallsFor env acts m d) (hnot : .socket d ∉ n'.loop.queue) :
    SignedIn acts (.request m) := by
  obtain ⟨t, ht, rfl⟩ := h.vote
  have hpolled := polled_run hslow hrun hstart
  cases hpolled.due d (detectedIn_sinceBoot h.detected) h.serves t ht with
  | waiting hqueued => exact absurd hqueued hnot
  | cast _ hsigned => exact hsigned
  | lost hold => exact absurd h.detected hold

namespace Fleet

variable {ι : Type} [DecidableEq ι] {F : Fleet ι} {voters : Finset ι} {m : SocketMsg}

/-- Honest relayers that are not fast, whose steps are all those of the code. -/
structure Electorate (F : Fleet ι) (voters : Finset ι) : Prop where
  honest : ∀ i ∈ voters, i ∉ F.faulty
  slow : ∀ i ∈ voters, (F.env i).cfg.isFastRelayer = false
  chains : ∀ i ∈ voters, .none ∉ (F.env i).cfg.supportedChainList
  live : ∀ i ∈ voters, ∀ n acts n', NodeStep (F.env i) n acts n' → F.step i n acts n'

/-- Honest relayers of any role, whose steps are all those of the code. -/
structure Reliable (F : Fleet ι) (group : Finset ι) : Prop where
  honest : ∀ i ∈ group, i ∉ F.faulty
  chains : ∀ i ∈ group, .none ∉ (F.env i).cfg.supportedChainList
  live : ∀ i ∈ group, ∀ n acts n', NodeStep (F.env i) n acts n' → F.step i n acts n'

omit [DecidableEq ι] in
theorem Electorate.reliable (h : F.Electorate voters) : F.Reliable voters :=
  ⟨h.honest, h.chains, h.live⟩

/-- A run in which nothing can go wrong in the handlings of the group. -/
structure Ongoing (F : Fleet ι) (group : Finset ι) (g₀ : ι → Node)
    (p : List (ι × Act) × (ι → Node)) : Prop where
  run : Run (Interleave F.step) g₀ p.1 p.2
  copes : ∀ i ∈ group, AllCope (F.env i) (labelsOf i p.1)

/-- Any steps of the other relayers, and of the voters periods of the feed and waits; then a voter
handles an event. -/
inductive Round (F : Fleet ι) (voters : Finset ι) : List (ι × Act) × (ι → Node) →
    List (ι × Act) × (ι → Node) → Prop where
  | round {acts more : List (ι × Act)} {g g₁ : ι → Node} {i : ι} {h : Handling} {n' : Node} :
      Run (Interleave F.step) g more g₁ →
      (∀ j ∈ voters, ∀ a ∈ labelsOf j more, ∃ out, a = .fed out) → i ∈ voters →
      F.step i (g₁ i) [.handled h] n' →
      Round F voters (acts, g) (acts ++ more ++ [(i, .handled h)], Function.update g₁ i n')

variable {group : Finset ι} {g₀ : ι → Node} {p p' : List (ι × Act) × (ι → Node)}

/-- What a relayer of the group does in a round: it detects nothing, and does not start again. -/
theorem Round.tail (hround : F.Round group p p') {j : ι} (hj : j ∈ group) :
    ∃ acts, labelsOf j p'.1 = labelsOf j p.1 ++ acts ∧ detectedIn acts = [] ∧
      roundUpsIn acts = [] ∧ (∀ a ∈ acts, a.isBoot = false) ∧
      (j ∉ F.faulty → NodeRun (F.env j) (p.2 j) acts (p'.2 j)) := by
  cases hround with
  | @round acts more g g₁ i h n' hrun hidle hi hstep =>
    have htail : ∀ a ∈ labelsOf j more ++ labelsOf j [(i, .handled h)],
        a.events = [] ∧ a.roundUps = [] ∧ a.isBoot = false := by
      intro a ha
      rcases List.mem_append.mp ha with ha | ha
      · obtain ⟨out, rfl⟩ := hidle j hj a ha
        exact ⟨rfl, rfl, rfl⟩
      · cases List.mem_singleton.mp (mem_labelsOf.mp ha)
        exact ⟨rfl, rfl, rfl⟩
    refine ⟨labelsOf j more ++ labelsOf j [(i, .handled h)], ?_,
      List.flatMap_eq_nil_iff.mpr fun a ha => (htail a ha).1,
      List.flatMap_eq_nil_iff.mpr fun a ha => (htail a ha).2.1, fun a ha => (htail a ha).2.2,
      fun hhonest => ?_⟩
    · rw [labelsOf_append, labelsOf_append, List.append_assoc]
    · have hall : Run (Interleave F.step) g (more ++ [(i, .handled h)])
          (Function.update g₁ i n') := hrun.trans (.single (.move i hstep))
      have hown := process_run hall hhonest
      rwa [labelsOf_append] at hown

/-- What the processes of the group have detected stays detected in a round. -/
theorem Round.detected (hround : F.Round group p p') {j : ι} (hj : j ∈ group) {d : RbcEvent}
    (hd : d ∈ detectedIn (sinceBoot (labelsOf j p.1))) :
    d ∈ detectedIn (sinceBoot (labelsOf j p'.1)) := by
  obtain ⟨acts, heq, -, -, hlive, -⟩ := hround.tail hj
  rw [heq, sinceBoot_append hlive, detectedIn_append]
  exact List.mem_append_left _ hd

theorem Ongoing.round (h : F.Ongoing group g₀ p) (hround : F.Round group p p') :
    F.Ongoing group g₀ p' := by
  refine ⟨?_, fun j hj => ?_⟩
  · cases hround with
    | round hrun _ _ hstep => exact (h.run.trans hrun).trans (.single (.move _ hstep))
  · obtain ⟨acts, heq, hd, hr, -, -⟩ := hround.tail hj
    rw [heq]
    exact (h.copes j hj).append hd hr

section Rounds

variable (hstart : ∀ i ∉ F.faulty, (g₀ i).loop.queue = []) (hgroup : F.Reliable group)

include hstart hgroup

/-- A relayer of the group can handle each of its queued events. -/
theorem Ongoing.progress (h : F.Ongoing group g₀ p) {i : ι} (hi : i ∈ group) {q : Queued}
    (hq : q ∈ (p.2 i).loop.queue) : ∃ p', F.Round group p p' := by
  obtain ⟨acts, g⟩ := p
  have hhonest := hgroup.honest i hi
  have ht := traced_run (process_run h.run hhonest) (hstart i hhonest)
  obtain ⟨hh, n', hstep, -⟩ := ht.progress (h.copes i hi) hq .success
  exact ⟨_, .round (.nil g) (fun j _ a ha => by cases ha) hi (hgroup.live i hi _ _ _ hstep)⟩

/-- A round lowers the work of the group. -/
theorem Ongoing.lowers (h : F.Ongoing group g₀ p) (hround : F.Round group p p') :
    (group.sum fun i => (p'.2 i).work) < group.sum fun i => (p.2 i).work := by
  cases hround with
  | @round acts more g g₁ i hh n' hrun hidle hi hstep =>
    have hfed : ∀ j ∈ group, (g₁ j).work = (g j).work := fun j hj => congrArg (total Queued.work)
      (idle_of_fed (process_run hrun (hgroup.honest j hj)) (hidle j hj)).2.2
    have hhonest := hgroup.honest i hi
    have ht := traced_run (process_run (h.run.trans hrun) hhonest) (hstart i hhonest)
    have hlt : n'.work < (g i).work := by
      rw [← hfed i hi]
      exact ht.lowers (hgroup.chains i hi) (F.honest i hhonest _ _ _ hstep)
    have hle : ∀ j ∈ group, (Function.update g₁ i n' j).work ≤ (g j).work := by
      intro j hj
      by_cases hij : j = i
      · subst hij
        rw [Function.update_self]
        exact hlt.le
      · rw [Function.update_of_ne hij]
        exact (hfed j hj).le
    refine Finset.sum_lt_sum hle ⟨i, hi, ?_⟩
    show (Function.update g₁ i n' i).work < (g i).work
    rw [Function.update_self]
    exact hlt

/-- Where rounds keep `I`, and some relayer of the group has a queued event unless `P`, `P` comes
after as many rounds as there is work. -/
theorem Ongoing.inevitably {I P : List (ι × Act) × (ι → Node) → Prop}
    (hround : ∀ p p', I p → F.Round group p p' → I p')
    (hqueued : ∀ p, F.Ongoing group g₀ p → I p → ¬ P p →
      ∃ i ∈ group, ∃ q, q ∈ (p.2 i).loop.queue)
    (h : F.Ongoing group g₀ p) (hI : I p) :
    Inevitably (F.Round group) P (group.sum fun i => (p.2 i).work) p := by
  have hprogress : ∀ p, F.Ongoing group g₀ p ∧ I p → ¬ P p → ∃ p', F.Round group p p' := by
    rintro p ⟨h, hI⟩ hnot
    obtain ⟨i, hi, q, hq⟩ := hqueued p h hI hnot
    exact h.progress hstart hgroup hi hq
  have hnext : ∀ p p', F.Ongoing group g₀ p ∧ I p → F.Round group p p' →
      (F.Ongoing group g₀ p' ∧ I p') ∧
        (group.sum fun i => (p'.2 i).work) < group.sum fun i => (p.2 i).work := by
    rintro p p' ⟨h, hI⟩ hp
    exact ⟨⟨h.round hp, hround p p' hI hp⟩, h.lowers hstart hgroup hp⟩
  exact inevitably_of_measure hprogress hnext ⟨h, hI⟩ le_rfl

end Rounds

/-- **Certification.** Once some honest relayers have detected a log that calls for a vote on a
message, and nothing can go wrong in their handlings, all of them inevitably sign it, in whatever
order they handle their events and whatever the other relayers do in between. -/
theorem certifies (hstart : ∀ i ∉ F.faulty, (g₀ i).loop.queue = [])
    (hvoters : F.Electorate voters) {acts : List (ι × Act)} {g : ι → Node}
    (hrun : Run (Interleave F.step) g₀ acts g)
    (hcopes : ∀ i ∈ voters, AllCope (F.env i) (labelsOf i acts))
    (hcalls : ∀ i ∈ voters, ∃ d, CallsFor (F.env i) (labelsOf i acts) m d) :
    Inevitably (F.Round voters) (fun p => ∀ i ∈ voters, SignedIn (labelsOf i p.1) (.request m))
      (voters.sum fun i => (g i).work) (acts, g) := by
  refine Ongoing.inevitably hstart hvoters.reliable (p := (acts, g))
    (I := fun p => ∀ i ∈ voters, ∃ d, CallsFor (F.env i) (labelsOf i p.1) m d) ?_ ?_
    ⟨hrun, hcopes⟩ hcalls
  · intro p p' hcalls hround i hi
    obtain ⟨d, hd⟩ := hcalls i hi
    exact ⟨d, hround.detected hi hd.detected, hd.serves, hd.vote⟩
  · -- unless all have signed, some voter still has its event in the queue
    intro p h hcalls hnot
    by_contra hnone
    refine hnot fun i hi => ?_
    obtain ⟨d, hd⟩ := hcalls i hi
    exact signed_of_handled (hvoters.slow i hi) (process_run h.run (hvoters.honest i hi))
      (hstart i (hvoters.honest i hi)) hd fun hq => hnone ⟨i, hi, _, hq⟩

end Fleet

namespace Sample

theorem reliable_fleet (group : Finset (Fin 4)) (hgroup : 3 ∉ group) : fleet.Reliable group where
  honest := fun _ hi h => hgroup (Finset.mem_singleton.mp h ▸ hi)
  chains := fun _ _ => (by decide : ChainEnum.none ∉ cfg.supportedChainList)
  live := fun _ _ _ _ _ h => .inr h

theorem serves_fleet (i : Fin 4) {c : ChainEnum} {d : RbcEvent} (hc : c ∈ cfg.supportedChainList)
    (hsrc : d.srcChain? .mainnet = some c) : d.Serves (fleetEnv i) :=
  serves _ _ (by revert i; decide +kernel) hc hsrc

end Sample

/-- Three relayers have detected the EXECUTED log of a request, one of them besides the REVERTED
one, and the faulty relayer has signed already. -/
theorem Fleet.certifies_three : ∃ acts g,
    Run (Interleave Sample.fleet.step) (fun _ => Sample.node) acts g ∧
    Inevitably (Sample.fleet.Round {0, 1, 2}) (fun p => ∀ i ∈ ({0, 1, 2} : Finset (Fin 4)),
      SignedIn (labelsOf i p.1) (.request (Sample.openRequest.withStatus .accepted)))
      (({0, 1, 2} : Finset (Fin 4)).sum fun i => (g i).work) (acts, g) := by
  obtain ⟨acts, g, hrun, hdetected, hcalls⟩ := Sample.exists_fleetRun
    [.run 0 (.detect (.ofMsg (Sample.msg .ethereum .bifrost .executed) 7) 1),
      .run 1 (.detect (.ofMsg (Sample.msg .ethereum .bifrost .reverted) 9) 1),
      .forge (.request (Sample.openRequest.withStatus .accepted)),
      .run 1 (.detect (.ofMsg (Sample.msg .ethereum .bifrost .executed) 7) 1),
      .run 2 (.detect (.ofMsg (Sample.msg .ethereum .bifrost .executed) 8) 1)]
    (fun acts _ => (∀ i : Fin 4, roundUpsIn (labelsOf i acts) = [] ∧
      ∀ d ∈ detectedIn (labelsOf i acts), d.srcChain? .mainnet = some .ethereum ∧
        d.inst? .mainnet ≠ none) ∧
      ∀ i : Fin 4, i ≠ 3 → ∃ d ∈ detectedIn (sinceBoot (labelsOf i acts)),
        d.signedStatus? .mainnet = some .accepted ∧
          (Sample.openRequest.withStatus .accepted).encode = (d.msg.withStatus .accepted).encode)
    (by decide +kernel)
  have hreliable := Sample.reliable_fleet {0, 1, 2} (by decide)
  refine ⟨acts, g, hrun, certifies (fun _ _ => rfl) ⟨hreliable.honest, fun _ _ => rfl,
    hreliable.chains, hreliable.live⟩ hrun (fun i _ => ⟨fun d hd => ?_, fun d hd => ?_⟩)
      fun i hi => ?_⟩
  · obtain ⟨hsrc, hinst⟩ := (hdetected i).2 d hd
    refine Sample.copes _ _ (List.cons_ne_nil _ _) ?_ hinst
    rw [hsrc]
    exact Option.some_ne_none _
  · rw [(hdetected i).1] at hd
    cases hd
  · obtain ⟨d, hd, hst, hmsg⟩ := hcalls i (by revert i; decide)
    obtain ⟨hsrc, -⟩ := (hdetected i).2 d (detectedIn_sinceBoot hd)
    exact ⟨d, hd, Sample.serves_fleet i (by decide) hsrc, .accepted, hst,
      SocketMsg.encode_inj hmsg⟩

end Bifrost
