import Bifrost.Loop.Launched

/-!
# Schedules of launched relayers

The feeds of a launched process: `relayer-launcher.py` registers one class of each
kind, and `clone_next` moves the time lock of a feed by the period of its class.
Where chainpy constructs each registered class once and queues the clone of each
period that has returned (`EventLoop.Regular`), the feeds that wait are those of the
registered classes, each as far on as the number of its own periods
(`launched_schedule`).
-/

namespace Bifrost

open Bifrost.Lib

variable {α φ : Type} {lib : LaunchLib} {c : CommandLine} {q : EventLoop} {l : Launched}
  {r : LaunchEnv α φ}

/-- What the periodic classes rely on: each registered class is constructed once, with the defaults
of its constructor, and behind a period that has returned its clone waits in the feed's stead. -/
structure EventLoop.Regular (q : EventLoop) : Prop where
  launch : ∀ events feeds, q.launch events feeds →
    ∃ timeLock : OffchainEventClass → Nat, feeds.Perm (events.map fun e => e.2.feed (timeLock e.2))
  requeue : ∀ f f' feeds feeds', q.requeue f f' true feeds feeds' →
    ∃ others, feeds.Perm (f :: others) ∧ feeds'.Perm (f' :: others)

namespace OffchainEventClass

/-- The time between two periods. -/
def periodMsec : OffchainEventClass → Nat
  | vspFeed => VSPFeed.validatorSetCheckPeriodSec * 1000
  | priceUpOracle => PriceUpOracle.priceSourceCollectionPeriodSec * 1000
  | relayerHeartBeat => RelayerHeartBeat.heartBeatPeriodSec * 1000

end OffchainEventClass

/-- The class of the feed whose period the deed is. -/
def Deed.periodOf? : Deed φ → Option OffchainEventClass
  | vspFeed .. => some .vspFeed
  | price .. => some .priceUpOracle
  | heartBeat .. => some .relayerHeartBeat
  | act _ | start .. => none

/-- No period raised. -/
def Deed.returned : Deed φ → Bool
  | vspFeed returned _ | price returned .. | heartBeat returned _ => returned
  | act _ | start .. => true

def Deed.isStart : Deed φ → Bool
  | start .. => true
  | _ => false

/-- The time locks after the deeds. -/
def lockAfter (timeLock : OffchainEventClass → Nat) (ds : List (Deed φ))
    (cls : OffchainEventClass) : Nat :=
  timeLock cls + ds.countP (·.periodOf? = some cls) * cls.periodMsec

/-- One feed of each class, with these time locks. -/
def Launched.feeds (l : Launched) (timeLock : OffchainEventClass → Nat) : List Feed :=
  l.offchainEvents.map fun e => e.2.feed (timeLock e.2)

theorem OffchainEventClass.feed_inj {cls cls' : OffchainEventClass} {t t' : Nat}
    (h : cls.feed t = cls'.feed t') : cls = cls' ∧ t = t' := by
  cases cls <;> cases cls' <;> cases h <;> exact ⟨rfl, rfl⟩

/-- Where the feed of a class is replaced, the others stay. -/
theorem Launched.feeds_replace (hnodup : (l.offchainEvents.map Prod.snd).Nodup)
    {t t' : OffchainEventClass → Nat} {before after : List Feed} {cls : OffchainEventClass}
    {n : Nat} (h : before ++ cls.feed n :: after = l.feeds t) (hother : ∀ k ≠ cls, t' k = t k) :
    t cls = n ∧ before ++ cls.feed (t' cls) :: after = l.feeds t' := by
  obtain ⟨es₁, es, hes, rfl, htail⟩ := List.map_eq_append_iff.mp h.symm
  obtain ⟨e, es₂, rfl, he, rfl⟩ := List.map_eq_cons_iff.mp htail
  obtain ⟨rfl, rfl⟩ := OffchainEventClass.feed_inj he
  refine ⟨rfl, ?_⟩
  rw [hes, List.map_append, List.map_cons, List.nodup_middle, List.nodup_cons,
    List.mem_append] at hnodup
  have hne (es' : List (String × OffchainEventClass)) (h' : e.2 ∉ es'.map Prod.snd) :
      es'.map (fun e => e.2.feed (t e.2)) = es'.map fun e => e.2.feed (t' e.2) := by
    refine List.map_congr_left fun e' he' => ?_
    rw [hother _ fun heq => h' (heq ▸ List.mem_map_of_mem he')]
  rw [Launched.feeds, hes, List.map_append, List.map_cons,
    hne es₁ fun h' => hnodup.1 (.inl h'), hne es₂ fun h' => hnodup.1 (.inr h')]

theorem Launched.mem_feeds {t : OffchainEventClass → Nat} {f : Feed} (h : f ∈ l.feeds t) :
    ∃ cls n, f = OffchainEventClass.feed n cls := by
  obtain ⟨e, -, rfl⟩ := List.mem_map.mp h
  exact ⟨e.2, _, rfl⟩

section Locks

variable (timeLock : OffchainEventClass → Nat) (ds : List (Deed φ))

theorem lockAfter_idle {ds' : List (Deed φ)} (h : ∀ d ∈ ds', d.periodOf? = none) :
    lockAfter timeLock (ds ++ ds') = lockAfter timeLock ds := by
  funext cls
  have hzero : ds'.countP (·.periodOf? = some cls) = 0 :=
    List.countP_eq_zero.mpr fun d hd => by simp [h d hd]
  rw [lockAfter, lockAfter, List.countP_append, hzero, Nat.add_zero]

theorem lockAfter_period {d : Deed φ} {cls : OffchainEventClass} (h : d.periodOf? = some cls) :
    lockAfter timeLock (ds ++ [d]) cls = lockAfter timeLock ds cls + cls.periodMsec := by
  rw [lockAfter, lockAfter, List.countP_append, List.countP_singleton, if_pos (by simp [h])]
  ring

theorem lockAfter_other {d : Deed φ} {cls : OffchainEventClass} (h : d.periodOf? = some cls)
    {k : OffchainEventClass} (hk : k ≠ cls) :
    lockAfter timeLock (ds ++ [d]) k = lockAfter timeLock ds k := by
  rw [lockAfter, lockAfter, List.countP_append, List.countP_singleton,
    if_neg (by simp [h, hk.symm]), Nat.add_zero]

end Locks

section Step

variable {timeLock : OffchainEventClass → Nat} {hist : List (Deed φ)}

/-- Behind a period of `cls` that has returned, the clone is in the stead of the feed. -/
theorem Launched.feeds_requeue (hnodup : (l.offchainEvents.map Prod.snd).Nodup)
    (hq : q.Regular) {feeds feeds' : List Feed} {f f' : Feed} {d : Deed φ}
    {cls : OffchainEventClass} (h : feeds.Perm (l.feeds (lockAfter timeLock hist)))
    (hd : d.periodOf? = some cls) (hret : d.returned = true)
    (hrequeue : q.requeue f f' d.returned feeds feeds')
    (hclone : ∀ k n, f = OffchainEventClass.feed n k →
      k = cls ∧ f' = cls.feed (n + cls.periodMsec)) :
    feeds'.Perm (l.feeds (lockAfter timeLock (hist ++ [d]))) := by
  rw [hret] at hrequeue
  obtain ⟨others, hfeeds, hfeeds'⟩ := hq.requeue _ _ _ _ hrequeue
  have hperm := hfeeds.symm.trans h
  have hmem : f ∈ l.feeds (lockAfter timeLock hist) := hperm.subset List.mem_cons_self
  obtain ⟨k, n, rfl⟩ := Launched.mem_feeds hmem
  obtain ⟨rfl, rfl⟩ := hclone k n rfl
  obtain ⟨before, after, heq⟩ := List.append_of_mem hmem
  obtain ⟨rfl, hrep⟩ := Launched.feeds_replace hnodup heq.symm
    fun k hk => lockAfter_other timeLock hist hd hk
  rw [heq] at hperm
  have hrest : others.Perm (before ++ after) := (hperm.trans List.perm_middle).cons_inv
  rw [← hrep, lockAfter_period timeLock hist hd]
  exact (hfeeds'.trans (hrest.cons _)).trans List.perm_middle.symm

/-- A period puts the time lock of its own feed off, and no other. -/
theorem schedule_step (hnodup : (l.offchainEvents.map Prod.snd).Nodup) (hq : q.Regular)
    {ds : List (Deed φ)} {p p' : Process} (h : p.feeds.Perm (l.feeds (lockAfter timeLock hist)))
    (hstep : LaunchStep q l r p ds p') (hds : ∀ d ∈ ds, d.isStart = false ∧ d.returned = true) :
    p'.feeds.Perm (l.feeds (lockAfter timeLock (hist ++ ds))) := by
  cases hstep with
  | act feeds hn hacts =>
    rw [lockAfter_idle]
    · exact h
    · intro d hd
      obtain ⟨a, -, rfl⟩ := List.mem_map.mp hd
      rfl
  | vspFeed queue next f f' outcome hf hclone hrequeue =>
    have hret := (hds _ List.mem_cons_self).2
    refine Launched.feeds_requeue hnodup hq h rfl hret hrequeue fun cls n hcls => ?_
    cases hclone
    cases cls <;> cases hcls
    exact ⟨rfl, rfl⟩
  | price queue next f outcome hf hrequeue =>
    have hret := (hds _ List.mem_cons_self).2
    refine Launched.feeds_requeue hnodup hq h rfl hret hrequeue fun cls n hcls => ?_
    cases cls <;> cases hcls
    exact ⟨rfl, rfl⟩
  | heartBeat queue next f outcome hf hrequeue =>
    have hret := (hds _ List.mem_cons_self).2
    refine Launched.feeds_requeue hnodup hq h rfl hret hrequeue fun cls n hcls => ?_
    cases cls <;> cases hcls
    exact ⟨rfl, rfl⟩
  | start => cases (hds _ List.mem_cons_self).1

end Step

/-- **Schedules.** Where chainpy queues the clone of each period that has returned, the feeds that
wait between a start and the end of a launched process are those of its registered classes, one of
each, and the time lock of a feed is what the number of its own periods makes of the one it was
registered with. -/
theorem launched_schedule (hl : setupRelayer lib (parseArgs c) = .ok l) (hq : q.Regular)
    {p₀ p p' : Process} {es : List RbcEvent} {us : List RoundUpEvent} {out : List Effect}
    {ds : List (Deed φ)} (hstart : LaunchStep q l r p₀ [.start es us out] p)
    (hrun : LaunchRun q l r p ds p') (hds : ∀ d ∈ ds, d.isStart = false ∧ d.returned = true) :
    l.offchainEvents.map Prod.snd = [.vspFeed, .priceUpOracle] ++
        (if c.noHeartbeat then [] else [.relayerHeartBeat]) ∧
      ∃ timeLock : OffchainEventClass → Nat, p.feeds.Perm (l.feeds timeLock) ∧
        p'.feeds.Perm (l.feeds (lockAfter timeLock ds)) := by
  have hclasses : l.offchainEvents.map Prod.snd = [.vspFeed, .priceUpOracle] ++
      (if c.noHeartbeat then [] else [.relayerHeartBeat]) := by
    rw [(setupRelayer_ok hl).offchainEvents]
    cases c.noHeartbeat <;> rfl
  have hnodup : (l.offchainEvents.map Prod.snd).Nodup := by
    rw [hclasses]
    cases c.noHeartbeat <;> decide
  have hlaunch : ∃ timeLock : OffchainEventClass → Nat, p.feeds.Perm (l.feeds timeLock) := by
    generalize hd : [Deed.start es us out] = ds₀ at hstart
    cases hstart with
    | start feeds es us out hn hlaunch => exact hq.launch _ _ hlaunch
    | act feeds hn _ =>
      obtain ⟨a, -, ha⟩ := List.map_eq_singleton_iff.mp hd.symm
      cases ha
    | vspFeed | price | heartBeat => cases hd
  obtain ⟨timeLock, hfeeds⟩ := hlaunch
  refine ⟨hclasses, timeLock, hfeeds, ?_⟩
  refine hrun.invariant (P := fun hist p => (∀ d ∈ hist, d.isStart = false ∧ d.returned = true) →
    p.feeds.Perm (l.feeds (lockAfter timeLock hist))) (fun _ => ?_)
    (fun {hist p ds p'} ih hstep h => ?_) hds
  · have hzero : lockAfter timeLock ([] : List (Deed φ)) = timeLock := by
      funext cls
      simp [lockAfter]
    rwa [hzero]
  · exact schedule_step hnodup hq (ih fun d hd => h d (List.mem_append_left _ hd)) hstep
      fun d hd => h d (List.mem_append_right _ hd)

theorem Sample.regular_eventLoop : Sample.eventLoop.Regular where
  launch := fun events feeds h => ⟨fun _ => 0, h ▸ .refl _⟩
  requeue := by
    rintro f f' _ _ ⟨before, after, rfl, rfl⟩
    exact ⟨before ++ after, List.perm_middle, List.perm_append_singleton _ _⟩

/-- After one heartbeat, its clone waits for half a minute. -/
theorem launched_schedule_heartBeat : ∃ p p' ds,
    LaunchRun Sample.eventLoop Sample.launched Sample.launchEnv p ds p' ∧
    (∃ d ∈ ds, d.periodOf? = some .relayerHeartBeat) ∧
    ∃ timeLock : OffchainEventClass → Nat, p.feeds.Perm (Sample.launched.feeds timeLock) ∧
      p'.feeds.Perm (Sample.launched.feeds (lockAfter timeLock ds)) := by
  obtain ⟨es, us, out, ⟨⟨st, queue⟩, next⟩, hboot⟩ := Sample.exists_start
  have hstart : LaunchStep Sample.eventLoop Sample.launched Sample.launchEnv ⟨Sample.node, []⟩
      [.start es us out] ⟨⟨⟨st, queue⟩, next⟩, Sample.launched.feeds fun _ => 0⟩ :=
    .start [] es us out hboot rfl
  have hstep : LaunchStep Sample.eventLoop Sample.launched Sample.launchEnv
      ⟨⟨⟨st, queue⟩, next⟩, Sample.launched.feeds fun _ => 0⟩ _ _ :=
    .heartBeat queue next ⟨30, 0⟩ .success Sample.mem_feeds
      ⟨[.vspFeed ⟨60, 0⟩, .priceUpOracle ⟨300, 0⟩], [], rfl, rfl⟩
  refine ⟨_, _, _, .single hstep, ⟨_, List.mem_singleton_self _, rfl⟩,
    (launched_schedule Sample.setupRelayer_commandLine Sample.regular_eventLoop hstart
      (.single hstep) fun d hd => ?_).2⟩
  rw [List.mem_singleton.mp hd]
  exact ⟨rfl, rfl⟩

end Bifrost
