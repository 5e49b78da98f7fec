import Bifrost.Lib.Group
import Bifrost.Loop
import Bifrost.Primitives.Oracle

/-!
# The price feed

`rbclib/periodic/oracle_price_up.py`. The ids of the transaction follow the
configured symbols, its prices the order in which the aggregator's dictionary
was filled; the exporter pairs the same two lists. `feedsOwn_iff` says when each
id has the price of its own symbol. The aggregator and its amounts (chainpy) are
parameters: `α` is the type of an amount, `φ` that of a gauge's number.
-/

namespace Bifrost

open Bifrost.Lib

/-- The relayer's environment with what the price feed uses. -/
structure PriceEnv (α φ : Type) where
  env : Env
  priceOracleAssets : Option (List Str)
  /-- `get_current_weighted_price`, behind the `n`-th remote read. -/
  collected : Nat → Option (List Str) → Except Exn (Dict Str α)
  /-- `price.bytes()` -/
  bytes : α → Bytes
  /-- `float(price.float_str)` -/
  float : α → φ

inductive PriceEffect (φ : Type) where
  | relayer (o : Effect)
  /-- `ASSET_PRICES.labels(symbol).set(price)` -/
  | assetPrice (symbol : Str) (price : φ)

/-- A transaction tuple of the price feed. -/
structure PriceTx where
  chain : ChainEnum
  contract : String
  method : String
  oidList : List (BytesN 32)
  prices : List Bytes
  deriving DecidableEq

abbrev PM (α φ : Type) := Proc (PriceEnv α φ) Exn RState (PriceEffect φ)

namespace PriceUpOracle

variable {α φ β : Type}

def ofRM (x : RM β) : PM α φ β := fun r s =>
  let res := x r.env s
  ⟨res.val, res.st, res.out.map .relayer⟩

def getCurrentWeightedPrice (symbols : Option (List Str)) : PM α φ (Dict Str α) := fun r s =>
  ⟨r.collected s.now symbols, s, []⟩

/-- The loop of `exporting_asset_prices` over the symbols that are left. -/
def exportLoop (coinSymbols : List Str) (prices : List α) : List Str → PM α φ Unit
  | [] => pure ()
  | symbol :: symbols => do
    let i ← Proc.ofOption .valueError (index? coinSymbols symbol)
    let price ← Proc.ofOption (.exception "list index out of range") prices[i]?
    let r ← Proc.ask
    Proc.emit (.assetPrice symbol (r.float price))
    exportLoop coinSymbols prices symbols

def exportingAssetPrices (coinSymbols : List Str) (prices : List α) : PM α φ Unit := do
  let r ← Proc.ask
  if r.env.cfg.prometheusOn then exportLoop coinSymbols prices coinSymbols else pure ()

/-- `Oracle[symbol].value` -/
def oid? (symbol : Str) : Option (BytesN 32) := (Oracle.ofName? symbol).map Oracle.value

def buildTransactionParams : PM α φ (Option PriceTx) := do
  let r ← Proc.ask
  let auth ← ofRM (RM.isSelectedRelayer .bifrost none r.env.account.address true)
  if !auth then pure none
  else do
    let collectedPrices ← getCurrentWeightedPrice r.priceOracleAssets
    let symbols ← Proc.ofOption .typeError r.priceOracleAssets
    let oidList ← Proc.ofOption .keyError (symbols.mapM oid?)
    let prices := collectedPrices.map Prod.snd
    exportingAssetPrices symbols prices
    pure (some ⟨.bifrost, "socket", "oracle_aggregate_feeding", oidList, prices.map r.bytes⟩)

end PriceUpOracle

/-! ## Symbols and prices -/

namespace PriceUpOracle

variable {α φ : Type}

/-- What a price shows: its bytes on chain and, with the exporter on, its number. -/
def shown (r : PriceEnv α φ) (price : α) : Bytes × Option φ :=
  (r.bytes price, if r.env.cfg.prometheusOn then some (r.float price) else none)

/-- Each id of the transaction, and each symbol of the exporter, has the dictionary's price of its
own symbol. -/
structure FeedsOwn (r : PriceEnv α φ) (symbols : List Str) (d : Dict Str α) (tx : PriceTx)
    (w : List (PriceEffect φ)) : Prop where
  length : tx.oidList.length = tx.prices.length
  price : ∀ symbol ∈ symbols, ∀ (i : Nat) (oid : BytesN 32), oid? symbol = some oid →
    tx.oidList[i]? = some oid → tx.prices[i]? = (d.lookup symbol).map r.bytes
  exported : r.env.cfg.prometheusOn → ∀ symbol ∈ symbols, ∀ x,
    .assetPrice symbol x ∈ w ↔ (d.lookup symbol).map r.float = some x

/-- The `i`-th entry of the dictionary shows the price of the `i`-th symbol. -/
def InOrder (r : PriceEnv α φ) (symbols : List Str) (d : Dict Str α) : Prop :=
  ∀ i : Nat, (d[i]?.map fun e => shown r e.2) =
    symbols[i]?.bind fun symbol => (d.lookup symbol).map (shown r)

/-- A dictionary filled in the order of the symbols is in order. -/
theorem inOrder_of_keys {r : PriceEnv α φ} {symbols : List Str} {d : Dict Str α}
    (hnodup : symbols.Nodup) (h : d.map Prod.fst = symbols) : InOrder r symbols d := by
  subst h
  intro i
  rw [List.getElem?_map]
  cases he : d[i]? with
  | none => rfl
  | some e =>
    have hmem : (e.1, e.2) ∈ d := List.mem_of_getElem? he
    rw [Option.map_some, Option.map_some, Option.bind_some,
      (Dict.lookup_eq_some hnodup).mpr hmem]
    rfl

variable {r : PriceEnv α φ} {s s' : RState} {w : List (PriceEffect φ)}

/-! ## Runs -/

/-- The exporter labels each symbol with the price at its position. -/
theorem exportLoop_ok {coinSymbols symbols : List Str} {prices : List α}
    (h : exportLoop coinSymbols prices symbols r s = ⟨.ok (), s', w⟩) (symbol : Str) (x : φ) :
    .assetPrice symbol x ∈ w ↔ symbol ∈ symbols ∧
      ((index? coinSymbols symbol).bind fun i => prices[i]?.map r.float) = some x := by
  induction symbols generalizing s w with
  | nil =>
    obtain ⟨-, -, rfl⟩ := Proc.pure_ok h
    simp
  | cons c symbols ih =>
    obtain ⟨i, s₁, w₁, w₂, h₁, h₂, rfl⟩ := Proc.bind_ok h
    obtain ⟨hi, rfl, rfl⟩ := Proc.ofOption_ok h₁
    obtain ⟨p, s₂, w₃, w₄, h₃, h₄, rfl⟩ := Proc.bind_ok h₂
    obtain ⟨hp, rfl, rfl⟩ := Proc.ofOption_ok h₃
    rw [Proc.bind_run, Proc.ask_run, Res.andThen_ok, Res.after_nil] at h₄
    obtain ⟨_, s₃, w₅, w₆, h₅, h₆, rfl⟩ := Proc.bind_ok h₄
    cases h₅
    rw [List.nil_append, List.nil_append, List.singleton_append, List.mem_cons, List.mem_cons,
      ih h₆]
    constructor
    · rintro (heq | ⟨hmem, hx⟩)
      · cases heq
        refine ⟨.inl rfl, ?_⟩
        rw [hi, Option.bind_some, hp, Option.map_some]
      · exact ⟨.inr hmem, hx⟩
    · rintro ⟨rfl | hmem, hx⟩
      · rw [hi, Option.bind_some, hp, Option.map_some] at hx
        cases hx
        exact .inl rfl
      · exact .inr ⟨hmem, hx⟩

theorem ofRM_ok {β : Type} {x : RM β} {b : β} (h : ofRM x r s = ⟨.ok b, s', w⟩) :
    ∃ w', x r.env s = ⟨.ok b, s', w'⟩ ∧ w = w'.map .relayer := by
  obtain ⟨hval, hst, hout⟩ := Res.mk.inj h
  exact ⟨_, by rw [Res.eq_of_val hval, hst], hout.symm⟩

/-- What a period returns for the dictionary `d`: its two lists, and what it exports. -/
structure Built (r : PriceEnv α φ) (symbols : List Str) (d : Dict Str α) (tx : PriceTx)
    (w : List (PriceEffect φ)) : Prop where
  oids : symbols.mapM oid? = some tx.oidList
  prices : tx.prices = d.map fun e => r.bytes e.2
  exported : r.env.cfg.prometheusOn → ∀ symbol x, .assetPrice symbol x ∈ w ↔ symbol ∈ symbols ∧
    ((index? symbols symbol).bind fun i => (d[i]?.map Prod.snd).map r.float) = some x

theorem buildTransactionParams_ok {symbols : List Str} {d : Dict Str α} {tx : PriceTx}
    (hsymbols : r.priceOracleAssets = some symbols)
    (hd : r.collected (s.now + 1) (some symbols) = .ok d)
    (h : buildTransactionParams r s = ⟨.ok (some tx), s', w⟩) : Built r symbols d tx w := by
  unfold buildTransactionParams at h
  rw [Proc.bind_run, Proc.ask_run, Res.andThen_ok, Res.after_nil] at h
  obtain ⟨auth, s₁, w₁, w₂, h₁, h₂, rfl⟩ := Proc.bind_ok h
  obtain ⟨w₁', hauth, rfl⟩ := ofRM_ok h₁
  unfold RM.isSelectedRelayer at hauth
  obtain ⟨-, rfl, rfl⟩ := worldCall_ok hauth
  split at h₂
  · obtain ⟨hnone, -⟩ := Proc.pure_ok h₂
    cases hnone
  obtain ⟨d', s₂, w₃, w₄, h₃, h₄, rfl⟩ := Proc.bind_ok h₂
  obtain ⟨hd', rfl, rfl⟩ := Res.mk.inj h₃
  rw [hsymbols, RState.tick_now, hd] at hd'
  cases hd'
  obtain ⟨symbols', s₃, w₅, w₆, h₅, h₆, rfl⟩ := Proc.bind_ok h₄
  obtain ⟨hsymbols', rfl, rfl⟩ := Proc.ofOption_ok h₅
  rw [hsymbols] at hsymbols'
  cases hsymbols'
  obtain ⟨oidList, s₄, w₇, w₈, h₇, h₈, rfl⟩ := Proc.bind_ok h₆
  obtain ⟨hoid, rfl, rfl⟩ := Proc.ofOption_ok h₇
  obtain ⟨_, s₅, w₉, w₁₀, h₉, h₁₀, rfl⟩ := Proc.bind_ok h₈
  obtain ⟨htx, -, rfl⟩ := Proc.pure_ok h₁₀
  cases htx
  refine ⟨hoid, List.map_map .., fun hon symbol x => ?_⟩
  unfold exportingAssetPrices at h₉
  rw [Proc.bind_run, Proc.ask_run, Res.andThen_ok, Res.after_nil, if_pos hon] at h₉
  have hexport := exportLoop_ok h₉ symbol x
  simp only [List.getElem?_map] at hexport
  simpa using hexport

/-! ## Own prices -/

/-- The symbols and the entries of a dictionary of their prices are as many. -/
theorem length_eq_of_keys {symbols : List Str} {d : Dict Str α} (hnodup : symbols.Nodup)
    (hkeys : (d.map Prod.fst).Nodup) (hset : ∀ k, k ∈ d.map Prod.fst ↔ k ∈ symbols) :
    d.length = symbols.length := by
  have hperm := (List.perm_ext_iff_of_nodup hkeys hnodup).mpr hset
  rw [← hperm.length_eq, List.length_map]

/-- Prices that show the same have the same bytes, and the same number where it is exported. -/
theorem map_shown_iff {a b : Option α} : a.map (shown r) = b.map (shown r) ↔
    a.map r.bytes = b.map r.bytes ∧
      (r.env.cfg.prometheusOn → a.map r.float = b.map r.float) := by
  cases a <;> cases b <;> cases hon : r.env.cfg.prometheusOn <;> simp [shown, hon]

theorem inOrder_iff {symbols : List Str} {d : Dict Str α} (hlen : d.length = symbols.length) :
    InOrder r symbols d ↔ ∀ (i : Nat) symbol, symbols[i]? = some symbol →
      (d[i]?.map Prod.snd).map (shown r) = (d.lookup symbol).map (shown r) := by
  constructor
  · intro h i symbol hi
    have hi' := h i
    rw [hi, Option.bind_some] at hi'
    rw [← hi', Option.map_map]
    rfl
  · intro h i
    cases hi : symbols[i]? with
    | none =>
      rw [List.getElem?_eq_none (by rw [hlen]; exact List.getElem?_eq_none_iff.mp hi)]
      rfl
    | some symbol =>
      rw [Option.bind_some, ← h i symbol hi, Option.map_map]
      rfl

section Built

variable {symbols : List Str} {d : Dict Str α} {tx : PriceTx}

theorem Built.getElem?_prices (hb : Built r symbols d tx w) (i : Nat) :
    tx.prices[i]? = (d[i]?.map Prod.snd).map r.bytes := by
  rw [hb.prices, List.getElem?_map, Option.map_map]
  rfl

/-- Where each id has its own price, so has each position. -/
theorem Built.inOrder (hb : Built r symbols d tx w) (hnodup : symbols.Nodup)
    (hlen : d.length = symbols.length) (h : FeedsOwn r symbols d tx w) :
    InOrder r symbols d := by
  rw [inOrder_iff hlen]
  intro i symbol hi
  have hmem := List.mem_of_getElem? hi
  have hlt : i < tx.oidList.length := by
    rw [length_of_mapM hb.oids]
    exact (List.getElem?_eq_some_iff.mp hi).1
  obtain ⟨oid, hoid⟩ : ∃ oid, tx.oidList[i]? = some oid := ⟨_, List.getElem?_eq_getElem hlt⟩
  have hown : oid? symbol = some oid := by
    rw [getElem?_of_mapM hb.oids, hi, Option.bind_some] at hoid
    exact hoid
  refine map_shown_iff.mpr ⟨?_, fun hon => ?_⟩
  · rw [← hb.getElem?_prices, h.price symbol hmem i oid hown hoid]
  · -- the exporter looks for the position of the symbol, which is `i`
    apply Option.ext
    intro x
    rw [← h.exported hon symbol hmem, hb.exported hon, (index?_eq_some hnodup).mpr hi,
      Option.bind_some]
    exact ⟨fun hx => ⟨hmem, hx⟩, fun hx => hx.2⟩

/-- Where the dictionary is in order, each id has its own price. -/
theorem Built.feedsOwn (hb : Built r symbols d tx w) (hlen : d.length = symbols.length)
    (h : InOrder r symbols d) : FeedsOwn r symbols d tx w := by
  rw [inOrder_iff hlen] at h
  refine ⟨?_, fun symbol hmem i oid hown hi => ?_, fun hon symbol hmem x => ?_⟩
  · rw [length_of_mapM hb.oids, hb.prices, List.length_map, hlen]
  · -- the id at `i` is that of the symbol at `i`, and ids are distinct
    rw [getElem?_of_mapM hb.oids] at hi
    obtain ⟨symbol', hi', hown'⟩ := Option.bind_eq_some_iff.mp hi
    obtain ⟨o, ho, rfl⟩ := Option.map_eq_some_iff.mp hown
    obtain ⟨o', ho', hv⟩ := Option.map_eq_some_iff.mp hown'
    obtain rfl := Oracle.symbol_inj ho' ho hv
    rw [hb.getElem?_prices]
    exact (map_shown_iff.mp (h i symbol' hi')).1
  · obtain ⟨i, hi⟩ := Option.isSome_iff_exists.mp (index?_isSome.mpr hmem)
    have hfloat := (map_shown_iff.mp (h i symbol (getElem?_of_index? hi))).2 hon
    rw [hb.exported hon, hi, Option.bind_some, hfloat]
    exact ⟨fun hx => hx.2, fun hx => ⟨hmem, hx⟩⟩

end Built

/-- **Own prices.** Each id and each exported symbol has its own price if and only if the
dictionary is in the order of the symbols, up to prices that show the same. -/
theorem feedsOwn_iff {symbols : List Str} {d : Dict Str α} {tx : PriceTx}
    (hsymbols : r.priceOracleAssets = some symbols) (hnodup : symbols.Nodup)
    (hd : r.collected (s.now + 1) (some symbols) = .ok d) (hkeys : (d.map Prod.fst).Nodup)
    (hset : ∀ k, k ∈ d.map Prod.fst ↔ k ∈ symbols)
    (hrun : buildTransactionParams r s = ⟨.ok (some tx), s', w⟩) :
    FeedsOwn r symbols d tx w ↔ InOrder r symbols d := by
  have hbuilt := buildTransactionParams_ok hsymbols hd hrun
  have hlen := length_eq_of_keys hnodup hkeys hset
  exact ⟨hbuilt.inOrder hnodup hlen, hbuilt.feedsOwn hlen⟩

end PriceUpOracle

/-! ## Periods -/

/-- What a feed has of its own, next to its client. -/
structure PriceUpOracle where
  periodSec : Nat
  timeLock : Nat
  deriving DecidableEq

namespace PriceUpOracle

/-- `price_source_collection_period_sec`, as `Relayer.init_from_dicts` sets it. -/
def priceSourceCollectionPeriodSec : Nat := 300

/-- `PriceUpOracle.__init__`. -/
def construct (periodSec timeLock : Nat) : PriceUpOracle :=
  ⟨if periodSec = 0 then priceSourceCollectionPeriodSec else periodSec, timeLock⟩

/-- The feed of the next period, which takes the client over. -/
def cloneNext (self : PriceUpOracle) : PriceUpOracle :=
  construct self.periodSec (self.timeLock + self.periodSec * 1000)

variable {α φ : Type}

def handleTxResultSuccess : PM α φ Unit := pure ()

def handleTxResultFail : PM α φ Unit := pure ()

def handleTxResultNoReceipt : PM α φ Unit := pure ()

/-- One period of the feed, with the transaction that it sends. -/
def period (outcome : TxOutcome) : PM α φ (Option PriceTx) := do
  let params ← buildTransactionParams
  match params with
  | none => pure none
  | some tx => do
    match outcome with
    | .success => handleTxResultSuccess
    | .fail => handleTxResultFail
    | .noReceipt => handleTxResultNoReceipt
    pure (some tx)

variable {r : PriceEnv α φ} {s t : RState} {outcome : TxOutcome}

/-- What a period behind `n` reads sends: the prices that the aggregator has for the configured
symbols, where BIFROST selects the relayer. -/
inductive Feeds (r : PriceEnv α φ) (n : Nat) : PriceTx → Prop where
  | feed (symbols : List Str) (d : Dict Str α) (oidList : List (BytesN 32)) :
      r.env.down n = false →
      (r.env.view n).isSelectedRelayer .bifrost r.env.account.address.hex true = true →
      r.priceOracleAssets = some symbols → r.collected (n + 1) (some symbols) = .ok d →
      symbols.mapM oid? = some oidList →
      Feeds r n ⟨.bifrost, "socket", "oracle_aggregate_feeding", oidList,
        (d.map Prod.snd).map r.bytes⟩

theorem exportLoop_st (coinSymbols symbols : List Str) (prices : List α) :
    Proc.Keeps (fun _ u => u = t) (exportLoop coinSymbols prices symbols : PM α φ Unit) := by
  induction symbols with
  | nil => exact .pure ()
  | cons symbol symbols ih =>
    exact .bind (.ofOption _ _) fun _ => .bind (.ofOption _ _) fun _ => .bind .ask fun _ =>
      .bind (.emit _) fun _ => ih

/-- The authority check: one remote read. -/
theorem isSelectedRelayer_run : (ofRM (RM.isSelectedRelayer .bifrost none
      r.env.account.address true) : PM α φ Bool) r s =
    ⟨if r.env.down s.now then .error .rpc
      else .ok ((r.env.view s.now).isSelectedRelayer .bifrost r.env.account.address.hex true),
      s.tick, [.relayer (.called .bifrost "is_selected_relayer")]⟩ := by
  unfold ofRM RM.isSelectedRelayer
  dsimp only
  rw [worldCall_run]
  rfl

theorem buildTransactionParams_st (r : PriceEnv α φ) (s : RState) :
    (buildTransactionParams r s).st = s.tick := by
  have hcollect (symbols : Option (List Str)) : Proc.Keeps (fun _ u => u = s.tick)
      (getCurrentWeightedPrice symbols : PM α φ (Dict Str α)) := fun _ _ hu => hu
  have hexport (symbols : List Str) (prices : List α) : Proc.Keeps (fun _ u => u = s.tick)
      (exportingAssetPrices symbols prices : PM α φ Unit) :=
    .bind .ask fun _ => .ite (exportLoop_st symbols symbols prices) (.pure ())
  unfold buildTransactionParams
  rw [Proc.bind_run, Proc.ask_run, Res.andThen_ok, Res.after_nil, Proc.bind_run,
    isSelectedRelayer_run]
  cases r.env.down s.now with
  | true => rfl
  | false =>
    -- behind the answer nothing reads a chain
    exact Proc.Keeps.ite (.pure none) (.bind (hcollect _) fun _ => .bind (.ofOption _ _)
      fun _ => .bind (.ofOption _ _) fun _ => .bind (hexport _ _) fun _ => .pure _)
      r s.tick rfl

theorem period_st (r : PriceEnv α φ) (s : RState) (outcome : TxOutcome) :
    (period outcome r s).st = s.tick := by
  rw [← buildTransactionParams_st r s, period, Proc.bind_run]
  rcases buildTransactionParams r s with ⟨e | p, t, w⟩
  · rfl
  · cases p with
    | none => rfl
    | some tx => cases outcome <;> rfl

theorem feeds_of_build {s' : RState} {tx : PriceTx} {w : List (PriceEffect φ)}
    (h : buildTransactionParams r s = ⟨.ok (some tx), s', w⟩) : Feeds r s.now tx := by
  unfold buildTransactionParams at h
  rw [Proc.bind_run, Proc.ask_run, Res.andThen_ok, Res.after_nil] at h
  obtain ⟨auth, s₁, w₁, w₂, h₁, h₂, -⟩ := Proc.bind_ok h
  rw [isSelectedRelayer_run] at h₁
  split at h₁
  · cases h₁
  next hup =>
  cases h₁
  split at h₂
  · obtain ⟨htx, -⟩ := Proc.pure_ok h₂
    cases htx
  next hauth =>
  obtain ⟨d, s₂, w₃, w₄, h₃, h₄, -⟩ := Proc.bind_ok h₂
  obtain ⟨hd, rfl, rfl⟩ := Res.mk.inj h₃
  obtain ⟨symbols, s₃, w₅, w₆, h₅, h₆, -⟩ := Proc.bind_ok h₄
  obtain ⟨hsymbols, rfl, rfl⟩ := Proc.ofOption_ok h₅
  obtain ⟨oidList, s₄, w₇, w₈, h₇, h₈, -⟩ := Proc.bind_ok h₆
  obtain ⟨hoid, rfl, rfl⟩ := Proc.ofOption_ok h₇
  obtain ⟨_, s₅, w₉, w₁₀, -, h₁₀, -⟩ := Proc.bind_ok h₈
  obtain ⟨htx, -, -⟩ := Proc.pure_ok h₁₀
  cases htx
  rw [hsymbols, RState.tick_now] at hd
  exact .feed symbols d oidList (by simpa using hup) (by simpa using hauth) hsymbols hd hoid

/-- A period sends what it feeds, and nothing else. -/
theorem feeds_of_period {tx : PriceTx} (h : (period outcome r s).val = .ok (some tx)) :
    Feeds r s.now tx := by
  obtain ⟨p, s₁, w₁, w₂, h₁, h₂, -⟩ := Proc.bind_ok (Res.eq_of_val h)
  cases p with
  | none => cases h₂
  | some tx' =>
    have heq : tx' = tx := by
      cases outcome <;> cases h₂ <;> rfl
    exact heq ▸ feeds_of_build h₁

end PriceUpOracle

/-! ## Two symbols -/

namespace Sample

/-- Two configured symbols, and an aggregator that gives the dictionary `d`. -/
def priceEnv (d : Dict Str Nat) : PriceEnv Nat Nat where
  env := { soleEnv .accepted with cfg := { cfg with prometheusOn := true } }
  priceOracleAssets := some [Oracle.eth.name, Oracle.bfc.name]
  collected := fun _ _ => .ok d
  bytes := toBE 32
  float := id

/-- The transaction with the prices `p` and `q`. -/
def priceTx (p q : Nat) : PriceTx :=
  ⟨.bifrost, "socket", "oracle_aggregate_feeding", [Oracle.eth.value, Oracle.bfc.value],
    [toBE 32 p, toBE 32 q]⟩

end Sample

namespace PriceUpOracle

/-- The dictionary is filled in the order of the symbols. -/
theorem feedsOwn_iff_filled : ∃ s' w, buildTransactionParams
      (Sample.priceEnv [(Oracle.eth.name, 1500), (Oracle.bfc.name, 1)])
      (Sample.state Sample.outbound.msg) = ⟨.ok (some (Sample.priceTx 1500 1)), s', w⟩ ∧
    FeedsOwn (Sample.priceEnv [(Oracle.eth.name, 1500), (Oracle.bfc.name, 1)])
      [Oracle.eth.name, Oracle.bfc.name] [(Oracle.eth.name, 1500), (Oracle.bfc.name, 1)]
      (Sample.priceTx 1500 1) w := by
  have hval : (buildTransactionParams
      (Sample.priceEnv [(Oracle.eth.name, 1500), (Oracle.bfc.name, 1)])
      (Sample.state Sample.outbound.msg)).val.toOption = some (some (Sample.priceTx 1500 1)) := by
    decide +kernel
  obtain ⟨s', w, hrun⟩ := Res.ok_of_toOption hval
  have horder : InOrder (Sample.priceEnv [(Oracle.eth.name, 1500), (Oracle.bfc.name, 1)])
      [Oracle.eth.name, Oracle.bfc.name] [(Oracle.eth.name, 1500), (Oracle.bfc.name, 1)] :=
    inOrder_of_keys (by decide) rfl
  exact ⟨s', w, hrun, (feedsOwn_iff rfl (by decide) rfl (by decide) (fun _ => Iff.rfl) hrun).mpr
    horder⟩

/-- The aggregator has filled its dictionary in the other order: ETH is fed the price of BFC. -/
theorem not_feedsOwn : ∃ (r : PriceEnv Nat Nat) (s s' : RState) (symbols : List Str)
    (d : Dict Str Nat) (tx : PriceTx) (w : List (PriceEffect Nat)),
    r.priceOracleAssets = some symbols ∧ symbols.Nodup ∧
    r.collected (s.now + 1) (some symbols) = .ok d ∧ (d.map Prod.fst).Nodup ∧
    (∀ k, k ∈ d.map Prod.fst ↔ k ∈ symbols) ∧
    buildTransactionParams r s = ⟨.ok (some tx), s', w⟩ ∧ ¬ FeedsOwn r symbols d tx w := by
  have hval : (buildTransactionParams
      (Sample.priceEnv [(Oracle.bfc.name, 1), (Oracle.eth.name, 1500)])
      (Sample.state Sample.outbound.msg)).val.toOption = some (some (Sample.priceTx 1 1500)) := by
    decide +kernel
  obtain ⟨s', w, hrun⟩ := Res.ok_of_toOption hval
  refine ⟨_, _, s', _, _, _, w, rfl, by decide, rfl, by decide, fun k => ?_, hrun, fun h => ?_⟩
  · simp only [List.map_cons, List.map_nil, List.mem_cons, List.not_mem_nil, or_false]
    exact or_comm
  · have heth := h.price Oracle.eth.name (by decide) 0 Oracle.eth.value (by decide +kernel) rfl
    revert heth
    decide +kernel

end PriceUpOracle

end Bifrost
