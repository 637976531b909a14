import StakeAccounting.Outcome

/-!
# Tokens

A token that can be deposited has **constants**: how much stake weight and how
much yield a unit of base value is granted, how many decimal places its amounts
have, and how an amount is priced. The constants of all tokens form a **table**,
which is closed: looking up a token that is not listed is refused, and never
answered with a zero.

`TokenTable.ofList` makes a table. It takes the entries in order and stops at
the first that is invalid or that repeats a name, so which fault is reported is
determined; an empty list is refused last. What it accepts is what a table is:
entries that are valid, with distinct names, and at least one of them.
-/

namespace StakeAccounting

/-- **How an amount of a token is turned into base value.** -/
inductive Pricing where
  /-- The base value is the amount. -/
  | direct
  /-- The base value is asked of a price feed. -/
  | pooled
deriving DecidableEq, Inhabited

/-- **The constants of a token.** -/
structure Token where
  /-- The name it is looked up by. -/
  id : TokenId
  /-- The symbol it is displayed by. -/
  symbol : String
  /-- The stake weight granted per unit of base value. -/
  stakePerBase : Decimal
  /-- The yield rate granted per unit of base value. -/
  yieldPerBase : Decimal
  /-- The decimal places of its amounts. -/
  decimals : UInt32
  /-- How it is priced. -/
  pricing : Pricing
deriving DecidableEq

namespace Token

/-- The stake weight granted for a base value. -/
def stakeWeightFor (t : Token) (baseValue : Decimal) : Outcome Decimal :=
  t.stakePerBase.times baseValue

/-- The yield rate granted for a base value. -/
def yieldRateFor (t : Token) (baseValue : Decimal) : Outcome Decimal :=
  t.yieldPerBase.times baseValue

/-- The smallest amount with the token's decimal places, if decimals have so
many. -/
def smallestUnit? (t : Token) : Option Decimal := Decimal.ofParts? false 1 t.decimals.toNat

/-- **What is wrong with the constants**, if anything is: the symbol first, the
multipliers next, the decimal places last. A multiplier is refused for its minus
sign, even on a zero. -/
def fault? (t : Token) : Option SettingsFault :=
  if trimBlank t.symbol = "" then some (.blankSymbol t.id)
  else if t.stakePerBase.negative || t.yieldPerBase.negative then
    some (.negativeMultiplier t.symbol)
  else if Decimal.maxPlaces < t.decimals then some (.tooManyDecimals t.symbol t.decimals)
  else none

/-- A token that is not at fault has multipliers without a minus sign. -/
theorem multipliers_of_fault? {t : Token} (h : t.fault? = none) :
    t.stakePerBase.negative = false ∧ t.yieldPerBase.negative = false := by
  unfold fault? at h
  split at h
  · cases h
  · split at h
    · cases h
    · rename_i hneither
      rwa [Bool.or_eq_true, not_or, Bool.not_eq_true, Bool.not_eq_true] at hneither

end Token

/-- **A table of tokens.** -/
structure TokenTable where
  /-- The tokens, in the order they were listed. -/
  entries : List Token
  /-- No entry is at fault. -/
  valid : ∀ t ∈ entries, t.fault? = none
  /-- No two entries have one name. -/
  distinct : (entries.map (·.id)).Nodup
  /-- There is an entry. -/
  inhabited : entries ≠ []

namespace TokenTable

/-- The first fault of a list of tokens of which the names `seen` are taken: an
entry's own fault comes before that of repeating a name. -/
def firstFault? (seen : List TokenId) : List Token → Option SettingsFault
  | [] => none
  | t :: ts =>
    match t.fault? with
    | some fault => some fault
    | none => if t.id ∈ seen then some (.duplicateToken t.id) else firstFault? (t.id :: seen) ts

/-- **No first fault means no fault at all**: every entry is valid, no name is
taken, and none is repeated. -/
theorem firstFault?_eq_none {ts : List Token} : ∀ {seen : List TokenId},
    firstFault? seen ts = none ↔
      (∀ t ∈ ts, t.fault? = none) ∧ (∀ t ∈ ts, t.id ∉ seen) ∧ (ts.map (·.id)).Nodup := by
  induction ts with
  | nil => intro seen; simp [firstFault?]
  | cons t ts ih =>
    intro seen
    unfold firstFault?
    cases hf : t.fault? with
    | some fault => simp [hf]
    | none =>
      by_cases hs : t.id ∈ seen
      · simp [hs]
      · simp only [hs, if_false, ih, List.mem_cons, List.map_cons, List.nodup_cons,
          List.mem_map, forall_eq_or_imp, hf, true_and, not_false_eq_true, not_or, not_exists,
          not_and]
        constructor
        · rintro ⟨hv, hn, hd⟩
          exact ⟨hv, fun u hu => (hn u hu).2, fun u hu he => (hn u hu).1 he, hd⟩
        · rintro ⟨hv, hn, hne, hd⟩
          exact ⟨hv, fun u hu => ⟨fun he => hne u hu he, hn u hu⟩, hd⟩

/-- **The table of a list of tokens**, or the first fault of the list. -/
def ofList (ts : List Token) : Outcome TokenTable :=
  match h : firstFault? [] ts with
  | some fault => Outcome.refuseSettings fault
  | none =>
    if hne : ts = [] then Outcome.refuseSettings .noTokens
    else
      have hall := firstFault?_eq_none.mp h
      .ok ⟨ts, hall.1, hall.2.2, hne⟩

/-- The token of a name, if it is listed. -/
def find? (table : TokenTable) (id : TokenId) : Option Token :=
  table.entries.find? (·.id == id)

/-- **The token of a name**; a name that is not listed is refused. -/
def get (table : TokenTable) (id : TokenId) : Outcome Token :=
  Outcome.orRefuse (.unknownToken id) (table.find? id)

/-- A token of a table is one of its entries. -/
theorem mem_of_get {table : TokenTable} {id : TokenId} {t : Token} (h : table.get id = .ok t) :
    t ∈ table.entries := List.mem_of_find?_eq_some (Outcome.orRefuse_eq_ok.mp h)

/-- **No token of a table has a negative multiplier.** -/
theorem multipliers_nonneg {table : TokenTable} {id : TokenId} {t : Token}
    (h : table.get id = .ok t) : 0 ≤ t.stakePerBase.quanta ∧ 0 ≤ t.yieldPerBase.quanta := by
  obtain ⟨hstake, hyield⟩ := Token.multipliers_of_fault? (table.valid t (mem_of_get h))
  exact ⟨Decimal.quanta_nonneg hstake, Decimal.quanta_nonneg hyield⟩

/-- Whether a name is listed. -/
def contains (table : TokenTable) (id : TokenId) : Bool := (table.find? id).isSome

/-- A token with the given symbol, in either case of its ASCII letters. -/
def bySymbol? (table : TokenTable) (symbol : String) : Option Token :=
  table.entries.find? fun t => sameFolded t.symbol symbol

/-- How many tokens are listed. -/
def size (table : TokenTable) : Nat := table.entries.length

/-- Whether no token is listed; no table is empty. -/
def isEmpty (table : TokenTable) : Bool := table.entries.isEmpty

/-- The tokens in the order of their names. -/
def sorted (table : TokenTable) : List Token :=
  table.entries.mergeSort fun s t => (compare s.id t.id).isLE

/-! ## The tokens the protocol accepts -/

/-- The address of the protocol's own token. -/
def beanId : TokenId := ⟨"0xbea0000029ad1c77d3d5d23ba2d8893db9d1efab"⟩

/-- The address of the liquidity token of the protocol's pool. -/
def beanPoolId : TokenId := ⟨"0xc9c32cd16bf7efb85ff14e0c8603cc90f6f2ee49"⟩

/-- The address of the unripe form of the protocol's own token. -/
def unripeBeanId : TokenId := ⟨"0x1bea0050e63e05fbb5d8ba2f10cf5800b6224449"⟩

/-- The address of the unripe form of the liquidity token. -/
def unripePoolId : TokenId := ⟨"0x1bea3ccd22f4ebd3d37d731ba31eeca95713716d"⟩

/-- The tokens the protocol accepts. Each grants one unit of stake weight per
unit of base value; only the first is its own price. -/
def standardEntries : List Token :=
  [ ⟨beanId, "BEAN", .one, .ofUInt32 2, 6, .direct⟩,
    ⟨beanPoolId, "BEAN3CRV", .one, .ofUInt32 4, 18, .pooled⟩,
    ⟨unripeBeanId, "UNRIPE_BEAN", .one, .ofUInt32 2, 6, .pooled⟩,
    ⟨unripePoolId, "UNRIPE_LP", .one, .ofUInt32 4, 6, .pooled⟩ ]

/-- The table of the tokens the protocol accepts. -/
def standard : TokenTable where
  entries := standardEntries
  valid := by decide +kernel
  distinct := by decide +kernel
  inhabited := by simp [standardEntries]

instance : Inhabited TokenTable := ⟨standard⟩

end TokenTable

end StakeAccounting
