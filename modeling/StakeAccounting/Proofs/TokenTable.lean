import Mathlib.Data.List.Nodup
import StakeAccounting.Proofs.TokenId
import StakeAccounting.Token

/-!
# The tokens of a table

A table is made by one pass over a list, which stops at the first entry that is at fault or
whose name is taken, and it is read by comparing names. Names are not what a list is written
with, though: it is written with *spellings*, and of one name there are many. So acceptance,
uniqueness and lookup have to agree on one notion of spelling the same name, for lists of any
length, and neither the pass nor the comparison mentions it.

`Listing` is an entry as it is written, with a spelling in place of a name. What the pass
accepts is said of the whole list (`TokenTable.exists_ofList_iff`), what a lookup finds is said
of the entries (`TokenTable.find?_eq_some_iff`), and `TokenId.ofText_eq_ofText_iff` turns names
into spellings in both. Together they are `TokenTable.ofList_listings`: a list makes a table if
it is not empty, each of its entries is sound (`Token.Sound`) and no two of them spell one
name; the table then answers every spelling of a listed name with its one entry, and refuses
every other text.
-/

namespace StakeAccounting

/-- **Constants that are sound**: what there is to check about a token by itself. -/
structure Token.Sound (t : Token) : Prop where
  /-- The symbol is not blank. -/
  symbol : ∃ c ∈ t.symbol.toList, isBlank c = false
  /-- The stake weight per unit of base value has no minus sign. -/
  stakePerBase : t.stakePerBase.negative = false
  /-- The yield rate per unit of base value has no minus sign. -/
  yieldPerBase : t.yieldPerBase.negative = false
  /-- Decimals have as many places as the token's amounts. -/
  decimals : t.decimals.toNat ≤ 28

/-- **A token is at fault unless its constants are sound.** -/
theorem Token.fault?_eq_none_iff {t : Token} : t.fault? = none ↔ t.Sound := by
  have hsymbol : trimBlank t.symbol ≠ "" ↔ ∃ c ∈ t.symbol.toList, isBlank c = false := by
    simp only [ne_eq, trimBlank_eq_empty_iff, not_forall, exists_prop, Bool.not_eq_true]
  have hplaces : ¬Decimal.maxPlaces < t.decimals ↔ t.decimals.toNat ≤ 28 := by
    rw [UInt32.not_lt, UInt32.le_iff_toNat_le]
    rfl
  constructor
  · intro h
    obtain ⟨hstake, hyield⟩ := Token.multipliers_of_fault? h
    simp only [fault?, hstake, hyield, Bool.or_false, Bool.false_eq_true, if_false] at h
    by_cases hblank : trimBlank t.symbol = ""
    · simp [hblank] at h
    · by_cases hmany : Decimal.maxPlaces < t.decimals
      · simp [hblank, hmany] at h
      · exact ⟨hsymbol.mp hblank, hstake, hyield, hplaces.mp hmany⟩
  · rintro ⟨hs, hstake, hyield, hd⟩
    simp [fault?, hsymbol.mpr hs, hstake, hyield, hplaces.mpr hd]

instance (t : Token) : Decidable t.Sound := decidable_of_iff _ Token.fault?_eq_none_iff

/-- **An entry of a list of tokens as it is written**: constants under a spelling of the
token's name. -/
structure Listing where
  /-- A text that spells the name. -/
  name : String
  /-- The symbol the token is displayed by. -/
  symbol : String
  /-- The stake weight granted per unit of base value. -/
  stakePerBase : Decimal
  /-- The yield rate granted per unit of base value. -/
  yieldPerBase : Decimal
  /-- The decimal places of its amounts. -/
  decimals : UInt32
  /-- How it is priced. -/
  pricing : Pricing
deriving DecidableEq

/-- The constants that are listed. -/
def Listing.token (l : Listing) : Token :=
  ⟨.ofText l.name, l.symbol, l.stakePerBase, l.yieldPerBase, l.decimals, l.pricing⟩

/-- A listing has the name that a text spells if the two spell one name. -/
theorem Listing.id_token_eq_iff (l : Listing) (s : String) :
    l.token.id = .ofText s ↔ TokenId.SameName l.name s :=
  TokenId.ofText_eq_ofText_iff l.name s

namespace TokenTable

/-! ## Making a table -/

/-- The entries of a table are the list it is made of. -/
theorem entries_of_ofList {ts : List Token} {table : TokenTable} (h : ofList ts = .ok table) :
    table.entries = ts := by
  unfold ofList at h
  split at h
  · cases h
  · split at h
    · cases h
    · cases h
      rfl

/-- **Which lists make a table**: the pass over the list stops nowhere if no entry of it is at
fault and no name is repeated. -/
theorem exists_ofList_iff (ts : List Token) : (∃ table, ofList ts = .ok table) ↔
    ts ≠ [] ∧ (∀ t ∈ ts, t.Sound) ∧ (ts.map (·.id)).Nodup := by
  constructor
  · rintro ⟨table, h⟩
    obtain rfl := entries_of_ofList h
    exact ⟨table.inhabited, fun t ht => Token.fault?_eq_none_iff.mp (table.valid t ht),
      table.distinct⟩
  · rintro ⟨hne, hsound, hnodup⟩
    have hnone : firstFault? [] ts = none := firstFault?_eq_none.mpr
      ⟨fun t ht => Token.fault?_eq_none_iff.mpr (hsound t ht), fun t _ => List.not_mem_nil, hnodup⟩
    unfold ofList
    split
    · rename_i fault hfault
      rw [hnone] at hfault
      cases hfault
    · exact ⟨_, dif_neg hne⟩

/-! ## Looking up a name -/

variable {table : TokenTable} {id : TokenId}

/-- What is found under a name has the name. -/
theorem id_of_find? {t : Token} (h : table.find? id = some t) : t.id = id := by
  simpa using List.find?_some h

/-- **A lookup finds the entry of the name**, of which there is no second. -/
theorem find?_eq_some_iff {t : Token} :
    table.find? id = some t ↔ t ∈ table.entries ∧ t.id = id := by
  constructor
  · exact fun h => ⟨List.mem_of_find?_eq_some h, id_of_find? h⟩
  · rintro ⟨ht, rfl⟩
    cases hfind : table.find? t.id with
    | none => exact absurd (beq_self_eq_true t.id) (List.find?_eq_none.mp hfind t ht)
    | some u =>
      rw [List.inj_on_of_nodup_map table.distinct (List.mem_of_find?_eq_some hfind) ht
        (id_of_find? hfind)]

/-- A lookup finds nothing if no entry has the name. -/
theorem find?_eq_none_iff : table.find? id = none ↔ ∀ t ∈ table.entries, t.id ≠ id := by
  simp only [find?, List.find?_eq_none, beq_iff_eq, ne_eq]

/-! ## Spellings -/

/-- Listings have distinct names if no two of them spell one. -/
theorem nodup_id_listings (ls : List Listing) : ((ls.map Listing.token).map (·.id)).Nodup ↔
    ls.Pairwise fun l k => ¬TokenId.SameName l.name k.name := by
  rw [List.map_map, List.Nodup, List.pairwise_map]
  exact ⟨List.Pairwise.imp fun h => mt (Listing.id_token_eq_iff _ _).mpr h,
    List.Pairwise.imp fun h => mt (Listing.id_token_eq_iff _ _).mp h⟩

/-- Which lists of listings make a table. -/
theorem exists_ofList_listings_iff (ls : List Listing) :
    (∃ table, ofList (ls.map Listing.token) = .ok table) ↔
      ls ≠ [] ∧ (∀ l ∈ ls, l.token.Sound) ∧
        ls.Pairwise fun l k => ¬TokenId.SameName l.name k.name := by
  rw [exists_ofList_iff, nodup_id_listings, List.forall_mem_map, ne_eq, List.map_eq_nil_iff]

section Listed

variable {ls : List Listing} (htable : ofList (ls.map Listing.token) = .ok table)
include htable

/-- A listing is found under every spelling of its name. -/
theorem find?_listed {l : Listing} (hl : l ∈ ls) {s : String} (hs : TokenId.SameName l.name s) :
    table.find? (.ofText s) = some l.token := by
  refine find?_eq_some_iff.mpr ⟨?_, (l.id_token_eq_iff s).mpr hs⟩
  rw [entries_of_ofList htable]
  exact List.mem_map_of_mem hl

/-- No second listing has a spelling of the name. -/
theorem eq_of_sameName {l k : Listing} (hl : l ∈ ls) (hk : k ∈ ls) {s : String}
    (hls : TokenId.SameName l.name s) (hks : TokenId.SameName k.name s) : k = l := by
  have hnodup : (ls.map fun l => l.token.id).Nodup := by
    simpa [entries_of_ofList htable, Function.comp_def] using table.distinct
  refine List.inj_on_of_nodup_map hnodup hk hl ?_
  rw [(k.id_token_eq_iff s).mpr hks, (l.id_token_eq_iff s).mpr hls]

/-- Nothing is found under a text that spells no listed name. -/
theorem find?_unlisted {s : String} (hs : ∀ l ∈ ls, ¬TokenId.SameName l.name s) :
    table.find? (.ofText s) = none := by
  rw [find?_eq_none_iff, entries_of_ofList htable, List.forall_mem_map]
  exact fun l hl => mt (l.id_token_eq_iff s).mp (hs l hl)

end Listed

/-- **A table of listings answers every spelling of a listed name, with the one entry that is
listed under it, and no other text.** -/
theorem ofList_listings (ls : List Listing) :
    ((∃ table, ofList (ls.map Listing.token) = .ok table) ↔
      ls ≠ [] ∧ (∀ l ∈ ls, l.token.Sound) ∧
        ls.Pairwise fun l k => ¬TokenId.SameName l.name k.name) ∧
    (∀ table, ofList (ls.map Listing.token) = .ok table →
      table.size = ls.length ∧
      (∀ l ∈ ls, ∀ s, TokenId.SameName l.name s →
        table.get (.ofText s) = .ok l.token ∧ table.contains (.ofText s) = true ∧
          ∀ k ∈ ls, TokenId.SameName k.name s → k = l) ∧
      (∀ s, (∀ l ∈ ls, ¬TokenId.SameName l.name s) →
        table.get (.ofText s) = Outcome.refuse (.unknownToken (.ofText s)) ∧
          table.contains (.ofText s) = false)) ∧
    ∀ s, TokenId.ofText (TokenId.ofText s).text = TokenId.ofText s := by
  refine ⟨exists_ofList_listings_iff ls, fun table htable => ⟨?_, ?_, ?_⟩,
    TokenId.normalised_ofText⟩
  · rw [size, entries_of_ofList htable, List.length_map]
  · intro l hl s hs
    have hfind := find?_listed htable hl hs
    refine ⟨Outcome.orRefuse_eq_ok.mpr hfind, ?_, fun k hk => eq_of_sameName htable hl hk hs⟩
    rw [contains, hfind, Option.isSome_some]
  · intro s hs
    have hfind := find?_unlisted htable hs
    rw [get, contains, hfind]
    exact ⟨rfl, rfl⟩

/-- A listing under a name with blanks around it, one of them outside ASCII. -/
def bean : Listing := ⟨"\u00a00xBea ", "BEAN", .one, .one, 6, .direct⟩

/-- A listing under a name in capitals, with as many decimal places as there can be. -/
def kelp : Listing := ⟨"KELP", "Kelp", .zero, .one, 28, .pooled⟩

/-- Two listings are found under other spellings of their names. The Kelvin sign looks like a
capital letter but its case is not ignored, so what it begins is not listed. -/
theorem ofList_listings_two :
    ∃ table, ofList ([bean, kelp].map Listing.token) = .ok table ∧ table.size = 2 ∧
      table.get (.ofText "0xBEA") = .ok bean.token ∧
      table.get (.ofText "\tkelp\u3000") = .ok kelp.token ∧
      table.get (.ofText "\u212aelp") =
        Outcome.refuse (.unknownToken (.ofText "\u212aelp")) := by
  obtain ⟨hmakes, hreads, -⟩ := ofList_listings [bean, kelp]
  obtain ⟨table, htable⟩ := hmakes.mpr (by decide +kernel)
  obtain ⟨hsize, hlisted, hunlisted⟩ := hreads table htable
  have hbean := hlisted bean (by decide) "0xBEA" (by decide +kernel)
  have hkelp := hlisted kelp (by decide) "\tkelp\u3000" (by decide +kernel)
  have hkelvin := hunlisted "\u212aelp" (by decide +kernel)
  exact ⟨table, htable, hsize, hbean.1, hkelp.1, hkelvin.1⟩

end TokenTable

end StakeAccounting
