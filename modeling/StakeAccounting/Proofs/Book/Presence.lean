import StakeAccounting.Proofs.Book.Order

/-!
# Which ledgers a book keeps

A book should keep a ledger for an account and a token exactly where the account has
something of the token. A ledger that is committed without lots is closed, and a ledger
with lots has a positive total, since its amounts are positive and a rounded sum of
positive numbers is positive. So far the listing of an account's tokens is a listing of
what it holds.

One operation does not commit what it enters. Loading puts the ledger as it is given, and
given no lots it leaves a **bare** ledger, which is listed with a balance of zero
(`bare_ledger_listed`). What happens to it afterwards is said by `bare_run_iff`: the ledger
of a holding is bare exactly where the last request that names the holding and is accepted
loads it from no lots. Nothing is withdrawn from a bare ledger or transferred out of it, so
it stays until something else is loaded, deposited or transferred in. This is the only way
in which the listing is more than it should be (`kept_iff`).
-/

namespace StakeAccounting

namespace Decimal

/-- **A sum of positive numbers is positive**, though it may be rounded. -/
theorem sum_pos {as : List Decimal} {c : Decimal} (hne : as ≠ []) (has : ∀ a ∈ as, zero < a)
    (h : sum as = .ok c) : zero < c := by
  have hadd : ∀ {a b d : Decimal}, 0 ≤ a.quanta → zero < b → a.plus b = .ok d → zero < d := by
    intro a b d ha hb hd
    have hsign := sign_of_plus hd
    rw [lt_def, quanta_zero] at hb ⊢
    omega
  cases as with
  | nil => exact absurd rfl hne
  | cons a as =>
    obtain ⟨first, hfirst, hrest⟩ := Outcome.bind_eq_ok.mp h
    have hpos := hadd (a := zero) (Int.le_refl 0) (has a (List.mem_cons_self ..)) hfirst
    exact Outcome.foldlM_keeps (P := fun d => zero < d)
      (fun b hb d _ hd hnext =>
        hadd (Int.le_of_lt hd) (has b (List.mem_cons_of_mem a hb)) hnext) hpos hrest

end Decimal

namespace Ledger

/-- **The total of a well-formed ledger** is positive exactly where it has lots. -/
theorem WellFormed.totalAmount_pos_iff {g : Ledger} {c : Decimal} (hg : g.WellFormed)
    (h : g.totalAmount = .ok c) : .zero < c ↔ g.lots ≠ [] := by
  constructor
  · rintro hpos hnil
    obtain ⟨token, lots⟩ := g
    obtain rfl : lots = [] := hnil
    cases h
    exact Int.lt_irrefl _ hpos
  · intro hne
    refine Decimal.sum_pos (fun hnil => hne (List.map_eq_nil_iff.mp hnil)) (fun a ha => ?_) h
    obtain ⟨l, hl, rfl⟩ := List.mem_map.mp ha
    exact (hg.valid l hl).1

/-- Behind a deposit there are lots. -/
theorem lots_ne_nil_of_append {g after : Ledger} {l : Lot} (h : g.append l = .ok after) :
    after.lots ≠ [] := by
  have hput : ∀ x : Lot, (g.put x).lots ≠ [] := fun x =>
    List.ne_nil_of_mem (mem_of_get? (get?_put_self g x))
  obtain ⟨-, ⟨-, rfl⟩ | ⟨x, m, -, -, rfl⟩⟩ := append_cases h
  · exact hput l
  · exact hput m

/-- **A ledger of deposits has lots** where there are deposits. -/
theorem lots_eq_nil_iff_of_ofLots {token : TokenId} {ls : List Lot} {g : Ledger}
    (h : ofLots token ls = .ok g) : g.lots = [] ↔ ls = [] := by
  cases ls with
  | nil =>
    cases h
    exact iff_of_true rfl rfl
  | cons l ls =>
    obtain ⟨first, hfirst, hrest⟩ := Outcome.bind_eq_ok.mp h
    refine iff_of_false ?_ (List.cons_ne_nil l ls)
    exact Outcome.foldlM_keeps (P := fun x => x.lots ≠ [])
      (fun _ _ _ _ _ hnext => lots_ne_nil_of_append hnext) (lots_ne_nil_of_append hfirst) hrest

end Ledger

namespace Book

/-! ## Bare ledgers -/

/-- **The book keeps a bare ledger** for a holding: one without lots. -/
def Bare (b : Book) (h : Holding) : Prop := ∃ g, b.ledger? h = some g ∧ g.lots = []

theorem bare_iff_of_some {b : Book} {h : Holding} {g : Ledger} (hg : b.ledger? h = some g) :
    b.Bare h ↔ g.lots = [] := by
  refine ⟨fun ⟨x, hx, hnil⟩ => ?_, fun hnil => ⟨g, hg, hnil⟩⟩
  rw [hg] at hx
  exact Option.some.inj hx ▸ hnil

theorem bare_congr {b c : Book} {h : Holding} (hbc : b.ledger? h = c.ledger? h) :
    b.Bare h ↔ c.Bare h := by
  unfold Bare
  rw [hbc]

/-- **No bare ledger is committed.** -/
theorem not_bare_commit (b : Book) (h : Holding) (g : Ledger) : ¬ (b.commit h g).Bare h := by
  rintro ⟨x, hx, hnil⟩
  rw [ledger?_commit, Function.update_self, Ledger.kept] at hx
  split at hx
  · cases hx
  · rename_i hlots
    cases hx
    exact hlots (List.isEmpty_iff.mpr hnil)

/-- **A request that is accepted** leaves a bare ledger at a holding that it names exactly
where it loads the holding from no lots. -/
theorem Enters.bare_iff {b after : Book} {r : Request} {x : Receipt} (h : Enters b r x after)
    {k : Holding} (hk : k ∈ r.holdings) : after.Bare k ↔ r = .load k [] := by
  cases h with
  | @load k' ls g hg =>
    obtain rfl := List.mem_singleton.mp hk
    rw [bare_iff_of_some (ledger?_put_self b k g), Ledger.lots_eq_nil_iff_of_ofLots hg]
    exact ⟨fun hls => by rw [hls], fun hr => (Request.load.inj hr).2⟩
  | @deposit _ _ k' _ _ _ g hl hg =>
    obtain rfl := List.mem_singleton.mp hk
    rw [bare_iff_of_some (ledger?_put_self b k g)]
    exact iff_of_false (Ledger.lots_ne_nil_of_append hg) nofun
  | withdraw hsel hg =>
    obtain rfl := List.mem_singleton.mp hk
    exact iff_of_false (not_bare_commit _ _ _) nofun
  | transferSelf hsel hheld hdebited hcredited =>
    obtain rfl : k = _ := by simpa [Request.holdings] using hk
    exact iff_of_false (not_bare_commit _ _ _) nofun
  | @transfer s sender recipient token amount now sel held debited credited hne hsel hheld
      hdebited hcredited =>
    refine iff_of_false ?_ nofun
    -- the recipient's ledger is committed last and does not touch the sender's
    by_cases htarget : k = ⟨recipient, token⟩
    · exact htarget ▸ not_bare_commit _ _ _
    · have hsource : k = ⟨sender, token⟩ :=
        (List.mem_cons.mp hk).resolve_right fun hmem => htarget (List.mem_singleton.mp hmem)
      rw [bare_congr (c := b.commit ⟨sender, token⟩ debited)
        (by rw [ledger?_commit, Function.update_of_ne htarget]), hsource]
      exact not_bare_commit _ _ _

/-- **The last request of a history that names a holding and is accepted.** -/
def lastAccepted (h : Holding) (rs : List Request) (outcomes : List (Outcome Receipt)) :
    Option Request :=
  ((rs.zip outcomes).reverse.find? fun p => decide (h ∈ p.1.holdings) && p.2.answer?.isSome).map
    (·.1)

/-- One more request is the last one, if it names the holding and is accepted. -/
theorem lastAccepted_concat {h : Holding} {rs : List Request}
    {outcomes : List (Outcome Receipt)} (hlen : rs.length = outcomes.length) (r : Request)
    (o : Outcome Receipt) : lastAccepted h (rs ++ [r]) (outcomes ++ [o]) =
      if h ∈ r.holdings ∧ o.answer?.isSome = true then some r
      else lastAccepted h rs outcomes := by
  unfold lastAccepted
  rw [List.zip_append hlen, List.zip_cons_cons, List.zip_nil_left, List.reverse_append,
    List.reverse_singleton, List.singleton_append, List.find?_cons]
  by_cases hlast : h ∈ r.holdings ∧ o.answer?.isSome = true
  · rw [if_pos hlast, decide_eq_true hlast.1, hlast.2]
    rfl
  · rw [if_neg hlast]
    have hskip : (decide (h ∈ r.holdings) && o.answer?.isSome) = false := by
      simpa using hlast
    rw [hskip]

/-- **When a ledger is bare**: the last request that names its holding and is accepted loads
it from no lots. The induction is on the end of the history; a request that fails or names
other holdings changes nothing on either side. -/
theorem bare_run_iff (rs : List Request) (h : Holding) :
    (empty.run rs).1.Bare h ↔ lastAccepted h rs (empty.run rs).2 = some (.load h []) := by
  induction rs using List.reverseRecOn with
  | nil => exact iff_of_false (fun ⟨_, hg, _⟩ => nomatch hg) nofun
  | append_singleton rs r ih =>
    have hlen : rs.length = (empty.run rs).2.length := (History.length_run perform empty rs).symm
    have hrun : empty.run (rs ++ [r]) = (((empty.run rs).1.perform r).1,
        (empty.run rs).2 ++ [((empty.run rs).1.perform r).2]) :=
      History.run_append perform empty rs [r]
    rw [hrun]
    dsimp only
    rw [lastAccepted_concat hlen]
    cases houtcome : ((empty.run rs).1.perform r).2 with
    | error failure =>
      rw [perform_of_error houtcome, if_neg fun hlast => nomatch hlast.2]
      exact ih
    | ok x =>
      have hentered := enters_of_ok houtcome
      by_cases hh : h ∈ r.holdings
      · rw [if_pos ⟨hh, rfl⟩, hentered.bare_iff hh, Option.some.injEq]
      · rw [if_neg fun hlast => hh hlast.1, bare_congr (hentered.ledger?_of_not_mem hh)]
        exact ih

/-! ## What is listed -/

/-- **A listed token** has a ledger. -/
theorem Sorted.mem_tokensOf {b : Book} (hb : b.Sorted) {a : Account} {t : TokenId} :
    t ∈ b.tokensOf a ↔ ∃ g, b.ledger? ⟨a, t⟩ = some g := by
  unfold tokensOf
  constructor
  · intro ht
    obtain ⟨⟨⟨c, u⟩, g⟩, hentry, rfl⟩ := List.mem_map.mp ht
    obtain ⟨hmem, haccount⟩ := List.mem_filter.mp hentry
    have hca : c = a := by simpa using haccount
    exact ⟨g, hb.mem_iff.mp (hca ▸ hmem)⟩
  · rintro ⟨g, hg⟩
    exact List.mem_map.mpr ⟨(⟨a, t⟩, g),
      List.mem_filter.mpr ⟨hb.mem_iff.mpr hg, by simp⟩, rfl⟩

/-- **No token is listed twice.** -/
theorem Sorted.nodup_tokensOf {b : Book} (hb : b.Sorted) (a : Account) :
    (b.tokensOf a).Nodup := by
  unfold tokensOf
  rw [List.Nodup, List.pairwise_map]
  refine (hb.filter _).imp_of_mem fun {x y} hx hy hbefore htoken => hbefore.ne ?_
  have hxa : x.1.account = a := by simpa using (List.mem_filter.mp hx).2
  have hya : y.1.account = a := by simpa using (List.mem_filter.mp hy).2
  obtain ⟨⟨_, _⟩, _⟩ := x
  obtain ⟨⟨_, _⟩, _⟩ := y
  dsimp only at hxa hya htoken
  rw [hxa, hya, htoken]

/-- **A ledger is kept** where the balance is positive, and where it is bare. -/
theorem WellFormed.exists_ledger_iff {b : Book} {h : Holding} {c : Decimal} (hb : b.WellFormed)
    (hc : b.balance h = .ok c) :
    ((∃ g, b.ledger? h = some g) ↔ .zero < c ∨ b.Bare h) ∧ ¬ (.zero < c ∧ b.Bare h) := by
  unfold balance at hc
  cases hg : b.ledger? h with
  | none =>
    rw [hg] at hc
    cases hc
    have hzero : ¬ Decimal.zero < .zero := Int.lt_irrefl _
    have hbare : ¬ b.Bare h := fun ⟨g, hsome, _⟩ => by
      rw [hg] at hsome
      cases hsome
    exact ⟨iff_of_false (fun ⟨_, hsome⟩ => nomatch hsome) (not_or.mpr ⟨hzero, hbare⟩),
      fun hboth => hzero hboth.1⟩
  | some g =>
    rw [hg] at hc
    rw [bare_iff_of_some hg, (hb.of_some hg).2.totalAmount_pos_iff hc]
    exact ⟨iff_of_true ⟨g, rfl⟩ (ne_or_eq _ _), fun hboth => hboth.1 hboth.2⟩

/-- **Which ledgers are kept.** Behind every list of requests the tokens of an account are
listed once each. Where there is a balance, a ledger is kept exactly if the balance is
positive or the ledger is bare, and never both; a token is listed exactly where its ledger
is kept. -/
theorem kept_iff (rs : List Request) (a : Account) :
    ((empty.run rs).1.tokensOf a).Nodup ∧
      ∀ t c, (empty.run rs).1.balance ⟨a, t⟩ = .ok c →
        ((∃ g, (empty.run rs).1.ledger? ⟨a, t⟩ = some g) ↔ .zero < c ∨
          lastAccepted ⟨a, t⟩ rs (empty.run rs).2 = some (.load ⟨a, t⟩ [])) ∧
        (t ∈ (empty.run rs).1.tokensOf a ↔ .zero < c ∨
          lastAccepted ⟨a, t⟩ rs (empty.run rs).2 = some (.load ⟨a, t⟩ [])) ∧
        ¬ (.zero < c ∧
          lastAccepted ⟨a, t⟩ rs (empty.run rs).2 = some (.load ⟨a, t⟩ [])) := by
  refine ⟨(sorted_run rs).nodup_tokensOf a, fun t c hc => ?_⟩
  obtain ⟨hkept, hnever⟩ := (wellFormed_empty.run rs).exists_ledger_iff hc
  rw [bare_run_iff] at hkept hnever
  exact ⟨hkept, (sorted_run rs).mem_tokensOf.trans hkept, hnever⟩

/-- One token is deposited and another one is loaded from no lots. Both are listed; the
first one has a balance, and the second one was loaded last. -/
theorem kept_iff_loaded :
    let held : Holding := ⟨.null, TokenTable.beanId⟩
    let bare : Holding := ⟨.null, TokenTable.beanPoolId⟩
    let rs : List Request := [ .load bare [], .deposit .standard .none held .one ⟨1⟩ ]
    (TokenTable.beanId ∈ (empty.run rs).1.tokensOf .null ∧ .zero < Decimal.one) ∧
      TokenTable.beanPoolId ∈ (empty.run rs).1.tokensOf .null ∧
        lastAccepted bare rs (empty.run rs).2 = some (.load bare []) := by
  intro held bare rs
  have hone : (empty.run rs).1.balance held = .ok .one := by decide +kernel
  have hzero : (empty.run rs).1.balance bare = .ok .zero := by decide +kernel
  obtain ⟨-, hlisted⟩ := kept_iff rs .null
  exact ⟨⟨(hlisted _ _ hone).2.1.mpr (Or.inl (by decide)), by decide⟩,
    (hlisted _ _ hzero).2.1.mpr (Or.inr rfl), rfl⟩

/-- **A bare ledger is listed.** A token is loaded from no lots, and the account, which has
nothing of it, has a ledger of it and lists it. -/
theorem bare_ledger_listed :
    let h : Holding := ⟨.null, TokenTable.beanId⟩
    let b := (empty.run [.load h []]).1
    (empty.run [.load h []]).2 = [.ok .loaded] ∧ b.balance h = .ok .zero ∧
      (b.ledger? h).isSome = true ∧ b.tokensOf .null = [TokenTable.beanId] := by
  decide +kernel

end Book

end StakeAccounting
