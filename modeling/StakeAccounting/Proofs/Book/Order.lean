import Mathlib.Data.List.Nodup
import StakeAccounting.Proofs.Book.Step

/-!
# The order of a book

A book lists its ledgers in the order of their holdings, and one to a holding. The two
primitive steps keep it so (`Sorted.put`, `Sorted.close`), and then the list holds no more
than what can be looked up: a ledger is listed under a holding exactly where it is the
ledger of that holding (`Sorted.mem_iff`). So what is known of every ledger that is looked
up is known of every ledger that is stored.

That is used to say what a book in use stores (`stored_wellFormed`). Each ledger is held
under its own token and has valid lots in ascending order – behind any list of requests,
with whatever lots are loaded and whatever rate stake weight accrues at. Loading and
depositing check the lots that they add, and a removal checks what it leaves of the stake
weight and the yield rate. Nothing checks what it leaves of the base value; that this is
not negative is due to how the removal was selected, and the removals of a selection are
within their lots.
-/

namespace StakeAccounting

/-! ## The order of holdings -/

instance : Std.TransOrd Account :=
  inferInstanceAs (Std.TransCmp (compareOn Account.bytes))

instance : Std.LawfulEqOrd Account where
  compare_self {a} := show compare a.bytes a.bytes = .eq from Std.compare_self
  eq_of_compare {a b} h := by
    obtain ⟨as, ha⟩ := a
    obtain ⟨bs, hb⟩ := b
    change compare as bs = .eq at h
    rw [Std.compare_eq_iff_eq] at h
    subst h
    rfl

instance : Std.TransOrd TokenId :=
  inferInstanceAs (Std.TransCmp (compareOn TokenId.text))

instance : Std.LawfulEqOrd TokenId where
  compare_self {t} := show compare t.text t.text = .eq from Std.compare_self
  eq_of_compare {t u} h := congrArg TokenId.mk
    (Std.compare_eq_iff_eq.mp (show compare t.text u.text = .eq from h))

instance : Std.TransOrd Holding :=
  inferInstanceAs (Std.TransCmp (compareLex (compareOn Holding.account) (compareOn Holding.token)))

instance : Std.LawfulEqOrd Holding where
  compare_self := Ordering.then_eq_eq.mpr ⟨Std.compare_self, Std.compare_self⟩
  eq_of_compare {h k} he := by
    obtain ⟨haccount, htoken⟩ := Ordering.then_eq_eq.mp he
    obtain ⟨a, t⟩ := h
    obtain ⟨c, u⟩ := k
    rw [Std.compare_eq_iff_eq] at haccount htoken
    exact congrArg₂ Holding.mk haccount htoken

namespace Holding

/-- **One holding comes before another.** -/
def Before (h k : Holding) : Prop := compare h k = .lt

theorem Before.trans {h k m : Holding} (hk : h.Before k) (hm : k.Before m) : h.Before m :=
  Std.TransCmp.lt_trans hk hm

theorem Before.ne {h k : Holding} (hk : h.Before k) : h ≠ k := by
  rintro rfl
  exact absurd ((Std.compare_self (a := h)).symm.trans hk) (by decide)

/-- Of two holdings, one comes before the other. -/
theorem before_of_not_isLT {h k : Holding} (hne : k ≠ h) (hlt : ¬ (compare h k).isLT = true) :
    k.Before h := by
  cases hcompare : compare h k with
  | lt => exact absurd (by rw [hcompare]; rfl) hlt
  | eq => exact absurd (Std.compare_eq_iff_eq.mp hcompare).symm hne
  | gt => exact Std.OrientedCmp.gt_iff_lt.mp hcompare

end Holding

namespace Book

/-! ## Ledgers in order -/

/-- **Sorted**: the holdings ascend strictly. -/
def Sorted (b : Book) : Prop := b.ledgers.Pairwise fun x y => x.1.Before y.1

theorem sorted_empty : empty.Sorted := List.Pairwise.nil

/-- What is listed after a ledger is put was listed before, or is that ledger. -/
theorem mem_putEntry {h : Holding} {g : Ledger} {y : Holding × Ledger}
    {xs : List (Holding × Ledger)} (hy : y ∈ putEntry h g xs) : y = (h, g) ∨ y ∈ xs := by
  induction xs with
  | nil => exact Or.inl (List.mem_singleton.mp hy)
  | cons x xs ih =>
    unfold putEntry at hy
    split at hy
    · exact (List.mem_cons.mp hy).imp_right (List.mem_cons_of_mem x)
    · split at hy
      · exact List.mem_cons.mp hy
      · cases List.mem_cons.mp hy with
        | inl hyx => exact Or.inr (hyx ▸ List.mem_cons_self ..)
        | inr hyxs => exact (ih hyxs).imp_right (List.mem_cons_of_mem x)

/-- **Putting a ledger keeps the order.** -/
theorem Sorted.put {b : Book} (hb : b.Sorted) (h : Holding) (g : Ledger) :
    (b.put h g).Sorted := by
  obtain ⟨ledgers⟩ := b
  unfold Sorted Book.put at *
  dsimp only at *
  induction ledgers with
  | nil => exact List.pairwise_singleton _ _
  | cons x xs ih =>
    obtain ⟨hx, hxs⟩ := List.pairwise_cons.mp hb
    unfold putEntry
    -- the ledger takes the place of the first one, goes before it, or goes somewhere behind it
    split
    · rename_i hxh
      exact List.pairwise_cons.mpr ⟨fun y hy => hxh ▸ hx y hy, hxs⟩
    · rename_i hxh
      split
      · rename_i hlt
        have hbefore : h.Before x.1 := Ordering.isLT_iff_eq_lt.mp hlt
        refine List.pairwise_cons.mpr ⟨fun y hy => ?_, hb⟩
        cases List.mem_cons.mp hy with
        | inl hyx => exact hyx ▸ hbefore
        | inr hyxs => exact hbefore.trans (hx y hyxs)
      · rename_i hlt
        refine List.pairwise_cons.mpr ⟨fun y hy => ?_, ih hxs⟩
        cases mem_putEntry hy with
        | inl hyh => exact hyh ▸ Holding.before_of_not_isLT hxh hlt
        | inr hyxs => exact hx y hyxs

/-- **Closing a ledger keeps the order.** -/
theorem Sorted.close {b : Book} (hb : b.Sorted) (h : Holding) : (b.close h).Sorted :=
  List.Pairwise.filter _ hb

theorem Sorted.commit {b : Book} (hb : b.Sorted) (h : Holding) (g : Ledger) :
    (b.commit h g).Sorted := by
  unfold Book.commit
  split
  · exact hb.close h
  · exact hb.put h g

/-- **In order, a ledger is listed where it can be looked up.** -/
theorem Sorted.mem_iff {b : Book} (hb : b.Sorted) {h : Holding} {g : Ledger} :
    (h, g) ∈ b.ledgers ↔ b.ledger? h = some g := by
  constructor
  · intro hmem
    obtain ⟨ledgers⟩ := b
    unfold Sorted at hb
    unfold ledger?
    dsimp only at *
    induction ledgers with
    | nil => cases hmem
    | cons x xs ih =>
      obtain ⟨hx, hxs⟩ := List.pairwise_cons.mp hb
      cases List.mem_cons.mp hmem with
      | inl hhx => rw [← hhx, List.find?_cons_of_pos (by simp), Option.map_some]
      | inr hhxs =>
        rw [List.find?_cons_of_neg (by simpa using (hx _ hhxs).ne)]
        exact ih hxs hhxs
  · intro hlookup
    obtain ⟨⟨k, _⟩, hfound, rfl⟩ := Option.map_eq_some_iff.mp hlookup
    have hk : k = h := by simpa using List.find?_some hfound
    exact hk ▸ List.mem_of_find?_eq_some hfound

/-- **In order, books with the same ledgers are the same book.** -/
theorem Sorted.ext {b c : Book} (hb : b.Sorted) (hc : c.Sorted) (h : b.ledger? = c.ledger?) :
    b = c := by
  have hnodup : ∀ {x : Book}, x.Sorted → x.ledgers.Nodup := fun hx =>
    hx.imp fun hbefore heq => hbefore.ne (congrArg Prod.fst heq)
  have hperm : b.ledgers.Perm c.ledgers := by
    refine (List.perm_ext_iff_of_nodup (hnodup hb) (hnodup hc)).mpr fun ⟨k, g⟩ => ?_
    rw [hb.mem_iff, hc.mem_iff, h]
  have heq : b.ledgers = c.ledgers :=
    hperm.eq_of_pairwise (fun x y _ _ hxy hyx => absurd rfl (hxy.trans hyx).ne) hb hc
  cases b
  cases c
  exact congrArg mk heq

/-- Every ledger that a request enters is entered in order. -/
theorem Enters.sorted {b after : Book} {r : Request} {x : Receipt} (h : Enters b r x after)
    (hb : b.Sorted) : after.Sorted := by
  cases h with
  | load hg => exact hb.put _ _
  | deposit hl hg => exact hb.put _ _
  | withdraw hsel hg => exact hb.commit _ _
  | transferSelf hsel hheld hdebited hcredited => exact hb.commit _ _
  | transfer hne hsel hheld hdebited hcredited => exact (hb.commit _ _).commit _ _

/-- **A book in use is sorted**, behind every list of requests. -/
theorem sorted_run (rs : List Request) : (empty.run rs).1.Sorted := by
  refine History.run_invariant perform (fun b r hb => ?_) sorted_empty rs
  cases h : (b.perform r).2 with
  | error failure => exact (perform_of_error h).symm ▸ hb
  | ok x => exact (enters_of_ok h).sorted hb

/-! ## What is stored -/

/-- **What a book in use stores.** Behind every list of requests, accepted and refused, the
ledgers that are listed are those that are looked up. Each of them is of the token it is
held under; its lots ascend strictly by their epochs, and the lot of an epoch is the one
of that epoch that is listed; and every lot passes its check, with a positive amount and
no share below zero. -/
theorem stored_wellFormed (rs : List Request) (h : Holding) (g : Ledger) :
    ((h, g) ∈ (empty.run rs).1.ledgers ↔ (empty.run rs).1.ledger? h = some g) ∧
      ((empty.run rs).1.ledger? h = some g →
        g.token = h.token ∧ g.lots.Pairwise (fun a b => a.epoch < b.epoch) ∧
          (∀ e l, g.get? e = some l ↔ l ∈ g.lots ∧ l.epoch = e) ∧
          ∀ l ∈ g.lots, l.check = .ok ()) := by
  refine ⟨(sorted_run rs).mem_iff, fun hg => ?_⟩
  obtain ⟨htoken, hledger⟩ := (wellFormed_empty.run rs).of_some hg
  refine ⟨htoken, hledger.sorted, fun e l => ⟨fun hl => ?_, ?_⟩, fun l hl => ?_⟩
  · exact ⟨Ledger.mem_of_get? hl, Ledger.epoch_of_get? hl⟩
  · rintro ⟨hl, rfl⟩
    exact hledger.sorted.get?_of_mem hl
  · exact l.check_eq_ok.mpr (hledger.valid l hl)

/-- Three tokens worth one unit of base value are loaded in two lots of one epoch, and one is
withdrawn while stake weight accrues below zero. A third of the unit is rounded, and what
is left of the lot still passes its check. -/
theorem stored_wellFormed_third :
    let h : Holding := ⟨.null, TokenTable.beanPoolId⟩
    let ls : List Lot :=
      [⟨⟨1⟩, .one, .one, .one, .one⟩, ⟨⟨1⟩, .ofUInt32 2, .zero, .zero, .one⟩]
    let rs : List Request := [ .load h ls, .withdraw ⟨.standard, -.one⟩ h .one ⟨1⟩ ]
    ∃ g, (empty.run rs).1.ledger? h = some g ∧
      g.lots.map (·.baseValue) =
        [⟨false, 6666666666666666666666666667, 28, by decide, by decide⟩] ∧
      g.token = TokenTable.beanPoolId ∧ ∀ l ∈ g.lots, l.check = .ok () := by
  intro h ls rs
  have hg : (empty.run rs).1.ledger? h = some ((empty.run rs).1.ledgerOrEmpty h) := by
    decide +kernel
  obtain ⟨htoken, -, -, hcheck⟩ := (stored_wellFormed rs h _).2 hg
  exact ⟨_, hg, by decide +kernel, htoken, hcheck⟩

end Book

end StakeAccounting
