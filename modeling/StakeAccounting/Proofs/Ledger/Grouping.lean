import StakeAccounting.Proofs.Decimal.Exact
import StakeAccounting.Proofs.Ledger.Amount
import StakeAccounting.Proofs.Ledger.Pointwise

/-!
# A ledger groups its deposits by epoch

The ledger of a list of deposits is what a query would call grouping by epoch: one lot for each
epoch that is listed, with the sums of the parts of the deposits listed there (`Ledger.Groups`).
It is made deposit by deposit, though, with a sum that may be rounded in each merge, so this needs
the sums to be decimals. How a ledger comes about decides which sums are formed, and all of them
are sums over some of the deposits of one epoch; so these are what has to be exact
(`Ledger.ExactByEpoch`), and nothing is asked of deposits of different epochs together.

With exact sums a valid deposit is never in the way: what the ledger has at its epoch is a sum, and
with the deposit it is the next (`Groups.append`). The ledger of a list is then described by the
list, without the order it is in (`Groups.same`), so the deposits may be listed in another order or
made in several goes (`ofLots_groups`). Its lots are the same by value only: two zeros of different
scales have the scale of the one that came last.
-/

namespace StakeAccounting

namespace Lot

/-- **The parts of a lot** that are added up where lots are merged. -/
def parts : List (Lot → Decimal) := [rawAmount, baseValue, stakeWeight, yieldRate]

variable {l other m : Lot}

theorem forall_parts {P : (Lot → Decimal) → Prop} :
    (∀ part ∈ parts, P part) ↔ P rawAmount ∧ P baseValue ∧ P stakeWeight ∧ P yieldRate := by
  simp [parts]

/-- **Lots whose parts have exact sums** are merged, and the merged lot has these. -/
theorem exists_merge (h : ∀ part ∈ parts, Decimal.Exact ((part l).quanta + (part other).quanta)) :
    ∃ m, l.merge other = .ok m ∧ m.epoch = l.epoch ∧
      ∀ part ∈ parts, (part m).quanta = (part l).quanta + (part other).quanta := by
  obtain ⟨hraw, hbase, hstake, hyield⟩ := forall_parts.mp h
  obtain ⟨a, ha, haq⟩ := Decimal.exists_plus_of_exact hraw
  obtain ⟨b, hb, hbq⟩ := Decimal.exists_plus_of_exact hbase
  obtain ⟨w, hw, hwq⟩ := Decimal.exists_plus_of_exact hstake
  obtain ⟨y, hy, hyq⟩ := Decimal.exists_plus_of_exact hyield
  refine ⟨⟨l.epoch, a, b, w, y⟩, ?_, rfl, forall_parts.mpr ⟨haq, hbq, hwq, hyq⟩⟩
  simp only [merge, Outcome.bind_eq_ok]
  exact ⟨a, ha, b, hb, w, hw, y, hy, rfl⟩

/-- Lots of one epoch are the same where their parts are. -/
theorem same_of_parts (he : l.epoch = m.epoch)
    (h : ∀ part ∈ parts, (part l).quanta = (part m).quanta) : l.Same m := by
  obtain ⟨hraw, hbase, hstake, hyield⟩ := forall_parts.mp h
  exact ⟨he, hraw, hbase, hstake, hyield⟩

end Lot

namespace Ledger

variable {part : Lot → Decimal} {e : Epoch} {l x : Lot} {ls ms : List Lot} {g h : Ledger}

/-! ## Sums at an epoch -/

/-- **The parts of the lots of an epoch**, in units of `10^-28`. -/
def partsAt (part : Lot → Decimal) (e : Epoch) (ls : List Lot) : List Int :=
  (ls.filter fun l => l.epoch = e).map fun l => (part l).quanta

/-- **Lots whose sums are exact**, whichever lots of one epoch are added up. -/
def ExactByEpoch (ls : List Lot) : Prop :=
  ∀ part ∈ Lot.parts, ∀ e, Decimal.SumsExact (partsAt part e ls)

theorem partsAt_concat (part : Lot → Decimal) (e : Epoch) (ls : List Lot) (l : Lot) :
    partsAt part e (ls ++ [l]) =
      partsAt part e ls ++ if l.epoch = e then [(part l).quanta] else [] := by
  unfold partsAt
  rw [List.filter_append, List.map_append]
  split
  · rename_i he
    rw [List.filter_cons_of_pos (by simpa using he)]
    rfl
  · rename_i he
    rw [List.filter_cons_of_neg (by simpa using he)]
    rfl

theorem partsAt_of_not_mem (h : e ∉ ls.map (·.epoch)) : partsAt part e ls = [] := by
  rw [partsAt, List.filter_eq_nil_iff.mpr, List.map_nil]
  exact fun l hl => by simpa using fun he => h (List.mem_map.mpr ⟨l, hl, he⟩)

theorem partsAt_perm (hperm : ls.Perm ms) : (partsAt part e ls).Perm (partsAt part e ms) :=
  (hperm.filter _).map _

instance (ls : List Lot) : Decidable (ExactByEpoch ls) :=
  decidable_of_iff
    (∀ part ∈ Lot.parts, ∀ e ∈ ls.map Lot.epoch, Decimal.SumsExact (partsAt part e ls)) <| by
    refine forall₂_congr fun part _ => ⟨fun h e => ?_, fun h e _ => h e⟩
    by_cases he : e ∈ ls.map (·.epoch)
    · exact h e he
    · -- no lots have nothing to add up
      intro xs hxs
      rw [partsAt_of_not_mem he, List.sublist_nil] at hxs
      exact hxs ▸ ⟨.zero, rfl⟩

/-- In another order the lots have the same sums. -/
theorem ExactByEpoch.perm (h : ExactByEpoch ls) (hperm : ls.Perm ms) : ExactByEpoch ms :=
  fun part hpart e => (h part hpart e).perm (partsAt_perm hperm)

/-- The first of the lots have exact sums, if all of them have. -/
theorem ExactByEpoch.of_append (h : ExactByEpoch (ls ++ ms)) : ExactByEpoch ls :=
  fun part hpart e => (h part hpart e).sublist
    (((List.sublist_append_left ls ms).filter _).map _)

/-! ## Grouping -/

/-- **A ledger groups lots by epoch**: it has one lot for each epoch that is listed and no other,
in ascending order, and its parts are the sums over the lots of the epoch. -/
structure Groups (g : Ledger) (ls : List Lot) : Prop where
  /-- The epochs ascend. -/
  sorted : g.Sorted
  /-- They are the epochs of the lots. -/
  epochs : ∀ e, e ∈ g.lots.map (·.epoch) ↔ e ∈ ls.map (·.epoch)
  /-- Every part is the sum over the lots of its epoch. -/
  sums : ∀ x ∈ g.lots, ∀ part ∈ Lot.parts, (part x).quanta = (partsAt part x.epoch ls).sum

/-- The ledger without lots groups no lots. -/
theorem groups_empty (token : TokenId) : (empty token).Groups [] :=
  ⟨sorted_empty token, fun _ => Iff.rfl, fun _ hx => nomatch hx⟩

/-- **One more lot is grouped** by putting the lot of its epoch in place, with the sums that
include it. -/
theorem Groups.put (hg : g.Groups ls) (he : x.epoch = l.epoch)
    (hsums : ∀ part ∈ Lot.parts, (part x).quanta = (partsAt part l.epoch (ls ++ [l])).sum) :
    (g.put x).Groups (ls ++ [l]) where
  sorted := hg.sorted.put x
  epochs := fun e => by
    rw [hg.sorted.mem_epochs_put, hg.epochs, he, List.map_append, List.mem_append,
      List.map_singleton, List.mem_singleton]
  sums := by
    intro y hy part hpart
    rcases hg.sorted.mem_put_iff.mp hy with rfl | ⟨hy, hne⟩
    · rw [hsums part hpart, he]
    · rw [hg.sums y hy part hpart, partsAt_concat, if_neg (he ▸ hne), List.append_nil]

/-- **A valid deposit is added** to a ledger that groups the deposits before it, and the ledger
groups it with them. -/
theorem Groups.append (hg : g.Groups ls) (hl : l.Valid) (hexact : ExactByEpoch (ls ++ [l])) :
    ∃ after, g.append l = .ok after ∧ after.Groups (ls ++ [l]) := by
  have hsum : ∀ part, (partsAt part l.epoch (ls ++ [l])).sum =
      (partsAt part l.epoch ls).sum + (part l).quanta := fun part => by
    rw [partsAt_concat, if_pos rfl, List.sum_append, List.sum_singleton]
  cases hx : g.get? l.epoch with
  | none =>
    refine ⟨g.put l, append_of_none hl hx, hg.put rfl fun part hpart => ?_⟩
    have hnew : l.epoch ∉ ls.map (·.epoch) := by
      rw [← hg.epochs, ← isSome_get?_iff, hx]
      exact Bool.false_ne_true
    rw [hsum, partsAt_of_not_mem hnew, List.sum_nil, Int.zero_add]
  | some x =>
    have hxe := epoch_of_get? hx
    have hparts := fun part hpart => hxe ▸ hg.sums x (mem_of_get? hx) part hpart
    have hsums : ∀ part ∈ Lot.parts, Decimal.Exact ((part x).quanta + (part l).quanta) := by
      intro part hpart
      rw [hparts part hpart, ← hsum]
      exact (hexact part hpart l.epoch).exact
    obtain ⟨m, hm, hme, hmparts⟩ := Lot.exists_merge hsums
    refine ⟨g.put m, append_of_some hl hx hm, hg.put (hme.trans hxe) fun part hpart => ?_⟩
    rw [hmparts part hpart, hparts part hpart, hsum]

/-- **Valid deposits are grouped**, one after the other. -/
theorem Groups.appendAll {ls : List Lot} : ∀ {xs : List Lot} {g : Ledger}, g.Groups xs →
    (∀ l ∈ ls, l.Valid) → ExactByEpoch (xs ++ ls) →
      ∃ after, g.appendAll ls = .ok after ∧ after.Groups (xs ++ ls) := by
  induction ls with
  | nil => exact fun {xs g} hg _ _ => ⟨g, rfl, by rwa [List.append_nil]⟩
  | cons l ls ih =>
    intro xs g hg hvalid hexact
    rw [List.append_cons] at hexact ⊢
    obtain ⟨next, hnext, hgroups⟩ := hg.append (hvalid l List.mem_cons_self) hexact.of_append
    obtain ⟨after, hafter, hall⟩ := ih hgroups (fun x hx => hvalid x (List.mem_cons_of_mem l hx))
      hexact
    exact ⟨after, Outcome.bind_eq_ok.mpr ⟨next, hnext, hafter⟩, hall⟩

/-- **The ledger that groups lots** is one, by value, in whatever order they are listed. -/
theorem Groups.same (hg : g.Groups ls) (hh : h.Groups ms) (hperm : ls.Perm ms)
    (htoken : g.token = h.token) : g.Same h := by
  refine ⟨htoken, fun e => ?_⟩
  have hepochs : (g.get? e).isSome ↔ (h.get? e).isSome := by
    rw [isSome_get?_iff, isSome_get?_iff, hg.epochs, hh.epochs]
    exact (hperm.map _).mem_iff
  cases hx : g.get? e with
  | none =>
    cases hy : h.get? e with
    | none => exact Option.Rel.none
    | some y => simp [hx, hy] at hepochs
  | some x =>
    cases hy : h.get? e with
    | none => simp [hx, hy] at hepochs
    | some y =>
      have hxe := epoch_of_get? hx
      have hye := epoch_of_get? hy
      refine Option.Rel.some (Lot.same_of_parts (hxe.trans hye.symm) fun part hpart => ?_)
      rw [hg.sums x (mem_of_get? hx) part hpart, hh.sums y (mem_of_get? hy) part hpart, hxe, hye]
      exact (partsAt_perm hperm).sum_eq

/-! ## The ledger of a list -/

/-- **Valid deposits make a ledger** that groups them. -/
theorem exists_groups (token : TokenId) (hexact : ExactByEpoch ls) (hvalid : ∀ l ∈ ls, l.Valid) :
    ∃ g, ofLots token ls = .ok g ∧ g.Groups ls := by
  obtain ⟨g, hg, hgroups⟩ := (groups_empty token).appendAll hvalid hexact
  exact ⟨g, hg, hgroups⟩

/-- **Deposits that are made in several goes** are made one after the other. -/
theorem foldlM_appendAll (cuts : List (List Lot)) :
    ∀ g : Ledger, cuts.foldlM Ledger.appendAll g = g.appendAll cuts.flatten := by
  induction cuts with
  | nil => exact fun _ => rfl
  | cons ls cuts ih =>
    intro g
    rw [List.foldlM_cons, List.flatten_cons, Ledger.appendAll, Ledger.appendAll, List.foldlM_append]
    exact congrArg _ (funext ih)

/-- **A ledger of deposits groups them by epoch**, where the sums over deposits of one epoch are
exact. There is one exactly where all deposits are valid. It has a lot for each epoch that is
listed and no other, in ascending order, and the parts of each are the exact sums. So it has the
same values whatever the order of the deposits, it is the same for deposits made in several goes,
and it is the ledger of its own lots. -/
theorem ofLots_groups (token : TokenId) (hexact : ExactByEpoch ls) :
    ((∃ g, ofLots token ls = .ok g) ↔ ∀ l ∈ ls, l.Valid) ∧
    ∀ g, ofLots token ls = .ok g →
      g.token = token ∧ g.Groups ls ∧
      (∀ ms : List Lot, ms.Perm ls → ∃ h, ofLots token ms = .ok h ∧ h.Same g) ∧
      (∀ cuts : List (List Lot), cuts.flatten = ls →
        cuts.foldlM Ledger.appendAll (empty token) = .ok g) ∧
      ofLots token g.lots = .ok g := by
  constructor
  · constructor
    · rintro ⟨g, hg⟩
      exact valid_of_appendAll hg
    · intro hvalid
      obtain ⟨g, hg, -⟩ := exists_groups token hexact hvalid
      exact ⟨g, hg⟩
  · intro g hg
    have hvalid := valid_of_appendAll hg
    have htoken : g.token = token := token_appendAll hg
    have hgroups : g.Groups ls := by
      obtain ⟨x, hx, hgroups⟩ := exists_groups token hexact hvalid
      exact Except.ok.inj (hx.symm.trans hg) ▸ hgroups
    refine ⟨htoken, hgroups, fun ms hperm => ?_, ?_, ?_⟩
    · obtain ⟨h, hh, hhgroups⟩ := exists_groups token (hexact.perm hperm.symm)
        fun l hl => hvalid l (hperm.mem_iff.mp hl)
      exact ⟨h, hh, hhgroups.same hgroups hperm ((token_appendAll hh).trans htoken.symm)⟩
    · rintro cuts rfl
      rw [foldlM_appendAll]
      exact hg
    · rw [← htoken]
      exact (wellFormed_of_ofLots hg).ofLots_lots

/-- Two deposits of one epoch and one of an earlier epoch, in scales of their own. In the other
order they make a ledger with the same values and another zero. -/
theorem ofLots_groups_reversed :
    let ls : List Lot := [⟨⟨3⟩, ⟨false, 15, 1, by decide, by decide⟩, .one, .one, .percent 0⟩,
      ⟨⟨1⟩, .one, .one, .zero, .one⟩,
      ⟨⟨3⟩, ⟨false, 250, 2, by decide, by decide⟩, .percent 5, .one, .zero⟩]
    ExactByEpoch ls ∧ ∃ g h, ofLots ⟨"0xc5"⟩ ls = .ok g ∧ ofLots ⟨"0xc5"⟩ ls.reverse = .ok h ∧
      h.Same g ∧ h ≠ g ∧ g.Groups ls ∧ g.lots.map (·.epoch) = [⟨1⟩, ⟨3⟩] := by
  intro ls
  have hexact : ExactByEpoch ls := by decide +kernel
  obtain ⟨g, hg, hepochs⟩ := Outcome.map_eq_ok.mp
    (show (fun g => g.lots.map Lot.epoch) <$> ofLots ⟨"0xc5"⟩ ls = .ok [⟨1⟩, ⟨3⟩] by
      decide +kernel)
  obtain ⟨-, hall⟩ := ofLots_groups ⟨"0xc5"⟩ hexact
  obtain ⟨-, hgroups, hperm, -, -⟩ := hall g hg
  obtain ⟨h, hh, hsame⟩ := hperm ls.reverse ls.reverse_perm
  have hother : ofLots ⟨"0xc5"⟩ ls.reverse ≠ ofLots ⟨"0xc5"⟩ ls := by decide +kernel
  rw [hg, hh] at hother
  exact ⟨hexact, g, h, hg, hh, hsame, fun heq => hother (congrArg _ heq), hgroups, hepochs⟩

end Ledger

end StakeAccounting
