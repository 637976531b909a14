import StakeAccounting.Proofs.Book.Entries

/-!
# Requests that do not meet

What a request comes to is decided by the ledgers that it names: its outcome depends on
these alone (`snd_perform_congr`), and so does what it enters (`Enters.ledger?_congr`). Since
it changes these alone, too, two requests that name no holding in common do not see each
other. Each has the outcome it would have on its own, whichever is performed first, and the
book has the same ledgers afterwards (`perform_comm`).

The two books need not be equal otherwise, and no assumption is made on the book, so the
ledgers of a holding are compared one by one.
-/

namespace StakeAccounting

namespace Book

variable {b b' : Book} {r s : Request}

/-! ## The outcome -/

/-- The outcome of a change that is worked out on the side is that of working it out. -/
theorem snd_enter {α : Type} (b : Book) (x : Outcome (Book × α)) :
    (b.enter x).2 = Prod.snd <$> x := by
  cases x <;> rfl

theorem ledgerOrEmpty_congr {h : Holding} (hh : b.ledger? h = b'.ledger? h) :
    b.ledgerOrEmpty h = b'.ledgerOrEmpty h := by
  unfold ledgerOrEmpty
  rw [hh]

/-- **The outcome of a request** depends on the ledgers that it names. -/
theorem snd_perform_congr (h : ∀ k ∈ r.holdings, b.ledger? k = b'.ledger? k) :
    (b.perform r).2 = (b'.perform r).2 := by
  cases r with
  | load k ls =>
    simp only [perform, receipt, load, snd_enter, map_bind, map_pure]
  | deposit table feed k amount now =>
    have hk := ledgerOrEmpty_congr (h k (List.mem_singleton_self k))
    simp only [perform, receipt, deposit]
    cases Deposit.newLot table feed k.token amount now with
    | error failure => rfl
    | ok l => simp only [snd_enter, map_bind, map_pure, hk]
  | withdraw s k amount now =>
    have hk := ledgerOrEmpty_congr (h k (List.mem_singleton_self k))
    simp only [perform, receipt, withdraw, previewWithdrawal, lots, snd_enter, map_bind, map_pure,
      hk]
  | transfer s sender recipient token amount now =>
    have hsource := ledgerOrEmpty_congr (h ⟨sender, token⟩ List.mem_cons_self)
    have htarget := ledgerOrEmpty_congr (h ⟨recipient, token⟩
      (List.mem_cons_of_mem _ (List.mem_singleton_self _)))
    simp only [perform, receipt, transfer, lots, snd_enter, map_bind, hsource, htarget]
    split <;> simp only [map_bind, map_pure]

/-! ## What is entered -/

/-- Updates of one entry by the same ledger agree where the books do. -/
theorem update_congr {v v' : Holding → Option Ledger} {h k : Holding} {g : Option Ledger}
    (hk : v k = v' k) : Function.update v h g k = Function.update v' h g k := by
  by_cases hkh : k = h
  · rw [hkh, Function.update_self, Function.update_self]
  · rw [Function.update_of_ne hkh, Function.update_of_ne hkh, hk]

/-- **What a request enters** depends on the ledgers that it names. -/
theorem Enters.ledger?_congr {x x' : Receipt} {after after' : Book} (h : Enters b r x after)
    (h' : Enters b' r x' after') (hagree : ∀ k ∈ r.holdings, b.ledger? k = b'.ledger? k)
    {k : Holding} (hk : b.ledger? k = b'.ledger? k) : after.ledger? k = after'.ledger? k := by
  cases h with
  | load hg =>
    cases h' with
    | load hg' =>
      cases hg.symm.trans hg'
      rw [ledger?_put, ledger?_put]
      exact update_congr hk
  | @deposit _ _ held _ _ _ _ hl hg =>
    cases h' with
    | deposit hl' hg' =>
      cases hl.symm.trans hl'
      rw [ledgerOrEmpty_congr (hagree held (List.mem_singleton_self held))] at hg
      cases hg.symm.trans hg'
      rw [ledger?_put, ledger?_put]
      exact update_congr hk
  | @withdraw _ held _ _ _ _ hsel hg =>
    have hheld := ledgerOrEmpty_congr (hagree held (List.mem_singleton_self held))
    cases h' with
    | withdraw hsel' hg' =>
      unfold previewWithdrawal lots at hsel hsel'
      rw [hheld] at hsel hg
      cases hsel.symm.trans hsel'
      cases hg.symm.trans hg'
      rw [ledger?_commit, ledger?_commit]
      exact update_congr hk
  | @transferSelf _ owner token _ _ _ _ _ _ hsel hheld hdebited hcredited =>
    have hsource := ledgerOrEmpty_congr (hagree ⟨owner, token⟩ List.mem_cons_self)
    cases h' with
    | transferSelf hsel' hheld' hdebited' hcredited' =>
      unfold lots at hsel hheld hsel' hheld'
      rw [hsource] at hsel hheld
      cases hsel.symm.trans hsel'
      cases hheld.symm.trans hheld'
      cases hdebited.symm.trans hdebited'
      cases hcredited.symm.trans hcredited'
      rw [ledger?_commit, ledger?_commit]
      exact update_congr hk
    | transfer hne => exact absurd rfl hne
  | @transfer _ sender recipient token _ _ _ _ _ _ hne hsel hheld hdebited hcredited =>
    have hsource := ledgerOrEmpty_congr (hagree ⟨sender, token⟩ List.mem_cons_self)
    have htarget := ledgerOrEmpty_congr (hagree ⟨recipient, token⟩
      (List.mem_cons_of_mem _ (List.mem_singleton_self _)))
    cases h' with
    | transferSelf => exact absurd rfl hne
    | transfer _ hsel' hheld' hdebited' hcredited' =>
      unfold lots at hsel hheld hsel' hheld'
      rw [hsource] at hsel hheld
      rw [htarget] at hcredited
      cases hsel.symm.trans hsel'
      cases hheld.symm.trans hheld'
      cases hdebited.symm.trans hdebited'
      cases hcredited.symm.trans hcredited'
      rw [ledger?_commit, ledger?_commit, ledger?_commit, ledger?_commit]
      exact update_congr (update_congr hk)

/-- **What a request leaves** at a holding depends on the ledger there and on those that it
names. -/
theorem ledger?_perform_congr (h : ∀ k ∈ r.holdings, b.ledger? k = b'.ledger? k) {k : Holding}
    (hk : b.ledger? k = b'.ledger? k) :
    (b.perform r).1.ledger? k = (b'.perform r).1.ledger? k := by
  have hsame := snd_perform_congr h
  cases houtcome : (b.perform r).2 with
  | error failure =>
    rw [perform_of_error houtcome, perform_of_error (hsame.symm.trans houtcome), hk]
  | ok x =>
    exact (enters_of_ok houtcome).ledger?_congr (enters_of_ok (hsame.symm.trans houtcome)) h hk

/-- **A ledger that is not named** is as it was, whatever becomes of the request. -/
theorem ledger?_perform_of_not_mem {k : Holding} (hk : k ∉ r.holdings) :
    (b.perform r).1.ledger? k = b.ledger? k := by
  cases houtcome : (b.perform r).2 with
  | error failure => rw [perform_of_error houtcome]
  | ok x => exact (enters_of_ok houtcome).ledger?_of_not_mem hk

/-! ## Two requests -/

/-- A request that names other holdings is not seen. -/
theorem snd_perform_of_disjoint (h : r.holdings.Disjoint s.holdings) :
    ((b.perform s).1.perform r).2 = (b.perform r).2 :=
  snd_perform_congr fun _ hr => ledger?_perform_of_not_mem fun hs => h hr hs

/-- **Requests that name different holdings commute**, up to what can be seen of the book. -/
theorem ledger?_perform_comm (h : r.holdings.Disjoint s.holdings) (k : Holding) :
    ((b.perform r).1.perform s).1.ledger? k = ((b.perform s).1.perform r).1.ledger? k := by
  -- each holding is left alone by one of them
  have hone : ∀ {p q : Request}, p.holdings.Disjoint q.holdings → k ∉ q.holdings →
      ((b.perform p).1.perform q).1.ledger? k = ((b.perform q).1.perform p).1.ledger? k := by
    intro p q hdisjoint hk
    rw [ledger?_perform_of_not_mem hk]
    exact (ledger?_perform_congr (fun _ hp => ledger?_perform_of_not_mem fun hq =>
      hdisjoint hp hq) (ledger?_perform_of_not_mem hk)).symm
  by_cases hk : k ∈ s.holdings
  · exact (hone (fun _ hs hr => h hr hs) fun hr => h hr hk).symm
  · exact hone h hk

end Book

end StakeAccounting
