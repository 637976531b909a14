import StakeAccounting.Proofs.Book.Entries
import StakeAccounting.Proofs.Selection.Select

/-!
# What a request does to the book

The book is seen through its **view**: every holding has a ledger, which is without
lots where the book keeps none (`Book.ledgerOrEmpty`). Whether an empty ledger is kept
or not cannot be seen, so a ledger that is committed is an update of the view, whether it
is put or closed.

What a request does to the view of a well-formed book is said once, by `Moves`: each
constructor is a way to succeed, with every operation that has to succeed for it, and the
view it leaves. A transfer to the same account is not a case of its own, since the credit
goes to the view behind the debit. `perform_cases` says that a request moves the view in
one of these ways, or fails and leaves it as it was; it is what `Enters` comes to where
only the view counts.

From this it follows that all ledgers of a book in use are well-formed and know their
token (`Book.WellFormed.run`).
-/

namespace StakeAccounting

namespace Book

/-! ## The view of a book -/

theorem ledgerOrEmpty_put (b : Book) (h : Holding) (g : Ledger) :
    (b.put h g).ledgerOrEmpty = Function.update b.ledgerOrEmpty h g := by
  funext k
  unfold ledgerOrEmpty
  by_cases hk : k = h
  · rw [hk, Function.update_self, ledger?_put_self]
    rfl
  · rw [Function.update_of_ne hk, ledger?_put_of_ne (Ne.symm hk)]

theorem ledgerOrEmpty_close (b : Book) (h : Holding) :
    (b.close h).ledgerOrEmpty = Function.update b.ledgerOrEmpty h (.empty h.token) := by
  funext k
  unfold ledgerOrEmpty
  by_cases hk : k = h
  · rw [hk, Function.update_self, ledger?_close_self]
    rfl
  · rw [Function.update_of_ne hk, ledger?_close_of_ne (Ne.symm hk)]

/-- **Committing a ledger** updates the view, whether it is put or closed. -/
theorem ledgerOrEmpty_commit {b : Book} {h : Holding} {g : Ledger} (hg : g.token = h.token) :
    (b.commit h g).ledgerOrEmpty = Function.update b.ledgerOrEmpty h g := by
  unfold commit
  split
  · rename_i hempty
    have hnone : g = .empty h.token := by
      obtain ⟨token, lots⟩ := g
      have hlots : lots = [] := List.isEmpty_iff.mp hempty
      have htoken : token = h.token := hg
      rw [hlots, htoken]
      rfl
    rw [ledgerOrEmpty_close, hnone]
  · exact ledgerOrEmpty_put b h g

/-- The balance is the total of the ledger in view. -/
theorem balance_eq (b : Book) (h : Holding) :
    b.balance h = (b.ledgerOrEmpty h).totalAmount := by
  unfold balance ledgerOrEmpty
  cases b.ledger? h with
  | some g => rfl
  | none => rfl

/-- **A view of well-formed ledgers**, each of the token it is held under. -/
structure WellFormedView (v : Holding → Ledger) : Prop where
  /-- Each ledger is of the token it is held under. -/
  token : ∀ h, (v h).token = h.token
  /-- Each ledger is well-formed. -/
  ledger : ∀ h, (v h).WellFormed

/-- **A well-formed book**: all its ledgers are, and each knows its token. -/
def WellFormed (b : Book) : Prop := WellFormedView b.ledgerOrEmpty

/-- A ledger that is kept in a well-formed book is of its token and well-formed. -/
theorem WellFormed.of_some {b : Book} {h : Holding} {g : Ledger} (hb : b.WellFormed)
    (hg : b.ledger? h = some g) : g.token = h.token ∧ g.WellFormed := by
  have hview : b.ledgerOrEmpty h = g := by rw [ledgerOrEmpty, hg, Option.getD_some]
  exact hview ▸ ⟨hb.token h, hb.ledger h⟩

/-- **The ledger that is built from the lots of a holding** is the ledger of the holding. -/
theorem WellFormed.eq_of_ofLots {b : Book} {h : Holding} {held : Ledger} (hb : b.WellFormed)
    (hheld : Ledger.ofLots h.token (b.lots h) = .ok held) : held = b.ledgerOrEmpty h := by
  have hsource := (hb.ledger h).ofLots_lots
  rw [hb.token h] at hsource
  exact Except.ok.inj (hheld.symm.trans hsource)

theorem wellFormed_empty : empty.WellFormed :=
  ⟨fun _ => rfl, fun h => Ledger.wellFormed_empty h.token⟩

theorem WellFormedView.update {v : Holding → Ledger} {h : Holding} {g : Ledger}
    (hv : WellFormedView v) (htoken : g.token = h.token) (hg : g.WellFormed) :
    WellFormedView (Function.update v h g) := by
  constructor
  · exact (Function.forall_update_iff v fun k x => x.token = k.token).mpr
      ⟨htoken, fun k _ => hv.token k⟩
  · exact (Function.forall_update_iff v fun _ x => x.WellFormed).mpr
      ⟨hg, fun k _ => hv.ledger k⟩

/-- **What all ledgers of a token have**, they have behind an update, if the new ledger has
it or is of another token. -/
theorem forall_update_token {P : Ledger → Prop} {v : Holding → Ledger} {h : Holding}
    {g : Ledger} {t : TokenId} (hv : ∀ a, P (v ⟨a, t⟩)) (hg : h.token = t → P g) :
    ∀ a, P (Function.update v h g ⟨a, t⟩) := by
  have hall : ∀ k, k.token = t → P (Function.update v h g k) := by
    refine (Function.forall_update_iff v fun k x => k.token = t → P x).mpr ⟨hg, ?_⟩
    rintro ⟨a, _⟩ - rfl
    exact hv a
  exact fun a => hall ⟨a, t⟩ rfl

/-! ## One request -/

/-- **What a request that succeeds does**: what it is answered with, and the view it
leaves. -/
inductive Moves (v : Holding → Ledger) : Request → Receipt → (Holding → Ledger) → Prop
  /-- A ledger of deposits takes the place of the one there is. -/
  | load {h : Holding} {ls : List Lot} {g : Ledger} (hg : Ledger.ofLots h.token ls = .ok g) :
      Moves v (.load h ls) .loaded (Function.update v h g)
  /-- The lot of the amount is added. -/
  | deposit {table : TokenTable} {feed : PriceFeed} {h : Holding} {amount : Decimal}
      {now : Epoch} {l : Lot} {g : Ledger}
      (hl : Deposit.newLot table feed h.token amount now = .ok l)
      (hg : (v h).append l = .ok g) :
      Moves v (.deposit table feed h amount now) (.deposited l) (Function.update v h g)
  /-- The removals that are selected are taken. -/
  | withdraw {s : Selector} {h : Holding} {amount : Decimal} {now : Epoch} {sel : Selection}
      {g : Ledger} (hsel : s.selectFor .withdrawal h.token amount (v h).lots now = .ok sel)
      (hg : (v h).applyDeltas sel.deltas = .ok g) :
      Moves v (.withdraw s h amount now) (.moved sel) (Function.update v h g)
  /-- The removals that are selected are taken and credited. -/
  | transfer {s : Selector} {sender recipient : Account} {token : TokenId} {amount : Decimal}
      {now : Epoch} {sel : Selection} {debited credited : Ledger}
      (hsel : s.selectFor .transfer token amount (v ⟨sender, token⟩).lots now = .ok sel)
      (hdebited : (v ⟨sender, token⟩).applyDeltas sel.deltas = .ok debited)
      (hcredited : (Function.update v ⟨sender, token⟩ debited ⟨recipient, token⟩).appendAll
        (sel.deltas.map (·.asCredit)) = .ok credited) :
      Moves v (.transfer s sender recipient token amount now) (.moved sel)
        (Function.update (Function.update v ⟨sender, token⟩ debited) ⟨recipient, token⟩ credited)

/-- **An operation on the book goes well or leaves no trace**: it answers, and its
answer and the view it leaves are as `P` says, or it fails and the view is as before. -/
def AllOrNothing {α : Type} (b : Book) (x : Book × Outcome α)
    (P : α → (Holding → Ledger) → Prop) : Prop :=
  (∃ failure, x.2 = .error failure ∧ x.1.ledgerOrEmpty = b.ledgerOrEmpty) ∨
    ∃ answer, x.2 = .ok answer ∧ P answer x.1.ledgerOrEmpty

/-- **What is entered moves the view**: a transfer debits the ledger that is built from the
sender's lots, which is the sender's ledger, and to credit it right away is to credit the
view behind the debit. -/
theorem Enters.moves {b after : Book} {r : Request} {x : Receipt} (h : Enters b r x after)
    (hb : b.WellFormed) : Moves b.ledgerOrEmpty r x after.ledgerOrEmpty := by
  cases h with
  | load hg =>
    rw [ledgerOrEmpty_put]
    exact Moves.load hg
  | deposit hl hg =>
    rw [ledgerOrEmpty_put]
    exact Moves.deposit hl hg
  | withdraw hsel hg =>
    rw [ledgerOrEmpty_commit ((Ledger.token_applyDeltas hg).trans (hb.token _))]
    exact Moves.withdraw hsel hg
  | @transferSelf s owner token amount now sel held debited credited hsel hheld hdebited
      hcredited =>
    rw [hb.eq_of_ofLots (h := ⟨owner, token⟩) hheld] at hdebited
    have htoken : credited.token = token := ((Ledger.token_appendAll hcredited).trans
      (Ledger.token_applyDeltas hdebited)).trans (hb.token ⟨owner, token⟩)
    rw [ledgerOrEmpty_commit htoken, ← Function.update_idem debited]
    refine Moves.transfer hsel hdebited ?_
    rw [Function.update_self]
    exact hcredited
  | @transfer s sender recipient token amount now sel held debited credited hne hsel hheld
      hdebited hcredited =>
    rw [hb.eq_of_ofLots (h := ⟨sender, token⟩) hheld] at hdebited
    have hother : (⟨recipient, token⟩ : Holding) ≠ ⟨sender, token⟩ := fun he =>
      hne (congrArg Holding.account he).symm
    rw [ledgerOrEmpty_commit
        ((Ledger.token_appendAll hcredited).trans (hb.token ⟨recipient, token⟩)),
      ledgerOrEmpty_commit
        ((Ledger.token_applyDeltas hdebited).trans (hb.token ⟨sender, token⟩))]
    refine Moves.transfer hsel hdebited ?_
    rw [Function.update_of_ne hother]
    exact hcredited

/-- **A request moves the view**, or fails and leaves it as it was. -/
theorem perform_cases {b : Book} (hb : b.WellFormed) (r : Request) :
    AllOrNothing b (b.perform r) (Moves b.ledgerOrEmpty r) := by
  cases h : (b.perform r).2 with
  | error failure => exact Or.inl ⟨failure, h, by rw [perform_of_error h]⟩
  | ok x => exact Or.inr ⟨x, h, (enters_of_ok h).moves hb⟩

/-! ## All requests -/

/-- **What a request leaves is well-formed**, if it was before. -/
theorem Moves.wellFormed {v v' : Holding → Ledger} {r : Request} {x : Receipt}
    (h : Moves v r x v') (hv : WellFormedView v) : WellFormedView v' := by
  cases h with
  | load hg =>
    exact hv.update (Ledger.token_appendAll hg) (Ledger.wellFormed_of_ofLots hg)
  | @deposit _ _ k _ _ _ _ _ hg =>
    exact hv.update ((Ledger.token_append hg).trans (hv.token k)) ((hv.ledger k).append hg)
  | @withdraw _ k _ _ _ _ hsel hg =>
    exact hv.update ((Ledger.token_applyDeltas hg).trans (hv.token k))
      ((hv.ledger k).applySelection hsel hg)
  | @transfer _ sender recipient token _ _ _ _ _ hsel hdebited hcredited =>
    have hbetween := hv.update (h := ⟨sender, token⟩)
      ((Ledger.token_applyDeltas hdebited).trans (hv.token _))
      ((hv.ledger _).applySelection hsel hdebited)
    exact hbetween.update ((Ledger.token_appendAll hcredited).trans (hbetween.token _))
      ((hbetween.ledger _).appendAll hcredited)

/-- **A request keeps a book well-formed**, whether it succeeds or not. -/
theorem WellFormed.perform {b : Book} (hb : b.WellFormed) (r : Request) :
    (b.perform r).1.WellFormed := by
  unfold WellFormed
  obtain ⟨failure, -, hview⟩ | ⟨x, -, hmoves⟩ := perform_cases hb r
  · rw [hview]
    exact hb
  · exact hmoves.wellFormed hb

/-- **What every allowed request keeps**, a list of them keeps, from a well-formed book
on. This is the induction on a list of requests for all that can be seen of a book. -/
theorem WellFormed.run_keeps {Kept : (Holding → Ledger) → Prop} {Allowed : Request → Prop}
    (hstep : ∀ v v' r x, WellFormedView v → Allowed r → Moves v r x v' → Kept v → Kept v')
    {rs : List Request} : ∀ {b : Book}, b.WellFormed → (∀ r ∈ rs, Allowed r) →
      Kept b.ledgerOrEmpty → Kept (b.run rs).1.ledgerOrEmpty := by
  induction rs with
  | nil => exact fun _ _ hkept => hkept
  | cons r rs ih =>
    intro b hb hrs hkept
    have hafter : Kept (b.perform r).1.ledgerOrEmpty := by
      obtain ⟨failure, -, hview⟩ | ⟨x, -, hmoves⟩ := perform_cases hb r
      · rw [hview]
        exact hkept
      · exact hstep _ _ r x hb (hrs r (List.mem_cons_self ..)) hmoves hkept
    exact ih (hb.perform r) (fun q hq => hrs q (List.mem_cons_of_mem r hq)) hafter

/-- **A book in use is well-formed**, behind every list of requests. -/
theorem WellFormed.run {b : Book} (hb : b.WellFormed) (rs : List Request) :
    (b.run rs).1.WellFormed :=
  @History.run_invariant _ _ _ Book.perform WellFormed (fun _ r h => h.perform r) b hb rs

end Book

end StakeAccounting
