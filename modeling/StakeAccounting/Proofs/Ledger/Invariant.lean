import Mathlib.Data.List.Infix
import StakeAccounting.Proofs.Ledger.Shape

/-!
# What a ledger keeps, and the one thing it does not

A ledger should be **well-formed**: in order, with a valid lot at every epoch.
Deposits see to it, as they are checked. Removals see to most of it: an overdrawn
amount, stake weight or yield rate is refused. The base value is added up like the
rest and looked at by nobody. A removal that takes more base value than its lot
holds, but not the whole amount, is accepted and leaves a lot that is not valid
(`base_value_below_zero`).

That is the only way a ledger loses its form. The parts that are guarded are in
order after every history (`Guarded`), and `Ledger.wellFormed_throughout_iff` says
exactly when the whole of it is: as long as no change leaves a lot whose base value
a removal overdrew. The step behind it is `baseValue_neg_iff`, an induction on the
removals of a change; it needs no assumption on the ledger, since a base value that
is below zero stays there until its lot is dropped.
-/

namespace StakeAccounting

namespace Lot

/-- **What removals guard**: a positive amount, and neither the stake weight nor
the yield rate below zero. -/
def Guarded (l : Lot) : Prop :=
  .zero < l.rawAmount ∧ .zero ≤ l.stakeWeight ∧ .zero ≤ l.yieldRate

instance (l : Lot) : Decidable l.Guarded := inferInstanceAs (Decidable (_ ∧ _))

theorem guarded_iff (l : Lot) : l.Guarded ↔ 0 < l.rawAmount.quanta ∧
    0 ≤ l.stakeWeight.quanta ∧ 0 ≤ l.yieldRate.quanta := by
  simp only [Guarded, Decimal.lt_def, Decimal.le_def, Decimal.quanta_zero]

/-- A lot is valid where it is guarded and its base value is not below zero. -/
theorem valid_iff_guarded (l : Lot) : l.Valid ↔ l.Guarded ∧ 0 ≤ l.baseValue.quanta := by
  rw [valid_iff, guarded_iff]
  omega

end Lot

namespace Ledger

/-- **A well-formed ledger**: in order, with valid lots only. -/
structure WellFormed (g : Ledger) : Prop where
  /-- The epochs ascend. -/
  sorted : g.Sorted
  /-- Every lot has a positive amount and no negative share. -/
  valid : ∀ l ∈ g.lots, l.Valid

/-- **A ledger that keeps what removals guard.** -/
structure Guarded (g : Ledger) : Prop where
  /-- The epochs ascend. -/
  sorted : g.Sorted
  /-- Every lot is guarded. -/
  guarded : ∀ l ∈ g.lots, l.Guarded

theorem WellFormed.toGuarded {g : Ledger} (h : g.WellFormed) : g.Guarded :=
  ⟨h.sorted, fun l hl => (l.valid_iff_guarded.mp (h.valid l hl)).1⟩

theorem wellFormed_empty (token : TokenId) : (empty token).WellFormed :=
  ⟨sorted_empty token, fun _ hl => nomatch hl⟩

/-! ## One operation -/

/-- A deposit keeps the order. -/
theorem Sorted.append {g after : Ledger} {l : Lot} (hg : g.Sorted) (h : g.append l = .ok after) :
    after.Sorted := by
  obtain ⟨-, ⟨-, rfl⟩ | ⟨x, m, -, -, rfl⟩⟩ := append_cases h
  · exact hg.put l
  · exact hg.put m

/-- **A deposit keeps a ledger well-formed.** -/
theorem WellFormed.append {g after : Ledger} {l : Lot} (hg : g.WellFormed)
    (h : g.append l = .ok after) : after.WellFormed :=
  ⟨hg.sorted.append h,
    forall_append (fun _ _ hx hl hm => hx.merge hl hm) hg.valid (append_cases h).1 h⟩

/-- Deposits keep a ledger well-formed. -/
theorem WellFormed.appendAll {g after : Ledger} {ls : List Lot} (hg : g.WellFormed)
    (h : g.appendAll ls = .ok after) : after.WellFormed :=
  Outcome.foldlM_keeps (fun _ _ _ _ hg hnext => hg.append hnext) hg h

/-- A ledger of deposits is well-formed. -/
theorem wellFormed_of_ofLots {token : TokenId} {ls : List Lot} {g : Ledger}
    (h : ofLots token ls = .ok g) : g.WellFormed := (wellFormed_empty token).appendAll h

/-- **A deposit keeps what removals guard.** -/
theorem Guarded.append {g after : Ledger} {l : Lot} (hg : g.Guarded)
    (h : g.append l = .ok after) : after.Guarded := by
  refine ⟨hg.sorted.append h, forall_append (fun x m hx hl hm => ?_) hg.guarded
    (l.valid_iff_guarded.mp (append_cases h).1).1 h⟩
  obtain ⟨-, hraw, -, hstake, hyield⟩ := Lot.merge_eq_ok hm
  have h₁ := Decimal.sign_of_plus hraw
  have h₂ := Decimal.sign_of_plus hstake
  have h₃ := Decimal.sign_of_plus hyield
  rw [Lot.guarded_iff] at hx hl ⊢
  omega

/-- **A removal keeps what removals guard**, whatever it takes. -/
theorem Guarded.remove {g after : Ledger} {e : Epoch} {d : LotDelta} (hg : g.Guarded)
    (h : g.remove e d = .ok after) : after.Guarded := by
  obtain ⟨-, l, left, -, -, -, hsettle⟩ := remove_cases h
  obtain ⟨-, rfl⟩ | ⟨hraw, hstake, hyield, rfl⟩ := settle_cases hsettle
  · exact ⟨hg.sorted.erase _, fun y hy => hg.guarded y (mem_erase hy)⟩
  · refine ⟨hg.sorted.put left, fun y hy => ?_⟩
    cases mem_put hy with
    | inl hyl => exact hyl ▸ left.guarded_iff.mpr ⟨hraw, hstake, hyield⟩
    | inr hyg => exact hg.guarded y hyg

/-! ## The removals of a change -/

/-- Take removals from the lots of epochs, in order. -/
def removeAll (g : Ledger) (ps : List (Epoch × LotDelta)) : Outcome Ledger :=
  ps.foldlM (fun g p => g.remove p.1 p.2) g

theorem removeAll_cons_eq_ok {g after : Ledger} {p : Epoch × LotDelta}
    {ps : List (Epoch × LotDelta)} : g.removeAll (p :: ps) = .ok after ↔
      ∃ next, g.remove p.1 p.2 = .ok next ∧ next.removeAll ps = .ok after :=
  Outcome.bind_eq_ok

/-- Each removal with the epoch it is taken from. -/
def addressed (ds : List LotDelta) : List (Epoch × LotDelta) := ds.map fun d => (d.epoch, d)

theorem applyDeltas_eq_removeAll (g : Ledger) (ds : List LotDelta) :
    g.applyDeltas ds = g.removeAll (addressed ds) := by
  unfold applyDeltas removeAll addressed
  rw [List.foldlM_map]

/-- The removals of a change, with the epochs they are taken from. -/
def Change.removals : Change → List (Epoch × LotDelta)
  | .append _ => []
  | .remove e d => [(e, d)]
  | .apply ds => addressed ds

/-- A change is a deposit, or it is its removals. -/
theorem changed_cases (g : Ledger) (c : Change) :
    (∃ l, c = .append l) ∨ g.changed c = g.removeAll c.removals := by
  cases c with
  | append l => exact Or.inl ⟨l, rfl⟩
  | remove e d =>
    refine Or.inr ?_
    show g.remove e d = g.remove e d >>= pure
    rw [bind_pure]
  | apply ds => exact Or.inr (applyDeltas_eq_removeAll g ds)

theorem Guarded.removeAll {g after : Ledger} {ps : List (Epoch × LotDelta)} (hg : g.Guarded)
    (h : g.removeAll ps = .ok after) : after.Guarded :=
  Outcome.foldlM_keeps (fun _ _ _ _ hg hnext => hg.remove hnext) hg h

theorem Guarded.changed {g after : Ledger} {c : Change} (hg : g.Guarded)
    (h : g.changed c = .ok after) : after.Guarded := by
  obtain ⟨l, rfl⟩ | hc := g.changed_cases c
  · exact hg.append h
  · exact hg.removeAll (hc ▸ h)

/-- **A removal overdraws the base value** of the lot it is taken from. -/
def Overdraws (g : Ledger) (e : Epoch) (d : LotDelta) : Prop :=
  ∃ l, g.get? e = some l ∧ l.baseValue.quanta + d.baseValue.quanta < 0

theorem overdraws_iff {g : Ledger} {e : Epoch} {d : LotDelta} {l : Lot}
    (hl : g.get? e = some l) :
    g.Overdraws e d ↔ l.baseValue.quanta + d.baseValue.quanta < 0 := by
  refine ⟨fun ⟨y, hy, hlt⟩ => ?_, fun hlt => ⟨l, hl, hlt⟩⟩
  rw [hl] at hy
  exact Option.some.inj hy ▸ hlt

/-- **Some removal overdraws** the base value of the lot of epoch `e`, when its turn
comes. -/
def OverdrawsAt (e : Epoch) : Ledger → List (Epoch × LotDelta) → Prop
  | _, [] => False
  | g, (k, d) :: ps =>
    k = e ∧ g.Overdraws e d ∨ ∃ next, g.remove k d = .ok next ∧ OverdrawsAt e next ps

theorem overdrawsAt_cons {g next : Ledger} {e k : Epoch} {d : LotDelta}
    {ps : List (Epoch × LotDelta)} (h : g.remove k d = .ok next) :
    OverdrawsAt e g ((k, d) :: ps) ↔ k = e ∧ g.Overdraws e d ∨ OverdrawsAt e next ps := by
  show (_ ∨ _) ↔ _
  refine or_congr_right ⟨fun ⟨g', hg', ho⟩ => ?_, fun ho => ⟨next, h, ho⟩⟩
  rw [h] at hg'
  exact Except.ok.inj hg' ▸ ho

/-- **A lot behind some removals has its base value below zero** exactly where it
was so before, or where one of them overdrew it. -/
theorem baseValue_neg_iff {e : Epoch} {l' : Lot} {ps : List (Epoch × LotDelta)} :
    ∀ {g after : Ledger}, g.removeAll ps = .ok after → after.get? e = some l' →
      ∃ l, g.get? e = some l ∧
        (l'.baseValue.quanta < 0 ↔ l.baseValue.quanta < 0 ∨ OverdrawsAt e g ps) := by
  induction ps with
  | nil =>
    intro g after h hl'
    cases h
    exact ⟨l', hl', (or_iff_left id).symm⟩
  | cons p ps ih =>
    obtain ⟨k, d⟩ := p
    intro g after h hl'
    obtain ⟨next, hnext, h⟩ := removeAll_cons_eq_ok.mp h
    dsimp only at hnext
    obtain ⟨l₁, hl₁, hiff⟩ := ih h hl'
    by_cases hk : k = e
    · subst hk
      obtain ⟨hremoval, x, left, hx, hleft, hepoch, hsettle⟩ := remove_cases hnext
      obtain ⟨-, rfl⟩ | ⟨-, -, -, rfl⟩ := settle_cases hsettle
      · -- a lot that was dropped does not come back
        rw [hepoch, get?_erase_self] at hl₁
        cases hl₁
      · have hl₁left : left = l₁ := by
          rw [← hepoch, get?_put_self] at hl₁
          exact Option.some.inj hl₁
        have hsign := Decimal.sign_of_plus (Lot.merge_eq_ok hleft).2.2.1
        have hdown := (LotDelta.nonpos_of_isRemoval hremoval).2.1
        rw [LotDelta.added_baseValue] at hsign
        refine ⟨x, hx, ?_⟩
        rw [hiff, overdrawsAt_cons hnext, overdraws_iff hx, ← hl₁left]
        constructor
        · rintro (hlt | ho)
          · exact Or.inr (Or.inl ⟨rfl, by omega⟩)
          · exact Or.inr (Or.inr ho)
        · rintro (hlt | ⟨-, hlt⟩ | ho)
          · exact Or.inl (by omega)
          · exact Or.inl (by omega)
          · exact Or.inr ho
    · refine ⟨l₁, get?_remove_of_ne hnext hk ▸ hl₁, ?_⟩
      rw [hiff, overdrawsAt_cons hnext]
      exact or_congr_right (or_iff_right fun ho => hk ho.1).symm

/-! ## Exactly when a ledger keeps its form -/

/-- **A change leaves an overdrawn lot**: it is accepted, one of its removals
overdraws the base value of a lot, and the lot is still there in the end. -/
def LeavesOverdrawn (g : Ledger) (c : Change) : Prop :=
  ∃ after e, g.changed c = .ok after ∧ (after.get? e).isSome ∧ OverdrawsAt e g c.removals

/-- **A change keeps a ledger well-formed** exactly where it leaves no overdrawn
lot. -/
theorem wellFormed_perform_iff {g : Ledger} (hg : g.WellFormed) (c : Change) :
    (g.perform c).1.WellFormed ↔ ¬ g.LeavesOverdrawn c := by
  cases h : g.changed c with
  | error failure =>
    rw [perform_of_error h]
    refine iff_of_true hg fun ⟨after, e, hafter, _⟩ => ?_
    rw [h] at hafter
    cases hafter
  | ok after =>
    rw [perform_of_ok h]
    obtain ⟨l, rfl⟩ | hc := g.changed_cases c
    · exact iff_of_true (hg.append h) fun ⟨_, _, _, _, ho⟩ => ho
    · have hremoved := hc ▸ h
      have hguarded := hg.toGuarded.changed h
      constructor
      · rintro hafter ⟨after', e, hafter', hsome, ho⟩
        rw [h] at hafter'
        cases hafter'
        obtain ⟨l', hl'⟩ := Option.isSome_iff_exists.mp hsome
        obtain ⟨l, -, hiff⟩ := baseValue_neg_iff hremoved hl'
        have hneg := hiff.mpr (Or.inr ho)
        have hpos := (l'.valid_iff.mp (hafter.valid l' (mem_of_get? hl'))).2.1
        omega
      · intro hno
        refine ⟨hguarded.sorted, fun l' hl' => ?_⟩
        have hget := hguarded.sorted.get?_of_mem hl'
        obtain ⟨l, hl, hiff⟩ := baseValue_neg_iff hremoved hget
        refine l'.valid_iff_guarded.mpr ⟨hguarded.guarded l' hl', ?_⟩
        by_contra hneg
        cases hiff.mp (by omega) with
        | inl hlneg =>
          have := (l.valid_iff.mp (hg.valid l (mem_of_get? hl))).2.1
          omega
        | inr ho => exact hno ⟨after, l'.epoch, h, by rw [hget]; rfl, ho⟩

/-- A change at the end of a history is performed on what the history leaves. -/
theorem run_concat (g : Ledger) (past : List Change) (c : Change) :
    (g.run (past ++ [c])).1 = ((g.run past).1.perform c).1 := by
  unfold run
  rw [History.run_append, History.run_cons, History.run_nil]

theorem guarded_run {g : Ledger} (hg : g.Guarded) (cs : List Change) : (g.run cs).1.Guarded := by
  refine History.run_invariant perform (fun g c hg => ?_) hg cs
  cases h : g.changed c with
  | error failure => exact (perform_of_error h).symm ▸ hg
  | ok after => exact (perform_of_ok h).symm ▸ hg.changed h

/-- **A ledger in use.** Behind every history of changes, accepted and refused, that
starts with the ledger of some deposits, the lots are in order, each under its own
epoch, with a positive amount and neither stake weight nor yield rate below zero. All
of them are valid at every point of the history exactly where no change of it leaves
an overdrawn lot: it takes an accepted removal of more base value than the lot holds,
and a lot that is still there in the end. -/
theorem wellFormed_throughout_iff {token : TokenId} {ls : List Lot} {g : Ledger}
    (hg : ofLots token ls = .ok g) (cs : List Change) :
    (g.run cs).1.Guarded ∧
      (∀ e l, (g.run cs).1.get? e = some l ↔ l ∈ (g.run cs).1.lots ∧ l.epoch = e) ∧
      ((∀ past, past <+: cs → (g.run past).1.WellFormed) ↔
        ∀ past c, past ++ [c] <+: cs → ¬ (g.run past).1.LeavesOverdrawn c) := by
  have hstart := wellFormed_of_ofLots hg
  have hguarded := guarded_run hstart.toGuarded cs
  refine ⟨hguarded, fun e l => ⟨fun hl => ⟨mem_of_get? hl, epoch_of_get? hl⟩, ?_⟩, ?_, ?_⟩
  · rintro ⟨hl, rfl⟩
    exact hguarded.sorted.get?_of_mem hl
  · intro hall past c hpast
    have hbefore := hall past ((List.prefix_append past [c]).trans hpast)
    have hafter := hall (past ++ [c]) hpast
    rw [run_concat] at hafter
    exact (wellFormed_perform_iff hbefore c).mp hafter
  · -- what holds before a change holds behind it, so the induction is on the end of the past
    intro hno past
    induction past using List.reverseRecOn with
    | nil => exact fun _ => hstart
    | append_singleton past c ih =>
      intro hpast
      have hbefore := ih ((List.prefix_append past [c]).trans hpast)
      rw [run_concat]
      exact (wellFormed_perform_iff hbefore c).mpr (hno past c hpast)

/-- A removal takes one of the five tokens of a lot and six of its five units of base
value. What is guarded is in order behind it, and the change is found out as one that
leaves an overdrawn lot. -/
theorem wellFormed_throughout_iff_overdrawn :
    let five : Lot := ⟨⟨1⟩, .ofUInt32 5, .ofUInt32 5, .ofUInt32 5, .ofUInt32 10⟩
    let taken : LotDelta := ⟨⟨1⟩, -.one, -.ofUInt32 6, -.ofUInt32 2, -.one, .zero, -.one⟩
    let g : Ledger := ⟨⟨"0xc5"⟩, [five]⟩
    ofLots ⟨"0xc5"⟩ [five] = .ok g ∧ (g.run [.remove ⟨1⟩ taken]).1.Guarded ∧
      ¬ ∀ past c, past ++ [c] <+: [.remove ⟨1⟩ taken] → ¬ (g.run past).1.LeavesOverdrawn c := by
  intro five taken g
  have hg : ofLots ⟨"0xc5"⟩ [five] = .ok g := rfl
  have hall := wellFormed_throughout_iff hg [.remove ⟨1⟩ taken]
  refine ⟨hg, hall.1, fun hno => ?_⟩
  have hformed := hall.2.2.mpr hno _ (List.prefix_refl _)
  have hrest : ¬ ∀ l ∈ (g.run [.remove ⟨1⟩ taken]).1.lots, l.Valid := by decide +kernel
  exact hrest hformed.valid

/-- **A base value below zero**: the removal is accepted, and the lot it leaves is not
valid. -/
theorem base_value_below_zero :
    let five : Lot := ⟨⟨1⟩, .ofUInt32 5, .ofUInt32 5, .ofUInt32 5, .ofUInt32 10⟩
    let taken : LotDelta := ⟨⟨1⟩, -.one, -.ofUInt32 6, -.ofUInt32 2, -.one, .zero, -.one⟩
    let g : Ledger := ⟨⟨"0xc5"⟩, [five]⟩
    ofLots ⟨"0xc5"⟩ [five] = .ok g ∧ (g.run [.remove ⟨1⟩ taken]).2 = [.ok ()] ∧
      ¬ ∀ l ∈ (g.run [.remove ⟨1⟩ taken]).1.lots, l.Valid := by
  intro five taken g
  exact ⟨rfl, by decide +kernel, by decide +kernel⟩

end Ledger

end StakeAccounting
