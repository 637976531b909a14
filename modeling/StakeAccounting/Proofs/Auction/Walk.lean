import Mathlib.Data.List.Chain
import Mathlib.Logic.Function.Iterate
import StakeAccounting.Proofs.Auction.Epoch

/-!
# A walk along the blocks is repeated steps

A walk shows a snapshot only after it has made the next one, or has failed to. What it shows
nevertheless is as simple as if it stepped on when it is asked (`AuctionState.Trail`): the snapshot
it starts at, then what each step makes of the last one, up to the first snapshot that is steady or
the first failure.

The trail is described by how it goes on from a snapshot, without counting. That there is one for
every snapshot, whatever it says, is an induction on the blocks that are left of the window
(`exists_trail`), since a step that succeeds in the window goes one block on. A walk shows its trail
and nothing behind it (`Trail.shows`), so the 27 steps that `blocks` allows for are enough
(`Trail.blocks_eq`), and all that is said of the blocks is an induction on the trail (`blocks_spec`).
-/

namespace StakeAccounting

namespace AuctionState

/-! ## What a walk shows -/

namespace Walk

variable {w rest : Walk} {item : Outcome AuctionState} {items : List (Outcome AuctionState)}

/-- **The walk behind `n` steps.** -/
def after (w : Walk) (n : Nat) : Walk := (fun u => u.step.2)^[n] w

theorem after_succ (w : Walk) (n : Nat) : w.after (n + 1) = w.step.2.after n := rfl

/-- **A walk shows a list of things**: one by one, and nothing however often it is asked then. -/
def Shows (w : Walk) (items : List (Outcome AuctionState)) : Prop :=
  ∀ n, (w.after n).step.1 = items[n]?

/-- A walk that is over shows nothing. -/
theorem shows_nil : Shows ⟨none⟩ [] := fun n => by
  induction n with
  | zero => rfl
  | succ n ih => exact ih

theorem Shows.cons (hstep : w.step = (some item, rest)) (h : rest.Shows items) :
    w.Shows (item :: items) := fun n => by
  cases n with
  | zero => exact congrArg Prod.fst hstep
  | succ n => rw [after_succ, hstep, List.getElem?_cons_succ, h n]

/-- The first things that a walk shows are those of the list. -/
theorem Shows.take_eq (h : w.Shows items) (n : Nat) : w.take n = items.take n := by
  induction n generalizing w items with
  | zero => rfl
  | succ n ih =>
    have hfirst : w.step.1 = items[0]? := h 0
    have hrest : w.step.2.Shows items.tail := fun k => by
      rw [← after_succ, h (k + 1), List.getElem?_tail]
    unfold take
    cases hstep : w.step with
    | mk shown rest =>
      rw [hstep] at hfirst hrest
      cases items with
      | nil =>
        obtain rfl : shown = none := hfirst
        rfl
      | cons item items =>
        obtain rfl : shown = some item := hfirst
        exact congrArg (item :: ·) (ih hrest)

end Walk

/-! ## The trail of a snapshot -/

/-- **The trail of a snapshot**: where it leads, step by step. -/
inductive Trail : AuctionState → List (Outcome AuctionState) → Prop where
  /-- A steady snapshot leads nowhere. -/
  | steady {s : AuctionState} : s.phase = .steady → Trail s [.ok s]
  /-- A step that fails is the last thing there is. -/
  | failed {s : AuctionState} {f : Failure} : s.phase = .auction → s.advanced = .error f →
      Trail s [.ok s, .error f]
  /-- A step that succeeds is followed by what comes behind it. -/
  | step {s t : AuctionState} {items : List (Outcome AuctionState)} : s.phase = .auction →
      s.advanced = .ok t → Trail t items → Trail s (.ok s :: items)

variable {s t : AuctionState} {items : List (Outcome AuctionState)} {n : Nat}

theorem lt_of_phase (h : s.phase = .auction) : s.offset.toNat < 25 := by
  refine Nat.lt_of_not_le fun hle => ?_
  rw [phase_of_le hle] at h
  nomatch h

/-- A step in the window goes one block on. -/
theorem offset_of_advanced (hphase : s.phase = .auction) (h : s.advanced = .ok t) :
    t.offset.toNat = s.offset.toNat + 1 := by
  rw [advanced, hphase] at h
  obtain ⟨_, -, h⟩ := Outcome.bind_eq_ok.mp h
  obtain ⟨_, -, h⟩ := Outcome.bind_eq_ok.mp h
  obtain rfl := Except.ok.inj h
  exact toNat_succ_offset (lt_of_phase hphase)

/-- **Every snapshot has a trail**, since the window ends. -/
theorem exists_trail (s : AuctionState) : ∃ items, Trail s items := by
  induction hleft : 25 - s.offset.toNat generalizing s with
  | zero => exact ⟨_, .steady (phase_of_le (by omega))⟩
  | succ left ih =>
    have hphase := phase_of_lt (show s.offset.toNat < 25 by omega)
    cases hstep : s.advanced with
    | error f => exact ⟨_, .failed hphase hstep⟩
    | ok t =>
      have hnext := offset_of_advanced hphase hstep
      obtain ⟨items, hitems⟩ := ih t (by omega)
      exact ⟨_, .step hphase hstep hitems⟩

/-- At a steady snapshot a walk is over. -/
theorem step_walk_of_steady (h : s.phase = .steady) : s.walk.step = (some (.ok s), ⟨none⟩) := by
  unfold walk Walk.step
  dsimp only
  rw [h]

/-- In the window it steps on. -/
theorem step_walk_of_auction (h : s.phase = .auction) :
    s.walk.step = (some (.ok s), ⟨some s.advanced⟩) := by
  unfold walk Walk.step
  dsimp only
  rw [h]

/-- A walk goes along the trail, and no further. -/
theorem Trail.shows (h : Trail s items) : s.walk.Shows items := by
  induction h with
  | steady hphase => exact .cons (step_walk_of_steady hphase) Walk.shows_nil
  | failed hphase hstep =>
    have hnext := step_walk_of_auction hphase
    rw [hstep] at hnext
    exact .cons hnext (.cons rfl Walk.shows_nil)
  | step hphase hstep _ ih =>
    have hnext := step_walk_of_auction hphase
    rw [hstep] at hnext
    exact .cons hnext ih

/-- A trail is no longer than what is left of the window. -/
theorem Trail.length_le (h : Trail s items) : items.length + min 25 s.offset.toNat ≤ 26 := by
  induction h with
  | steady => exact Nat.add_le_add_left (Nat.min_le_left ..) 1
  | failed hphase =>
    have := lt_of_phase hphase
    rw [List.length_cons, List.length_singleton]
    omega
  | step hphase hstep _ ih =>
    have := lt_of_phase hphase
    have := offset_of_advanced hphase hstep
    rw [List.length_cons]
    omega

/-- **The blocks are the trail**: what is allowed for is enough. -/
theorem Trail.blocks_eq (h : Trail s items) : s.blocks = items := by
  have hlength := h.length_le
  have hallowed : RateCurve.windowBlocks.toNat + 2 = 27 := rfl
  rw [blocks, h.shows.take_eq, List.take_of_length_le (by omega)]

/-- A trail starts at the snapshot. -/
theorem Trail.head_eq (h : Trail s items) : items.head? = some (.ok s) := by
  cases h <;> rfl

/-! ## The blocks -/

/-- **What a step makes of a snapshot**: the snapshot as it is then, or the failure. -/
def stepped (s : AuctionState) : Outcome AuctionState := (fun _ => s.advance.1) <$> s.advance.2

theorem stepped_eq (s : AuctionState) : s.stepped = s.advanced := by
  unfold stepped advance
  cases s.advanced <;> rfl

/-- **One thing leads to the next**: a snapshot in the window to what a step makes of it. -/
def Leads (x y : Outcome AuctionState) : Prop :=
  ∃ s, x = .ok s ∧ s.phase = .auction ∧ y = s.stepped

/-- From one thing to the next, a trail is steps in the window. -/
theorem Trail.isChain (h : Trail s items) : items.IsChain Leads := by
  induction h with
  | steady => exact .singleton _
  | failed hphase hstep =>
    exact .cons_cons ⟨_, rfl, hphase, by rw [stepped_eq, hstep]⟩ (.singleton _)
  | step hphase hstep hrest ih =>
    refine List.isChain_cons.mpr ⟨fun y hy => ⟨_, rfl, hphase, ?_⟩, ih⟩
    rw [hrest.head_eq] at hy
    rw [stepped_eq, hstep, Option.mem_some_iff.mp hy]

/-- Its last thing leads nowhere. -/
theorem Trail.last (h : Trail s items) : ∃ x, items.getLast? = some x ∧
    ∀ t, x = .ok t → t.phase = .steady := by
  induction h with
  | steady hphase => exact ⟨_, rfl, fun t ht => Except.ok.inj ht ▸ hphase⟩
  | failed => exact ⟨_, rfl, fun t ht => nomatch ht⟩
  | step _ _ hrest ih =>
    obtain ⟨x, hx, hend⟩ := ih
    exact ⟨x, by rw [List.getLast?_cons, hx, Option.getD_some], hend⟩

/-- Its snapshots count the blocks. -/
theorem Trail.offset_eq (h : Trail s items) (hitem : items[n]? = some (.ok t)) :
    t.offset.toNat = s.offset.toNat + n := by
  induction h generalizing n with
  | steady =>
    cases n with
    | zero => exact congrArg (·.offset.toNat) (Except.ok.inj (Option.some.inj hitem)).symm
    | succ n => nomatch hitem
  | failed =>
    match n with
    | 0 => exact congrArg (·.offset.toNat) (Except.ok.inj (Option.some.inj hitem)).symm
    | 1 => nomatch hitem
    | n + 2 => nomatch hitem
  | step hphase hstep _ ih =>
    cases n with
    | zero => exact congrArg (·.offset.toNat) (Except.ok.inj (Option.some.inj hitem)).symm
    | succ n =>
      have := ih hitem
      have := offset_of_advanced hphase hstep
      omega

/-- **The blocks are repeated steps.** For every snapshot, whatever it says: its walk shows the
blocks one by one and nothing behind them, however often it is asked; the first of them is the
snapshot itself, and each is what a step makes of the one before, which is a snapshot in the window;
the last is a steady snapshot or a failure. They are 26 at most, and one less for each block of the
window that has passed. The offset grows by one from each to the next. -/
theorem blocks_spec (s : AuctionState) :
    (∀ n, (s.walk.after n).step.1 = s.blocks[n]?) ∧
      s.blocks.head? = some (.ok s) ∧
      s.blocks.IsChain Leads ∧
      (∃ x, s.blocks.getLast? = some x ∧ ∀ t, x = .ok t → t.phase = .steady) ∧
      s.blocks.length + min 25 s.offset.toNat ≤ 26 ∧
      ∀ n t, s.blocks[n]? = some (.ok t) → t.offset.toNat = s.offset.toNat + n := by
  obtain ⟨items, h⟩ := exists_trail s
  rw [h.blocks_eq]
  exact ⟨h.shows, h.head_eq, h.isChain, h.last, h.length_le, fun n t => h.offset_eq⟩

/-- In the last block of the window there is one more, and it is steady. -/
theorem blocks_spec_last :
    let s : AuctionState := ⟨⟨100⟩, 24, .ofUInt32 10, .ofUInt32 10, .ofUInt32 1000, true, .standard⟩
    let t : AuctionState := { s with offset := 25 }
    s.blocks = [.ok s, .ok t] ∧ t.phase = .steady ∧ t.offset.toNat = s.offset.toNat + 1 ∧
      (s.walk.after 2).step.1 = none := by
  intro s t
  obtain ⟨hshows, -, -, ⟨x, hx, hend⟩, -, hoffset⟩ := blocks_spec s
  have hblocks : s.blocks = [.ok s, .ok t] := by decide +kernel
  rw [hblocks] at hx hoffset
  refine ⟨hblocks, hend t (Option.some.inj hx).symm, hoffset 1 t rfl, ?_⟩
  rw [hshows, hblocks]
  rfl

end AuctionState

end StakeAccounting
