import StakeAccounting.Proofs.Decimal.Text
import StakeAccounting.Proofs.Snapshot.Record
import StakeAccounting.Proofs.TokenId
import StakeAccounting.Snapshot.Settings

/-!
# Snapshots round-trip

A value that is written as a document and read again, by the convention of any format, is
the same value, but for the sign of a zero: a decimal that is zero may have carried one, and
is read without. So each kind of value has a function `asRead` that drops the signs of its
zeros and changes nothing else, and each part of a structure is read as it should be where
its own kind is.

A lot is read leniently besides. Its four amounts have a second name each; neither the names
used nor the order of the fields matters (`Lot.decode_table_congr`), but an amount given
under both names is not read (`Lot.exists_error_of_both`). And the snapshot of an auction
without a curve is read as one with the curve of the protocol
(`AuctionState.decode_table_append_curve`).
-/

namespace StakeAccounting

variable {c : Convention}

/-! ## Plain values -/

@[simp] theorem decode_encode_decimal (a : Decimal) : decode c (encode a) = .ok a.asRead := by
  show Document.toDecimal (.text a.toText) = _
  rw [Document.toDecimal, Decimal.ofText?_toText]

@[simp] theorem decode_encode_bool (b : Bool) : decode c (encode b) = .ok b := rfl

@[simp] theorem decode_encode_string (s : String) : decode c (encode s) = .ok s := rfl

/-- A whole number in range is read as it is. -/
theorem toWhole_whole {low high n : Int} (hlow : low ≤ n) (hhigh : n < high) :
    (Document.whole n).toWhole low high = .ok n := if_pos ⟨hlow, hhigh⟩

@[simp] theorem decode_encode_uint32 (n : UInt32) : decode c (encode n) = .ok n := by
  show Document.toUInt32 (.whole n.toNat) = _
  have hn : (n.toNat : Int) < 0x100000000 := Int.ofNat_lt.mpr n.toNat_lt
  rw [Document.toUInt32, toWhole_whole (Int.natCast_nonneg _) hn]
  exact congrArg Except.ok UInt32.ofNat_toNat

@[simp] theorem decode_encode_uint64 (n : UInt64) : decode c (encode n) = .ok n := by
  show Document.toUInt64 (.whole n.toNat) = _
  have hn : (n.toNat : Int) < 0x10000000000000000 := Int.ofNat_lt.mpr n.toNat_lt
  rw [Document.toUInt64, toWhole_whole (Int.natCast_nonneg _) hn]
  exact congrArg Except.ok UInt64.ofNat_toNat

@[simp] theorem decode_encode_int8 (n : Int8) : decode c (encode n) = .ok n := by
  show Document.toInt8 (.whole n.toInt) = _
  have hlow : -0x80 ≤ n.toInt := n.le_toInt
  have hhigh : n.toInt < 0x80 := n.toInt_lt
  rw [Document.toInt8, toWhole_whole hlow hhigh]
  exact congrArg Except.ok n.ofInt_toInt

/-- A list is read where each of its items is. -/
theorem decode_encode_list {α : Type} [Snapshot α] {f : α → α} {as : List α}
    (h : ∀ a ∈ as, decode c (encode a) = .ok (f a)) : decode c (encode as) = .ok (as.map f) := by
  show (as.map encode).mapM (decode c) = _
  induction as with
  | nil => rfl
  | cons a as ih =>
    rw [List.map_cons, List.mapM_cons, h a List.mem_cons_self,
      ih fun b hb => h b (List.mem_cons_of_mem a hb)]
    rfl

@[simp] theorem decode_encode_epoch (e : Epoch) : decode c (encode e) = .ok e := by
  show Epoch.mk <$> decode c (encode e.number) = _
  rw [decode_encode_uint32]
  rfl

@[simp] theorem decode_encode_block (b : Block) : decode c (encode b) = .ok b := by
  show Block.mk <$> decode c (encode b.height) = _
  rw [decode_encode_uint64]
  rfl

theorem decode_encode_tokenId {t : TokenId} (h : t.Normalised) : decode c (encode t) = .ok t :=
  congrArg Except.ok h

@[simp] theorem decode_encode_pricing (p : Pricing) : decode c (encode p) = .ok p := by
  cases p <;> rfl

@[simp] theorem decode_encode_debtBand (b : DebtBand) : decode c (encode b) = .ok b := by
  cases b <;> rfl

@[simp] theorem decode_encode_priceSign (s : PriceSign) : decode c (encode s) = .ok s := by
  cases s <;> rfl

@[simp] theorem decode_encode_demandBand (b : DemandBand) : decode c (encode b) = .ok b := by
  cases b <;> rfl

@[simp] theorem decode_encode_caseId (n : CaseId) : decode c (encode n) = .ok n := by
  have hword : (Document.whole n.val).toUInt8 = .ok (UInt8.ofNat n.val) := by
    have hn : (n.val : Int) < 0x100 := by have := n.isLt; omega
    rw [Document.toUInt8, toWhole_whole (Int.natCast_nonneg _) hn]
    rfl
  have hval : (UInt8.ofNat n.val).toNat = n.val :=
    Nat.mod_eq_of_lt (Nat.lt_trans n.isLt (by decide))
  unfold decode encode instSnapshotCaseId
  simp [hword, hval, CaseId.ofNat?]

/-! ## Structures -/

/-- A curve without the sign of a zero. -/
def RateCurve.asRead (x : RateCurve) : RateCurve := { x with minRate := x.minRate.asRead }

@[simp] theorem decode_encode_rateCurve (x : RateCurve) :
    decode c (encode x) = .ok x.asRead := by
  unfold decode encode instSnapshotRateCurve
  simp [Record.required, Record.find?, RateCurve.asRead]

/-- A state without the signs of zeros. -/
def AuctionState.asRead (s : AuctionState) : AuctionState :=
  { s with
    maxRate := s.maxRate.asRead, currentRate := s.currentRate.asRead,
    capacity := s.capacity.asRead, curve := s.curve.asRead }

theorem decode_encode_auctionState (s : AuctionState) : decode c (encode s) = .ok s.asRead := by
  unfold decode encode instSnapshotAuctionState
  simp [Record.required, Record.withDefault, Record.find?,
    AuctionState.asRead]

/-- Bounds without the signs of zeros. -/
def PegBounds.asRead (b : PegBounds) : PegBounds where
  debtRatioLower := b.debtRatioLower.asRead
  debtRatioOptimal := b.debtRatioOptimal.asRead
  debtRatioUpper := b.debtRatioUpper.asRead
  demandLower := b.demandLower.asRead
  demandUpper := b.demandUpper.asRead

theorem decode_encode_pegBounds (b : PegBounds) : decode c (encode b) = .ok b.asRead := by
  unfold decode encode instSnapshotPegBounds
  simp [Record.required, Record.find?, PegBounds.asRead]

@[simp] theorem decode_encode_caseState (s : CaseState) : decode c (encode s) = .ok s := by
  unfold decode encode instSnapshotCaseState
  simp [Record.required, Record.find?]

theorem decode_encode_caseOutcome (o : CaseOutcome) : decode c (encode o) = .ok o := by
  unfold decode encode instSnapshotCaseOutcome
  simp [Record.required, Record.find?]

/-- A lot without the signs of zeros. -/
def Lot.asRead (l : Lot) : Lot :=
  { l with
    rawAmount := l.rawAmount.asRead, baseValue := l.baseValue.asRead,
    stakeWeight := l.stakeWeight.asRead, yieldRate := l.yieldRate.asRead }

theorem decode_encode_lot (l : Lot) : decode c (encode l) = .ok l.asRead := by
  unfold decode encode instSnapshotLot
  simp [Record.required, Record.find?, Lot.asRead]

/-- A removal without the signs of zeros. -/
def LotDelta.asRead (x : LotDelta) : LotDelta :=
  { x with
    amount := x.amount.asRead, baseValue := x.baseValue.asRead, yieldRate := x.yieldRate.asRead,
    baseStakeWeight := x.baseStakeWeight.asRead,
    accruedStakeWeight := x.accruedStakeWeight.asRead, stakeWeight := x.stakeWeight.asRead }

theorem decode_encode_lotDelta (x : LotDelta) : decode c (encode x) = .ok x.asRead := by
  unfold decode encode instSnapshotLotDelta
  simp [Record.required, Record.find?, LotDelta.asRead]

/-- Totals without the signs of zeros. -/
def DeltaTotals.asRead (t : DeltaTotals) : DeltaTotals where
  amount := t.amount.asRead
  baseValue := t.baseValue.asRead
  yieldRate := t.yieldRate.asRead
  stakeWeight := t.stakeWeight.asRead

@[simp] theorem decode_encode_deltaTotals (t : DeltaTotals) :
    decode c (encode t) = .ok t.asRead := by
  unfold decode encode instSnapshotDeltaTotals
  simp [Record.required, Record.find?, DeltaTotals.asRead]

/-- A selection without the signs of zeros. -/
def Selection.asRead (x : Selection) : Selection :=
  { x with
    requested := x.requested.asRead, total := x.total.asRead,
    deltas := x.deltas.map LotDelta.asRead }

theorem decode_encode_selection {x : Selection} (h : x.token.Normalised) :
    decode c (encode x) = .ok x.asRead := by
  have hdeltas : decode c (encode x.deltas) = .ok (x.deltas.map LotDelta.asRead) :=
    decode_encode_list fun x _ => decode_encode_lotDelta x
  unfold decode encode instSnapshotSelection
  simp [Record.required, Record.find?, Selection.asRead,
    decode_encode_tokenId h, hdeltas]

/-- A token without the signs of zeros. -/
def Token.asRead (t : Token) : Token :=
  { t with stakePerBase := t.stakePerBase.asRead, yieldPerBase := t.yieldPerBase.asRead }

theorem decode_encode_token {t : Token} (h : t.id.Normalised) :
    decode c (encode t) = .ok t.asRead := by
  unfold decode encode instSnapshotToken
  simp [Record.required, Record.withDefault, Record.find?,
    Token.asRead, decode_encode_tokenId h]

namespace Settings

/-- Settings without the signs of zeros. -/
def asRead (s : Settings) : Settings where
  accrualRate := s.accrualRate.asRead
  tokens := s.tokens.map Token.asRead
  curve := s.curve.asRead
  bounds := s.bounds.asRead

/-- The sections are read like what is in them: written in full, they leave nothing to a
default. -/
theorem decodeDeposits_encodeDeposits (a : Decimal) :
    decodeDeposits c (encodeDeposits a) = .ok a.asRead := by
  unfold decodeDeposits encodeDeposits
  simp [Record.withDefault, Record.find?]

theorem decodeCurve_encode (x : RateCurve) : decodeCurve c (encode x) = .ok x.asRead := by
  unfold decodeCurve encode instSnapshotRateCurve
  simp [Record.withDefault, Record.find?, RateCurve.asRead]

theorem decodeBounds_encode (b : PegBounds) : decodeBounds c (encode b) = .ok b.asRead := by
  unfold decodeBounds encode instSnapshotPegBounds
  simp [Record.withDefault, Record.find?, PegBounds.asRead]

end Settings

theorem decode_encode_settings {s : Settings} (h : ∀ t ∈ s.tokens, t.id.Normalised) :
    decode c (encode s) = .ok s.asRead := by
  have htokens : decode c (encode s.tokens) = .ok (s.tokens.map Token.asRead) :=
    decode_encode_list fun t ht => decode_encode_token (h t ht)
  unfold decode encode instSnapshotSettings
  simp [Record.withDefault, Record.find?, Settings.asRead,
    Settings.decodeDeposits_encodeDeposits, Settings.decodeCurve_encode,
    Settings.decodeBounds_encode, htokens]

/-! ## The names of a lot's fields -/

namespace Lot

/-- The amounts of a lot by both their names, the one they are written under first. -/
def amountNames : List (String × String) :=
  [("raw_amount", "amount"), ("base_value", "bdv"), ("stake_weight", "stalk"),
    ("yield_rate", "seeds")]

/-- The name a field is written under: for the second name of an amount, the first. -/
def fieldName : String → String
  | "amount" => "raw_amount"
  | "bdv" => "base_value"
  | "stalk" => "stake_weight"
  | "seeds" => "yield_rate"
  | name => name

variable {fs gs : List (String × Document)} {l : Lot}

theorem mem_amountNames {names : String × String} : names ∈ amountNames ↔
    names = ("raw_amount", "amount") ∨ names = ("base_value", "bdv") ∨
      names = ("stake_weight", "stalk") ∨ names = ("yield_rate", "seeds") := by
  simp [amountNames]

/-- The names of an amount are those that are written under the first of them. -/
theorem mem_names_iff {names : String × String} (h : names ∈ amountNames) (n : String) :
    n ∈ [names.1, names.2] ↔ fieldName n = names.1 := by
  rcases mem_amountNames.mp h with rfl | rfl | rfl | rfl <;> unfold fieldName <;> split <;>
    simp_all

/-- An epoch has one name. -/
theorem mem_epoch_iff (n : String) : n ∈ ["epoch"] ↔ fieldName n = "epoch" := by
  unfold fieldName
  split <;> simp_all

/-- **Neither the order of the fields matters nor which name an amount has**, as long as it
has one only. -/
theorem decode_table_congr
    (hperm : (fs.map (Prod.map fieldName id)).Perm (gs.map (Prod.map fieldName id)))
    (honce : (gs.map fun field => fieldName field.1).Nodup) :
    (decode c (.table fs) : Decoded Lot) = decode c (.table gs) := by
  have hepoch : (Record.named fs).find? 0 ["epoch"] = (Record.named gs).find? 0 ["epoch"] :=
    Record.find?_congr mem_epoch_iff hperm honce
  have hamount : ∀ names ∈ amountNames, ∀ position,
      (Record.named fs).find? position [names.1, names.2] =
        (Record.named gs).find? position [names.1, names.2] := fun names h position =>
    Record.find?_congr (mem_names_iff h) hperm honce
  unfold decode instSnapshotLot
  simp only [Record.ofDocument_table, Decoded.ok_bind, Record.required, hepoch,
    hamount _ (mem_amountNames.mpr (.inl rfl)), hamount _ (mem_amountNames.mpr (.inr (.inl rfl))),
    hamount _ (mem_amountNames.mpr (.inr (.inr (.inl rfl)))),
    hamount _ (mem_amountNames.mpr (.inr (.inr (.inr rfl))))]

/-- Each amount of a lot that is read is found, under one of its names. -/
theorem exists_find?_of_decode (h : decode c (.table fs) = .ok l) {names : String × String}
    (hnames : names ∈ amountNames) :
    ∃ position d, (Record.named fs).find? position [names.1, names.2] = .ok (some d) := by
  unfold decode instSnapshotLot at h
  simp only [Record.ofDocument_table, Decoded.ok_bind] at h
  obtain ⟨_, -, h⟩ := Decoded.bind_eq_ok.mp h
  obtain ⟨_, hraw, h⟩ := Decoded.bind_eq_ok.mp h
  obtain ⟨_, hbase, h⟩ := Decoded.bind_eq_ok.mp h
  obtain ⟨_, hstake, h⟩ := Decoded.bind_eq_ok.mp h
  obtain ⟨_, hyield, -⟩ := Decoded.bind_eq_ok.mp h
  rcases mem_amountNames.mp hnames with rfl | rfl | rfl | rfl
  · exact ⟨1, (Record.required_eq_ok hraw).imp fun _ => And.left⟩
  · exact ⟨2, (Record.required_eq_ok hbase).imp fun _ => And.left⟩
  · exact ⟨3, (Record.required_eq_ok hstake).imp fun _ => And.left⟩
  · exact ⟨4, (Record.required_eq_ok hyield).imp fun _ => And.left⟩

/-- **An amount under both its names is not read.** -/
theorem exists_error_of_both {names : String × String} (hnames : names ∈ amountNames)
    {d d' : Document} (hfirst : (names.1, d) ∈ fs) (hsecond : (names.2, d') ∈ fs) :
    ∃ e, (decode c (.table fs) : Decoded Lot) = .error e := by
  cases h : (decode c (.table fs) : Decoded Lot) with
  | error e => exact ⟨e, rfl⟩
  | ok l =>
    obtain ⟨position, d, hfound⟩ := exists_find?_of_decode h hnames
    have hne : names.1 ≠ names.2 := by
      rcases mem_amountNames.mp hnames with rfl | rfl | rfl | rfl <;> decide
    obtain ⟨name, hrepeated⟩ : ∃ name, (Record.named fs).find? position [names.1, names.2] =
        .error (.repeatedField name) :=
      Record.exists_repeated List.mem_cons_self (List.mem_cons_of_mem _ List.mem_cons_self) hne
        hfirst hsecond
    rw [hfound] at hrepeated
    cases hrepeated

end Lot

/-! ## States without a curve -/

/-- **A state without a curve has that of the protocol.** It is read as if that curve were
there. -/
theorem AuctionState.decode_table_append_curve {fs : List (String × Document)}
    (h : ∀ field ∈ fs, field.1 ≠ "curve") :
    (decode c (.table (fs ++ [("curve", encode RateCurve.standard)])) : Decoded AuctionState) =
      decode c (.table fs) := by
  have habsent : ∀ field ∈ fs, field.1 ∉ ["curve"] := fun field hmem =>
    List.mem_singleton.not.mpr (h field hmem)
  have hstandard : RateCurve.standard.asRead = .standard := rfl
  unfold decode instSnapshotAuctionState
  simp [Record.required_append_of_not, Record.withDefault_append_of_absent habsent,
    Record.withDefault_of_absent habsent, hstandard]

/-! ## The round trip -/

/-- **Snapshots round-trip**, by the convention of every format: each value that is written is
read again, the signs of zeros apart, which changes no value and no scale. The token names in
it have to be normalised, as those are that were made.

The amounts of a lot may be given by either name, and its fields in any order, but an amount
under both names is not read; and a state without a curve is read as with that of the
protocol. -/
theorem decode_encode_snapshots (c : Convention) :
    ((∀ l : Lot, decode c (encode l) = .ok l.asRead) ∧
      (∀ x : Selection, x.token.Normalised → decode c (encode x) = .ok x.asRead) ∧
      (∀ s : AuctionState, decode c (encode s) = .ok s.asRead) ∧
      (∀ b : PegBounds, decode c (encode b) = .ok b.asRead) ∧
      (∀ o : CaseOutcome, decode c (encode o) = .ok o) ∧
      ∀ s : Settings, (∀ t ∈ s.tokens, t.id.Normalised) → decode c (encode s) = .ok s.asRead) ∧
    ((∀ a : Decimal, a.asRead.Same a ∧ a.asRead.scale = a.scale ∧
        (a.isZero = true → a.asRead.negative = false)) ∧
      ∀ s, (TokenId.ofText s).Normalised) ∧
    ((∀ fs gs : List (String × Document),
        (fs.map (Prod.map Lot.fieldName id)).Perm (gs.map (Prod.map Lot.fieldName id)) →
        (gs.map fun field => Lot.fieldName field.1).Nodup →
        (decode c (.table fs) : Decoded Lot) = decode c (.table gs)) ∧
      ∀ names ∈ Lot.amountNames, ∀ (fs : List (String × Document)) (d d' : Document),
        (names.1, d) ∈ fs → (names.2, d') ∈ fs →
        ∃ e, (decode c (.table fs) : Decoded Lot) = .error e) ∧
    ∀ fs : List (String × Document), (∀ field ∈ fs, field.1 ≠ "curve") →
      (decode c (.table fs) : Decoded AuctionState) =
        decode c (.table (fs ++ [("curve", encode RateCurve.standard)])) := by
  refine ⟨⟨decode_encode_lot, fun _ => decode_encode_selection, decode_encode_auctionState,
    decode_encode_pegBounds, decode_encode_caseOutcome, fun _ => decode_encode_settings⟩,
    ⟨fun a => ⟨a.same_asRead, a.scale_asRead, fun hzero => ?_⟩, TokenId.normalised_ofText⟩,
    ⟨fun _ _ => Lot.decode_table_congr, fun _ hnames _ _ _ => Lot.exists_error_of_both hnames⟩,
    fun _ h => (AuctionState.decode_table_append_curve h).symm⟩
  show (a.negative && !a.isZero) = false
  rw [hzero, Bool.not_true, Bool.and_false]

/-- A lot without tokens, which its text gives a minus sign and two places, is read by the
second names of its amounts, the last field first; one amount more and it is not. A
selection and a state are read as they were written. -/
theorem decode_encode_snapshots_last_first :
    let nothing : Decimal := ⟨true, 0, 2, by decide, by decide⟩
    let fields : List (String × Document) :=
      [("seeds", encode Decimal.one), ("stalk", encode Decimal.greatest), ("bdv", encode nothing),
        ("amount", encode nothing), ("epoch", encode (⟨7⟩ : Epoch))]
    let x : Selection := ⟨.ofText " 0xBEA ", nothing, ⟨nothing, nothing, nothing, nothing⟩, []⟩
    let s : AuctionState := ⟨⟨18446744073709551615⟩, 25, .one, .one, nothing, true, .standard⟩
    nothing.asRead = ⟨false, 0, 2, by decide, by decide⟩ ∧
      decode .json (.table fields) =
        .ok (⟨⟨7⟩, nothing.asRead, nothing.asRead, .greatest, .one⟩ : Lot) ∧
      (∃ e, (decode .json (.table (("raw_amount", encode Decimal.one) :: fields)) : Decoded Lot) =
        .error e) ∧
      decode .json (encode x) = .ok x.asRead ∧
      decode .json (.table
        [ ("epoch_start_block", encode s.epochStart), ("block_offset", encode s.offset),
          ("max_rate", encode s.maxRate), ("current_rate", encode s.currentRate),
          ("capacity", encode s.capacity), ("above_equilibrium", encode s.aboveEquilibrium) ]) =
        .ok s.asRead := by
  intro nothing fields x s
  obtain ⟨⟨hlot, hselection, hstate, -⟩, ⟨-, hmade⟩, ⟨hcongr, hboth⟩, hcurve⟩ :=
    decode_encode_snapshots .json
  let l : Lot := ⟨⟨7⟩, nothing, nothing, .greatest, .one⟩
  refine ⟨rfl, ?_, ?_, hselection x (hmade _), ?_⟩
  · exact (hcongr fields
      [ ("epoch", encode l.epoch), ("raw_amount", encode l.rawAmount),
        ("base_value", encode l.baseValue), ("stake_weight", encode l.stakeWeight),
        ("yield_rate", encode l.yieldRate) ] (List.reverse_perm _).symm (by decide)).trans
      (hlot l)
  · exact hboth ("raw_amount", "amount") (by decide) _ (encode Decimal.one) (encode nothing)
      (by simp) (by simp [fields])
  · exact (hcurve _ (by decide)).trans (hstate s)

end StakeAccounting
