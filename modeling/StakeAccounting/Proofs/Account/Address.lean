import StakeAccounting.Proofs.Account.Digits

/-!
# The texts that are addresses

Reading an address decides on bytes, one test after another; what it decides can be said of the
text. What counts is the text behind one mark (`BehindMark`). It is an address if it is made of
forty digits (`IsAddress`), and otherwise it is at fault (`Fault`): a fault names what comes
first in the order of the tests, however much else is wrong. Every text has its verdict
(`isAddress_or_fault`), so agreement with the grammar is two statements, one for addresses
(`exists_ofHex_of_isAddress`) and one for faults (`ofHex_of_fault`); that nothing else is
accepted or reported follows, as reading gives one answer.

Of an account there is one written form, since writing loses nothing (`toHex_injective`). That
is why a text is read as the account whose written form is the text in lower case
(`ofHex_eq_ok_iff`), and why two texts name one account if they agree but for the mark and the
case of letters (`SameAddress`). All of it is `ofHex_grammar`.
-/

namespace StakeAccounting

namespace Account

/-! ## The grammar -/

/-- **The text behind the mark**: what follows a leading `0x`, or the whole text where there is
none. A second mark is not looked past. -/
def BehindMark (s digits : String) : Prop :=
  s = "0x" ++ digits ∨ s = digits ∧ ∀ rest, s ≠ "0x" ++ rest

/-- **The digits of an address**: forty of them, in either case. -/
structure IsAddress (digits : String) : Prop where
  /-- There are forty characters. -/
  length_eq : digits.length = 40
  /-- Each is a digit. -/
  isHexDigit : ∀ c ∈ digits.toList, c.isHexDigit = true

instance (digits : String) : Decidable (IsAddress digits) :=
  decidable_of_iff (digits.length = 40 ∧ digits.toList.all Char.isHexDigit = true)
    ⟨fun h => ⟨h.1, List.all_eq_true.mp h.2⟩, fun h => ⟨h.1, List.all_eq_true.mpr h.2⟩⟩

/-- **What is wrong with a text behind its mark.** Its size is in bytes, and so are places. -/
inductive Fault (digits : String) : AddressError → Prop
  /-- The size is odd. -/
  | oddLength (odd : digits.utf8ByteSize % 2 = 1) : Fault digits .oddLength
  /-- The size is even and not forty. -/
  | wrongLength (even : digits.utf8ByteSize % 2 = 0) (other : digits.utf8ByteSize ≠ 40) :
      Fault digits .wrongLength
  /-- The size is right, and this is the first byte that stands for no digit. -/
  | notADigit (front back : List UInt8) (byte : UInt8) (forty : digits.utf8ByteSize = 40)
      (bytes_eq : utf8Bytes digits = front ++ byte :: back) (before : ∀ b ∈ front, IsHexByte b)
      (first : ¬IsHexByte byte) : Fault digits (.notADigit byte front.length)

/-- **Two texts name one account**: behind their marks they agree, but for the case of
letters. -/
def SameAddress (s t : String) : Prop :=
  ∃ ds es, BehindMark s ds ∧ BehindMark t es ∧ foldCase ds = foldCase es

/-- **Every text is an address or at fault.** -/
theorem isAddress_or_fault (digits : String) : IsAddress digits ∨ ∃ e, Fault digits e := by
  by_cases hodd : digits.utf8ByteSize % 2 = 1
  · exact .inr ⟨_, .oddLength hodd⟩
  by_cases hforty : digits.utf8ByteSize = 40
  · by_cases hbytes : ∀ b ∈ utf8Bytes digits, IsHexByte b
    · have hdigits := (forall_isHexByte_iff digits).mp hbytes
      exact .inl ⟨(utf8ByteSize_of_isHexDigit hdigits).symm.trans hforty, hdigits⟩
    · obtain ⟨front, byte, back, heq, hfront, hbyte⟩ := exists_first_not_isHexByte hbytes
      exact .inr ⟨_, .notADigit front back byte hforty heq hfront hbyte⟩
  · exact .inr ⟨_, .wrongLength (by omega) hforty⟩

/-! ## Behind the mark -/

/-- The text behind the mark is the one that is read. -/
theorem behindMark_iff {s digits : String} :
    BehindMark s digits ↔ withoutMark s.toList = digits.toList := by
  have hmarked {t : String} : s = "0x" ++ t ↔ s.toList = '0' :: 'x' :: t.toList := by
    rw [← String.toList_inj, String.toList_append]
    rfl
  unfold BehindMark withoutMark
  split
  · rename_i rest hs
    have hrest : s = "0x" ++ String.ofList rest := by rwa [hmarked, String.toList_ofList]
    constructor
    · rintro (h | ⟨-, hbare⟩)
      · rw [hmarked, hs] at h
        exact (List.cons.inj (List.cons.inj h).2).2
      · exact absurd hrest (hbare _)
    · intro h
      exact .inl (by rw [hmarked, hs, h])
  · rename_i hbare
    constructor
    · rintro (h | ⟨rfl, -⟩)
      · exact absurd (hmarked.mp h) (hbare _)
      · rfl
    · exact fun h => .inr ⟨String.toList_inj.mp h, fun rest h => hbare _ (hmarked.mp h)⟩

/-- Every text has a text behind its mark. -/
theorem exists_behindMark (s : String) : ∃ digits, BehindMark s digits :=
  ⟨String.ofList (withoutMark s.toList), behindMark_iff.mpr String.toList_ofList.symm⟩

/-- There is no second one. -/
theorem BehindMark.unique {s ds es : String} (hd : BehindMark s ds) (he : BehindMark s es) :
    ds = es :=
  String.toList_inj.mp ((behindMark_iff.mp hd).symm.trans (behindMark_iff.mp he))

/-- An address is all that is behind its mark, as no mark is made of digits. -/
theorem IsAddress.behindMark_self {digits : String} (h : IsAddress digits) :
    BehindMark digits digits := by
  refine .inr ⟨rfl, fun rest hmarked => ?_⟩
  -- the mark would bring an x among the digits
  have hmem : 'x' ∈ digits.toList := by
    rw [hmarked, String.toList_append]
    exact List.mem_append_left _ (by decide)
  exact absurd (h.isHexDigit 'x' hmem) (by decide)

/-! ## Writing -/

/-- The digits of an account. -/
def hexDigits (a : Account) : String := String.ofList (a.bytes.flatMap hexPair)

/-- An account is written with its digits behind the mark. -/
theorem toHex_eq (a : Account) : a.toHex = "0x" ++ a.hexDigits := by
  show String.ofList (['0', 'x'] ++ a.bytes.flatMap hexPair) = _
  rw [String.ofList_append]
  rfl

/-- **Writing loses nothing.** -/
theorem toHex_injective {a b : Account} (h : a.toHex = b.toHex) : a = b := by
  rw [toHex_eq, toHex_eq, String.append_right_inj, ← String.toList_inj, hexDigits, hexDigits,
    String.toList_ofList, String.toList_ofList] at h
  have hbytes : a.bytes = b.bytes := by
    rw [← pairedBytes_flatMap_hexPair a.bytes, h, pairedBytes_flatMap_hexPair]
  cases a
  cases b
  cases hbytes
  rfl

/-- An account is written as an address. -/
theorem isAddress_hexDigits (a : Account) : IsAddress a.hexDigits where
  length_eq := by
    rw [hexDigits, String.length_ofList, length_flatMap_hexPair, a.length_eq]
  isHexDigit := by
    intro c hc
    rw [hexDigits, String.toList_ofList] at hc
    obtain ⟨v, hv, rfl⟩ := exists_of_mem_flatMap_hexPair hc
    exact isHexDigit_hexChar hv

/-- It is written in lower case. -/
theorem foldCase_hexDigits (a : Account) : foldCase a.hexDigits = a.hexDigits := by
  have hlower : (a.bytes.flatMap hexPair).map Char.toLower = a.bytes.flatMap hexPair := by
    refine (List.map_congr_left fun c hc => ?_).trans (List.map_id _)
    obtain ⟨v, hv, rfl⟩ := exists_of_mem_flatMap_hexPair hc
    exact toLower_hexChar hv
  rw [foldCase, hexDigits, String.toList_ofList, hlower]

/-! ## Reading -/

section Reading

variable {s digits : String} (hmark : BehindMark s digits)
include hmark

/-- What is read of a text is the bytes behind the mark. -/
theorem flatMap_withoutMark :
    (withoutMark s.toList).flatMap String.utf8EncodeChar = utf8Bytes digits := by
  rw [behindMark_iff.mp hmark, utf8Bytes]

/-- A text at fault is refused for the fault. -/
theorem ofHex_of_fault {e : AddressError} (h : Fault digits e) : ofHex s = .error e := by
  unfold ofHex
  simp only [flatMap_withoutMark hmark, length_utf8Bytes]
  cases h with
  | oddLength odd => rw [if_pos odd]
  | wrongLength even other => rw [if_neg (by omega), dif_neg other]
  | notADigit front back byte forty bytes_eq before first =>
    have hfound : firstNonDigit? 0 (utf8Bytes digits) = some (byte, front.length) := by
      rw [bytes_eq, firstNonDigit?_append before, firstNonDigit?_cons first, Nat.zero_add]
    rw [if_neg (by omega), dif_pos forty, hfound]

/-- **An address is read as the account that is written like it**, in lower case. -/
theorem exists_ofHex_of_isAddress (h : IsAddress digits) :
    ∃ a, ofHex s = .ok a ∧ a.toHex = "0x" ++ foldCase digits := by
  have hforty : digits.utf8ByteSize = 40 :=
    (utf8ByteSize_of_isHexDigit h.isHexDigit).trans h.length_eq
  have hbytes := (forall_isHexByte_iff digits).mpr h.isHexDigit
  have hnone : firstNonDigit? 0 (utf8Bytes digits) = none := by
    rw [← List.append_nil (utf8Bytes digits), firstNonDigit?_append hbytes, firstNonDigit?]
  refine ⟨⟨pairedBytes (utf8Bytes digits), ?_⟩, ?_, ?_⟩
  · rw [length_pairedBytes, length_utf8Bytes, hforty]
  · unfold ofHex
    simp only [flatMap_withoutMark hmark, length_utf8Bytes]
    rw [if_neg (by omega), dif_pos hforty, hnone]
  · have hpairs : (pairedBytes (utf8Bytes digits)).flatMap hexPair =
        digits.toList.map Char.toLower := by
      rw [utf8Bytes_of_isHexDigit h.isHexDigit]
      exact flatMap_hexPair_pairedBytes _ (by rw [String.length_toList, h.length_eq]) h.isHexDigit
    rw [toHex_eq, hexDigits, hpairs, foldCase]

/-- **What a text is read as.** -/
theorem ofHex_eq_ok_iff {a : Account} :
    ofHex s = .ok a ↔ IsAddress digits ∧ a.toHex = "0x" ++ foldCase digits := by
  constructor
  · intro hread
    rcases isAddress_or_fault digits with haddress | ⟨e, hfault⟩
    · obtain ⟨b, hb, hwritten⟩ := exists_ofHex_of_isAddress hmark haddress
      obtain rfl : a = b := Except.ok.inj (hread.symm.trans hb)
      exact ⟨haddress, hwritten⟩
    · rw [ofHex_of_fault hmark hfault] at hread
      cases hread
  · -- no other account is written like the one that is read
    rintro ⟨haddress, hwritten⟩
    obtain ⟨b, hb, hsame⟩ := exists_ofHex_of_isAddress hmark haddress
    rw [hb, toHex_injective (hsame.trans hwritten.symm)]

/-- **What a text is refused for.** -/
theorem ofHex_eq_error_iff {e : AddressError} : ofHex s = .error e ↔ Fault digits e := by
  refine ⟨fun hread => ?_, ofHex_of_fault hmark⟩
  rcases isAddress_or_fault digits with haddress | ⟨e', hfault⟩
  · obtain ⟨a, ha, -⟩ := exists_ofHex_of_isAddress hmark haddress
    rw [ha] at hread
    cases hread
  · obtain rfl : e = e' := Except.error.inj (hread.symm.trans (ofHex_of_fault hmark hfault))
    exact hfault

end Reading

/-- What is written is read, behind the mark or without it. -/
theorem ofHex_of_hexDigits {s : String} {a : Account} (h : BehindMark s a.hexDigits) :
    ofHex s = .ok a := by
  rw [ofHex_eq_ok_iff h, foldCase_hexDigits, toHex_eq]
  exact ⟨isAddress_hexDigits a, rfl⟩

/-- **Two texts that are read are read as one account if they name one.** -/
theorem eq_iff_sameAddress {s t : String} {a b : Account} (hs : ofHex s = .ok a)
    (ht : ofHex t = .ok b) : a = b ↔ SameAddress s t := by
  obtain ⟨ds, hds⟩ := exists_behindMark s
  obtain ⟨es, hes⟩ := exists_behindMark t
  have ha := ((ofHex_eq_ok_iff hds).mp hs).2
  have hb := ((ofHex_eq_ok_iff hes).mp ht).2
  constructor
  · rintro rfl
    exact ⟨ds, es, hds, hes, (String.append_right_inj _).mp (ha.symm.trans hb)⟩
  · -- what `SameAddress` finds behind the marks is what was read
    rintro ⟨ds', es', hds', hes', hsame⟩
    obtain rfl := hds.unique hds'
    obtain rfl := hes.unique hes'
    exact toHex_injective (by rw [ha, hb, hsame])

/-- **Reading accepts the addresses and nothing else, writing is its inverse, and what is
refused is refused for its fault.** -/
theorem ofHex_grammar :
    (∀ s, (∃ a, ofHex s = .ok a) ↔ ∃ digits, BehindMark s digits ∧ IsAddress digits) ∧
    (∀ s digits a, BehindMark s digits → ofHex s = .ok a →
      a.toHex = "0x" ++ foldCase digits) ∧
    (∀ a, ofHex a.toHex = .ok a ∧
      ∃ digits, a.toHex = "0x" ++ digits ∧ ofHex digits = .ok a) ∧
    (∀ s t a b, ofHex s = .ok a → ofHex t = .ok b → (a = b ↔ SameAddress s t)) ∧
    ∀ s e, ofHex s = .error e ↔ ∃ digits, BehindMark s digits ∧ Fault digits e := by
  refine ⟨fun s => ?_, fun s digits a hmark hread => ((ofHex_eq_ok_iff hmark).mp hread).2,
    fun a => ⟨ofHex_of_hexDigits (.inl (toHex_eq a)), a.hexDigits, toHex_eq a,
      ofHex_of_hexDigits (isAddress_hexDigits a).behindMark_self⟩,
    fun s t a b => eq_iff_sameAddress, fun s e => ?_⟩
  · constructor
    · rintro ⟨a, ha⟩
      obtain ⟨digits, hmark⟩ := exists_behindMark s
      exact ⟨digits, hmark, ((ofHex_eq_ok_iff hmark).mp ha).1⟩
    · rintro ⟨digits, hmark, haddress⟩
      exact (exists_ofHex_of_isAddress hmark haddress).imp fun _ => And.left
  · constructor
    · intro hread
      obtain ⟨digits, hmark⟩ := exists_behindMark s
      exact ⟨digits, hmark, (ofHex_eq_error_iff hmark).mp hread⟩
    · rintro ⟨digits, hmark, hfault⟩
      exact (ofHex_eq_error_iff hmark).mpr hfault

/-- An address in both cases is read like the same in lower case without its mark. A second mark
is not made of digits, one in capitals is two bytes too many, and a character outside ASCII in
place of the last digit is two bytes where there was one. -/
theorem ofHex_grammar_bean :
    (∃ a, ofHex "0xBEA0000029AD1c77D3d5D23Ba2D8893dB9d1Efab" = .ok a ∧
      ofHex "bea0000029ad1c77d3d5d23ba2d8893db9d1efab" = .ok a ∧
      a.toHex = "0xbea0000029ad1c77d3d5d23ba2d8893db9d1efab") ∧
    ofHex "0x0xBEA0000029AD1c77D3d5D23Ba2D8893dB9d1Ef" = .error (.notADigit 120 1) ∧
    ofHex "0XBEA0000029AD1c77D3d5D23Ba2D8893dB9d1Efab" = .error .wrongLength ∧
    ofHex "0xBEA0000029AD1c77D3d5D23Ba2D8893dB9d1Efa\u00e9" = .error .oddLength := by
  obtain ⟨hreads, hwritten, -, hsame, hrefused⟩ := ofHex_grammar
  have hmark : BehindMark "0xBEA0000029AD1c77D3d5D23Ba2D8893dB9d1Efab"
      "BEA0000029AD1c77D3d5D23Ba2D8893dB9d1Efab" := .inl (by decide +kernel)
  have hlower : IsAddress "bea0000029ad1c77d3d5d23ba2d8893db9d1efab" := by decide +kernel
  refine ⟨?_, ?_, ?_, ?_⟩
  · obtain ⟨a, ha⟩ := (hreads _).mpr ⟨_, hmark, by decide +kernel⟩
    obtain ⟨b, hb⟩ := (hreads _).mpr ⟨_, hlower.behindMark_self, hlower⟩
    have hab : a = b := (hsame _ _ a b ha hb).mpr
      ⟨_, _, hmark, hlower.behindMark_self, by decide +kernel⟩
    exact ⟨a, ha, hab ▸ hb, (hwritten _ _ a hmark ha).trans (by decide +kernel)⟩
  · exact (hrefused _ _).mpr ⟨"0xBEA0000029AD1c77D3d5D23Ba2D8893dB9d1Ef", .inl (by decide +kernel),
      .notADigit [48] (utf8Bytes "BEA0000029AD1c77D3d5D23Ba2D8893dB9d1Ef") 120 (by decide +kernel)
        (by rfl) (by decide +kernel) (by decide +kernel)⟩
  · exact (hrefused _ _).mpr ⟨"0XBEA0000029AD1c77D3d5D23Ba2D8893dB9d1Efab",
      behindMark_iff.mpr (by decide +kernel), .wrongLength (by decide +kernel) (by decide +kernel)⟩
  · exact (hrefused _ _).mpr ⟨"BEA0000029AD1c77D3d5D23Ba2D8893dB9d1Efa\u00e9",
      .inl (by decide +kernel), .oddLength (by decide +kernel)⟩

end Account

end StakeAccounting
