import StakeAccounting.Account
import StakeAccounting.Proofs.TokenId

/-!
# Hexadecimal digits, as characters and as bytes

An address is written in characters and read by its bytes, and a text need not have as many of
the one as of the other. On digits they agree: a digit is one byte, and no other character has
only bytes that stand for digits, because what lies outside ASCII is encoded in bytes that lie
outside it (`isHexDigit_iff_forall`). So whether a text is made of digits, and how many there
are, may be said of its characters (`forall_isHexByte_iff`, `utf8ByteSize_of_isHexDigit`)
although its bytes are what is looked at.

Digits are `Char.isHexDigit`, in either case. Writing a value below sixteen and reading the
digit gives the value back (`hexValue?_hexChar`); reading a digit and writing its value gives
the digit in lower case (`hexChar_of_hexValue?`). Two by two, `pairedBytes` reads what
`hexPair` writes (`pairedBytes_flatMap_hexPair`), and what it reads is written as it was, in
lower case (`flatMap_hexPair_pairedBytes`).
-/

namespace StakeAccounting

/-! ## One digit -/

/-- The hexadecimal digits are three ranges of ASCII. -/
theorem isHexDigit_iff (c : Char) : c.isHexDigit = true ↔
    48 ≤ c.toNat ∧ c.toNat ≤ 57 ∨ 97 ≤ c.toNat ∧ c.toNat ≤ 102 ∨
      65 ≤ c.toNat ∧ c.toNat ≤ 70 := by
  simp only [Char.isHexDigit, Char.isDigit, Bool.or_eq_true, Bool.and_eq_true, decide_eq_true_eq,
    ge_iff_le, UInt32.le_iff_toNat_le, or_assoc]
  rfl

/-- **A byte that stands for a hexadecimal digit** in ASCII. -/
def IsHexByte (b : UInt8) : Prop := (Char.ofNat b.toNat).isHexDigit = true

instance (b : UInt8) : Decidable (IsHexByte b) := inferInstanceAs (Decidable (_ = _))

/-- The character made of the number of a byte has that number. -/
theorem toNat_charOfNat {n : Nat} (h : n < 256) : (Char.ofNat n).toNat = n := by
  rw [Char.ofNat, dif_pos (Or.inl (by omega))]
  rfl

/-- The bytes that stand for digits, by their numbers. -/
theorem isHexByte_iff (b : UInt8) : IsHexByte b ↔
    48 ≤ b.toNat ∧ b.toNat ≤ 57 ∨ 97 ≤ b.toNat ∧ b.toNat ≤ 102 ∨
      65 ≤ b.toNat ∧ b.toNat ≤ 70 := by
  rw [IsHexByte, isHexDigit_iff, toNat_charOfNat b.toNat_lt]

/-- How far a byte lies above another. -/
theorem byteSub_eq_iff {b k v : UInt8} {n : Nat} (hk : k.toNat = n) (h : n ≤ b.toNat) :
    b - k = v ↔ v.toNat + n = b.toNat := by
  subst hk
  rw [← UInt8.toNat_inj, UInt8.toNat_sub_of_le b k (UInt8.le_iff_toNat_le.mpr h)]
  omega

/-- **The value of a digit**: its distance from the zero, or from the place ten before the
letter that stands for ten. -/
theorem hexValue?_eq_some_iff {b v : UInt8} : hexValue? b = some v ↔
    48 ≤ b.toNat ∧ b.toNat ≤ 57 ∧ v.toNat + 48 = b.toNat ∨
      97 ≤ b.toNat ∧ b.toNat ≤ 102 ∧ v.toNat + 87 = b.toNat ∨
      65 ≤ b.toNat ∧ b.toNat ≤ 70 ∧ v.toNat + 55 = b.toNat := by
  unfold hexValue?
  simp only [UInt8.le_iff_toNat_le, UInt8.reduceToNat]
  split_ifs with hdecimal hupper hlower
  · rw [Option.some.injEq, byteSub_eq_iff (k := 48) (n := 48) rfl hdecimal.1]
    omega
  · rw [Option.some.injEq, byteSub_eq_iff (k := 55) (n := 55) rfl (by omega)]
    omega
  · rw [Option.some.injEq, byteSub_eq_iff (k := 87) (n := 87) rfl (by omega)]
    omega
  · exact iff_of_false not_false (by omega)

/-- A byte that stands for a digit has a value, which is below sixteen. -/
theorem exists_hexValue? {b : UInt8} (h : IsHexByte b) :
    ∃ v, hexValue? b = some v ∧ v.toNat < 16 := by
  have hv (k : Nat) (hk : b.toNat - k < 256) : (UInt8.ofNat (b.toNat - k)).toNat = b.toNat - k :=
    UInt8.toNat_ofNat_of_lt' hk
  simp only [hexValue?_eq_some_iff]
  rcases (isHexByte_iff b).mp h with h | h | h
  · exact ⟨.ofNat (b.toNat - 48), by rw [hv 48 (by omega)]; omega⟩
  · exact ⟨.ofNat (b.toNat - 87), by rw [hv 87 (by omega)]; omega⟩
  · exact ⟨.ofNat (b.toNat - 55), by rw [hv 55 (by omega)]; omega⟩

/-- **The bytes that have a value are those that stand for digits.** -/
theorem isSome_hexValue?_iff (b : UInt8) : (hexValue? b).isSome = true ↔ IsHexByte b := by
  rw [Option.isSome_iff_exists]
  constructor
  · rintro ⟨v, hv⟩
    rw [hexValue?_eq_some_iff] at hv
    rw [isHexByte_iff]
    omega
  · exact fun h => (exists_hexValue? h).imp fun _ => And.left

/-- The digit of a value, by its number. -/
theorem toNat_hexChar {v : UInt8} (h : v.toNat < 16) :
    (hexChar v).toNat = if v.toNat < 10 then 48 + v.toNat else 87 + v.toNat := by
  have hten : v < 10 ↔ v.toNat < 10 := UInt8.lt_iff_toNat_lt
  unfold hexChar
  by_cases hv : v.toNat < 10
  · rw [if_pos (hten.mpr hv), if_pos hv, toNat_charOfNat (by omega)]
  · rw [if_neg (mt hten.mp hv), if_neg hv, toNat_charOfNat (by omega)]

/-- A value below sixteen is written as a digit. -/
theorem isHexDigit_hexChar {v : UInt8} (h : v.toNat < 16) : (hexChar v).isHexDigit = true := by
  rw [isHexDigit_iff, toNat_hexChar h]
  split_ifs <;> omega

/-- The digit is in lower case. -/
theorem toLower_hexChar {v : UInt8} (h : v.toNat < 16) : (hexChar v).toLower = hexChar v := by
  refine Char.toNat_inj.mp ?_
  rw [toNat_toLower, toNat_hexChar h]
  split_ifs <;> omega

/-! ## One character and its bytes -/

/-- The byte of a digit has the number of the digit. -/
theorem toNat_toUInt8 {c : Char} (h : c.toNat < 256) : c.toUInt8.toNat = c.toNat := by
  rw [Char.toUInt8, UInt32.toNat_toUInt8]
  exact Nat.mod_eq_of_lt h

/-- A digit is a character of ASCII. -/
theorem toNat_lt_of_isHexDigit {c : Char} (h : c.isHexDigit = true) : c.toNat < 128 := by
  rw [isHexDigit_iff] at h
  omega

/-- **What is written is read.** -/
theorem hexValue?_hexChar {v : UInt8} (h : v.toNat < 16) :
    hexValue? (hexChar v).toUInt8 = some v := by
  have hc := toNat_lt_of_isHexDigit (isHexDigit_hexChar h)
  rw [hexValue?_eq_some_iff, toNat_toUInt8 (by omega), toNat_hexChar h]
  split_ifs <;> omega

/-- **What is read is written in lower case.** -/
theorem hexChar_of_hexValue? {c : Char} {v : UInt8} (hc : c.isHexDigit = true)
    (h : hexValue? c.toUInt8 = some v) (hv : v.toNat < 16) : hexChar v = c.toLower := by
  have hascii := toNat_lt_of_isHexDigit hc
  refine Char.toNat_inj.mp ?_
  rw [hexValue?_eq_some_iff, toNat_toUInt8 (by omega)] at h
  rw [toNat_toLower, toNat_hexChar hv]
  split_ifs <;> omega

/-- A digit stands for itself as a byte. -/
theorem isHexByte_toUInt8 {c : Char} (h : c.isHexDigit = true) : IsHexByte c.toUInt8 := by
  rwa [IsHexByte, toNat_toUInt8 (by have := toNat_lt_of_isHexDigit h; omega), Char.ofNat_toNat]

/-- A character of ASCII is encoded in one byte. -/
theorem utf8EncodeChar_of_lt {c : Char} (h : c.toNat < 128) :
    String.utf8EncodeChar c = [c.toUInt8] :=
  String.utf8EncodeChar_eq_singleton
    (Char.utf8Size_eq_one_iff.mpr (UInt32.le_iff_toNat_le.mpr (Nat.le_of_lt_succ h)))

/-- Any other character is encoded in bytes the first of which lies outside ASCII. -/
theorem exists_utf8EncodeChar_of_le {c : Char} (h : 128 ≤ c.toNat) :
    ∃ b ∈ String.utf8EncodeChar c, 128 ≤ b.toNat := by
  have hlead {k : Nat} (hk : k < 256) (hle : 128 ≤ k) : 128 ≤ (UInt8.ofNat k).toNat := by
    rwa [UInt8.toNat_ofNat_of_lt' hk]
  simp only [String.utf8EncodeChar, Char.toNat_val]
  -- one byte is ruled out, and the first of two, three or four is 192 at least
  split_ifs with hone htwo hthree
  · omega
  · exact ⟨_, List.mem_cons_self, hlead (by omega) (by omega)⟩
  · exact ⟨_, List.mem_cons_self, hlead (by omega) (by omega)⟩
  · exact ⟨_, List.mem_cons_self, hlead (by omega) (by omega)⟩

/-- **A character is a digit if its bytes stand for digits.** -/
theorem isHexDigit_iff_forall (c : Char) :
    c.isHexDigit = true ↔ ∀ b ∈ String.utf8EncodeChar c, IsHexByte b := by
  constructor
  · intro hc
    rw [utf8EncodeChar_of_lt (toNat_lt_of_isHexDigit hc), List.forall_mem_singleton]
    exact isHexByte_toUInt8 hc
  · intro hbytes
    by_cases hascii : c.toNat < 128
    · rw [utf8EncodeChar_of_lt hascii, List.forall_mem_singleton, IsHexByte,
        toNat_toUInt8 (by omega), Char.ofNat_toNat] at hbytes
      exact hbytes
    · -- the byte outside ASCII is too great for a digit
      obtain ⟨b, hb, hle⟩ := exists_utf8EncodeChar_of_le (Nat.le_of_not_lt hascii)
      have hdigit := (isHexByte_iff b).mp (hbytes b hb)
      omega

/-! ## Texts of digits -/

/-- The size of a text is the number of its bytes. -/
theorem length_utf8Bytes (s : String) : (utf8Bytes s).length = s.utf8ByteSize := by
  rw [utf8Bytes, ← List.size_toByteArray, ← List.utf8Encode, String.utf8Encode_toList]
  rfl

/-- **A text is made of digits if its bytes stand for digits.** -/
theorem forall_isHexByte_iff (s : String) :
    (∀ b ∈ utf8Bytes s, IsHexByte b) ↔ ∀ c ∈ s.toList, c.isHexDigit = true := by
  simp only [utf8Bytes, List.mem_flatMap, isHexDigit_iff_forall]
  exact ⟨fun h c hc b hb => h b ⟨c, hc, hb⟩, fun h b ⟨c, hc, hb⟩ => h c hc b hb⟩

/-- The bytes of a text of digits are its characters, one by one. -/
theorem utf8Bytes_of_isHexDigit {s : String} (h : ∀ c ∈ s.toList, c.isHexDigit = true) :
    utf8Bytes s = s.toList.map Char.toUInt8 := by
  rw [utf8Bytes, List.map_eq_flatMap]
  exact List.flatMap_congr fun c hc => utf8EncodeChar_of_lt (toNat_lt_of_isHexDigit (h c hc))

/-- A text of digits has as many bytes as characters. -/
theorem utf8ByteSize_of_isHexDigit {s : String} (h : ∀ c ∈ s.toList, c.isHexDigit = true) :
    s.utf8ByteSize = s.length := by
  rw [← length_utf8Bytes, utf8Bytes_of_isHexDigit h, List.length_map, String.length_toList]

/-! ## The first byte that is no digit -/

/-- Bytes that stand for digits are passed over, and counted. -/
theorem firstNonDigit?_append {front : List UInt8} (h : ∀ b ∈ front, IsHexByte b) (p : Nat)
    (rest : List UInt8) :
    firstNonDigit? p (front ++ rest) = firstNonDigit? (p + front.length) rest := by
  induction front generalizing p with
  | nil => rfl
  | cons b front ih =>
    obtain ⟨hb, hfront⟩ := List.forall_mem_cons.mp h
    rw [List.cons_append, firstNonDigit?, if_pos ((isSome_hexValue?_iff b).mpr hb), ih hfront,
      List.length_cons, Nat.add_assoc, Nat.add_comm 1]

/-- A byte that stands for no digit is found. -/
theorem firstNonDigit?_cons {b : UInt8} (h : ¬IsHexByte b) (p : Nat) (rest : List UInt8) :
    firstNonDigit? p (b :: rest) = some (b, p) := by
  rw [firstNonDigit?, if_neg (mt (isSome_hexValue?_iff b).mp h)]

/-- Where not all bytes stand for digits there is a first one that does not. -/
theorem exists_first_not_isHexByte {bs : List UInt8} (h : ¬∀ b ∈ bs, IsHexByte b) :
    ∃ front b back, bs = front ++ b :: back ∧ (∀ x ∈ front, IsHexByte x) ∧ ¬IsHexByte b := by
  obtain ⟨b, hfind⟩ : ∃ b, bs.find? (fun b => !decide (IsHexByte b)) = some b := by
    rw [← Option.isSome_iff_exists, List.find?_isSome]
    simpa using h
  obtain ⟨hb, front, back, hbs, hfront⟩ := List.find?_eq_some_iff_append.mp hfind
  exact ⟨front, b, back, hbs, fun x hx => by simpa using hfront x hx, by simpa using hb⟩

/-! ## Two digits to a byte -/

/-- Two values below sixteen make one byte. -/
theorem toNat_mul_sixteen_add {v w : UInt8} (hv : v.toNat < 16) (hw : w.toNat < 16) :
    (v * 16 + w).toNat = v.toNat * 16 + w.toNat := by
  rw [UInt8.toNat_add, UInt8.toNat_mul]
  simp only [UInt8.reduceToNat]
  omega

/-- Every byte is made of two values below sixteen. -/
theorem exists_mul_sixteen_add (b : UInt8) :
    ∃ v w : UInt8, v.toNat < 16 ∧ w.toNat < 16 ∧ v * 16 + w = b := by
  have hb : b.toNat < 256 := b.toNat_lt
  have hhigh : (b / 16).toNat = b.toNat / 16 := UInt8.toNat_div b 16
  have hlow : (b % 16).toNat = b.toNat % 16 := UInt8.toNat_mod b 16
  refine ⟨b / 16, b % 16, by omega, by omega, ?_⟩
  rw [← UInt8.toNat_inj, toNat_mul_sixteen_add (by omega) (by omega)]
  omega

/-- **A byte is written as the digits of the two values it is made of.** -/
theorem hexPair_mul_sixteen_add {v w : UInt8} (hv : v.toNat < 16) (hw : w.toNat < 16) :
    hexPair (v * 16 + w) = [hexChar v, hexChar w] := by
  have hbyte := toNat_mul_sixteen_add hv hw
  have hhigh : (v * 16 + w) / 16 = v := by
    rw [← UInt8.toNat_inj, UInt8.toNat_div, hbyte]
    simp only [UInt8.reduceToNat]
    omega
  have hlow : (v * 16 + w) % 16 = w := by
    rw [← UInt8.toNat_inj, UInt8.toNat_mod, hbyte]
    simp only [UInt8.reduceToNat]
    omega
  rw [hexPair, hhigh, hlow]

/-- What is written of bytes are digits of values below sixteen. -/
theorem exists_of_mem_flatMap_hexPair {bs : List UInt8} {c : Char} (h : c ∈ bs.flatMap hexPair) :
    ∃ v : UInt8, v.toNat < 16 ∧ hexChar v = c := by
  obtain ⟨b, -, hc⟩ := List.mem_flatMap.mp h
  obtain ⟨v, w, hv, hw, rfl⟩ := exists_mul_sixteen_add b
  rw [hexPair_mul_sixteen_add hv hw, List.mem_pair] at hc
  rcases hc with rfl | rfl
  · exact ⟨v, hv, rfl⟩
  · exact ⟨w, hw, rfl⟩

/-- There are twice as many digits as bytes. -/
theorem length_flatMap_hexPair (bs : List UInt8) : (bs.flatMap hexPair).length = bs.length * 2 := by
  induction bs with
  | nil => rfl
  | cons b bs ih =>
    have hpair : (hexPair b).length = 2 := rfl
    rw [List.flatMap_cons, List.length_append, ih, hpair, List.length_cons]
    omega

/-- **Reading the pairs of bytes gives the bytes.** -/
theorem pairedBytes_flatMap_hexPair (bs : List UInt8) :
    pairedBytes ((bs.flatMap hexPair).map Char.toUInt8) = bs := by
  induction bs with
  | nil => rfl
  | cons b bs ih =>
    obtain ⟨v, w, hv, hw, rfl⟩ := exists_mul_sixteen_add b
    rw [List.flatMap_cons, hexPair_mul_sixteen_add hv hw, List.cons_append, List.cons_append,
      List.nil_append, List.map_cons, List.map_cons, pairedBytes, ih, hexValue?_hexChar hv,
      hexValue?_hexChar hw, Option.getD_some, Option.getD_some]

/-- **Writing the bytes that digits spell gives the digits, in lower case.** -/
theorem flatMap_hexPair_pairedBytes : ∀ cs : List Char, cs.length % 2 = 0 →
    (∀ c ∈ cs, c.isHexDigit = true) →
    (pairedBytes (cs.map Char.toUInt8)).flatMap hexPair = cs.map Char.toLower
  | [], _, _ => rfl
  | [_], heven, _ => absurd heven Nat.one_ne_zero
  | high :: low :: rest, heven, hdigits => by
    obtain ⟨hhigh, hlow, hrest⟩ := (List.forall_mem_cons.mp hdigits).imp_right
      List.forall_mem_cons.mp
    obtain ⟨v, hv, hvlt⟩ := exists_hexValue? (isHexByte_toUInt8 hhigh)
    obtain ⟨w, hw, hwlt⟩ := exists_hexValue? (isHexByte_toUInt8 hlow)
    have ih := flatMap_hexPair_pairedBytes rest
      (by rw [List.length_cons, List.length_cons] at heven; omega) hrest
    rw [List.map_cons, List.map_cons, pairedBytes, hv, hw, Option.getD_some, Option.getD_some,
      List.flatMap_cons, hexPair_mul_sixteen_add hvlt hwlt, ih,
      hexChar_of_hexValue? hhigh hv hvlt, hexChar_of_hexValue? hlow hw hwlt]
    rfl

end StakeAccounting
