import PooledCrypto.Curve.P256.Signature

/-!
# The two forms of a signature

Which bytes are a form of which pair of numbers is said here without reading or writing anything.
`IsRaw` is for both numbers at full length. `IsDer` is for the sequence of two integers: every length
is as short as it can be, every integer is not negative and has no byte too many, and nothing
follows.

Reading is then shown to be exact. A form is read as a signature if and only if it is the form of the
signature's numbers (`ofRaw?_eq_some_iff`, `ofDer?_eq_some_iff`), and that is just what the signature
is written as. So a signature has one form of each kind, and `Recoded` leads from one to the other.
-/

namespace PooledCrypto

namespace Bytes

theorem toNatLE_append (a b : Bytes) :
    toNatLE (a ++ b) = toNatLE a + Nat.pow 256 a.length * toNatLE b := by
  induction a with
  | nil => simp [toNatLE]
  | cons x rest ih =>
      rw [List.cons_append, toNatLE, toNatLE, ih, List.length_cons, pow_succ_eq, Nat.mul_add,
        Nat.mul_assoc, Nat.add_assoc]

/-- The first byte counts most. -/
theorem toNatBE_cons (b : UInt8) (rest : Bytes) :
    toNatBE (b :: rest) = b.toNat * Nat.pow 256 rest.length + toNatBE rest := by
  rw [toNatBE, List.reverse_cons, toNatLE_append, List.length_reverse]
  show toNatLE rest.reverse + Nat.pow 256 rest.length * (b.toNat + 256 * 0) = _
  rw [Nat.mul_zero, Nat.add_zero, Nat.mul_comm, Nat.add_comm]
  rfl

end Bytes

namespace Curve.P256.Signature

open Parameters (SignatureForm)

/-! ## What the forms are -/

/-- A length in as few bytes as it takes: in one below 128, else behind a byte that tells how many
they are. -/
def lengthBytes (n : Nat) : Bytes :=
  if n < 128 then [UInt8.ofNat n]
  else
    let size := n.log2 / 8 + 1
    UInt8.ofNat (128 + size) :: Bytes.ofNatBE size n

/-- A mark, the length of the content, and the content. -/
def element (mark : UInt8) (content : Bytes) : Bytes :=
  mark :: lengthBytes content.length ++ content

/-- The bytes are the content of the integer `n`, which is not negative. -/
structure IsContent (n : Nat) (bytes : Bytes) : Prop where
  value : Bytes.toNatBE bytes = n
  /-- The first bit is the sign. -/
  sign : ∃ first rest, bytes = first :: rest ∧ first.toNat < 128
  /-- A zero in front is there only to clear the sign. -/
  minimal : ∀ second rest, bytes = 0 :: second :: rest → 128 ≤ second.toNat

/-- The bytes are the sequence of the integers `r` and `s`, and nothing else. -/
def IsDer (r s : Nat) (bytes : Bytes) : Prop :=
  ∃ first second, IsContent r first ∧ IsContent s second
    ∧ bytes = element 0x30 (element 0x02 first ++ element 0x02 second)

/-- The bytes are `r` and `s` in 32 bytes each. -/
structure IsRaw (r s : Nat) (bytes : Bytes) : Prop where
  length : bytes.length = 64
  first : Bytes.toNatBE (bytes.take 32) = r
  second : Bytes.toNatBE (bytes.drop 32) = s

/-- The first is the raw form of the numbers that the second is the sequence of. -/
def Recoded (raw der : Bytes) : Prop := ∃ r s, IsRaw r s raw ∧ IsDer r s der

variable {n r s k : Nat} {bytes a b rest : Bytes} {sig : Signature}

/-! ## Contents of integers

How long the content of `n` is follows from the sign and from minimality: its `k + 1` bytes hold `n`
and a zero bit, and `k` is the least number with that property. The length determines the bytes. -/

/-- With `k` bytes behind the first one there is room for `n` and a zero bit, but not with fewer. -/
structure Tight (n k : Nat) : Prop where
  holds : n < 128 * Nat.pow 256 k
  least : ∀ j, n < 128 * Nat.pow 256 j → k ≤ j

theorem Tight.unique {j : Nat} (hk : Tight n k) (hj : Tight n j) : k = j :=
  Nat.le_antisymm (hk.least j hj.holds) (hj.least k hk.holds)

theorem holds_mono {j : Nat} (h : k ≤ j) : 128 * Nat.pow 256 k ≤ 128 * Nat.pow 256 j :=
  Nat.mul_le_mul_left _ (Nat.pow_le_pow_right (by decide) h)

/-- Room for `n` and a zero bit, by the number of bits of `n`. -/
theorem holds_iff (hn : n ≠ 0) : n < 128 * Nat.pow 256 k ↔ (n.log2 + 1) / 8 ≤ k := by
  have hroom : 128 * Nat.pow 256 k = Nat.pow 2 (8 * k + 7) := by
    show 128 * 256 ^ k = 2 ^ (8 * k + 7)
    rw [Nat.pow_add, Nat.pow_mul, Nat.mul_comm]
  rw [hroom]
  refine (Nat.log2_lt hn).symm.trans ?_
  omega

theorem tight_log2 (hn : n ≠ 0) : Tight n ((n.log2 + 1) / 8) where
  holds := (holds_iff hn).mpr (Nat.le_refl _)
  least _ h := (holds_iff hn).mp h

theorem tight_zero : Tight 0 0 where
  holds := by simp
  least j _ := Nat.zero_le j

/-- What the model writes has the right length. -/
theorem exists_content_eq (n : Nat) : ∃ k, Tight n k ∧ content n = Bytes.ofNatBE (k + 1) n := by
  unfold content
  by_cases hn : n = 0
  · subst hn
    exact ⟨0, tight_zero, rfl⟩
  · rw [if_neg hn]
    exact ⟨_, tight_log2 hn, rfl⟩

theorem Tight.lt_pow (h : Tight n k) : n < Nat.pow 256 (k + 1) := by
  have hholds := h.holds
  rw [Bytes.pow_succ_eq]
  omega

theorem Tight.toNatBE_ofNatBE (h : Tight n k) :
    Bytes.toNatBE (Bytes.ofNatBE (k + 1) n) = n := by
  rw [Bytes.toNatBE_ofNatBE, Nat.mod_eq_of_lt h.lt_pow]

/-- The sign and minimality fix the length. -/
theorem IsContent.tight (h : IsContent n bytes) : ∃ k, bytes.length = k + 1 ∧ Tight n k := by
  obtain ⟨first, rest, rfl, hfirst⟩ := h.sign
  have hvalue := h.value
  rw [Bytes.toNatBE_cons] at hvalue
  have hrest := Bytes.toNatBE_lt rest
  refine ⟨rest.length, rfl, ?_, fun j hj => ?_⟩
  · have hle : first.toNat * Nat.pow 256 rest.length ≤ 127 * Nat.pow 256 rest.length :=
      Nat.mul_le_mul_right _ (by omega)
    omega
  · refine Nat.le_of_not_lt fun hlt => ?_
    -- one byte less would do, so the first byte is zero and the next one has its first bit clear
    cases rest with
    | nil => exact Nat.not_lt_zero j hlt
    | cons second tail =>
        have hmono : 128 * Nat.pow 256 j ≤ 128 * Nat.pow 256 tail.length :=
          holds_mono (Nat.le_of_lt_succ hlt)
        have hwide : Nat.pow 256 (second :: tail).length = 256 * Nat.pow 256 tail.length :=
          Bytes.pow_succ_eq 256 tail.length
        have hzero : first = 0 := by
          rcases Nat.eq_zero_or_pos first.toNat with hz | hpos
          · exact UInt8.toNat_inj.mp hz
          · have hle := Nat.mul_le_mul_right (Nat.pow 256 (second :: tail).length) hpos
            omega
        subst hzero
        have hsecond := h.minimal second tail rfl
        have hle := Nat.mul_le_mul_right (Nat.pow 256 tail.length) hsecond
        rw [Bytes.toNatBE_cons second tail] at hvalue
        simp only [UInt8.toNat_zero, Nat.zero_mul, Nat.zero_add] at hvalue
        omega

theorem isContent_of_tight (h : Tight n k) : IsContent n (Bytes.ofNatBE (k + 1) n) where
  value := h.toNatBE_ofNatBE
  sign := by
    have hvalue := h.toNatBE_ofNatBE
    have hlen := Bytes.length_ofNatBE (k + 1) n
    generalize Bytes.ofNatBE (k + 1) n = bytes at hvalue hlen
    obtain ⟨first, rest, rfl⟩ := List.exists_cons_of_length_eq_add_one hlen
    refine ⟨first, rest, rfl, ?_⟩
    obtain rfl : rest.length = k := by simpa using hlen
    rw [Bytes.toNatBE_cons] at hvalue
    refine Nat.lt_of_not_le fun hge => ?_
    have hle := Nat.mul_le_mul_right (Nat.pow 256 rest.length) hge
    have hholds := h.holds
    omega
  minimal second rest hbytes := by
    have hvalue := h.toNatBE_ofNatBE
    have hlen := Bytes.length_ofNatBE (k + 1) n
    rw [hbytes] at hvalue hlen
    obtain rfl : rest.length + 1 = k := by simpa using hlen
    simp only [Bytes.toNatBE_cons, UInt8.toNat_zero, Nat.zero_mul, Nat.zero_add] at hvalue
    refine Nat.le_of_not_lt fun hlt => ?_
    -- then the zero in front was one byte too many
    have hle := Nat.mul_le_mul_right (Nat.pow 256 rest.length) (Nat.le_of_lt_succ hlt)
    have hrest := Bytes.toNatBE_lt rest
    have hleast := h.least rest.length (by omega)
    omega

/-- An integer has one content, and that is what is written. -/
theorem isContent_iff : IsContent n bytes ↔ bytes = content n := by
  obtain ⟨k, htight, hcontent⟩ := exists_content_eq n
  rw [hcontent]
  constructor
  · intro h
    obtain ⟨j, hlen, hj⟩ := h.tight
    obtain rfl := hj.unique htight
    have hback := Bytes.ofNatBE_toNatBE bytes
    rw [hlen, h.value] at hback
    exact hback.symm
  · rintro rfl
    exact isContent_of_tight htight

theorem toNatBE_content (n : Nat) : Bytes.toNatBE (content n) = n :=
  (isContent_iff.mpr rfl).value

/-! ## Numbers in range -/

/-- A number below the group's order takes at most 33 bytes. -/
theorem length_content_le (h : n < groupOrder) : (content n).length ≤ 33 := by
  obtain ⟨k, htight, hcontent⟩ := exists_content_eq n
  have hle : k ≤ 32 := htight.least 32 (Nat.lt_trans h (by decide))
  rw [hcontent, Bytes.length_ofNatBE]
  omega

theorem lengthBytes_short (h : n < 128) : lengthBytes n = [UInt8.ofNat n] := if_pos h

theorem element_content (h : n < groupOrder) : element 0x02 (content n) = integer n := by
  have hlen := length_content_le h
  rw [element, lengthBytes_short (by omega)]
  rfl

theorem length_integer (n : Nat) : (integer n).length = (content n).length + 2 := rfl

/-- The body of a sequence is short enough for a length in one byte. -/
theorem length_body_le (sig : Signature) : (integer sig.r ++ integer sig.s).length ≤ 70 := by
  have hr := length_content_le sig.r_range.2
  have hs := length_content_le sig.s_range.2
  rw [List.length_append, length_integer, length_integer]
  omega

/-- A signature has one sequence, and that is what it is written as. -/
theorem isDer_iff : IsDer sig.r sig.s bytes ↔ bytes = sig.toDer := by
  have hform : element 0x30 (element 0x02 (content sig.r) ++ element 0x02 (content sig.s))
      = sig.toDer := by
    have hlen := sig.length_body_le
    rw [element_content sig.r_range.2, element_content sig.s_range.2, element,
      lengthBytes_short (by omega)]
    rfl
  rw [← hform]
  constructor
  · rintro ⟨first, second, hfirst, hsecond, rfl⟩
    rw [isContent_iff.mp hfirst, isContent_iff.mp hsecond]
  · rintro rfl
    exact ⟨_, _, isContent_iff.mpr rfl, isContent_iff.mpr rfl, rfl⟩

theorem toNatBE_scalar (h : n < groupOrder) : Bytes.toNatBE (Bytes.ofNatBE scalarSize n) = n := by
  rw [Bytes.toNatBE_ofNatBE]
  exact Nat.mod_eq_of_lt (Nat.lt_trans h (by decide))

/-- A signature has one raw form, and that is what it is written as. -/
theorem isRaw_iff : IsRaw sig.r sig.s bytes ↔ bytes = sig.toRaw := by
  constructor
  · intro h
    have hfront := Bytes.ofNatBE_toNatBE (bytes.take 32)
    have hback := Bytes.ofNatBE_toNatBE (bytes.drop 32)
    have hlen := h.length
    rw [h.first, List.length_take, Nat.min_eq_left (by omega)] at hfront
    rw [h.second, List.length_drop, hlen] at hback
    calc bytes = bytes.take 32 ++ bytes.drop 32 := (List.take_append_drop 32 bytes).symm
      _ = sig.toRaw := by rw [← hfront, ← hback]; rfl
  · rintro rfl
    have htake : sig.toRaw.take 32 = Bytes.ofNatBE scalarSize sig.r :=
      List.take_left' (by simp [scalarSize])
    have hdrop : sig.toRaw.drop 32 = Bytes.ofNatBE scalarSize sig.s :=
      List.drop_left' (by simp [scalarSize])
    refine ⟨by simp [toRaw, scalarSize], ?_, ?_⟩
    · rw [htake, toNatBE_scalar sig.r_range.2]
    · rw [hdrop, toNatBE_scalar sig.s_range.2]

/-! ## Reading is exact -/

theorem ofPair?_eq_some_iff : ofPair? r s = some sig ↔ r = sig.r ∧ s = sig.s := by
  unfold ofPair?
  constructor
  · intro h
    split at h
    · obtain rfl := Option.some.inj h
      exact ⟨rfl, rfl⟩
    · exact absurd h (by simp)
  · rintro ⟨rfl, rfl⟩
    rw [dif_pos ⟨sig.r_range, sig.s_range⟩]

theorem ofRaw?_eq_some_iff : ofRaw? bytes = some sig ↔ bytes = sig.toRaw := by
  rw [← isRaw_iff]
  unfold ofRaw?
  constructor
  · intro h
    split at h
    · rename_i hlen
      obtain ⟨hr, hs⟩ := ofPair?_eq_some_iff.mp h
      exact ⟨hlen, hr, hs⟩
    · exact absurd h (by simp)
  · intro h
    have hlen : bytes.length = 2 * scalarSize := h.length
    rw [if_pos hlen]
    exact ofPair?_eq_some_iff.mpr ⟨h.first, h.second⟩

/-- What is read as an integer is an integer as it is written, and then the rest. -/
theorem eq_integer_of_readInteger? (h : readInteger? bytes = some (n, rest)) :
    bytes = integer n ++ rest := by
  unfold readInteger? at h
  split at h
  · rename_i size tail
    dsimp only at h
    split at h
    · rename_i hfound
      obtain ⟨rfl, rfl⟩ := Prod.mk.inj (Option.some.inj h)
      obtain ⟨hcontent, hlen⟩ := hfound
      have hsize : UInt8.ofNat (content (Bytes.toNatBE (tail.take size.toNat))).length = size := by
        rw [← hcontent, hlen, UInt8.ofNat_toNat]
      rw [integer, hsize, ← hcontent]
      simp
    · exact absurd h (by simp)
  · exact absurd h (by simp)

theorem readInteger?_integer (hn : n < groupOrder) (rest : Bytes) :
    readInteger? (integer n ++ rest) = some (n, rest) := by
  have hlen := length_content_le hn
  have hsize : (UInt8.ofNat (content n).length).toNat = (content n).length := by
    rw [UInt8.toNat_ofNat']
    omega
  have htake : (content n ++ rest).take (content n).length = content n := List.take_left' rfl
  have hdrop : (content n ++ rest).drop (content n).length = rest := List.drop_left' rfl
  show readInteger? (0x02 :: UInt8.ofNat (content n).length :: (content n ++ rest)) = _
  rw [readInteger?, hsize, htake, hdrop, toNatBE_content]
  exact if_pos ⟨rfl, rfl⟩

/-- What is read as a sequence is the sequence as it is written. -/
theorem eq_toDer_of_ofDer? (h : ofDer? bytes = some sig) : bytes = sig.toDer := by
  unfold ofDer? at h
  split at h
  · rename_i size body
    split at h
    · rename_i hsize
      cases hfirst : readInteger? body with
      | none =>
          rw [hfirst] at h
          exact absurd h (by simp)
      | some found =>
          obtain ⟨r, rest⟩ := found
          rw [hfirst] at h
          dsimp only at h
          split at h
          · rename_i s hsecond
            obtain ⟨rfl, rfl⟩ := ofPair?_eq_some_iff.mp h
            -- both integers are read as they are written, and nothing is left after them
            have hbody : body = integer sig.r ++ integer sig.s := by
              rw [eq_integer_of_readInteger? hfirst, eq_integer_of_readInteger? hsecond,
                List.append_nil]
            show 0x30 :: size :: body
              = 0x30 :: UInt8.ofNat (integer sig.r ++ integer sig.s).length
                  :: (integer sig.r ++ integer sig.s)
            rw [← hbody, ← hsize, UInt8.ofNat_toNat]
          · exact absurd h (by simp)
    · exact absurd h (by simp)
  · exact absurd h (by simp)

theorem ofDer?_toDer (sig : Signature) : ofDer? sig.toDer = some sig := by
  have hlen := sig.length_body_le
  have hsize : (UInt8.ofNat (integer sig.r ++ integer sig.s).length).toNat
      = (integer sig.r ++ integer sig.s).length := by
    rw [UInt8.toNat_ofNat']
    omega
  have hsecond : readInteger? (integer sig.s) = some (sig.s, []) := by
    have h := readInteger?_integer sig.s_range.2 []
    rwa [List.append_nil] at h
  show ofDer? (0x30 :: UInt8.ofNat (integer sig.r ++ integer sig.s).length
    :: (integer sig.r ++ integer sig.s)) = some sig
  rw [ofDer?, if_pos hsize, readInteger?_integer sig.r_range.2]
  dsimp only
  rw [hsecond]
  exact ofPair?_eq_some_iff.mpr ⟨rfl, rfl⟩

theorem ofDer?_eq_some_iff : ofDer? bytes = some sig ↔ bytes = sig.toDer := by
  constructor
  · exact eq_toDer_of_ofDer?
  · rintro rfl
    exact ofDer?_toDer sig

theorem ofBytes?_eq_some_iff {form : SignatureForm} :
    ofBytes? form bytes = some sig ↔ bytes = sig.toBytes form := by
  cases form with
  | raw => exact ofRaw?_eq_some_iff
  | der => exact ofDer?_eq_some_iff

/-! ## From one form to the other -/

theorem recoded (sig : Signature) : Recoded sig.toRaw sig.toDer :=
  ⟨sig.r, sig.s, isRaw_iff.mpr rfl, isDer_iff.mpr rfl⟩

/-- The raw form of a signature leads to the signature's sequence. -/
theorem recoded_toRaw_iff : Recoded sig.toRaw b ↔ b = sig.toDer := by
  constructor
  · rintro ⟨r, s, hraw, hder⟩
    have hown : IsRaw sig.r sig.s sig.toRaw := isRaw_iff.mpr rfl
    obtain rfl : sig.r = r := hown.first.symm.trans hraw.first
    obtain rfl : sig.s = s := hown.second.symm.trans hraw.second
    exact isDer_iff.mp hder
  · rintro rfl
    exact sig.recoded

/-- Two signatures with the same sequence are the same. -/
theorem toDer_inj {other : Signature} (h : sig.toDer = other.toDer) : sig = other := by
  have hread := ofDer?_toDer sig
  rw [h, ofDer?_toDer] at hread
  exact (Option.some.inj hread).symm

end Curve.P256.Signature
end PooledCrypto
