import PooledCrypto.FileTool.Enciphering

/-!
# Keys as text

A key is printed in Base64 and comes back as an argument, perhaps with blanks around it. Reading is
strict, so there is one Base64 text for each string of bytes and no other (`decode_eq_ok_iff`). What
a key can be given as is that text between blanks (`Spells`), and what is not of this form is
refused.

The last group is where reading and writing look least alike: it is scanned symbol by symbol, and
what was found decides afterwards. `scanLast_eq_ok` says what there can have been.
-/

namespace PooledCrypto.Base64

/-! ## Symbols -/

theorem value?_symbol {n : Nat} (h : n < 64) : value? (symbol n) = some n := by
  have hall : ∀ n : Fin 64, value? (symbol n) = some n.val := by decide
  exact hall ⟨n, h⟩

theorem symbol_ne_pad {n : Nat} (h : n < 64) : symbol n ≠ pad := by
  have hall : ∀ n : Fin 64, symbol n ≠ pad := by decide
  exact hall ⟨n, h⟩

theorem ofNat_eq {n : Nat} {b : UInt8} (h : n = b.toNat) : UInt8.ofNat n = b := by
  rw [h, UInt8.ofNat_toNat]

/-- Only the symbol of a number stands for it. -/
theorem symbol_of_value? {b : UInt8} {n : Nat} (h : value? b = some n) : n < 64 ∧ symbol n = b := by
  unfold value? at h
  dsimp only at h
  -- capitals, small letters, digits, and then the two signs
  split at h
  · obtain rfl := Option.some.inj h
    rw [symbol, if_pos (by omega)]
    exact ⟨by omega, ofNat_eq (by omega)⟩
  split at h
  · obtain rfl := Option.some.inj h
    rw [symbol, if_neg (by omega), if_pos (by omega)]
    exact ⟨by omega, ofNat_eq (by omega)⟩
  split at h
  · obtain rfl := Option.some.inj h
    rw [symbol, if_neg (by omega), if_neg (by omega), if_pos (by omega)]
    exact ⟨by omega, ofNat_eq (by omega)⟩
  split at h
  · rename_i hplus
    obtain rfl := Option.some.inj h
    exact ⟨by omega, UInt8.toNat_inj.mp hplus.symm⟩
  split at h
  · rename_i hslash
    obtain rfl := Option.some.inj h
    exact ⟨by omega, UInt8.toNat_inj.mp hslash.symm⟩
  · exact absurd h (by simp)

theorem toNat_ofNat {n : Nat} (h : n < 256) : (UInt8.ofNat n).toNat = n :=
  UInt8.toNat_ofNat_of_lt' h

/-! ## Full groups -/

theorem decodeGroup_symbols (offset : Nat) {a b c d : Nat} (ha : a < 64) (hb : b < 64)
    (hc : c < 64) (hd : d < 64) :
    decodeGroup offset (symbol a) (symbol b) (symbol c) (symbol d)
      = .ok [UInt8.ofNat (a * 4 + b / 16), UInt8.ofNat (b % 16 * 16 + c / 4),
          UInt8.ofNat (c % 4 * 64 + d)] := by
  simp only [decodeGroup, valueAt, value?_symbol ha, value?_symbol hb, value?_symbol hc,
    value?_symbol hd]
  rfl

theorem valueAt_eq_ok {b : UInt8} {offset n : Nat} (h : valueAt b offset = .ok n) :
    n < 64 ∧ symbol n = b := by
  unfold valueAt at h
  cases hv : value? b with
  | none => simp [hv] at h
  | some m =>
      rw [hv] at h
      obtain rfl := Except.ok.inj h
      exact symbol_of_value? hv

/-- A group that is read consists of four symbols. -/
theorem decodeGroup_eq_ok {offset : Nat} {w x y z : UInt8} {bytes : Bytes}
    (h : decodeGroup offset w x y z = .ok bytes) :
    ∃ a b c d, a < 64 ∧ b < 64 ∧ c < 64 ∧ d < 64
      ∧ w = symbol a ∧ x = symbol b ∧ y = symbol c ∧ z = symbol d
      ∧ bytes = [UInt8.ofNat (a * 4 + b / 16), UInt8.ofNat (b % 16 * 16 + c / 4),
          UInt8.ofNat (c % 4 * 64 + d)] := by
  unfold decodeGroup at h
  cases hw : valueAt w offset with
  | error f => simp [hw, bind, Except.bind] at h
  | ok a =>
  cases hx : valueAt x (offset + 1) with
  | error f => simp [hw, hx, bind, Except.bind] at h
  | ok b =>
  cases hy : valueAt y (offset + 2) with
  | error f => simp [hw, hx, hy, bind, Except.bind] at h
  | ok c =>
  cases hz : valueAt z (offset + 3) with
  | error f => simp [hw, hx, hy, hz, bind, Except.bind] at h
  | ok d =>
  rw [hw, hx, hy, hz] at h
  obtain rfl := Except.ok.inj h
  obtain ⟨ha, rfl⟩ := valueAt_eq_ok hw
  obtain ⟨hb, rfl⟩ := valueAt_eq_ok hx
  obtain ⟨hc, rfl⟩ := valueAt_eq_ok hy
  obtain ⟨hd, rfl⟩ := valueAt_eq_ok hz
  exact ⟨a, b, c, d, ha, hb, hc, hd, rfl, rfl, rfl, rfl, rfl⟩

/-- The three bytes of four symbols are written as those symbols. -/
theorem encode_group {a b c d : Nat} (ha : a < 64) (hb : b < 64) (hc : c < 64) (hd : d < 64)
    (rest : Bytes) :
    encode (UInt8.ofNat (a * 4 + b / 16) :: UInt8.ofNat (b % 16 * 16 + c / 4)
        :: UInt8.ofNat (c % 4 * 64 + d) :: rest)
      = symbol a :: symbol b :: symbol c :: symbol d :: encode rest := by
  rw [encode, toNat_ofNat (by omega), toNat_ofNat (by omega),
    toNat_ofNat (by omega)]
  have h1 : (a * 4 + b / 16) / 4 = a := by omega
  have h2 : (a * 4 + b / 16) % 4 * 16 + (b % 16 * 16 + c / 4) / 16 = b := by omega
  have h3 : (b % 16 * 16 + c / 4) % 16 * 4 + (c % 4 * 64 + d) / 64 = c := by omega
  have h4 : (c % 4 * 64 + d) % 64 = d := by omega
  rw [h1, h2, h3, h4]

/-- Any three bytes are those of four symbols. -/
theorem exists_group (x y z : UInt8) :
    ∃ a b c d, a < 64 ∧ b < 64 ∧ c < 64 ∧ d < 64 ∧ UInt8.ofNat (a * 4 + b / 16) = x
      ∧ UInt8.ofNat (b % 16 * 16 + c / 4) = y ∧ UInt8.ofNat (c % 4 * 64 + d) = z := by
  have hx := x.toNat_lt
  have hy := y.toNat_lt
  have hz := z.toNat_lt
  refine ⟨x.toNat / 4, x.toNat % 4 * 16 + y.toNat / 16, y.toNat % 16 * 4 + z.toNat / 64,
    z.toNat % 64, by omega, by omega, by omega, by omega, ?_, ?_, ?_⟩
  · exact ofNat_eq (by omega)
  · exact ofNat_eq (by omega)
  · exact ofNat_eq (by omega)

/-! ## The last group -/

/-- Pads are counted where they may stand. -/
theorem scanLast_pads (offset : Nat) (symbols : List (UInt8 × Nat)) (k : Nat) :
    ∀ place pads, 2 ≤ place ∨ k = 0 →
      scanLast offset (List.replicate k pad) place symbols pads = .ok (symbols, pads + k) := by
  induction k with
  | zero =>
      intro place pads _
      rfl
  | succ k ih =>
      intro place pads hplace
      have htwo : ¬place < 2 := by omega
      rw [List.replicate_succ, scanLast, if_pos rfl, if_neg htwo, ih _ _ (by omega)]
      congr 2
      omega

/-- Symbols are found with their numbers, and after them the pads. -/
theorem scanLast_symbols (offset : Nat) (ns : List Nat) (hns : ∀ n ∈ ns, n < 64) (k : Nat) :
    ∀ place symbols, 2 ≤ place + ns.length ∨ k = 0 →
      scanLast offset (ns.map symbol ++ List.replicate k pad) place symbols 0
        = .ok (symbols ++ ns.map fun n => (symbol n, n), k) := by
  induction ns with
  | nil =>
      intro place symbols hplace
      rw [List.map_nil, List.nil_append, scanLast_pads offset symbols k place 0 hplace]
      simp
  | cons n ns ih =>
      intro place symbols hplace
      have hn := hns n List.mem_cons_self
      have hlen : 2 ≤ place + 1 + ns.length ∨ k = 0 := by
        rw [List.length_cons] at hplace
        omega
      rw [List.map_cons, List.cons_append, scanLast, if_neg (symbol_ne_pad hn),
        if_neg (Nat.lt_irrefl 0), value?_symbol hn]
      dsimp only
      rw [ih (fun m hm => hns m (List.mem_cons_of_mem n hm)) _ _ hlen, List.map_cons,
        List.append_assoc, List.singleton_append]

/-- What is scanned without fault is symbols and then pads. -/
theorem scanLast_eq_ok {offset : Nat} {group : Bytes} {found : List (UInt8 × Nat)} {count : Nat} :
    ∀ {place symbols pads}, scanLast offset group place symbols pads = .ok (found, count) →
      ∃ ns k, (∀ n ∈ ns, n < 64) ∧ group = ns.map symbol ++ List.replicate k pad
        ∧ found = symbols ++ ns.map (fun n => (symbol n, n)) ∧ count = pads + k
        ∧ (0 < pads → ns = []) := by
  induction group with
  | nil =>
      intro place symbols pads h
      obtain ⟨rfl, rfl⟩ := Prod.mk.inj (Except.ok.inj h)
      exact ⟨[], 0, by simp, rfl, by simp, rfl, fun _ => rfl⟩
  | cons b rest ih =>
      intro place symbols pads h
      rw [scanLast] at h
      by_cases hb : b = pad
      · rw [if_pos hb] at h
        split at h
        · exact absurd h (by simp)
        · obtain ⟨ns, k, -, hgroup, hfound, hcount, hnil⟩ := ih h
          -- after a pad there are pads only, so the symbols have come to an end
          obtain rfl := hnil (Nat.succ_pos pads)
          refine ⟨[], k + 1, by simp, ?_, hfound, by omega, fun _ => rfl⟩
          rw [hb, hgroup]
          rfl
      · rw [if_neg hb] at h
        split at h
        · exact absurd h (by simp)
        · rename_i hpads
          cases hv : value? b with
          | none =>
              rw [hv] at h
              exact absurd h (by simp)
          | some n =>
              rw [hv] at h
              obtain ⟨hn, rfl⟩ := symbol_of_value? hv
              obtain ⟨ns, k, hns, hgroup, hfound, hcount, -⟩ := ih h
              refine ⟨n :: ns, k, ?_, ?_, ?_, hcount, fun hpos => absurd hpos hpads⟩
              · simpa [hn] using hns
              · rw [hgroup]
                rfl
              · rw [hfound, List.map_cons, List.append_assoc, List.singleton_append]

/-- A last byte is written as two symbols, and the second one has no bits left over. -/
theorem decodeLast_one (offset : Nat) (a : UInt8) : decodeLast offset (encode [a]) = .ok [a] := by
  have ha := a.toNat_lt
  have hscan := scanLast_symbols offset [a.toNat / 4, a.toNat % 4 * 16]
    (by intro n hn; simp at hn; omega) 2 0 [] (by simp)
  have hgroup : encode [a]
      = [a.toNat / 4, a.toNat % 4 * 16].map symbol ++ List.replicate 2 pad := rfl
  have hzero : a.toNat % 4 * 16 % 16 = 0 := by omega
  have hsame : a.toNat / 4 * 4 + a.toNat % 4 * 16 / 16 = a.toNat := by omega
  rw [decodeLast, hgroup, hscan]
  simp only [List.nil_append, List.map_cons, List.map_nil, bind, Except.bind]
  rw [if_neg (by simp), if_neg (by simp [hzero]), ofNat_eq hsame]
  rfl

theorem decodeLast_two (offset : Nat) (a b : UInt8) :
    decodeLast offset (encode [a, b]) = .ok [a, b] := by
  have ha := a.toNat_lt
  have hb := b.toNat_lt
  have hscan := scanLast_symbols offset
    [a.toNat / 4, a.toNat % 4 * 16 + b.toNat / 16, b.toNat % 16 * 4]
    (by intro n hn; simp at hn; omega) 1 0 [] (by simp)
  have hgroup : encode [a, b]
      = [a.toNat / 4, a.toNat % 4 * 16 + b.toNat / 16, b.toNat % 16 * 4].map symbol
        ++ List.replicate 1 pad := rfl
  have hzero : b.toNat % 16 * 4 % 4 = 0 := by omega
  have hfirst : a.toNat / 4 * 4 + (a.toNat % 4 * 16 + b.toNat / 16) / 16 = a.toNat := by omega
  have hsecond : (a.toNat % 4 * 16 + b.toNat / 16) % 16 * 16 + b.toNat % 16 * 4 / 4 = b.toNat := by
    omega
  rw [decodeLast, hgroup, hscan]
  simp only [List.nil_append, List.map_cons, List.map_nil, bind, Except.bind]
  rw [if_neg (by simp), if_neg (by simp [hzero]), ofNat_eq hfirst, ofNat_eq hsecond]
  rfl

/-- A full group that is the last one is read like any other. -/
theorem decodeLast_symbols (offset : Nat) {a b c d : Nat} (ha : a < 64) (hb : b < 64)
    (hc : c < 64) (hd : d < 64) :
    decodeLast offset [symbol a, symbol b, symbol c, symbol d]
      = .ok [UInt8.ofNat (a * 4 + b / 16), UInt8.ofNat (b % 16 * 16 + c / 4),
          UInt8.ofNat (c % 4 * 64 + d)] := by
  have hscan := scanLast_symbols offset [a, b, c, d]
    (by intro n hn; simp at hn; omega) 0 0 [] (by simp)
  have hgroup : [symbol a, symbol b, symbol c, symbol d]
      = [a, b, c, d].map symbol ++ List.replicate 0 pad := rfl
  rw [decodeLast, hgroup, hscan]
  rfl

/-- A group at the end is the text of what is read from it. -/
theorem decodeLast_eq_ok {offset : Nat} {group raw : Bytes} (hlen : group.length ≤ 4)
    (h : decodeLast offset group = .ok raw) : group = encode raw := by
  unfold decodeLast at h
  cases hscan : scanLast offset group 0 [] 0 with
  | error f =>
      rw [hscan] at h
      exact absurd h (by simp [bind, Except.bind])
  | ok scanned =>
      obtain ⟨found, count⟩ := scanned
      rw [hscan] at h
      obtain ⟨ns, k, hns, rfl, rfl, rfl, -⟩ := scanLast_eq_ok hscan
      -- what is done with the symbols goes by their number; one of them makes no byte
      match ns with
      | [] =>
          simp only [List.nil_append, List.map_nil, bind, Except.bind] at h
          split at h
          · rename_i hnil
            obtain rfl := Except.ok.inj h
            exact hnil
          · exact absurd h (by simp [throw, throwThe, MonadExceptOf.throw])
      | [_] => exact absurd h (by simp [bind, Except.bind, throw, throwThe, MonadExceptOf.throw])
      | [a, b] =>
          have ha : a < 64 := hns a (by simp)
          have hb : b < 64 := hns b (by simp)
          simp only [List.nil_append, List.map_cons, List.map_nil, bind, Except.bind] at h
          split at h
          · exact absurd h (by simp [throw, throwThe, MonadExceptOf.throw])
          split at h
          · exact absurd h (by simp [throw, throwThe, MonadExceptOf.throw])
          · rename_i hpads hzero
            obtain rfl := Except.ok.inj h
            have hk : k = 2 := by omega
            have h1 : (a * 4 + b / 16) / 4 = a := by omega
            have h2 : (a * 4 + b / 16) % 4 * 16 = b := by omega
            rw [hk, encode, toNat_ofNat (by omega), h1, h2]
            rfl
      | [a, b, c] =>
          have ha : a < 64 := hns a (by simp)
          have hb : b < 64 := hns b (by simp)
          have hc : c < 64 := hns c (by simp)
          simp only [List.nil_append, List.map_cons, List.map_nil, bind, Except.bind] at h
          split at h
          · exact absurd h (by simp [throw, throwThe, MonadExceptOf.throw])
          split at h
          · exact absurd h (by simp [throw, throwThe, MonadExceptOf.throw])
          · rename_i hpads hzero
            obtain rfl := Except.ok.inj h
            have hk : k = 1 := by omega
            have h1 : (a * 4 + b / 16) / 4 = a := by omega
            have h2 : (a * 4 + b / 16) % 4 * 16 + (b % 16 * 16 + c / 4) / 16 = b := by omega
            have h3 : (b % 16 * 16 + c / 4) % 16 * 4 = c := by omega
            rw [hk, encode, toNat_ofNat (by omega), toNat_ofNat (by omega), h1, h2, h3]
            rfl
      | a :: b :: c :: d :: more =>
          have ha : a < 64 := hns a (by simp)
          have hb : b < 64 := hns b (by simp)
          have hc : c < 64 := hns c (by simp)
          have hd : d < 64 := hns d (by simp)
          obtain rfl := Except.ok.inj h
          -- four symbols leave no room for more of them, nor for pads
          simp only [List.length_append, List.length_map, List.length_cons,
            List.length_replicate] at hlen
          have hmore : more = [] := List.eq_nil_of_length_eq_zero (by omega)
          have hk : k = 0 := by omega
          rw [hmore, hk, encode_group ha hb hc hd]
          rfl

/-! ## Whole texts -/

theorem decodeGroups_encode (raw : Bytes) :
    ∀ offset, decodeGroups offset (encode raw) = .ok raw := by
  induction raw using encode.induct with
  | case1 x y z rest ih =>
      intro offset
      obtain ⟨a, b, c, d, ha, hb, hc, hd, rfl, rfl, rfl⟩ := exists_group x y z
      rw [encode_group ha hb hc hd]
      -- if nothing follows, these four are scanned as the last group
      cases hrest : encode rest with
      | nil =>
          have hnil : rest = [] := by
            have hdone := ih offset
            rw [hrest] at hdone
            exact (Except.ok.inj hdone).symm
          rw [hnil]
          exact decodeLast_symbols offset ha hb hc hd
      | cons next more =>
          rw [decodeGroups, decodeGroup_symbols offset ha hb hc hd, ← hrest, ih]
          rfl
  | case2 x y =>
      intro offset
      exact decodeLast_two offset x y
  | case3 x =>
      intro offset
      exact decodeLast_one offset x
  | case4 =>
      intro offset
      rfl

theorem decodeGroups_eq_ok {offset : Nat} {text : Bytes} :
    ∀ {raw}, decodeGroups offset text = .ok raw → text = encode raw := by
  induction offset, text using decodeGroups.induct with
  | case1 offset w x y z next rest ih =>
      intro raw h
      rw [decodeGroups] at h
      cases hgroup : decodeGroup offset w x y z with
      | error f =>
          rw [hgroup] at h
          exact absurd h (by simp [bind, Except.bind])
      | ok bytes =>
      cases hmore : decodeGroups (offset + 4) (next :: rest) with
      | error f =>
          rw [hgroup, hmore] at h
          exact absurd h (by simp [bind, Except.bind])
      | ok more =>
      rw [hgroup, hmore] at h
      obtain rfl := Except.ok.inj h
      obtain ⟨a, b, c, d, ha, hb, hc, hd, rfl, rfl, rfl, rfl, rfl⟩ := decodeGroup_eq_ok hgroup
      rw [ih hmore]
      exact (encode_group ha hb hc hd more).symm
  | case2 offset last hshort =>
      intro raw h
      -- what is not split any more has four bytes at most
      have hlen : last.length ≤ 4 := by
        match last, hshort with
        | [], _ | [_], _ | [_, _], _ | [_, _, _], _ | [_, _, _, _], _ => simp
        | w :: x :: y :: z :: next :: rest, hshort => exact absurd rfl (hshort w x y z next rest)
      rw [decodeGroups] at h
      · exact decodeLast_eq_ok hlen h
      · exact hshort

theorem length_encode_mod (raw : Bytes) : (encode raw).length % 4 = 0 := by
  induction raw using encode.induct with
  | case1 x y z rest ih =>
      simp only [encode, List.length_cons]
      omega
  | case2 => simp [encode]
  | case3 => simp [encode]
  | case4 => rfl

/-- **Base64.** Bytes have one text, and it is read as no other bytes. -/
theorem decode_eq_ok_iff {text raw : Bytes} : decode text = .ok raw ↔ text = encode raw := by
  constructor
  · intro h
    unfold decode at h
    split at h
    · split at h
      · exact absurd h (by simp)
      · exact decodeGroups_eq_ok h
    · rename_i hnone
      obtain rfl := Except.ok.inj h
      exact List.getLast?_eq_none_iff.mp hnone
  · rintro rfl
    -- a text that is written never ends in a group of one, which is refused at once
    have hmod := length_encode_mod raw
    unfold decode
    split
    · rw [if_neg (by omega)]
      exact decodeGroups_encode raw 0
    · rename_i hnone
      have hdone := decodeGroups_encode raw 0
      rw [List.getLast?_eq_none_iff.mp hnone] at hdone
      exact hdone

/-- What is written consists of symbols and pads. -/
theorem forall_mem_encode {P : UInt8 → Prop} (hpad : P pad) (hsymbol : ∀ n < 64, P (symbol n))
    (raw : Bytes) : ∀ b ∈ encode raw, P b := by
  induction raw using encode.induct with
  | case1 x y z rest ih =>
      obtain ⟨a, b, c, d, ha, hb, hc, hd, rfl, rfl, rfl⟩ := exists_group x y z
      rw [encode_group ha hb hc hd]
      simpa [hsymbol a ha, hsymbol b hb, hsymbol c hc, hsymbol d hd] using ih
  | case2 x y =>
      have hx := x.toNat_lt
      have hy := y.toNat_lt
      simp [encode, hpad, hsymbol (x.toNat / 4) (by omega),
        hsymbol (x.toNat % 4 * 16 + y.toNat / 16) (by omega),
        hsymbol (y.toNat % 16 * 4) (by omega)]
  | case3 x =>
      have hx := x.toNat_lt
      simp [encode, hpad, hsymbol (x.toNat / 4) (by omega), hsymbol (x.toNat % 4 * 16) (by omega)]
  | case4 => simp [encode]

end PooledCrypto.Base64

namespace PooledCrypto

/-! ## Texts as bytes -/

theorem Bytes.toList_loop (b : ByteArray) (i : Nat) (acc : List UInt8) :
    ByteArray.toList.loop b i acc = acc.reverse ++ b.data.toList.drop i := by
  induction i, acc using ByteArray.toList.loop.induct b with
  | case1 i acc hi ih =>
      have hlt : i < b.data.toList.length := hi
      have hget : b.get! i = b.data.toList[i] := getElem!_pos b.data i hi
      rw [ByteArray.toList.loop, if_pos hi, ih, List.drop_eq_getElem_cons hlt, hget,
        List.reverse_cons, List.append_assoc, List.singleton_append]
  | case2 i acc hi =>
      have hle : b.data.toList.length ≤ i := Nat.le_of_not_lt hi
      rw [ByteArray.toList.loop, if_neg hi, List.drop_eq_nil_of_le hle, List.append_nil]

theorem Bytes.ofText_eq (text : String) : Bytes.ofText text = text.toByteArray.data.toList :=
  Bytes.toList_loop text.toByteArray 0 []

/-- A text is known by its bytes. -/
theorem Bytes.ofText_injective {a b : String} (h : Bytes.ofText a = Bytes.ofText b) : a = b := by
  rw [Bytes.ofText_eq, Bytes.ofText_eq] at h
  exact String.toByteArray_inj.mp (ByteArray.ext (Array.toList_inj.mp h))

/-- The text of bytes below 128 has those bytes. -/
theorem Bytes.ofText_ofList {bytes : Bytes} (h : ∀ b ∈ bytes, b.toNat < 128) :
    Bytes.ofText (String.ofList (bytes.map fun b => Char.ofNat b.toNat)) = bytes := by
  rw [Bytes.ofText_eq, String.toByteArray_ofList, List.utf8Encode, List.data_toByteArray]
  show (bytes.map fun b => Char.ofNat b.toNat).flatMap String.utf8EncodeChar = bytes
  induction bytes with
  | nil => rfl
  | cons b rest ih =>
      have hb : b.toNat < 128 := h b List.mem_cons_self
      have hchar : String.utf8EncodeChar (Char.ofNat b.toNat) = [b] := by
        have hall : ∀ k : Fin 128, String.utf8EncodeChar (Char.ofNat k) = [UInt8.ofNat k] := by
          decide
        rw [← UInt8.ofNat_toNat (x := b)]
        simpa using hall ⟨b.toNat, hb⟩
      rw [List.map_cons, List.flatMap_cons, hchar, ih fun c hc => h c (List.mem_cons_of_mem b hc)]
      rfl

end PooledCrypto

namespace PooledCrypto.FileTool

/-! ## Keys as they are given -/

/-- A text that the bytes of a key can be given as: Base64, perhaps with blanks around it. -/
def Spells (text : String) (raw : Bytes) : Prop :=
  ∃ before after : List Char, (∀ c ∈ before, Text.isBlank c = true)
    ∧ (∀ c ∈ after, Text.isBlank c = true)
    ∧ text.toList = before ++ (base64Text raw).toList ++ after

theorem ofText_base64Text (raw : Bytes) : Bytes.ofText (base64Text raw) = Base64.encode raw := by
  refine Bytes.ofText_ofList (Base64.forall_mem_encode (by decide) (fun n hn => ?_) raw)
  have hall : ∀ n : Fin 64, (Base64.symbol n).toNat < 128 := by decide
  exact hall ⟨n, hn⟩

/-- No symbol is a blank. -/
theorem not_isBlank_of_mem {raw : Bytes} {c : Char} (h : c ∈ (base64Text raw).toList) :
    Text.isBlank c = false := by
  rw [base64Text, String.toList_ofList, List.mem_map] at h
  obtain ⟨b, hb, rfl⟩ := h
  revert b
  refine Base64.forall_mem_encode (by decide) (fun n hn => ?_) raw
  have hall : ∀ n : Fin 64, Text.isBlank (Char.ofNat (Base64.symbol n).toNat) = false := by decide
  exact hall ⟨n, hn⟩

theorem dropWhile_isBlank {front kept : List Char} (hfront : ∀ c ∈ front, Text.isBlank c = true)
    (hkept : ∀ c ∈ kept, Text.isBlank c = false) (hne : kept ≠ []) (rest : List Char) :
    (front ++ (kept ++ rest)).dropWhile Text.isBlank = kept ++ rest := by
  rw [List.dropWhile_append_of_pos hfront]
  cases kept with
  | nil => exact absurd rfl hne
  | cons c kept =>
      have hc := hkept c List.mem_cons_self
      rw [List.cons_append, List.dropWhile_cons_of_neg (by simp [hc])]

/-- What is left of a text without the blanks at its ends, if it has none inside. -/
theorem trimmed_eq_iff {text kept : String} (hkept : ∀ c ∈ kept.toList, Text.isBlank c = false) :
    Text.trimmed text = kept ↔ ∃ before after : List Char,
      (∀ c ∈ before, Text.isBlank c = true) ∧ (∀ c ∈ after, Text.isBlank c = true)
        ∧ text.toList = before ++ kept.toList ++ after := by
  constructor
  · rintro rfl
    -- the blanks are taken off in front, and off the rest from behind
    have hback := List.takeWhile_append_dropWhile
      (p := Text.isBlank) (l := (text.toList.dropWhile Text.isBlank).reverse)
    have hsplit := List.takeWhile_append_dropWhile (p := Text.isBlank) (l := text.toList)
    refine ⟨text.toList.takeWhile Text.isBlank,
      ((text.toList.dropWhile Text.isBlank).reverse.takeWhile Text.isBlank).reverse,
      fun c hc => List.all_eq_true.mp List.all_takeWhile c hc,
      fun c hc => List.all_eq_true.mp List.all_takeWhile c (List.mem_reverse.mp hc), ?_⟩
    rw [Text.trimmed, String.toList_ofList, List.append_assoc, ← List.reverse_append, hback,
      List.reverse_reverse, hsplit]
  · rintro ⟨before, after, hbefore, hafter, htext⟩
    unfold Text.trimmed
    rw [htext]
    by_cases hnil : kept.toList = []
    · -- all of it is blank, so nothing is left for the second end
      have hall : ∀ c ∈ before ++ after, Text.isBlank c = true :=
        fun c hc => (List.mem_append.mp hc).elim (hbefore c) (hafter c)
      have hblank : (before ++ after).dropWhile Text.isBlank = [] := by
        have hdrop : (before ++ after ++ []).dropWhile Text.isBlank = [].dropWhile Text.isBlank :=
          List.dropWhile_append_of_pos hall
        rwa [List.append_nil] at hdrop
      have hempty : kept = String.ofList [] := by rw [← hnil, String.ofList_toList]
      rw [hnil, List.append_nil, hblank, hempty]
      rfl
    · have hnil' : kept.toList.reverse ≠ [] := fun h => hnil (List.reverse_eq_nil_iff.mp h)
      have hafter' : ∀ c ∈ after.reverse, Text.isBlank c = true :=
        fun c hc => hafter c (List.mem_reverse.mp hc)
      have hkept' : ∀ c ∈ kept.toList.reverse, Text.isBlank c = false :=
        fun c hc => hkept c (List.mem_reverse.mp hc)
      have hback := dropWhile_isBlank hafter' hkept' hnil' []
      rw [List.append_nil] at hback
      rw [List.append_assoc, dropWhile_isBlank hbefore hkept hnil]
      dsimp only
      rw [List.reverse_append, hback, List.reverse_reverse, String.ofList_toList]

/-- **Keys.** A text is read as bytes exactly if it spells them. -/
theorem decode_trimmed_iff {text : String} {raw : Bytes} :
    Base64.decode (Bytes.ofText (Text.trimmed text)) = .ok raw ↔ Spells text raw := by
  rw [Base64.decode_eq_ok_iff, ← ofText_base64Text]
  constructor
  · intro h
    exact (trimmed_eq_iff fun _ => not_isBlank_of_mem).mp (Bytes.ofText_injective h)
  · intro h
    rw [(trimmed_eq_iff fun _ => not_isBlank_of_mem).mpr h]

/-- A text spells no more than one string of bytes. -/
theorem Spells.unique {text : String} {raw raw' : Bytes} (h : Spells text raw)
    (h' : Spells text raw') : raw = raw' := by
  have hread := decode_trimmed_iff.mpr h
  rw [decode_trimmed_iff.mpr h'] at hread
  exact (Except.ok.inj hread).symm

/-- Sixteen zero bytes, between a space and the end of a line. -/
example : Spells " AAAAAAAAAAAAAAAAAAAAAA==\n" (Bytes.zeros 16) :=
  ⟨[' '], ['\n'], List.forall_mem_singleton.mpr rfl, List.forall_mem_singleton.mpr rfl, rfl⟩

end PooledCrypto.FileTool
