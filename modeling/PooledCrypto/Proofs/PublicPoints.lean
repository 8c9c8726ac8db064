import PooledCrypto.Proofs.GroupLaw

/-!
# Public points and their encodings

Every private key has a public key, since no multiple of the base point by a number in range is
infinity. The public key is the multiple in coordinates (`PrivateKey.publicKey?_eq_some_iff`).

A point is read from its two coordinates in full, and from the first one with a mark for the second
one. `Encodes` lists these encodings. All of them are read as the one key (`ofBytes_of_encodes`),
for the root that is computed is the second coordinate or its negative, and the mark tells the two
apart. Nothing else is read as the public key of a private key (`ofBytes_eq_ok_iff`).
-/

namespace PooledCrypto.Curve.P256

variable {x y root : Coordinate} {g : Element} {bytes : Bytes}

namespace PublicKey

variable {key other : PublicKey} {c : Choice}

/-! ## Keys and elements of the group -/

/-- The element of the group that the key is. -/
def element (key : PublicKey) : Element := .some _ _ (onCurve_iff.mp key.on_curve)

theorem pointOf_element (key : PublicKey) : pointOf key.element = key.point := pointOf_some _

theorem point_injective : Function.Injective point := by
  rintro ⟨x, y, h⟩ ⟨x', y', h'⟩ heq
  obtain ⟨rfl, rfl⟩ := Point.affine.inj heq
  rfl

theorem ofPoint?_eq_some_iff {p : Point} : ofPoint? p = some key ↔ key.point = p := by
  constructor
  · intro h
    unfold ofPoint? at h
    split at h
    · exact absurd h (by simp)
    · split at h
      · obtain rfl := Option.some.inj h
        rfl
      · exact absurd h (by simp)
  · rintro rfl
    exact dif_pos key.on_curve

/-- An element other than zero is a key. -/
theorem exists_element_eq (hg : g ≠ 0) : ∃ key : PublicKey, key.element = g := by
  obtain ⟨x, y, h, rfl⟩ := exists_affine hg
  exact ⟨⟨x, y, onCurve_iff.mpr h⟩, rfl⟩

/-! ## Which root is picked -/

/-- Whether a choice is the one that means a second coordinate. -/
def Choice.Means (c : Choice) (y : Coordinate) : Prop :=
  match c with
  | .even => y.val % 2 = 0
  | .odd => y.val % 2 = 1
  | .smaller => y.val ≤ (-y).val

theorem val_neg (y : Coordinate) (hy : y ≠ coordinate 0) : (-y).val = fieldOrder - y.val := by
  have hpos : 0 < y.val := Nat.pos_of_ne_zero fun hzero => hy (Fin.ext hzero)
  rw [Fin.neg_def]
  exact Nat.mod_eq_of_lt (by omega)

theorem neg_coordinate (y : Coordinate) : -(-y) = y :=
  residueClass_injective (by rw [residueClass_neg, residueClass_neg, neg_neg])

theorem neg_coordinate_zero : -coordinate 0 = coordinate 0 := by decide

/-- Of two values that are each other's negatives, a choice picks the one that it means. -/
theorem pick_eq (hroot : root = y ∨ root = -y) (hc : c.Means y) : c.pick root = y := by
  by_cases hzero : y = coordinate 0
  · have hsame : root = y := by
      rcases hroot with h | h
      · exact h
      · rw [h, hzero, neg_coordinate_zero]
    subst hsame hzero
    unfold Choice.pick
    rw [neg_coordinate_zero]
    cases c <;> exact ite_self _
  · have hneg := val_neg y hzero
    have hlt := y.isLt
    -- the order is odd, so of a value and its negative one is even and one is odd
    have hodd : fieldOrder % 2 = 1 := by decide
    rcases hroot with rfl | rfl
    · cases c <;> exact if_pos hc
    · have hback := neg_coordinate y
      cases c with
      | even =>
          have hnot : ¬ (-y).val % 2 = 0 := by
            have : y.val % 2 = 0 := hc
            omega
          exact (if_neg hnot).trans hback
      | odd =>
          have hnot : ¬ (-y).val % 2 = 1 := by
            have : y.val % 2 = 1 := hc
            omega
          exact (if_neg hnot).trans hback
      | smaller =>
          have hnot : ¬ (-y).val ≤ (-(-y)).val := by
            have : y.val ≤ (-y).val := hc
            rw [hback]
            omega
          exact (if_neg hnot).trans hback

/-- What is picked is meant, but for a zero that is asked to be odd. -/
theorem means_pick (hne : c.pick root ≠ coordinate 0) : c.Means (c.pick root) := by
  have hback := neg_coordinate root
  have hneg := val_neg root
  have hlt := root.isLt
  have hodd : fieldOrder % 2 = 1 := by decide
  -- zero is its own negative: nothing else could be picked
  have hzero : root = coordinate 0 → c.pick root = coordinate 0 := by
    rintro rfl
    unfold Choice.pick
    rw [neg_coordinate_zero]
    cases c <;> exact ite_self _
  have hroot : root ≠ coordinate 0 := fun h => hne (hzero h)
  have hval := hneg hroot
  unfold Choice.pick Choice.Means
  cases c with
  | even =>
      dsimp only
      split
      · assumption
      · omega
  | odd =>
      dsimp only
      split
      · assumption
      · omega
  | smaller =>
      dsimp only
      split
      · assumption
      · rw [hback]
        omega

/-- Two values with one square are the same or each other's negative. -/
theorem eq_or_eq_neg_of_mul_self (h : root * root = y * y) : root = y ∨ root = -y := by
  have hsquare : residueClass root * residueClass root = residueClass y * residueClass y := by
    rw [← residueClass_mul, h, residueClass_mul]
  rcases mul_self_eq_mul_self_iff.mp hsquare with hpos | hneg
  · exact Or.inl (residueClass_injective hpos)
  · rw [← residueClass_neg] at hneg
    exact Or.inr (residueClass_injective hneg)

/-! ## Encodings -/

/-- A coordinate in bytes. -/
def written (x : Coordinate) : Bytes := Bytes.ofNatBE scalarSize x.val

/-- The encodings of a public key. -/
inductive Encodes (key : PublicKey) : Bytes → Prop
  /-- Both coordinates in full. -/
  | full : Encodes key (4 :: written key.x ++ written key.y)
  /-- The first one with a mark for the parity of the second one. -/
  | even (h : key.y.val % 2 = 0) : Encodes key (2 :: written key.x)
  | odd (h : key.y.val % 2 = 1) : Encodes key (3 :: written key.x)
  /-- The first one alone, if the second one is not larger than its negative. -/
  | compact (h : key.y.val ≤ (-key.y).val) : Encodes key (5 :: written key.x)

theorem readCoordinate?_eq_some_iff : readCoordinate? bytes = some x ↔ bytes = written x := by
  constructor
  · intro h
    unfold readCoordinate? at h
    dsimp only at h
    split at h
    · rename_i hread
      obtain rfl := Option.some.inj h
      rw [written, ← hread.1]
      exact (Bytes.ofNatBE_toNatBE bytes).symm
    · exact absurd h (by simp)
  · rintro rfl
    exact readCoordinate?_ofNatBE x

/-- The root of the square of a second coordinate is that coordinate or its negative. -/
theorem sqrt?_square (h : onCurve x y) :
    ∃ root, Modular.sqrt? (square x) = some root ∧ (root = y ∨ root = -y) := by
  obtain ⟨root, hroot⟩ := Option.isSome_iff_exists.mp
    (Modular.sqrt?_isSome (by decide) (by decide) h)
  refine ⟨root, hroot, eq_or_eq_neg_of_mul_self ?_⟩
  rw [Modular.mul_self_of_sqrt? hroot]
  exact h.symm

theorem ofFirst?_written (hc : c.Means key.y) : ofFirst? c (written key.x) = some key := by
  obtain ⟨root, hroot, hsign⟩ := sqrt?_square key.on_curve
  unfold ofFirst?
  rw [readCoordinate?_eq_some_iff.mpr rfl, Option.bind_eq_bind, Option.bind_some, hroot,
    Option.bind_some, pick_eq hsign hc]
  exact ofPoint?_eq_some_iff.mpr rfl

/-- Every encoding of a key is read as that key. -/
theorem ofBytes_of_encodes (h : Encodes key bytes) : ofBytes bytes = .ok key := by
  have hread : ofBytes? bytes = some key := by
    cases h with
    | full => exact ofBytes?_toBytes key
    | even h => exact ofFirst?_written (c := .even) h
    | odd h => exact ofFirst?_written (c := .odd) h
    | compact h => exact ofFirst?_written (c := .smaller) h
  rw [ofBytes, hread]

theorem ofFirst?_eq_some (h : ofFirst? c bytes = some key) (hy : key.y ≠ coordinate 0) :
    bytes = written key.x ∧ c.Means key.y := by
  unfold ofFirst? at h
  obtain ⟨x, hx, h⟩ := Option.bind_eq_some_iff.mp h
  obtain ⟨root, _, h⟩ := Option.bind_eq_some_iff.mp h
  obtain ⟨rfl, hpick⟩ := Point.affine.inj (ofPoint?_eq_some_iff.mp h)
  rw [hpick] at hy ⊢
  exact ⟨readCoordinate?_eq_some_iff.mp hx, means_pick hy⟩

/-- Only encodings of a key are read as that key, unless its second coordinate is zero. -/
theorem encodes_of_ofBytes (h : ofBytes bytes = .ok key) (hy : key.y ≠ coordinate 0) :
    Encodes key bytes := by
  unfold ofBytes at h
  split at h
  · rename_i read hread
    obtain rfl := Except.ok.inj h
    unfold ofBytes? at hread
    split at hread
    · rename_i rest
      obtain ⟨x, hx, hread⟩ := Option.bind_eq_some_iff.mp hread
      obtain ⟨y, hy, hread⟩ := Option.bind_eq_some_iff.mp hread
      obtain ⟨rfl, rfl⟩ := Point.affine.inj (ofPoint?_eq_some_iff.mp hread)
      rw [← List.take_append_drop scalarSize rest, readCoordinate?_eq_some_iff.mp hx,
        readCoordinate?_eq_some_iff.mp hy]
      exact .full
    · obtain ⟨rfl, hmeans⟩ := ofFirst?_eq_some hread hy
      exact .even hmeans
    · obtain ⟨rfl, hmeans⟩ := ofFirst?_eq_some hread hy
      exact .odd hmeans
    · obtain ⟨rfl, hmeans⟩ := ofFirst?_eq_some hread hy
      exact .compact hmeans
    · exact absurd hread (by simp)
  · exact absurd h (by simp)

end PublicKey

/-! ## Public keys of private keys -/

theorem multiply_base {k : Nat} (hk : k < groupOrder) :
    Point.multiply k .base = pointOf (k • generator) := by
  rw [← pointOf_generator]
  exact multiply_pointOf (Nat.lt_trans hk (by decide)) generator

namespace PrivateKey

variable {key : PrivateKey} {pub : PublicKey}

/-- The public key of a private key lies at that multiple of the base point. -/
theorem publicKey?_eq_some_iff :
    key.publicKey? = some pub ↔ pub.point = Point.multiply key.scalar .base :=
  PublicKey.ofPoint?_eq_some_iff

theorem publicKey?_iff_element :
    key.publicKey? = some pub ↔ pub.element = key.scalar • generator := by
  rw [publicKey?_eq_some_iff, multiply_base key.scalar_lt, ← pub.pointOf_element,
    pointOf_injective.eq_iff]

/-- Every private key has a public key. -/
theorem exists_publicKey (key : PrivateKey) : ∃ pub, key.publicKey? = some pub := by
  obtain ⟨pub, hpub⟩ := PublicKey.exists_element_eq
    (nsmul_generator_ne_zero key.scalar_pos key.scalar_lt)
  exact ⟨pub, publicKey?_iff_element.mpr hpub⟩

/-- The second coordinate of a public key is not zero, for else its double would be infinity. -/
theorem publicKey_y_ne_zero (h : key.publicKey? = some pub) : pub.y ≠ coordinate 0 := by
  intro hy
  have hdouble : pointOf (pub.element + pub.element) = .infinity := by
    rw [← double_pointOf, pub.pointOf_element]
    exact if_pos hy
  rw [pointOf_eq_infinity, publicKey?_iff_element.mp h, ← add_nsmul,
    ← addOrderOf_dvd_iff_nsmul_eq_zero, addOrderOf_generator, ← two_mul] at hdouble
  have hprime : groupOrder.Prime := prime_groupOrder
  rcases hprime.dvd_mul.mp hdouble with htwo | hscalar
  · exact absurd htwo (by decide)
  · exact Nat.not_dvd_of_pos_of_lt key.scalar_pos key.scalar_lt hscalar

/-- The public key of a private key is read from its encodings and from nothing else. -/
theorem ofBytes_eq_ok_iff (h : key.publicKey? = some pub) :
    PublicKey.ofBytes bytes = .ok pub ↔ pub.Encodes bytes :=
  ⟨fun hread => PublicKey.encodes_of_ofBytes hread (publicKey_y_ne_zero h),
    PublicKey.ofBytes_of_encodes⟩

end PrivateKey

end PooledCrypto.Curve.P256
