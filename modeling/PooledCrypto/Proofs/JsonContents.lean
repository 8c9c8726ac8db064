import PooledCrypto.Json.Reader

/-!
# What is inside a JSON value

A value `Contains` itself and whatever its items and fields contain. Through that one can say of a
whole tree that there is no array in it, or that its numbers are what JSON numbers are here: an
integer fits 64 bits. The type of numbers alone does not promise that, but the reader does, whatever
text it is given (`numbersFit_of_parse`). An integer that does not fit is not cut short either. A
number is the integer that its digits write, or it is read as a float (`gives_readNumber`).
-/

namespace PooledCrypto.Json

/-! ## Trees -/

/-- A value and what is inside it. -/
inductive Contains : Json → Json → Prop
  | self {v : Json} : Contains v v
  | item {items : List Json} {i v : Json} : i ∈ items → Contains i v → Contains (.array items) v
  | field {fields : List (String × Json)} {f : String × Json} {v : Json} :
      f ∈ fields → Contains f.2 v → Contains (.object fields) v

/-- The number is one that its form is for. -/
def Number.Fits : Number → Prop
  | .natural n => n ≤ maxNatural
  | .negative n => 0 < n ∧ n ≤ 1 <<< 63
  | .decimal _ => True

/-- All numbers inside the value fit. -/
def NumbersFit (v : Json) : Prop := ∀ n, v.Contains (.number n) → n.Fits

/-- There is no array inside the value. -/
def ArrayFree (v : Json) : Prop := ∀ items, ¬ v.Contains (.array items)

variable {v w : Json} {n : Number} {items : List Json} {fields : List (String × Json)}
  {name : String}

/-- A field that is found is inside. -/
theorem Contains.of_field? (h : v.field? name = some w) : v.Contains w := by
  unfold field? at h
  split at h
  · obtain ⟨f, hf, rfl⟩ := Option.map_eq_some_iff.mp h
    exact .field (List.mem_of_find?_eq_some hf) .self
  · exact absurd h (by simp)

theorem Contains.trans {u : Json} (h : u.Contains v) (h' : v.Contains w) : u.Contains w := by
  induction h with
  | self => exact h'
  | item hi _ ih => exact .item hi (ih h')
  | field hf _ ih => exact .field hf (ih h')

/-- What holds of a whole tree holds of the trees in its fields. -/
theorem NumbersFit.field (h : v.NumbersFit) (hf : v.field? name = some w) : w.NumbersFit :=
  fun n hn => h n ((Contains.of_field? hf).trans hn)

theorem ArrayFree.field (h : v.ArrayFree) (hf : v.field? name = some w) : w.ArrayFree :=
  fun items hi => h items ((Contains.of_field? hf).trans hi)

/-- In particular the tree itself is no array. -/
theorem ArrayFree.ne_array (h : v.ArrayFree) (items : List Json) : v ≠ .array items := by
  rintro rfl
  exact h items .self

@[simp] theorem contains_object : (Json.object fields).Contains v
    ↔ v = .object fields ∨ ∃ f ∈ fields, f.2.Contains v := by
  constructor
  · intro h
    cases h with
    | self => exact Or.inl rfl
    | field hf hv => exact Or.inr ⟨_, hf, hv⟩
  · rintro (rfl | ⟨f, hf, hv⟩)
    · exact .self
    · exact .field hf hv

@[simp] theorem contains_array : (Json.array items).Contains v
    ↔ v = .array items ∨ ∃ i ∈ items, i.Contains v := by
  constructor
  · intro h
    cases h with
    | self => exact Or.inl rfl
    | item hi hv => exact Or.inr ⟨_, hi, hv⟩
  · rintro (rfl | ⟨i, hi, hv⟩)
    · exact .self
    · exact .item hi hv

@[simp] theorem contains_null : Json.null.Contains v ↔ v = .null :=
  ⟨fun h => by cases h; rfl, fun h => h ▸ .self⟩

@[simp] theorem contains_bool {b : Bool} : (Json.bool b).Contains v ↔ v = .bool b :=
  ⟨fun h => by cases h; rfl, fun h => h ▸ .self⟩

@[simp] theorem contains_number : (Json.number n).Contains v ↔ v = .number n :=
  ⟨fun h => by cases h; rfl, fun h => h ▸ .self⟩

@[simp] theorem contains_string {s : String} : (Json.string s).Contains v ↔ v = .string s :=
  ⟨fun h => by cases h; rfl, fun h => h ▸ .self⟩

/-! ## Trees that are read -/

variable {α β : Type} {P : α → Prop} {Q : β → Prop} {c : Cursor}

/-- What is read, if anything is, has the property. -/
def Gives (P : α → Prop) (read : Except Located (α × Cursor)) : Prop :=
  ∀ x c, read = .ok (x, c) → P x

theorem gives_ok {x : α} (h : P x) : Gives P (.ok (x, c)) := by
  intro y c' hy
  obtain ⟨rfl, rfl⟩ := Prod.mk.inj (Except.ok.inj hy)
  exact h

/-- Nothing is read where reading fails. -/
theorem gives_error (e : Located) : Gives P (.error e) := by
  intro y c' hy
  exact absurd hy (by simp)

/-- Reading one thing after another, where the second may depend on what the first one gives. -/
theorem Gives.bind {read : Except Located (α × Cursor)}
    {next : α × Cursor → Except Located (β × Cursor)} (h : Gives P read)
    (hn : ∀ x c, P x → Gives Q (next (x, c))) : Gives Q (read >>= next) := by
  rcases hread : read with e | ⟨x, c⟩
  · exact gives_error e
  · exact hn x c (h x c hread)

/-- The same where it does not matter what the first one gives. -/
theorem gives_bind {read : Except Located (α × Cursor)}
    {next : α × Cursor → Except Located (β × Cursor)} (hn : ∀ x c, Gives Q (next (x, c))) :
    Gives Q (read >>= next) := by
  have hany : Gives (fun _ => True) read := fun _ _ _ => trivial
  exact hany.bind fun x c _ => hn x c

theorem Gives.mono {P' : α → Prop} {read : Except Located (α × Cursor)} (h : Gives P read)
    (himp : ∀ x, P x → P' x) : Gives P' read :=
  fun x c hread => himp x (h x c hread)

/-! ### Numbers -/

/-- The number that digits write. -/
def digitsValue (digits : Bytes) : Nat := digits.foldl (fun n b => n * 10 + (b.toNat - 48)) 0

/-- The number is a float, or the integer of this size. -/
inductive Number.Spelt (positive : Bool) (size : Nat) : Number → Prop
  | decimal (x : Float) : Spelt positive size (.decimal x)
  | natural (sign : positive = true) : Spelt positive size (.natural size)
  | negative (sign : positive = false) (pos : 0 < size) (small : size ≤ 1 <<< 63) :
      Spelt positive size (.negative size)

/-- Floats have no size to be wrong about. -/
theorem gives_floatNumber (c : Cursor) (positive : Bool) (significand : Nat) (exponent : Int)
    (size : Nat) :
    Gives (Number.Spelt positive size) (floatNumber c positive significand exponent) := by
  unfold floatNumber
  split
  · exact gives_ok (.decimal _)
  · exact gives_error _

/-- With an exponent the number is a float, even if it is whole. -/
theorem gives_readExponent (c : Cursor) (positive : Bool) (significand : Nat) (start : Int)
    (size : Nat) :
    Gives (Number.Spelt positive size) (readExponent c positive significand start) := by
  unfold readExponent
  dsimp only
  split
  · exact gives_error _
  · split
    · exact gives_error _
    · -- with each sign
      split <;>
        -- an exponent that is too large by itself, and then one that is not
        · split
          · split
            · exact gives_error _
            · exact gives_ok (.decimal _)
          · exact gives_floatNumber _ _ _ _ _

/-- With a fraction, too. -/
theorem gives_readFraction (c : Cursor) (positive : Bool) (significand : Nat) (start : Int)
    (size : Nat) :
    Gives (Number.Spelt positive size) (readFraction c positive significand start) := by
  unfold readFraction
  dsimp only
  split
  · exact gives_error _
  · split
    · exact gives_readExponent _ _ _ _ _
    · exact gives_floatNumber _ _ _ _ _

/-- Without a fraction and an exponent the number is the integer, as long as it fits. -/
theorem gives_readTail (c : Cursor) (positive : Bool) (significand : Nat) :
    Gives (Number.Spelt positive significand) (readTail c positive significand) := by
  unfold readTail
  split
  · exact gives_readFraction _ _ _ _ _
  · split
    · exact gives_readExponent _ _ _ _ _
    · split
      · rename_i hsign
        exact gives_ok (.natural hsign)
      · rename_i hsign
        split
        · exact gives_ok (.decimal _)
        · rename_i hsmall
          simp only [Bool.or_eq_true, decide_eq_true_eq, not_or, Nat.not_lt] at hsmall
          exact gives_ok (.negative (Bool.eq_false_iff.mpr hsign) (Nat.pos_of_ne_zero hsmall.1)
            hsmall.2)

/-- An integer with more digits than fit is a float, whatever comes after them. -/
theorem gives_readLongNumber (c : Cursor) (positive : Bool) (significand size : Nat) :
    Gives (Number.Spelt positive size) (readLongNumber c positive significand) := by
  unfold readLongNumber
  dsimp only
  split
  · exact gives_readFraction _ _ _ _ _
  · split
    · exact gives_readExponent _ _ _ _ _
    · exact gives_floatNumber _ _ _ _ _

/-- The digits that are added are the first so many, and what they add up to fits. -/
theorem takeFitting_spec (bytes : Bytes) {n : Nat} (count : Nat) (h : n ≤ maxNatural) :
    ∃ k, (takeFitting bytes n count).2 = count + k
      ∧ (∀ b ∈ bytes.take k, isDigitByte b = true)
      ∧ (takeFitting bytes n count).1
        = (bytes.take k).foldl (fun n b => n * 10 + (b.toNat - 48)) n
      ∧ (takeFitting bytes n count).1 ≤ maxNatural := by
  induction bytes generalizing n count with
  | nil => exact ⟨0, rfl, by simp, rfl, h⟩
  | cons b rest ih =>
      unfold takeFitting
      dsimp only
      split
      · rename_i hfits
        simp only [Bool.and_eq_true, decide_eq_true_eq] at hfits
        obtain ⟨k, hcount, hdigits, hvalue, hle⟩ := ih (count + 1) hfits.2
        refine ⟨k + 1, by omega, ?_, hvalue, hle⟩
        rw [List.take_succ_cons, List.forall_mem_cons]
        exact ⟨hfits.1, hdigits⟩
      · exact ⟨0, rfl, by simp, rfl, h⟩

/-- Where no digit follows, the leading digits are all the digits in front. -/
theorem takeWhile_of_not_atDigit {bytes : Bytes} {k index : Nat}
    (hdigits : ∀ b ∈ bytes.take k, isDigitByte b = true)
    (hend : Cursor.atDigit ⟨bytes.drop k, index⟩ = false) :
    bytes.takeWhile isDigitByte = bytes.take k := by
  have hrest : (bytes.drop k).takeWhile isDigitByte = [] := by
    unfold Cursor.atDigit at hend
    cases hdrop : bytes.drop k with
    | nil => rfl
    | cons b rest =>
        rw [hdrop] at hend
        exact List.takeWhile_cons_of_neg (by simpa using hend)
  calc bytes.takeWhile isDigitByte
      = (bytes.take k ++ bytes.drop k).takeWhile isDigitByte := by rw [List.take_append_drop]
    _ = bytes.take k ++ (bytes.drop k).takeWhile isDigitByte :=
        List.takeWhile_append_of_pos hdigits
    _ = bytes.take k := by rw [hrest, List.append_nil]

/-- An integer in digits that fit is one of 64 bits, with either sign. -/
theorem Number.Spelt.fits {positive : Bool} {size : Nat} (h : n.Spelt positive size)
    (small : size ≤ maxNatural) : n.Fits := by
  cases h with
  | decimal x => trivial
  | natural _ => exact small
  | negative _ pos small => exact ⟨pos, small⟩

/-- **A number is read as the integer that its digits write, or else as a float**, and an integer
fits. -/
theorem gives_readNumber (c : Cursor) (positive : Bool) :
    Gives (fun n => n.Spelt positive (digitsValue (c.rest.takeWhile isDigitByte)) ∧ n.Fits)
      (readNumber c positive) := by
  unfold readNumber
  split
  · exact gives_error _
  -- a zero stands alone
  · rename_i rest hrest
    dsimp only
    split
    · exact gives_error _
    · rename_i hend
      have hdigits : c.rest.takeWhile isDigitByte = [48] := by
        have hone : ∀ b ∈ c.rest.take 1, isDigitByte b = true := by simp [hrest, isDigitByte]
        rw [takeWhile_of_not_atDigit hone (Bool.eq_false_iff.mpr hend), hrest]
        rfl
      rw [hdigits]
      exact (gives_readTail _ _ 0).mono fun n hn => ⟨hn, hn.fits (Nat.zero_le _)⟩
  -- any other digit begins a row of them
  · rename_i b rest _ hrest
    dsimp only
    split
    · exact gives_error _
    · rename_i hdigit
      -- one digit is always small enough
      have hfirst : b.toNat - 48 ≤ maxNatural := by
        have := b.toNat_lt
        have : 255 ≤ maxNatural := by decide
        omega
      obtain ⟨k, hcount, hdigits, hvalue, hle⟩ := takeFitting_spec rest 1 hfirst
      split
      · -- an integer of every size would also be that of size 0
        intro n c' hread
        exact ⟨gives_readLongNumber _ _ _ _ n c' hread,
          (gives_readLongNumber _ _ _ 0 n c' hread).fits (Nat.zero_le _)⟩
      · rename_i hend
        have hall : c.rest.takeWhile isDigitByte = b :: rest.take k := by
          have htake : c.rest.take (k + 1) = b :: rest.take k := by
            rw [hrest, List.take_succ_cons]
          have hmine : ∀ d ∈ c.rest.take (k + 1), isDigitByte d = true := by
            rw [htake, List.forall_mem_cons]
            exact ⟨by simpa using hdigit, hdigits⟩
          rw [hcount, Nat.add_comm] at hend
          rw [takeWhile_of_not_atDigit hmine (Bool.eq_false_iff.mpr hend), htake]
        have hsize : digitsValue (b :: rest.take k) = (takeFitting rest (b.toNat - 48) 1).1 := by
          rw [hvalue, digitsValue, List.foldl_cons, Nat.zero_mul, Nat.zero_add]
        rw [hall, hsize]
        exact (gives_readTail _ _ _).mono fun n hn => ⟨hn, hn.fits hle⟩

/-! ### Values -/

/-- All numbers in the items fit. -/
def ItemsFit (items : List Json) : Prop := ∀ i ∈ items, i.NumbersFit

/-- All numbers in the fields fit. -/
def FieldsFit (fields : List (String × Json)) : Prop := ∀ f ∈ fields, f.2.NumbersFit

/-- A number that fits, as a value. -/
theorem numbersFit_number (h : n.Fits) : (Json.number n).NumbersFit := by
  intro m hm
  obtain rfl : m = n := by simpa using hm
  exact h

/-- And an array of values with numbers that fit. -/
theorem ItemsFit.array (h : ItemsFit items) : (Json.array items).NumbersFit := by
  intro n hn
  obtain ⟨i, hi, hin⟩ : ∃ i ∈ items, i.Contains (.number n) := by simpa using hn
  exact h i hi n hin

/-- And an object with such fields. -/
theorem FieldsFit.object (h : FieldsFit fields) : (Json.object fields).NumbersFit := by
  intro n hn
  rcases contains_object.mp hn with hno | ⟨f, hf, hin⟩
  · exact absurd hno (by simp)
  · exact h f hf n hin

/-- Putting a field adds nothing but that field. -/
theorem mem_putField {f : String × Json} (h : f ∈ putField name v fields) :
    f = (name, v) ∨ f ∈ fields := by
  induction fields with
  | nil => exact Or.inl (List.mem_singleton.mp h)
  | cons g rest ih =>
      unfold putField at h
      split at h
      -- it goes in front of the first name that comes later, or in the place of its own
      · exact List.mem_cons.mp h
      · split at h
        · exact (List.mem_cons.mp h).imp_right (List.mem_cons_of_mem g)
        · rcases List.mem_cons.mp h with rfl | h
          · exact Or.inr (List.mem_cons_self ..)
          · exact (ih h).imp_right (List.mem_cons_of_mem g)

theorem FieldsFit.putField (h : FieldsFit fields) (hv : v.NumbersFit) :
    FieldsFit (putField name v fields) := by
  intro f hf
  rcases mem_putField hf with rfl | hf
  · exact hv
  · exact h f hf

/-- The three words stand for values without numbers. -/
theorem gives_readWord (h : v.NumbersFit) (word : Bytes) (c : Cursor) :
    Gives NumbersFit (readWord v word c) := by
  induction word generalizing c with
  | nil => exact gives_ok h
  | cons expected more ih =>
      unfold readWord
      split
      · exact gives_error _
      · split
        · exact ih _
        · exact gives_error _

/-- What the functions that read values give within a bound. -/
structure Reads (fuel : Nat) : Prop where
  value : ∀ depth c, Gives NumbersFit (readValue fuel depth c)
  items : ∀ depth c first acc, ItemsFit acc →
    Gives ItemsFit (readItems fuel depth c first acc)
  fields : ∀ depth c first acc, FieldsFit acc →
    Gives FieldsFit (readFields fuel depth c first acc)
  field : ∀ depth c acc, FieldsFit acc → Gives FieldsFit (readField fuel depth c acc)

/-- One level of values, by their first byte. -/
theorem Reads.readValue {fuel : Nat} (h : Reads fuel) (depth : Nat) (c : Cursor) :
    Gives NumbersFit (readValue (fuel + 1) depth c) := by
  unfold Json.readValue
  dsimp only
  split
  · exact gives_error _
  · split
    -- null, true and false
    · exact gives_readWord (by simp [NumbersFit]) _ _
    split
    · exact gives_readWord (by simp [NumbersFit]) _ _
    split
    · exact gives_readWord (by simp [NumbersFit]) _ _
    split
    -- a number, with a minus in front or without
    · exact (gives_readNumber _ _).bind fun n c hn => gives_ok (numbersFit_number hn.2)
    split
    · exact (gives_readNumber _ _).bind fun n c hn => gives_ok (numbersFit_number hn.2)
    split
    -- a string
    · exact gives_bind fun s c => gives_ok (by simp [NumbersFit])
    split
    -- an array, one level deeper
    · split
      · exact gives_error _
      · exact (h.items _ _ _ _ (by simp [ItemsFit])).bind fun items c hi => gives_ok hi.array
    split
    -- an object, one level deeper
    · split
      · exact gives_error _
      · exact (h.fields _ _ _ _ (by simp [FieldsFit])).bind fun fields c hf => gives_ok hf.object
    · exact gives_error _

/-- One more item goes in front of those that were read before. -/
theorem Reads.readItems {fuel : Nat} (h : Reads fuel) (depth : Nat) (c : Cursor) (first : Bool)
    (acc : List Json) (hacc : ItemsFit acc) :
    Gives ItemsFit (readItems (fuel + 1) depth c first acc) := by
  have hnext : ∀ c, Gives ItemsFit (Json.readValue fuel depth c >>= fun read =>
      Json.readItems fuel depth read.2 false (read.1 :: acc)) := fun c =>
    (h.value depth c).bind fun v c hv =>
      h.items depth c false (v :: acc) (List.forall_mem_cons.mpr ⟨hv, hacc⟩)
  unfold Json.readItems
  dsimp only
  split
  · exact gives_error _
  · split
    -- at the end of the array the items are turned around
    · exact gives_ok fun i hi => hacc i (List.mem_reverse.mp hi)
    split
    · exact hnext _
    split
    · split
      · exact gives_error _
      · split
        · exact gives_error _
        · exact hnext _
    · exact gives_error _

/-- One more field, or the end of the object. -/
theorem Reads.readFields {fuel : Nat} (h : Reads fuel) (depth : Nat) (c : Cursor) (first : Bool)
    (acc : List (String × Json)) (hacc : FieldsFit acc) :
    Gives FieldsFit (readFields (fuel + 1) depth c first acc) := by
  unfold Json.readFields
  dsimp only
  split
  · exact gives_error _
  · split
    · exact gives_ok hacc
    split
    · split
      · exact h.field _ _ _ hacc
      · exact gives_error _
    split
    · split
      · exact gives_error _
      · split
        · exact h.field _ _ _ hacc
        split
        · exact gives_error _
        · exact gives_error _
    · exact gives_error _

/-- The value of a field, after its name. -/
theorem Reads.readField {fuel : Nat} (h : Reads fuel) (depth : Nat) (c : Cursor)
    (acc : List (String × Json)) (hacc : FieldsFit acc) :
    Gives FieldsFit (readField (fuel + 1) depth c acc) := by
  unfold Json.readField
  refine gives_bind fun name c => ?_
  dsimp only
  split
  · exact gives_error _
  · split
    · exact gives_error _
    · exact (h.value _ _).bind fun v c hv => h.fields _ _ _ _ (hacc.putField hv)

/-- By induction on the bound, all four at once, as they call each other. -/
theorem reads (fuel : Nat) : Reads fuel := by
  induction fuel with
  | zero =>
      constructor <;> intros <;>
        simp only [readValue, readItems, readFields, readField] <;> exact gives_error _
  | succ fuel ih => exact ⟨ih.readValue, ih.readItems, ih.readFields, ih.readField⟩

/-- **Every value that is read from a text has numbers that fit.** -/
theorem numbersFit_of_parse {text : String} (h : parse text = .ok v) : v.NumbersFit := by
  unfold parse at h
  dsimp only at h
  rcases hread : readValue (4 * (Bytes.ofText text).length + 4) maxDepth ⟨Bytes.ofText text, 0⟩
    with e | ⟨value, c⟩
  · rw [hread] at h
    exact absurd h (by simp [bind, Except.bind])
  -- what follows the value does not change it
  · have hfit := (reads _).value _ _ value c hread
    rw [hread] at h
    simp only [bind, Except.bind] at h
    split at h
    · rename_i out hout
      obtain rfl := Except.ok.inj h
      split at hout
      · obtain rfl := Except.ok.inj hout
        exact hfit
      · exact absurd hout (by simp [throw, throwThe, MonadExceptOf.throw])
    · exact absurd h (by simp)

end PooledCrypto.Json
