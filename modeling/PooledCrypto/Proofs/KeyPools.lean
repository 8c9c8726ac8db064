import PooledCrypto.Proofs.Continuity

/-!
# The pool of a MAC key

Importing or generating a MAC key makes a pool for it, behind all pools that are there. `HmacKey.Kept`
is what a state owes the key from then on: its pool is in its place and makes contexts of this key
only. As pools stay what they are, a key that is kept once is kept in every later state.

Whether a key came from outside or was drawn does not show in it. Both ways are open to the same
keys: those for a digest of the SHA-2 family that are not empty.
-/

namespace PooledCrypto.Provider

variable {α κ : Type} {s s' : State} {k : HmacKey} {kind : Digest.Kind} {bytes : Bytes}

/-! ## Generators -/

/-- A call that succeeds was carried out, by whomever. -/
theorem call_eq_ok {o : Operation κ} {shape : Shape} {work : Action State α} {v : α}
    (h : o.call shape work s = (.ok v, s')) : work s = (.ok v, s') := by
  have hv := call_ok (congrArg Prod.fst h)
  cases shape with
  | direct => exact h
  | offloaded =>
      rw [Operation.call, offload_apply] at h
      obtain ⟨hout, hstate⟩ := Prod.mk.inj h
      -- an executor that runs nothing has no value to give
      have hruns : o.executor.adaptor.runs = true := by
        cases hr : o.executor.adaptor.runs with
        | true => rfl
        | false =>
            rw [Executor.execute, hr] at hout
            split at hout
            · rename_i hx
              split at hx <;> exact absurd hx (by simp)
            · exact absurd hout (by simp)
            · exact absurd hout (by simp)
      rw [if_pos hruns] at hstate
      exact Prod.ext hv hstate

theorem drawBytes_ok {len : Nat} (h : drawBytes len s = (.ok bytes, s')) :
    bytes.length = len ∧ ∃ entropy, s' = { s with entropy } := by
  rw [drawBytes, drawing_apply] at h
  obtain ⟨hout, rfl⟩ := Prod.mk.inj h
  have hdrawn : s.entropy.bytes len = (.ok bytes, (s.entropy.bytes len).2) := Prod.ext hout rfl
  exact ⟨(Entropy.length_of_bytes hdrawn).1, _, rfl⟩

/-! ## Keys that are kept -/

/-- The state has a pool for the key, in the key's own place. -/
structure HmacKey.Kept (k : HmacKey) (s : State) : Prop where
  nonempty : k.bytes ≠ []
  sha2 : k.digest.isSha2 = true
  /-- There is room for as many contexts as a pool may keep. -/
  room : Room.reserve (s.pools.capacity * macContextSize) = .ok ()
  pool : ∃ pool, s.macPools[k.pool]? = some pool
    ∧ ∀ i, pool.factory i = .ok (Mac.Context.fresh k.digest k.bytes)

theorem HmacKey.Kept.continues (hk : k.Kept s) (h : s.Continues s') : k.Kept s' where
  nonempty := hk.nonempty
  sha2 := hk.sha2
  room := by
    rw [h.capacity]
    exact hk.room
  pool := by
    obtain ⟨pool, hpool, hf⟩ := hk.pool
    obtain ⟨later, hlater, hsame⟩ := h.mac k.pool pool hpool
    exact ⟨later, hlater, fun i => hsame ▸ hf i⟩

/-- Two kept keys with one pool are the same key. -/
theorem HmacKey.Kept.eq_of_pool {k' : HmacKey} (hk : k.Kept s) (hk' : k'.Kept s)
    (h : k.pool = k'.pool) : k = k' := by
  obtain ⟨pool, hpool, hf⟩ := hk.pool
  obtain ⟨pool', hpool', hf'⟩ := hk'.pool
  rw [← h, hpool] at hpool'
  obtain rfl := Option.some.inj hpool'
  have hfresh : Mac.Context.fresh k.digest k.bytes = Mac.Context.fresh k'.digest k'.bytes :=
    Except.ok.inj ((hf 0).symm.trans (hf' 0))
  obtain ⟨digest, bytes, number⟩ := k
  obtain ⟨digest', bytes', number'⟩ := k'
  obtain rfl : digest = digest' := congrArg (·.kind) hfresh
  obtain rfl : bytes = bytes' := congrArg (·.key) hfresh
  obtain rfl : number = number' := h
  rfl

/-- The pool of a new key is behind all others. -/
theorem openMacPool_ok {number : Nat} (h : openMacPool kind bytes s = (.ok number, s')) :
    number = s.macPools.length
      ∧ Room.reserve (s.pools.capacity * macContextSize) = .ok ()
      ∧ s' = { s with macPools := s.macPools ++ [Pool.empty ("HMAC/" ++ kind.name)
          s.pools.capacity fun _ => .ok (Mac.Context.fresh kind bytes)] } := by
  unfold openMacPool Pool.reserve at h
  cases hroom : Room.reserve (s.pools.capacity * macContextSize) with
  | error f =>
      rw [hroom] at h
      exact absurd (congrArg Prod.fst h) (by simp [Except.map])
  | ok u =>
      rw [hroom] at h
      obtain ⟨hnumber, rfl⟩ := Prod.mk.inj h
      exact ⟨(Except.ok.inj hnumber).symm, rfl, rfl⟩

theorem makeHmacKey_ok (h : HmacKey.make kind bytes s = (.ok k, s')) :
    k = ⟨kind, bytes, s.macPools.length⟩ ∧ openMacPool kind bytes s = (.ok k.pool, s') := by
  obtain ⟨number, s₁, hopen, hpure⟩ := Action.bind_eq_ok h
  obtain rfl := Except.ok.inj (congrArg Prod.fst hpure)
  obtain rfl : s₁ = s' := congrArg Prod.snd hpure
  obtain ⟨hnumber, -⟩ := openMacPool_ok hopen
  exact ⟨by rw [hnumber], hopen⟩

theorem kept_make (hne : bytes ≠ []) (hsha : kind.isSha2 = true)
    (h : HmacKey.make kind bytes s = (.ok k, s')) : k.Kept s' := by
  obtain ⟨rfl, hopen⟩ := makeHmacKey_ok h
  obtain ⟨-, hroom, rfl⟩ := openMacPool_ok hopen
  refine ⟨hne, hsha, hroom, .empty ("HMAC/" ++ kind.name) s.pools.capacity _, ?_, fun _ => rfl⟩
  simp

/-- A key that is not empty can be made wherever another is kept. -/
theorem makeHmacKey_succeeds (hroom : Room.reserve (s.pools.capacity * macContextSize) = .ok ())
    (kind : Digest.Kind) (bytes : Bytes) :
    ∃ s', HmacKey.make kind bytes s = (.ok ⟨kind, bytes, s.macPools.length⟩, s') := by
  have hopen : (openMacPool kind bytes s).1 = .ok s.macPools.length := by
    unfold openMacPool Pool.reserve
    rw [hroom]
    rfl
  exact ⟨_, Action.bind_of_ok (Prod.ext hopen rfl)⟩

theorem requireSha2_ok {algorithm digest : String} (h : requireSha2 algorithm digest = .ok kind) :
    kind.isSha2 = true := by
  unfold requireSha2 at h
  split at h
  · split at h
    · rename_i hsha
      obtain rfl := Except.ok.inj h
      exact hsha
    · exact absurd h (by simp)
  · exact absurd h (by simp)

theorem name_of_requireSha2 {algorithm digest : String} {kind : Digest.Kind}
    (h : requireSha2 algorithm digest = .ok kind) : kind.name = digest := by
  unfold requireSha2 at h
  split at h
  · rename_i found hfound
    have hname : found.name = digest := by simpa using List.find?_some hfound
    split at h
    · obtain rfl := Except.ok.inj h
      exact hname
    · exact absurd h (by simp)
  · exact absurd h (by simp)

theorem requireSha2_name (algorithm : String) (hsha : kind.isSha2 = true) :
    requireSha2 algorithm kind.name = .ok kind := by
  unfold requireSha2
  rw [Digest.Kind.ofName?_name]
  simp [hsha]

theorem requireRaw_ok {format : KeyFormat} (h : requireRaw format = .ok ()) : format = .raw := by
  cases format with
  | raw => rfl
  | _ => exact absurd h (by simp [requireRaw])

/-- An imported key is for a SHA-2 digest, and is what was imported. -/
theorem decodeHmacKey_ok {digest : String} {format : KeyFormat}
    (h : HmacKey.decode digest format bytes s = (.ok k, s')) :
    ∃ kind, requireSha2 Algorithm.hmac digest = .ok kind ∧ format = .raw ∧ bytes ≠ []
      ∧ HmacKey.make kind bytes s = (.ok k, s') := by
  obtain ⟨kind, s₁, hfirst, h⟩ := Action.bind_eq_ok h
  obtain ⟨hkind, rfl⟩ := Action.ofExcept_eq_ok hfirst
  obtain ⟨_, s₂, hsecond, h⟩ := Action.bind_eq_ok h
  obtain ⟨hraw, rfl⟩ := Action.ofExcept_eq_ok hsecond
  have hformat : format = .raw := requireRaw_ok hraw
  cases hempty : bytes.isEmpty with
  | true =>
      rw [hempty] at h
      have hfail : ((Action.fail (.invalidInput .emptyKey) : Action State Unit) >>= fun _ =>
          HmacKey.make kind bytes) s = (.error (.error (.invalidInput .emptyKey)), s) :=
        Action.bind_of_error rfl
      exact absurd (congrArg Prod.fst (hfail.symm.trans h)) (by simp)
  | false =>
      rw [hempty] at h
      have hne : bytes ≠ [] := by simpa [List.isEmpty_iff] using hempty
      exact ⟨kind, hkind, hformat, hne, h⟩

theorem kept_decode {digest : String} {format : KeyFormat}
    (h : HmacKey.decode digest format bytes s = (.ok k, s')) : k.Kept s' := by
  obtain ⟨kind, hkind, -, hne, hmake⟩ := decodeHmacKey_ok h
  exact kept_make hne (requireSha2_ok hkind) hmake

/-- Whatever was imported or generated can be imported again, and gets a pool behind all others. -/
theorem HmacKey.Kept.decode (hk : k.Kept s) :
    ∃ s', HmacKey.decode k.digest.name .raw k.bytes s
      = (.ok ⟨k.digest, k.bytes, s.macPools.length⟩, s') := by
  obtain ⟨s', hmake⟩ := makeHmacKey_succeeds hk.room k.digest k.bytes
  have hnonempty : k.bytes.isEmpty = false := by simpa using hk.nonempty
  refine ⟨s', ?_⟩
  unfold HmacKey.decode
  rw [requireSha2_name _ hk.sha2, Action.bind_of_ok (Action.ofExcept_apply _ s)]
  rw [show requireRaw .raw = .ok () from rfl, Action.bind_of_ok (Action.ofExcept_apply _ s)]
  rw [hnonempty]
  exact hmake

/-! ## Keys that are generated -/

/-- Generates a MAC key. -/
def HmacKey.generate (route : Factory.Route)
    (changes : Parameters.HmacKey → Parameters.HmacKey) (shape : Shape) : Action State HmacKey := do
  let generator ← hmacGenerator.make route changes
  generator.call shape generator.core

/-- The parameters that a MAC key is generated with. -/
def wanted (route : Factory.Route) (changes : Parameters.HmacKey → Parameters.HmacKey) :
    Parameters.HmacKey :=
  match route with
  | .create => Parameters.defaults
  | _ => changes Parameters.defaults

/-- The length of a key in bytes. -/
def keyBytes (kind : Digest.Kind) (keySize : Option Nat) : Nat :=
  match keySize with
  | some bits => bits / 8
  | none => kind.blockSize

/-- Lengths that are accepted are positive numbers of whole bytes. -/
def Whole (keySize : Option Nat) : Prop :=
  ∀ bits, keySize = some bits → 0 < bits ∧ bits % 8 = 0

variable {route : Factory.Route} {changes : Parameters.HmacKey → Parameters.HmacKey} {shape : Shape}

theorem checkKeySize_eq_ok_iff {bits : Nat} :
    Parameters.checkKeySize bits = .ok () ↔ 0 < bits ∧ bits % 8 = 0 := by
  unfold Parameters.checkKeySize
  split <;> simp <;> omega

theorem check_of_whole {p : Parameters.HmacKey} (h : Whole p.keySize) :
    Parameters.check p = .ok p := by
  unfold Parameters.check Parameters.instHmacKey
  dsimp only
  cases hsize : p.keySize with
  | none => rfl
  | some bits =>
      dsimp only
      rw [checkKeySize_eq_ok_iff.mpr (h bits hsize)]
      rfl

theorem whole_of_check {p q : Parameters.HmacKey} (h : Parameters.check p = .ok q) :
    q = p ∧ Whole p.keySize := by
  unfold Parameters.check Parameters.instHmacKey at h
  dsimp only at h
  cases hsize : p.keySize with
  | none =>
      rw [hsize] at h
      exact ⟨(Except.ok.inj h).symm, fun bits hbits => absurd hbits (by simp)⟩
  | some bits =>
      rw [hsize] at h
      dsimp only at h
      cases hcheck : Parameters.checkKeySize bits with
      | error e =>
          rw [hcheck] at h
          exact absurd h (by simp [bind, Except.bind])
      | ok u =>
          rw [hcheck] at h
          refine ⟨(Except.ok.inj h).symm, fun asked hasked => ?_⟩
          obtain rfl := Option.some.inj hasked
          exact checkKeySize_eq_ok_iff.mp hcheck

/-- All routes come to the parameters that are asked for, for the defaults are acceptable. -/
theorem make_hmacGenerator (route : Factory.Route)
    (changes : Parameters.HmacKey → Parameters.HmacKey) :
    hmacGenerator.make route changes = match Parameters.check (wanted route changes) with
      | .ok p => hmacGenerator.construct p
      | .error e => Action.fail e := by
  by_cases hr : route = .create
  · subst hr
    rfl
  · have hsame : Parameters.check (wanted route changes) = hmacGenerator.changed changes := by
      cases route with
      | create => exact absurd rfl hr
      | _ => rfl
    rw [Factory.make_eq_configure _ _ _ hr, Factory.configure, hsame]
    cases hmacGenerator.changed changes <;> rfl

/-- A generator draws as many bytes as it was made for. -/
theorem construct_hmacGenerator {p : Parameters.HmacKey} {o : KeyGenerator HmacKey}
    (h : hmacGenerator.construct p s = (.ok o, s')) :
    ∃ kind, requireSha2 Algorithm.hmac p.digest = .ok kind
      ∧ o.core = drawBytes (keyBytes kind p.keySize) >>= HmacKey.make kind := by
  obtain ⟨kind, s₁, hfirst, hmade⟩ := Action.bind_eq_ok h
  obtain ⟨hkind, -⟩ := Action.ofExcept_eq_ok hfirst
  obtain rfl := Except.ok.inj (congrArg Prod.fst hmade)
  exact ⟨kind, hkind, rfl⟩

/-- A generated key is made of as many bytes as were asked for. -/
theorem generate_ok (h : HmacKey.generate route changes shape s = (.ok k, s')) :
    requireSha2 Algorithm.hmac (wanted route changes).digest = .ok k.digest
      ∧ Whole (wanted route changes).keySize
      ∧ k.bytes.length = keyBytes k.digest (wanted route changes).keySize
      ∧ ∃ s₁, HmacKey.make k.digest k.bytes s₁ = (.ok k, s') := by
  obtain ⟨o, s₁, hmade, hcall⟩ := Action.bind_eq_ok h
  rw [make_hmacGenerator] at hmade
  cases hcheck : Parameters.check (wanted route changes) with
  | error e =>
      rw [hcheck] at hmade
      exact absurd (congrArg Prod.fst hmade) (by simp [Action.fail])
  | ok p =>
      rw [hcheck] at hmade
      obtain ⟨rfl, hwhole⟩ := whole_of_check hcheck
      obtain ⟨kind, hkind, hcore⟩ := construct_hmacGenerator hmade
      have hrun := call_eq_ok hcall
      rw [hcore] at hrun
      obtain ⟨bytes, s₂, hdraw, hmake⟩ := Action.bind_eq_ok hrun
      obtain ⟨rfl, -⟩ := makeHmacKey_ok hmake
      exact ⟨hkind, hwhole, (drawBytes_ok hdraw).1, s₂, hmake⟩

theorem keyBytes_pos {keySize : Option Nat} (h : Whole keySize) (kind : Digest.Kind) :
    0 < keyBytes kind keySize := by
  cases keySize with
  | none => cases kind <;> decide
  | some bits =>
      have hbits := h bits rfl
      show 0 < bits / 8
      omega

theorem keyBytes_le {kind : Digest.Kind} {keySize : Option Nat}
    (h : ∀ bits, keySize = some bits → bits / 8 ≤ Room.most) : keyBytes kind keySize ≤ Room.most := by
  cases keySize with
  | none => cases kind <;> decide
  | some bits => exact h bits rfl

theorem kept_generate (h : (do
      let generator ← hmacGenerator.make route changes
      generator.call shape generator.core) s = (.ok k, s')) : k.Kept s' := by
  obtain ⟨hkind, hwhole, hlen, s₁, hmake⟩ := generate_ok h
  have hpos : 0 < k.bytes.length := by
    rw [hlen]
    exact keyBytes_pos hwhole k.digest
  exact kept_make (List.ne_nil_of_length_pos hpos) (requireSha2_ok hkind) hmake

end PooledCrypto.Provider
