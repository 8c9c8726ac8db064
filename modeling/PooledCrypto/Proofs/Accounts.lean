import PooledCrypto.Proofs.Actions
import PooledCrypto.Proofs.PoolOrder
import PooledCrypto.Provider.Enciphering
import PooledCrypto.Provider.Hashing
import PooledCrypto.Provider.Signing

/-!
# The accounts of lent contexts

A provider's state knows what is idle in its pools, and the borrowers know what they hold. `Accounts`
is the state together with a list of all that is lent. It says that every pool is in order, that the
contexts of a pool are all of the pool's own digest or key, and that whatever is lent has a pool to
go back to.

What is inside a borrowed context is said by `Loan.Took`: a context of the source that took in a
message and nothing else. Borrowing resets, so a loan starts with the empty message whatever its
handle was used for before (`borrow_ok`). From then on the two records move together, and what the
context computes at the end is fixed by the message.
-/

namespace PooledCrypto.Provider

open Pool (InOrder)

/-- The handle of the loan, if it is from the digest pool of a name. -/
def Loan.digest? (name : String) : Loan → Option (Handle Digest.Context)
  | .digest pool h => if pool = name then some h else none
  | .mac _ _ => none

/-- The handle of the loan, if it is from the pool of a MAC key. -/
def Loan.mac? (number : Nat) : Loan → Option (Handle Mac.Context)
  | .digest _ _ => none
  | .mac pool h => if pool = number then some h else none

/-- The pool that the loan has to go back to is there. -/
def Loan.Home (s : State) : Loan → Prop
  | .digest name _ => (s.pools.pool? name .digest).isSome = true
  | .mac number _ => (s.macPools[number]?).isSome = true

/-- The loan is a context of the source that took in just the message. -/
def Loan.Took : Loan → Source → Bytes → Prop
  | .digest name h, .digest kind, message =>
    name = kind.name ∧ h.value = (Digest.Context.fresh kind).update message
  | .mac number h, .mac pool, message =>
    number = pool ∧ h.value = h.value.reset.update message
  | _, _, _ => False

/-- The state and all that is lent from it. -/
structure Accounts (s : State) (lent : List Loan) : Prop where
  digest : ∀ name pool, s.pools.pool? name .digest = some pool →
    InOrder (fun c => c.kind.name = name) pool (lent.filterMap (·.digest? name))
  mac : ∀ number pool, s.macPools[number]? = some pool →
    ∃ kind key, (∀ k, pool.factory k = .ok (Mac.Context.fresh kind key))
      ∧ InOrder (fun c => c.reset = .fresh kind key) pool (lent.filterMap (·.mac? number))
  home : ∀ loan ∈ lent, loan.Home s

variable {s s' : State} {lent lent' : List Loan} {loan loan' : Loan} {source : Source}
  {message data : Bytes}

/-! ## What a loan took in -/

namespace Loan

theorem reset_update (loan : Loan) (data : Bytes) : (loan.update data).reset = loan.reset := by
  cases loan <;> rfl

theorem reset_finish (loan : Loan) : loan.finish.2.reset = loan.reset := by
  cases loan <;> rfl

theorem reset_foldl (chunks : List Bytes) (loan : Loan) :
    (chunks.foldl (fun loan chunk => loan.update chunk) loan).reset = loan.reset := by
  induction chunks generalizing loan with
  | nil => rfl
  | cons chunk rest ih => exact (ih (loan.update chunk)).trans (loan.reset_update chunk)

theorem reset_reset (loan : Loan) : loan.reset.reset = loan.reset := by
  cases loan <;> rfl

/-- A chunk is appended to what was taken in. -/
theorem Took.update (ht : loan.Took source message) (data : Bytes) :
    (loan.update data).Took source (message ++ data) := by
  cases loan with
  | digest name h =>
      cases source with
      | mac pool => exact ht.elim
      | digest kind =>
          obtain ⟨hname, hvalue⟩ := ht
          refine ⟨hname, ?_⟩
          show h.value.update data = _
          rw [hvalue, Digest.Context.update_append]
  | mac number h =>
      cases source with
      | digest kind => exact ht.elim
      | mac pool =>
          obtain ⟨hnumber, hvalue⟩ := ht
          refine ⟨hnumber, ?_⟩
          show h.value.update data = (h.value.update data).reset.update (message ++ data)
          rw [Mac.Context.update_append]
          exact congrArg (·.update data) hvalue

/-- A digest context gives the digest of what it took in. -/
theorem Took.finish_digest {kind : Digest.Kind} (ht : loan.Took (.digest kind) message) :
    loan.finish.1 = kind.digest message := by
  cases loan with
  | mac number h => exact ht.elim
  | digest name h =>
      obtain ⟨_, hvalue⟩ := ht
      show h.value.finish.1 = _
      rw [hvalue, Digest.Context.finish_update_fresh]

end Loan

/-! ## One pool at a time -/

/-- The digest pool of a name is put in order with what is now lent from it; the rest stands. -/
theorem Accounts.set_digest {name : String} {old new : Pool Digest.Context}
    (ha : Accounts s lent) (hold : s.pools.pool? name .digest = some old)
    (hnew : InOrder (fun c => c.kind.name = name) new (lent'.filterMap (·.digest? name)))
    (hrest : ∀ n, n ≠ name → lent'.filterMap (·.digest? n) = lent.filterMap (·.digest? n))
    (hmac : ∀ i, lent'.filterMap (·.mac? i) = lent.filterMap (·.mac? i))
    (hhome : ∀ loan ∈ lent', loan.Home s) :
    Accounts { s with pools := s.pools.replace name .digest new } lent' where
  digest n pool hp := by
    by_cases hn : n = name
    · subst hn
      -- a pool of this name is the new one, of any other the old one
      have hfound := Pool.Directory.pool?_replace_self (p := new) hold
      obtain rfl : new = pool := Option.some.inj (hfound.symm.trans hp)
      exact hnew
    · rw [hrest n hn]
      refine ha.digest n pool ?_
      rw [← hp]
      exact (Pool.Directory.pool?_replace_ne hn).symm
  mac i pool hp := by
    obtain ⟨kind, key, hfactory, ho⟩ := ha.mac i pool hp
    exact ⟨kind, key, hfactory, (hmac i).symm ▸ ho⟩
  home loan hl := by
    have hh := hhome loan hl
    cases loan with
    | mac number h => exact hh
    | digest n h =>
        unfold Loan.Home at hh ⊢
        by_cases hn : n = name
        · subst hn
          dsimp only
          rw [Pool.Directory.pool?_replace_self hold]
          rfl
        · dsimp only
          rw [Pool.Directory.pool?_replace_ne hn]
          exact hh

/-- The pool of a MAC key is put in order with what is now lent from it; the rest stands. -/
theorem Accounts.set_mac {number : Nat} {old new : Pool Mac.Context}
    (ha : Accounts s lent) (hold : s.macPools[number]? = some old)
    (hfactory : new.factory = old.factory)
    (hnew : ∀ good : Mac.Context → Prop, InOrder good old (lent.filterMap (·.mac? number)) →
      InOrder good new (lent'.filterMap (·.mac? number)))
    (hrest : ∀ i, i ≠ number → lent'.filterMap (·.mac? i) = lent.filterMap (·.mac? i))
    (hdigest : ∀ n, lent'.filterMap (·.digest? n) = lent.filterMap (·.digest? n))
    (hhome : ∀ loan ∈ lent', loan.Home s) :
    Accounts { s with macPools := s.macPools.set number new } lent' where
  digest n pool hp := by
    rw [hdigest n]
    exact ha.digest n pool hp
  mac i pool hp := by
    by_cases hi : i = number
    · subst hi
      obtain ⟨kind, key, hmade, ho⟩ := ha.mac i old hold
      obtain rfl : new = pool := by
        have hlt : i < s.macPools.length := (List.getElem?_eq_some_iff.mp hold).1
        simpa [hlt] using hp
      exact ⟨kind, key, fun k => hfactory ▸ hmade k, hnew _ ho⟩
    · rw [hrest i hi]
      refine ha.mac i pool ?_
      simpa [List.getElem?_set_ne (Ne.symm hi)] using hp
  home loan hl := by
    have hh := hhome loan hl
    cases loan with
    | digest n h => exact hh
    | mac i h =>
        unfold Loan.Home at hh ⊢
        simpa using hh

/-! ## Lending and taking back -/

theorem accounts_start (executor : Executor) (entropy : Entropy) (capacity : Nat) :
    Accounts (State.start executor entropy capacity) [] where
  digest name pool hp := by
    exact absurd hp (by simp [State.start, Pool.Directory.empty, Pool.Directory.pool?,
      Pool.Directory.find?])
  mac number pool hp := by
    exact absurd hp (by simp [State.start])
  home loan hl := by
    exact absurd hl (by simp)

/-- In which order the loans are listed does not matter. -/
theorem Accounts.perm (ha : Accounts s lent) (hp : lent.Perm lent') : Accounts s lent' where
  digest name pool hpool := (ha.digest name pool hpool).perm (hp.filterMap _)
  mac number pool hpool := by
    obtain ⟨kind, key, hfactory, ho⟩ := ha.mac number pool hpool
    exact ⟨kind, key, hfactory, ho.perm (hp.filterMap _)⟩
  home loan hl := ha.home loan (hp.mem_iff.mpr hl)

theorem checkout_digest {kind : Digest.Kind} {pool : Pool Digest.Context}
    (hp : s.pools.pool? kind.name .digest = some pool) :
    checkout (.digest kind) s =
      ((pool.checkout.1.map (Loan.digest kind.name)).mapError Failure.error,
        { s with pools := s.pools.replace kind.name .digest pool.checkout.2 }) := by
  unfold checkout
  dsimp only
  rw [hp]
  rcases hout : pool.checkout with ⟨e | h, new⟩
  · simp [hout, Except.map]
  · simp [hout, Except.map]

theorem checkout_mac {number : Nat} {pool : Pool Mac.Context}
    (hp : s.macPools[number]? = some pool) :
    checkout (.mac number) s =
      ((pool.checkout.1.map (Loan.mac number)).mapError Failure.error,
        { s with macPools := s.macPools.set number pool.checkout.2 }) := by
  unfold checkout
  dsimp only
  rw [hp]
  rcases hout : pool.checkout with ⟨e | h, new⟩
  · simp [hout, Except.map]
  · simp [hout, Except.map]

/-- A source without a pool has nothing to lend. -/
theorem checkout_digest_none {kind : Digest.Kind}
    (hp : s.pools.pool? kind.name .digest = none) :
    checkout (.digest kind) s
      = (.error (.error (.invalidInput (.handleType kind.name))), s) := by
  unfold checkout
  dsimp only
  rw [hp]

theorem checkout_mac_none {number : Nat} (hp : s.macPools[number]? = none) :
    checkout (.mac number) s = (.error (.error (.invalidInput (.handleType "HMAC"))), s) := by
  unfold checkout
  dsimp only
  rw [hp]

/-- What is lent is a handle of the source's own kind, and is on the account from then on. -/
theorem Accounts.checkout_ok (ha : Accounts s lent) (hc : checkout source s = (.ok loan, s')) :
    Accounts s' (loan :: lent) ∧ loan.reset.Took source [] := by
  cases source with
  | digest kind =>
      cases hpool : s.pools.pool? kind.name .digest with
      | none =>
          rw [checkout_digest_none hpool] at hc
          exact absurd (congrArg Prod.fst hc) (by simp)
      | some pool =>
          rw [checkout_digest hpool] at hc
          rcases hout : pool.checkout with ⟨e | h, new⟩
          · rw [hout] at hc
            exact absurd (congrArg Prod.fst hc) (by simp [Except.map])
          · rw [hout] at hc
            obtain ⟨rfl, rfl⟩ := by simpa [Except.map] using hc
            obtain ⟨ho, hgood⟩ := (ha.digest kind.name pool hpool).checkout_ok hout
            have hkind : h.value.kind = kind := Digest.Kind.name_injective hgood
            -- the loan is entered for its own pool only
            refine ⟨ha.set_digest hpool ?_ ?_ ?_ ?_, rfl, ?_⟩
            · simpa [Loan.digest?] using ho
            · intro n hn
              simp [Loan.digest?, Ne.symm hn]
            · intro i
              simp [Loan.mac?]
            · intro loan hl
              rcases List.mem_cons.mp hl with rfl | hl
              · simp [Loan.Home, hpool]
              · exact ha.home loan hl
            · -- the reset is what makes the context forget its last borrower
              show h.value.reset = _
              rw [Digest.Context.reset, hkind]
              rfl
  | mac number =>
      cases hpool : s.macPools[number]? with
      | none =>
          rw [checkout_mac_none hpool] at hc
          exact absurd (congrArg Prod.fst hc) (by simp)
      | some pool =>
          rw [checkout_mac hpool] at hc
          rcases hout : pool.checkout with ⟨e | h, new⟩
          · rw [hout] at hc
            exact absurd (congrArg Prod.fst hc) (by simp [Except.map])
          · rw [hout] at hc
            obtain ⟨rfl, rfl⟩ := by simpa [Except.map] using hc
            have hfactory : new.factory = pool.factory := by
              simpa [hout] using Pool.factory_checkout pool
            refine ⟨ha.set_mac hpool hfactory ?_ ?_ ?_ ?_, rfl, rfl⟩
            · intro good ho
              simpa [Loan.mac?] using (ho.checkout_ok hout).1
            · intro i hi
              simp [Loan.mac?, Ne.symm hi]
            · intro n
              simp [Loan.digest?]
            · intro loan hl
              rcases List.mem_cons.mp hl with rfl | hl
              · simp [Loan.Home, hpool]
              · exact ha.home loan hl

/-- A checkout that fails lends nothing. -/
theorem Accounts.checkout_error {f : Failure} (ha : Accounts s lent)
    (hc : checkout source s = (.error f, s')) : Accounts s' lent := by
  cases source with
  | digest kind =>
      cases hpool : s.pools.pool? kind.name .digest with
      | none =>
          -- there is no pool, and none is made
          rw [checkout_digest_none hpool] at hc
          obtain rfl : s = s' := congrArg Prod.snd hc
          exact ha
      | some pool =>
          rw [checkout_digest hpool] at hc
          rcases hout : pool.checkout with ⟨e | h, new⟩
          · rw [hout] at hc
            obtain rfl := congrArg Prod.snd hc
            exact ha.set_digest hpool ((ha.digest kind.name pool hpool).checkout_error hout)
              (fun _ _ => rfl) (fun _ => rfl) ha.home
          · rw [hout] at hc
            exact absurd (congrArg Prod.fst hc) (by simp [Except.map])
  | mac number =>
      cases hpool : s.macPools[number]? with
      | none =>
          rw [checkout_mac_none hpool] at hc
          obtain rfl : s = s' := congrArg Prod.snd hc
          exact ha
      | some pool =>
          rw [checkout_mac hpool] at hc
          rcases hout : pool.checkout with ⟨e | h, new⟩
          · rw [hout] at hc
            obtain rfl := congrArg Prod.snd hc
            have hfactory : new.factory = pool.factory := by
              simpa [hout] using Pool.factory_checkout pool
            exact ha.set_mac hpool hfactory (fun _ ho => ho.checkout_error hout)
              (fun _ _ => rfl) (fun _ => rfl) ha.home
          · rw [hout] at hc
            exact absurd (congrArg Prod.fst hc) (by simp [Except.map])

/-- A loan that is given back is off the account. -/
theorem Accounts.giveBack (ha : Accounts s (loan :: lent)) :
    Accounts (s.giveBack loan) lent := by
  have hhome : ∀ loan ∈ lent, loan.Home s := fun l hl => ha.home l (List.mem_cons_of_mem _ hl)
  have hown := ha.home loan (by simp)
  unfold State.giveBack
  cases loan with
  | digest name h =>
      -- a loan that is on the account has its pool still, so it does not get lost
      obtain ⟨pool, hpool⟩ := Option.isSome_iff_exists.mp hown
      dsimp only
      rw [hpool]
      have ho := ha.digest name pool hpool
      refine ha.set_digest hpool ?_ ?_ ?_ hhome
      · exact InOrder.release (by simpa [Loan.digest?] using ho)
      · intro n hn
        simp [Loan.digest?, Ne.symm hn]
      · intro i
        simp [Loan.mac?]
  | mac number h =>
      obtain ⟨pool, hpool⟩ := Option.isSome_iff_exists.mp hown
      dsimp only
      rw [hpool]
      refine ha.set_mac hpool (Pool.factory_release pool h) ?_ ?_ ?_ hhome
      · intro good ho
        exact InOrder.release (by simpa [Loan.mac?] using ho)
      · intro i hi
        simp [Loan.mac?, Ne.symm hi]
      · intro n
        simp [Loan.digest?]

/-- Whatever a borrower feeds a context, the account stands. -/
theorem Accounts.revalue (ha : Accounts s (loan :: lent)) (hr : loan'.reset = loan.reset) :
    Accounts s (loan' :: lent) := by
  cases loan with
  | digest name h =>
      cases loan' with
      | mac number h' => exact absurd hr (by simp [Loan.reset])
      | digest name' h' =>
          simp only [Loan.reset, Loan.digest.injEq, Handle.mk.injEq] at hr
          obtain ⟨rfl, hserial, hvalue⟩ := hr
          -- a digest context is good for its pool by its kind, which a reset does not touch
          have hkind : h'.value.kind = h.value.kind := congrArg (·.kind) hvalue
          refine ⟨?_, ?_, ?_⟩
          · intro n pool hp
            have ho := ha.digest n pool hp
            by_cases hn : name' = n
            · subst hn
              simp only [Loan.digest?, List.filterMap_cons, if_true] at ho ⊢
              exact ho.revalue hserial (hkind.symm ▸ ho.sound h (by simp))
            · simpa [Loan.digest?, hn] using ho
          · intro i pool hp
            simpa [Loan.mac?] using ha.mac i pool hp
          · intro l hl
            rcases List.mem_cons.mp hl with rfl | hl
            · exact ha.home (.digest name' h) (by simp)
            · exact ha.home l (List.mem_cons_of_mem _ hl)
  | mac number h =>
      cases loan' with
      | digest name' h' => exact absurd hr (by simp [Loan.reset])
      | mac number' h' =>
          simp only [Loan.reset, Loan.mac.injEq, Handle.mk.injEq] at hr
          obtain ⟨rfl, hserial, hvalue⟩ := hr
          refine ⟨?_, ?_, ?_⟩
          · intro n pool hp
            simpa [Loan.digest?] using ha.digest n pool hp
          · intro i pool hp
            obtain ⟨kind, key, hfactory, ho⟩ := ha.mac i pool hp
            refine ⟨kind, key, hfactory, ?_⟩
            by_cases hi : number' = i
            · subst hi
              simp only [Loan.mac?, List.filterMap_cons, if_true] at ho ⊢
              -- a MAC context is good for its pool only with the very key of it
              exact ho.revalue hserial (hvalue.trans (ho.sound h (by simp)))
            · simpa [Loan.mac?, hi] using ho
          · intro l hl
            rcases List.mem_cons.mp hl with rfl | hl
            · exact ha.home (.mac number' h) (by simp)
            · exact ha.home l (List.mem_cons_of_mem _ hl)

/-! ## Borrowing -/

theorem snd_borrow (source : Source) (s : State) : (borrow source s).2 = (checkout source s).2 := by
  unfold borrow
  rcases hc : checkout source s with ⟨f | loan, s'⟩
  · rw [Action.bind_of_error hc]
  · rw [Action.bind_of_ok hc]
    rfl

/-- A loan starts with the empty message, whatever its handle was used for before. -/
theorem borrow_ok (ha : Accounts s lent) (hb : borrow source s = (.ok loan, s')) :
    Accounts s' (loan :: lent) ∧ loan.Took source [] := by
  obtain ⟨out, s₁, hc, hpure⟩ := Action.bind_eq_ok hb
  obtain rfl : out.reset = loan := Except.ok.inj (congrArg Prod.fst hpure)
  obtain rfl : s₁ = s' := congrArg Prod.snd hpure
  -- the account goes by handles, which a reset does not exchange
  obtain ⟨hacc, htook⟩ := ha.checkout_ok hc
  exact ⟨hacc.revalue (Loan.reset_reset out), htook⟩

theorem borrow_error {f : Failure} (ha : Accounts s lent) (hb : borrow source s = (.error f, s')) :
    Accounts s' lent := by
  rcases hc : checkout source s with ⟨e | out, s₁⟩
  · rw [borrow, Action.bind_of_error hc] at hb
    obtain rfl : s₁ = s' := congrArg Prod.snd hb
    exact ha.checkout_error hc
  · rw [borrow, Action.bind_of_ok hc, Action.pure_apply] at hb
    exact absurd (congrArg Prod.fst hb) (by simp)

/-- Computing is borrowing for one message; it fails only where there is nothing to borrow. -/
theorem compute_cases (source : Source) (data : Bytes) (s : State) :
    (∃ f s', borrow source s = (.error f, s') ∧ compute source data s = (.error f, s'))
      ∨ ∃ loan s', borrow source s = (.ok loan, s')
          ∧ compute source data s = (.ok (loan.update data).finish.1,
              s'.giveBack (loan.update data).finish.2) := by
  rcases hb : borrow source s with ⟨f | loan, s'⟩
  · exact Or.inl ⟨f, s', rfl, Action.bind_of_error hb⟩
  · refine Or.inr ⟨loan, s', rfl, ?_⟩
    rw [compute, Action.bind_of_ok hb]
    rfl

/-- What a source computes is what a context gives that took in just the message. -/
theorem compute_ok {result : Bytes} (ha : Accounts s lent)
    (hc : (compute source data s).1 = .ok result) :
    ∃ loan : Loan, loan.Took source data ∧ result = loan.finish.1 := by
  rcases compute_cases source data s with ⟨f, s₁, _, hout⟩ | ⟨loan, s₁, hb, hout⟩
  · rw [hout] at hc
    exact absurd hc (by simp)
  · rw [hout] at hc
    refine ⟨loan.update data, ?_, ?_⟩
    · simpa using (borrow_ok ha hb).2.update data
    · exact (Except.ok.inj hc).symm

/-- A source that has lent a context can always lend another. -/
theorem Accounts.borrow_succeeds (ha : Accounts s lent) (hl : loan ∈ lent)
    (ht : loan.Took source message) : ∃ other s', borrow source s = (.ok other, s') := by
  have hhome := ha.home loan hl
  -- only the checkout can fail; the reset after it cannot
  suffices hout : ∃ other s', checkout source s = (.ok other, s') by
    obtain ⟨other, s', hc⟩ := hout
    exact ⟨other.reset, s', Action.bind_of_ok hc⟩
  cases source with
  | digest kind =>
      cases loan with
      | mac number h => exact ht.elim
      | digest name h =>
          obtain ⟨rfl, _⟩ := ht
          obtain ⟨pool, hpool⟩ := Option.isSome_iff_exists.mp hhome
          have hmem : h ∈ lent.filterMap (·.digest? kind.name) :=
            List.mem_filterMap.mpr ⟨_, hl, by simp [Loan.digest?]⟩
          obtain ⟨g, new, hout⟩ :=
            (ha.digest kind.name pool hpool).checkout_succeeds (List.ne_nil_of_mem hmem)
          rw [checkout_digest hpool, hout]
          exact ⟨_, _, rfl⟩
  | mac number =>
      cases loan with
      | digest name h => exact ht.elim
      | mac own h =>
          obtain ⟨rfl, _⟩ := ht
          obtain ⟨pool, hpool⟩ := Option.isSome_iff_exists.mp hhome
          obtain ⟨kind, key, _, ho⟩ := ha.mac _ pool hpool
          have hmem : h ∈ lent.filterMap (·.mac? own) :=
            List.mem_filterMap.mpr ⟨_, hl, by simp [Loan.mac?]⟩
          obtain ⟨g, new, hout⟩ := ho.checkout_succeeds (List.ne_nil_of_mem hmem)
          rw [checkout_mac hpool, hout]
          exact ⟨_, _, rfl⟩

/-! ## Work that leaves nothing borrowed -/

/-- Whatever is lent before is lent afterwards, and nothing else. -/
def Balanced {α : Type} (work : Action State α) : Prop :=
  ∀ lent, Action.Keeps (fun s => Accounts s lent) work

theorem balanced_compute (source : Source) (data : Bytes) : Balanced (compute source data) := by
  intro lent s ha
  rcases compute_cases source data s with ⟨f, s₁, hb, hout⟩ | ⟨loan, s₁, hb, hout⟩
  · rw [hout]
    exact borrow_error ha hb
  · rw [hout]
    obtain ⟨hacc, _⟩ := borrow_ok ha hb
    exact (hacc.revalue ((Loan.reset_finish _).trans (Loan.reset_update loan data))).giveBack

/-- Nothing is lent from a digest pool that is not there. -/
theorem Accounts.digest_free {name : String} (ha : Accounts s lent)
    (hnone : s.pools.pool? name .digest = none) : lent.filterMap (·.digest? name) = [] := by
  refine List.filterMap_eq_nil_iff.mpr fun loan hl => ?_
  have hhome := ha.home loan hl
  cases loan with
  | mac number h => rfl
  | digest own h =>
      by_cases hn : own = name
      · subst hn
        exact absurd hhome (by simp [Loan.Home, hnone])
      · simp [Loan.digest?, hn]

theorem Accounts.mac_free {number : Nat} (ha : Accounts s lent)
    (hnone : s.macPools[number]? = none) : lent.filterMap (·.mac? number) = [] := by
  refine List.filterMap_eq_nil_iff.mpr fun loan hl => ?_
  have hhome := ha.home loan hl
  cases loan with
  | digest name h => rfl
  | mac own h =>
      by_cases hn : own = number
      · subst hn
        exact absurd hhome (by simp [Loan.Home, hnone])
      · simp [Loan.mac?, hn]

/-- A factory of digest contexts makes those of the digest that the pool is named for, or none. -/
def Supplies (name : String) : (t : HandleType) → (Nat → Except Error t.carrier) → Prop
  | .digest, factory =>
    (∀ k, ∃ c, factory k = .ok c ∧ c.kind.name = name) ∨ ∀ k, ∃ e, factory k = .error e
  | _, _ => True

/-- A pool that is made anew has lent nothing: who borrowed has a pool already. -/
theorem Accounts.getOrCreate (ha : Accounts s lent) (name : String) (t : HandleType) (size : Nat)
    {factory : Nat → Except Error t.carrier} (hf : Supplies name t factory) :
    Accounts { s with pools := (s.pools.getOrCreate name t size factory).2 } lent := by
  rcases Pool.Directory.getOrCreate_cases s.pools name t size factory with
    hsame | ⟨hnone, hadded⟩
  · rw [hsame]
    exact ha
  · rw [hadded]
    have hmissing : s.pools.pool? name .digest = none := by
      rw [Pool.Directory.pool?, hnone]
      rfl
    refine ⟨?_, ha.mac, ?_⟩
    · intro n pool hp
      by_cases hn : n = name
      · subst hn
        by_cases ht : t = .digest
        · subst ht
          rw [Pool.Directory.pool?_added_self hnone] at hp
          obtain rfl := Option.some.inj hp
          rw [ha.digest_free hmissing]
          exact Pool.inOrder_empty hf
        · -- the new pool holds something else, so there is still none of contexts
          refine absurd hp ?_
          unfold Pool.Directory.find? at hnone
          simp [Pool.Directory.pool?, Pool.Directory.find?, List.find?_append, hnone,
            Pool.Entry.pool?, ht]
      · rw [Pool.Directory.pool?_added_ne hn] at hp
        exact ha.digest n pool hp
    · intro loan hl
      have hhome := ha.home loan hl
      cases loan with
      | mac number h => exact hhome
      | digest own h =>
          unfold Loan.Home at hhome ⊢
          dsimp only at hhome ⊢
          -- the home of a loan is there already, so it is not the pool that is made
          have hn : own ≠ name := by
            rintro rfl
            exact absurd hhome (by simp [hmissing])
          rw [Pool.Directory.pool?_added_ne hn]
          exact hhome

theorem balanced_openDigestPool (kind : Digest.Kind) : Balanced (openDigestPool kind) := by
  intro lent s ha
  exact ha.getOrCreate kind.name .digest _ (Or.inl fun _ => ⟨_, rfl, rfl⟩)

/-- The pool of a new key gets the next number, from which nothing is lent yet. -/
theorem Accounts.add_mac {kind : Digest.Kind} {key : Bytes} {name : String} {capacity : Nat}
    (ha : Accounts s lent) :
    Accounts { s with macPools := s.macPools ++
      [Pool.empty name capacity fun _ => .ok (Mac.Context.fresh kind key)] } lent where
  digest := ha.digest
  mac number pool hp := by
    dsimp only at hp
    rcases Nat.lt_trichotomy number s.macPools.length with hlt | rfl | hgt
    · rw [List.getElem?_append_left hlt] at hp
      exact ha.mac number pool hp
    · obtain rfl : _ = pool := by simpa using hp
      refine ⟨kind, key, fun _ => rfl, ?_⟩
      rw [ha.mac_free (by simp)]
      exact Pool.inOrder_empty (Or.inl fun _ => ⟨_, rfl, rfl⟩)
    · rw [List.getElem?_append_right (Nat.le_of_lt hgt)] at hp
      have hpos : number - s.macPools.length ≠ 0 := by omega
      exact absurd hp (by simp [hpos])
  home loan hl := by
    have hhome := ha.home loan hl
    cases loan with
    | digest name h => exact hhome
    | mac own h =>
        unfold Loan.Home at hhome ⊢
        dsimp only at hhome ⊢
        -- a loan from a numbered pool has a smaller number than the new one
        have hlt : own < s.macPools.length := by simpa using hhome
        rw [List.getElem?_append_left hlt]
        exact hhome

theorem balanced_openMacPool (kind : Digest.Kind) (key : Bytes) :
    Balanced (openMacPool kind key) := by
  intro lent s ha
  unfold openMacPool Pool.reserve
  cases hroom : Room.reserve (s.pools.capacity * macContextSize) with
  | error f => exact ha
  | ok u => exact ha.add_mac

end PooledCrypto.Provider
