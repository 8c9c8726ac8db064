import PooledCrypto.Proofs.Decomposition
import PooledCrypto.Proofs.Isolation
import PooledCrypto.Proofs.Startup

/-!
# Whose key a code is under

The signers and verifiers that are made with a MAC key, and all functions they start, share one pool
of contexts, and another key has another pool even if its bytes are the same. A context of such a
pool knows its key, so every code that comes out of it is the code of one message under that key:
the message of the call, or the chunks that were fed to the function.

`Keyed` says so of a session and a key that was there at some time. Whether a verdict is right is
told by the key itself: it is the one that a copy of the key gives that is imported on the spot.
-/

namespace PooledCrypto.Provider

variable {k : HmacKey} {s s' : State} {lent : List Loan} {loan own : Loan} {message : Bytes}

/-! ## The pool of one key -/

/-- The contexts in the pool of a key are bound to that key, those that are lent among them. -/
theorem HmacKey.Kept.order (hk : k.Kept s) (ha : Accounts s lent) :
    ∃ pool, s.macPools[k.pool]? = some pool
      ∧ Pool.InOrder (fun c => c.reset = .fresh k.digest k.bytes) pool
          (lent.filterMap (·.mac? k.pool)) := by
  obtain ⟨pool, hpool, hf⟩ := hk.pool
  obtain ⟨kind, key, hmade, ho⟩ := ha.mac k.pool pool hpool
  -- the factory settles whose contexts they are
  have hsame : Mac.Context.fresh kind key = Mac.Context.fresh k.digest k.bytes :=
    Except.ok.inj ((hmade 0).symm.trans (hf 0))
  rw [hsame] at ho
  exact ⟨pool, hpool, ho⟩

/-- A context of a key gives the code of what it took in under that key. -/
theorem HmacKey.Kept.finish (hk : k.Kept s) (ha : Accounts s lent) (hl : own ∈ lent)
    (hr : loan.reset = own.reset) (ht : loan.Took (.mac k.pool) message) :
    loan.finish.1 = Mac.hmac k.digest.hash k.bytes message := by
  cases loan with
  | digest name h => exact ht.elim
  | mac number h =>
      obtain ⟨rfl, hvalue⟩ := ht
      cases own with
      | digest name h' => exact absurd hr (by simp [Loan.reset])
      | mac number' h' =>
          simp only [Loan.reset, Loan.mac.injEq, Handle.mk.injEq] at hr
          obtain ⟨rfl, _, hreset⟩ := hr
          obtain ⟨pool, _, ho⟩ := hk.order ha
          have hmem : h' ∈ lent.filterMap (·.mac? k.pool) :=
            List.mem_filterMap.mpr ⟨_, hl, by simp [Loan.mac?]⟩
          have hown : h'.value.reset = .fresh k.digest k.bytes :=
            ho.sound h' (List.mem_append_right _ hmem)
          show h.value.finish.1 = _
          rw [hvalue, hreset, hown, Mac.Context.finish_update_fresh]

/-- The pool of a key always has a context to lend, and it is a fresh one. -/
theorem HmacKey.Kept.borrow (hk : k.Kept s) (ha : Accounts s lent) :
    ∃ serial s', borrow (.mac k.pool) s
      = (.ok (.mac k.pool ⟨serial, .fresh k.digest k.bytes⟩), s') := by
  obtain ⟨pool, hpool, hf⟩ := hk.pool
  obtain ⟨_, hsame, ho⟩ := hk.order ha
  obtain rfl : pool = _ := Option.some.inj (hpool.symm.trans hsame)
  have hout : ∃ h new, pool.checkout = (.ok h, new)
      ∧ h.value.reset = .fresh k.digest k.bytes := by
    rcases Pool.checkout_cases pool with ⟨h, rest, hidle, hc⟩ | ⟨_, v, hv, hc⟩ | ⟨_, e, he, _⟩
    · exact ⟨h, _, hc, ho.sound h (by simp [hidle])⟩
    · obtain rfl := Except.ok.inj ((hf _).symm.trans hv)
      exact ⟨_, _, hc, rfl⟩
    · exact absurd ((hf _).symm.trans he) (by simp)
  obtain ⟨h, new, hc, hreset⟩ := hout
  have hcheckout : checkout (.mac k.pool) s
      = (.ok (.mac k.pool h), { s with macPools := s.macPools.set k.pool new }) := by
    rw [checkout_mac hpool, hc]
    rfl
  refine ⟨h.serial, { s with macPools := s.macPools.set k.pool new }, ?_⟩
  rw [Provider.borrow, Action.bind_of_ok hcheckout, ← hreset]
  rfl

/-- **A key's contexts compute the codes under the key**, whatever its pool went through before. -/
theorem computes_mac (hk : k.Kept s) (ha : Accounts s lent) :
    Session.Computes s lent (.mac k.pool) (Mac.hmac k.digest.hash k.bytes) where
  call message out h := by
    rcases compute_cases (.mac k.pool) message s with ⟨f, s₁, _, hout⟩ | ⟨loan, s₁, hb, hout⟩
    · rw [hout] at h
      exact absurd h (by simp)
    · rw [hout] at h
      have hlater := continues_borrow (.mac k.pool) s
      rw [hb] at hlater
      obtain ⟨hacc, htook⟩ := borrow_ok ha hb
      obtain rfl := Except.ok.inj h
      refine (hk.continues hlater).finish hacc (by simp) (loan.reset_update message) ?_
      simpa using htook.update message
  lent own hl loan hr message ht := hk.finish ha hl hr ht

theorem HmacKey.Kept.compute (hk : k.Kept s) (ha : Accounts s lent) (message : Bytes) :
    (compute (.mac k.pool) message s).1 = .ok (Mac.hmac k.digest.hash k.bytes message) := by
  obtain ⟨serial, s₁, hb⟩ := hk.borrow ha
  rcases compute_cases (.mac k.pool) message s with ⟨f, s₂, hf, _⟩ | ⟨loan, s₂, _, hout⟩
  · rw [hb] at hf
    exact absurd (congrArg Prod.fst hf) (by simp)
  · have hcode := (computes_mac hk ha).call message _ (congrArg Prod.fst hout)
    rw [hout, hcode]

/-! ## Copies -/

/-- What a verifier says that is made with a copy of the key, imported on the spot. -/
def HmacKey.verifyWithCopy (k : HmacKey) (message signature : Bytes) : Action State Bool := do
  let copy ← HmacKey.decode k.digest.name .raw k.bytes
  let verifier ← (Verifier.ofHmacKey copy).make .create id
  verifier.core.verify message signature

/-- A copy compares the code under the key with the signature. -/
theorem HmacKey.Kept.verifyWithCopy (hk : k.Kept s) (ha : Accounts s lent)
    (message signature : Bytes) :
    (k.verifyWithCopy message signature s).1
      = .ok (Mac.hmac k.digest.hash k.bytes message == signature) := by
  obtain ⟨s', hdecode⟩ := hk.decode
  have hcopy := kept_decode hdecode
  have hacc : Accounts s' lent := by
    have hmid := (opening_decodeHmacKey k.digest.name .raw k.bytes).balanced lent s ha
    rw [hdecode] at hmid
    exact hmid
  have hcode : (Provider.compute (.mac s.macPools.length) message s').1
      = .ok (Mac.hmac k.digest.hash k.bytes message) := hcopy.compute hacc message
  unfold HmacKey.verifyWithCopy
  rw [Action.bind_of_ok hdecode]
  show (Verifier.verify ⟨.mac s.macPools.length, .mac⟩ message signature s').1 = _
  unfold Verifier.verify
  rw [Action.fst_bind, hcode]
  rfl

end PooledCrypto.Provider

namespace PooledCrypto.Session

open Provider

/-! ## Codes -/

/-- Whether the caller of an operation gets its result in this shape of a call. -/
def Reports {κ : Type} (o : Operation κ) : Shape → Prop
  | .direct => True
  | .offloaded => o.executor.adaptor.runs = true
      ∧ o.executor.adaptor.report (.returns ()) = .ok ()

/-- Whether whoever gives the command gets the result of the operation in the slot. -/
def ReportsTo (s : Session) : Command → Prop
  | .sign on _ shape _ => ∀ o drawn, s.item? on = some (.signer o drawn) → Reports o shape
  | .verify on _ _ shape => ∀ o, s.item? on = some (.verifier o) → Reports o shape
  | _ => True

/-- The code is the signature, if it is one under a key. -/
def Errand.Coded : Errand → Prop
  | .hash _ => True
  | .sign s => ∀ number, s.source = .mac number → s.scheme = .mac
  | .verify v _ => ∀ number, v.source = .mac number → v.scheme = .mac

/-- The value is the answer to the request under the key: the code of the message as a signature, or
the verdict of a copy of the key. -/
def Request.Under (r : Request) (k : HmacKey) (st : State) (v : Value) (after : Session) : Prop :=
  match r.errand with
  | .hash _ => False
  | .sign _ =>
    ∃ drawn, v = .data ⟨Mac.hmac k.digest.hash k.bytes r.message, drawn⟩
      ∧ ∀ name, r.dest = some name → after.item? name
          = some (.data ⟨Mac.hmac k.digest.hash k.bytes r.message, drawn⟩)
  | .verify _ signature =>
    ∃ verdict, v = .flag verdict
      ∧ (k.verifyWithCopy r.message signature st).1 = .ok verdict

/-- All that was made with a key works with that key alone. -/
structure Keyed (k : HmacKey) (s : Session) (l : Ledger) : Prop where
  /-- A request under the key is answered by the code of its own message, or by the verdict of a copy
  of the key on it. -/
  answers : ∀ (c : Command) (r : Request) (v : Value), s.request? l c = some r →
    r.errand.source = .mac k.pool → (s.step c).1.outcome = .value v →
      r.Under k s.provider.state v (s.step c).2
  /-- It is answered if the executor does its work and there is room for its bytes. -/
  succeeds : ∀ (c : Command) (r : Request), s.request? l c = some r →
    r.errand.source = .mac k.pool → c.fits = true → s.ReportsTo c →
      ∃ v, (s.step c).1.outcome = .value v
  /-- So it is where a signature is demanded to be valid. -/
  demands : ∀ (on : String) (data signature : Recipe) (o : Operation Verifier) (d sig : Datum),
    s.item? on = some (.verifier o) → s.data? data = some d → s.data? signature = some sig →
      o.core.source = .mac k.pool → (Command.verifyOrFail on data signature).fits = true →
        ∃ verdict, (k.verifyWithCopy d.bytes sig.bytes s.provider.state).1 = .ok verdict
          ∧ (s.step (.verifyOrFail on data signature)).1.outcome
            = if verdict then .value .nothing
              else .failure (.error (.crypto (some .signatureMismatch)))
  /-- An open function has an entry with its errand and its chunks. -/
  entered : ∀ (on : String) (item : Item), s.item? on = some item → item.isOpen = true →
    ∃ entry loan, l on = some entry ∧ entry.errand.Open loan item
      ∧ loan.Took entry.errand.source entry.fed.flatten
  /-- Signers and verifiers that are made with the key have their contexts from one pool, and take the
  code as the signature. -/
  shared : ∀ route changes st st',
    (∀ o, (Signer.ofHmacKey k).make route changes st = (.ok o, st') →
      o.core.source = .mac k.pool ∧ o.core.scheme = .mac)
    ∧ ∀ o, (Verifier.ofHmacKey k).make route changes st = (.ok o, st') →
      o.core.source = .mac k.pool ∧ o.core.scheme = .mac
  /-- A copy says whether the signature is the code. -/
  copies : ∀ message signature, (k.verifyWithCopy message signature s.provider.state).1
    = .ok (Mac.hmac k.digest.hash k.bytes message == signature)
  /-- A context of the key's pool, idle or lent, is in one place and is bound to the key. -/
  separate : ∃ pool, s.provider.state.macPools[k.pool]? = some pool
    ∧ let all := pool.idle ++ s.loans.filterMap (·.mac? k.pool)
      (all.map (·.serial)).Nodup ∧ ∀ h ∈ all, h.value.kind = k.digest ∧ h.value.key = k.bytes
  /-- A context that is borrowed next has taken in nothing, whoever used it before. -/
  fresh : ∃ serial, (borrow (.mac k.pool) s.provider.state).1
    = .ok (.mac k.pool ⟨serial, .fresh k.digest k.bytes⟩)
  /-- No other key has the pool, and no key that is made from now on will have it. -/
  alone : (∀ name k' drawn, s.item? name = some (.key (.hmac k') drawn) → k'.pool = k.pool →
      k' = k)
    ∧ ∀ kind bytes k' st, HmacKey.make kind bytes s.provider.state = (.ok k', st) →
      k'.pool ≠ k.pool

variable {s s' : Session} {l : Ledger} {c : Command} {r : Request} {v : Value} {k : HmacKey}
  {errand : Errand} {st : State} {number : Nat} {code : Bytes}

/-! ## Schemes -/

/-- Every entry takes codes under a key as signatures. -/
def Ledger.Coded (l : Ledger) : Prop := ∀ name entry, l name = some entry → entry.errand.Coded

theorem Ledger.Coded.enter (hl : l.Coded) (dest : Option String) (he : errand.Coded) :
    (l.enter dest errand).Coded := by
  intro name entry h
  unfold Ledger.enter at h
  split at h
  · obtain rfl := Option.some.inj h
    exact he
  · exact hl name entry h

theorem Ledger.Coded.feed (hl : l.Coded) (on : String) (chunk : Bytes) : (l.feed on chunk).Coded := by
  intro name entry h
  unfold Ledger.feed at h
  split at h
  · obtain ⟨old, hold, rfl⟩ := Option.map_eq_some_iff.mp h
    exact hl name old hold
  · exact hl name entry h

/-- Functions are started by what is in slots, and that is in order. -/
theorem Ledger.Coded.note (hl : l.Coded) (hs : s.Sound) (c : Command) (answer : Answer) :
    (l.note s c answer).Coded := by
  unfold Ledger.note
  split
  · split
    · exact hl.enter _ trivial
    · exact hl
  · split
    · rename_i o drawn hitem
      have hsound : o.core.Sound s.provider.state := hs _ _ (Slots.mem_of_get? hitem)
      exact hl.enter _ hsound.scheme
    · exact hl
  · split
    · rename_i o d hitem hdata
      have hsound : o.core.Sound s.provider.state := hs _ _ (Slots.mem_of_get? hitem)
      exact hl.enter _ hsound.scheme
    · exact hl
  · split
    · exact hl.feed _ _
    · exact hl
  · exact hl

theorem coded_watch (hl : l.Coded) (hs : s.Sound) (commands : List Command) :
    (watch commands (s, l)).2.Coded := by
  induction commands generalizing s l with
  | nil => exact hl
  | cons c rest ih => exact ih (hl.note hs c _) ((parts_step hs c).sound hs)

theorem coded_request (hl : l.Coded) (hs : s.Sound) (hr : s.request? l c = some r) :
    r.errand.Coded := by
  have hcarried := carried_of_request hr
  generalize s.carryOut? c = out at hcarried
  cases hcarried with
  | hash shape dest found => trivial
  | sign shape dest found =>
      exact Signer.Sound.scheme (hs _ _ (Slots.mem_of_get? found))
  | verify shape found =>
      exact Verifier.Sound.scheme (hs _ _ (Slots.mem_of_get? found))
  | last last dest found opened entered => exact hl _ _ entered
  | run chunks last found opened entered => exact hl _ _ entered

/-- Nothing can go wrong once the code is there. -/
theorem Errand.Coded.result_ok (he : errand.Coded) (hk : errand.source = .mac number)
    (code : Bytes) : ∃ out, errand.result code = .ok out := by
  cases errand with
  | hash h => exact ⟨_, rfl⟩
  | sign signer =>
      have hscheme : signer.scheme = .mac := he number hk
      refine ⟨.bytes code, ?_⟩
      simp [Errand.result, hscheme, SigningScheme.sign, Except.map]
  | verify v signature => exact ⟨_, rfl⟩

/-! ## Answers -/

theorem under_of_answered (ha : r.Answered (Mac.hmac k.digest.hash k.bytes r.message) v s')
    (he : r.errand.Coded) (hk : r.errand.source = .mac k.pool)
    (hcopy : ∀ message signature, (k.verifyWithCopy message signature st).1
      = .ok (Mac.hmac k.digest.hash k.bytes message == signature)) : r.Under k st v s' := by
  obtain ⟨errand, message, dest⟩ := r
  obtain ⟨out, drawn, hout, rfl, hkept⟩ := ha
  unfold Request.Under
  cases errand with
  | hash h => exact absurd hk (by simp [Errand.source])
  | sign signer =>
      -- whoever borrows from the pool of a key computes codes
      have hscheme : signer.scheme = .mac := he k.pool hk
      unfold Errand.result at hout
      dsimp only at hout
      rw [hscheme] at hout
      obtain rfl := Except.ok.inj hout
      refine ⟨drawn, ?_, fun name hd => hkept _ name rfl hd⟩
      simp [Errand.say, signatureValue, hscheme, variesInLength]
  | verify v signature =>
      have hscheme : v.scheme = .mac := he k.pool hk
      unfold Errand.result at hout
      dsimp only at hout
      rw [hscheme] at hout
      obtain rfl := Except.ok.inj hout
      exact ⟨_, rfl, hcopy message signature⟩

variable {κ α : Type} {o : Operation κ} {shape : Shape} {work : Action State α} {x : α}

/-- Where the executor reports, a call comes to the same as its work. -/
theorem call_of_result {result : Except Error α} (hr : Reports o shape)
    (hw : (work st).1 = result.mapError .error) : o.call shape work st = work st := by
  cases shape with
  | direct => rfl
  | offloaded =>
      obtain ⟨hruns, hreport⟩ := hr
      rw [Operation.call, offload_apply, if_pos hruns]
      refine Prod.ext ?_ rfl
      rw [hw]
      cases result with
      | ok value =>
          dsimp only [Action.mapError_ok, Executor.ending]
          rw [Executor.execute_returns _ _ hruns hreport]
      | error e =>
          dsimp only [Action.mapError_error, Executor.ending]
          rw [Executor.execute_returns _ _ hruns hreport]

/-- Whoever waits for work is told how it ended. -/
theorem fst_call_of_result {result : Except Error α} (hr : Reports o shape)
    (hw : (work st).1 = result.mapError .error) :
    (o.call shape work st).1 = result.mapError .error := by
  rw [call_of_result hr hw, hw]

theorem fst_call_of_reports (hr : Reports o shape) (hw : (work st).1 = .ok x) :
    (o.call shape work st).1 = .ok x := by
  have hresult : (work st).1 = (.ok x : Except Error α).mapError .error := hw
  exact fst_call_of_result hr hresult

theorem reports_of_tells (h : o.executor.Tells) (shape : Shape) : Reports o shape := by
  cases shape with
  | direct => exact trivial
  | offloaded => exact ⟨h.runs, h.report⟩

/-- Each configuration gives an executor that reports. -/
theorem reports_of_config {around : State.Surroundings} {config : Config}
    (h : State.ofConfig around config = .ok st) (he : o.executor = st.executor) (shape : Shape) :
    Reports o shape := by
  obtain ⟨-, htells, -⟩ := State.ofConfig_eq_ok h
  rw [← he] at htells
  exact reports_of_tells htells shape

theorem fst_keep (s : Session) (dest : Option String) (item : Item) :
    (keep dest item s).1 = .ok () := by
  cases dest <;> rfl

theorem plainly_of_ok {w : Work} (h : (w s).1 = .ok v) : (plainly w s).1.outcome = .value v := by
  unfold plainly
  rcases hout : w s with ⟨f | value, after⟩
  · rw [hout] at h
    exact absurd h (by simp)
  · rw [hout] at h
    exact congrArg Outcome.value (Except.ok.inj h)

theorem step_of_fits {done : Answer × Session} (hfits : c.fits = true)
    (h : s.carryOut? c = some done) : s.step c = done := by
  unfold step
  rw [if_pos hfits, h]

theorem fst_sign {signer : Signer} {message : Bytes} (hscheme : signer.scheme = .mac)
    (hcode : (compute signer.source message st).1 = .ok code) :
    (signer.sign message st).1 = .ok code := by
  unfold Signer.sign
  rw [Action.fst_bind, hcode, hscheme]
  rfl

theorem fst_verify {verifier : Verifier} {message : Bytes} (signature : Bytes)
    (hscheme : verifier.scheme = .mac)
    (hcode : (compute verifier.source message st).1 = .ok code) :
    (verifier.verify message signature st).1 = .ok (code == signature) := by
  unfold Verifier.verify
  rw [Action.fst_bind, hcode, hscheme]
  rfl

theorem value_sign {o : Operation Signer} (d : Datum) (drawn : Bool) (dest : Option String)
    (hreports : Reports o shape) (hscheme : o.core.scheme = .mac)
    (hcode : (compute o.core.source d.bytes s.provider.state).1 = .ok code) :
    (plainly (do
      let signature ← onState (o.call shape (o.core.sign d.bytes))
      let kept : Datum := ⟨signature, drawn || d.drawn⟩
      keep dest (.data kept)
      return signatureValue o.core.scheme kept) s).1.outcome
        = .value (signatureValue o.core.scheme ⟨code, drawn || d.drawn⟩) := by
  have hcall : (onState (o.call shape (o.core.sign d.bytes)) s).1 = .ok code :=
    fst_call_of_reports hreports (fst_sign hscheme hcode)
  refine plainly_of_ok ?_
  rw [Action.fst_bind, hcall]
  dsimp only [Except.bind]
  rw [Action.fst_bind, fst_keep]
  rfl

theorem value_verify {o : Operation Verifier} (d sig : Datum) (hreports : Reports o shape)
    (hscheme : o.core.scheme = .mac)
    (hcode : (compute o.core.source d.bytes s.provider.state).1 = .ok code) :
    (plainly (do
      return .flag (← onState (o.call shape (o.core.verify d.bytes sig.bytes)))) s).1.outcome
        = .value (.flag (code == sig.bytes)) := by
  have hcall : (onState (o.call shape (o.core.verify d.bytes sig.bytes)) s).1
      = .ok (code == sig.bytes) :=
    fst_call_of_reports hreports (fst_verify sig.bytes hscheme hcode)
  refine plainly_of_ok ?_
  rw [Action.fst_bind, hcall]
  rfl

/-- A request under a key is answered, unless there is no room or the executor does not report. -/
theorem succeeds_request (ht : Tracked s l) (hk : k.Kept s.provider.state)
    (hr : s.request? l c = some r) (hsource : r.errand.source = .mac k.pool)
    (he : r.errand.Coded) (hfits : c.fits = true) (hreports : s.ReportsTo c) :
    ∃ v, (s.step c).1.outcome = .value v := by
  have hcompute := fun message => hk.compute ht.accounts message
  have hcomputes : Computes s.provider.state s.loans r.errand.source
      (Mac.hmac k.digest.hash k.bytes) := hsource ▸ computes_mac hk ht.accounts
  -- it is enough that the work comes to a value
  suffices hdone : ∃ done v, s.carryOut? c = some done ∧ done.1.outcome = .value v by
    obtain ⟨done, v, hdone, hv⟩ := hdone
    rw [step_of_fits hfits hdone]
    exact ⟨v, hv⟩
  have hcarried := carried_of_request hr
  generalize s.carryOut? c = out at hcarried
  cases hcarried with
  | hash shape dest found => exact absurd hsource (by simp [Errand.source])
  | @sign on data o drawn d shape dest found =>
      have hown : o.core.source = .mac k.pool := hsource
      have hcode := hcompute d.bytes
      rw [← hown] at hcode
      exact ⟨_, _, rfl, value_sign d drawn dest (hreports o drawn found) (he _ hown) hcode⟩
  | @verify on data signature o d sig shape found =>
      have hown : o.core.source = .mac k.pool := hsource
      have hcode := hcompute d.bytes
      rw [← hown] at hcode
      exact ⟨_, _, rfl, value_verify d sig (hreports o found) (he _ hown) hcode⟩
  | @last _ on item entry last dest found opened entered =>
      obtain ⟨loan, hl, hopen, htook⟩ := ht.opened found opened entered
      obtain ⟨item', drawn, _, _, hfed⟩ := hopen.feedLast s on last dest
      obtain ⟨out, hout⟩ := he.result_ok hsource
        (Mac.hmac k.digest.hash k.bytes (entry.fed.flatten ++ last.bytes))
      have hconclude := conclude_code hcomputes hl htook [] last.bytes
      simp only [List.foldl_nil, List.flatten_nil, List.append_nil] at hconclude
      rw [hconclude, hout] at hfed
      exact ⟨_, _, hfed, rfl⟩
  | @run _ on item entry chunks last found opened entered =>
      obtain ⟨loan, hl, hopen, htook⟩ := ht.opened found opened entered
      obtain ⟨item', drawn, _, _, hall⟩ := hopen.feedAll chunks last
      obtain ⟨out, hout⟩ := he.result_ok hsource (Mac.hmac k.digest.hash k.bytes
        (entry.fed.flatten ++ (chunks.map (·.bytes)).flatten ++ last.bytes))
      rw [conclude_code hcomputes hl htook, hout] at hall
      have hrun : ∃ after, runFunction s on item chunks last
          = some (⟨.value (entry.errand.say drawn out), none⟩, after) := by
        unfold runFunction
        rw [hall]
        exact ⟨_, rfl⟩
      obtain ⟨after, hrun⟩ := hrun
      exact ⟨_, _, hrun, rfl⟩

/-- A demand is met exactly if the signature is the code. -/
theorem demanded_mac {on : String} {data signature : Recipe} {o : Operation Verifier}
    {d sig : Datum} (hitem : s.item? on = some (.verifier o)) (hdata : s.data? data = some d)
    (hsig : s.data? signature = some sig) (hscheme : o.core.scheme = .mac)
    (hcode : (compute o.core.source d.bytes s.provider.state).1 = .ok code)
    (hfits : (Command.verifyOrFail on data signature).fits = true) :
    (s.step (.verifyOrFail on data signature)).1.outcome
      = if code == sig.bytes then .value .nothing
        else .failure (.error (.crypto (some .signatureMismatch))) := by
  rw [step_of_fits hfits (carryOut?_verifyOrFail hitem hdata hsig)]
  have hverify := fst_verify sig.bytes hscheme hcode
  -- a failed demand is an error of its own, not a verdict
  have hdemand : (o.core.verifyOrFail d.bytes sig.bytes s.provider.state).1
      = if code == sig.bytes then .ok ()
        else .error (.error (.crypto (some .signatureMismatch))) := by
    unfold Verifier.verifyOrFail
    rw [Action.fst_bind, hverify]
    cases code == sig.bytes <;> rfl
  have hwork : ((do
      onState (o.core.verifyOrFail d.bytes sig.bytes)
      return .nothing : Work) s).1
        = if code == sig.bytes then .ok .nothing
          else .error (.error (.crypto (some .signatureMismatch))) := by
    rw [Action.fst_bind]
    rw [show (onState (o.core.verifyOrFail d.bytes sig.bytes) s).1 = _ from hdemand]
    cases code == sig.bytes <;> rfl
  unfold plainly
  rcases hout : (do
      onState (o.core.verifyOrFail d.bytes sig.bytes)
      return .nothing : Work) s with ⟨f | value, after⟩
  · rw [hout] at hwork
    cases hb : code == sig.bytes with
    | true =>
        rw [hb] at hwork
        exact absurd hwork (by simp)
    | false =>
        rw [hb] at hwork
        obtain rfl := Except.error.inj hwork
        rfl
  · rw [hout] at hwork
    cases hb : code == sig.bytes with
    | true =>
        rw [hb] at hwork
        obtain rfl := Except.ok.inj hwork
        rfl
    | false =>
        rw [hb] at hwork
        exact absurd hwork (by simp)

theorem keyed_of_kept (ht : Tracked s l) (hs : s.Sound) (hl : l.Coded)
    (hk : k.Kept s.provider.state) : Keyed k s l where
  answers c r v hr hsource hv := by
    -- what the source computes is known from the pool alone, whoever else borrows from it
    have hc : Computes s.provider.state s.loans r.errand.source (Mac.hmac k.digest.hash k.bytes) :=
      hsource ▸ computes_mac hk ht.accounts
    exact under_of_answered (answered_step ht hr hc hv) (coded_request hl hs hr) hsource
      (hk.verifyWithCopy ht.accounts)
  succeeds c r hr hsource hfits hreports :=
    succeeds_request ht hk hr hsource (coded_request hl hs hr) hfits hreports
  demands on data signature o d sig hitem hdata hsig hsource hfits := by
    have hsound : o.core.Sound s.provider.state := hs _ _ (Slots.mem_of_get? hitem)
    refine ⟨_, hk.verifyWithCopy ht.accounts d.bytes sig.bytes, ?_⟩
    refine demanded_mac hitem hdata hsig (hsound.scheme _ hsource) ?_ hfits
    rw [hsource]
    exact hk.compute ht.accounts d.bytes
  entered on item hg ho := by
    obtain ⟨entry, loan, he, hopen, htook⟩ := ht.tended on item (Slots.mem_of_get? hg) ho
    exact ⟨entry, loan, he, hopen, htook⟩
  shared route changes st st' := by
    refine ⟨fun o h => ?_, fun o h => ?_⟩
    · obtain ⟨p, hp⟩ := Factory.make_eq_ok h
      obtain rfl := Except.ok.inj (congrArg Prod.fst hp)
      exact ⟨rfl, rfl⟩
    · obtain ⟨p, hp⟩ := Factory.make_eq_ok h
      obtain rfl := Except.ok.inj (congrArg Prod.fst hp)
      exact ⟨rfl, rfl⟩
  copies := hk.verifyWithCopy ht.accounts
  separate := by
    obtain ⟨pool, hpool, ho⟩ := hk.order ht.accounts
    refine ⟨pool, hpool, ho.apart, fun h hm => ?_⟩
    have hreset : h.value.reset = .fresh k.digest k.bytes := ho.sound h hm
    exact ⟨congrArg (·.kind) hreset, congrArg (·.key) hreset⟩
  fresh := by
    obtain ⟨serial, st, hb⟩ := hk.borrow ht.accounts
    exact ⟨serial, congrArg Prod.fst hb⟩
  alone := by
    refine ⟨fun name k' drawn hg hpool => ?_, fun kind bytes k' st hmake hpool => ?_⟩
    · have hk' : k'.Kept s.provider.state := hs _ _ (Slots.mem_of_get? hg)
      exact hk'.eq_of_pool hk hpool
    · -- a new key has its pool behind all that are there
      obtain ⟨rfl, -⟩ := makeHmacKey_ok hmake
      obtain ⟨pool, hown, -⟩ := hk.pool
      have hlt := (List.getElem?_eq_some_iff.mp hown).1
      have hlast : s.provider.state.macPools.length = k.pool := hpool
      omega

/-! ## Pools found by name -/

theorem names_getOrCreate (d : Pools) (name : String) (t : HandleType) (size : Nat)
    (factory : Nat → Except Error t.carrier) (n : String)
    (h : n ∈ (d.getOrCreate name t size factory).2.names) : n ∈ d.names ∨ n = name := by
  rcases Pool.Directory.getOrCreate_cases d name t size factory with hsame | ⟨_, hadded⟩
  · rw [hsame] at h
    exact Or.inl h
  · rw [hadded] at h
    simpa [Pool.Directory.names] using h

theorem names_exchanges {name? : Option String} {st st' : State} (h : Exchanges name? st st') :
    st'.pools.names = st.pools.names := by
  induction h with
  | refl => rfl
  | digest _ _ _ _ ih => exact (Pool.Directory.names_replace _).trans ih
  | mac _ _ _ _ ih => exact ih

theorem names_release (item : Item) (st : State) :
    (item.release st).pools.names = st.pools.names := by
  unfold Item.release
  cases item.loan? with
  | none => rfl
  | some loan => exact names_exchanges (exchanges_giveBack st loan)

theorem names_discard (s : Session) (name : String) :
    (s.discard name).provider.state.pools.names = s.provider.state.pools.names := by
  unfold discard
  dsimp only
  cases s.slots.get? name with
  | none => rfl
  | some old => exact names_release old _

theorem names_keep (s : Session) (dest : Option String) (item : Item) :
    (keep dest item s).2.provider.state.pools.names = s.provider.state.pools.names := by
  cases dest with
  | none => exact names_release item _
  | some name => exact names_discard s name

/-- Work makes no pools by name but those of digests. -/
theorem names_opens {st st' : State} (h : Opens st st') (n : String) (hn : n ∈ st'.pools.names) :
    n ∈ st.pools.names ∨ ∃ kind : Digest.Kind, n = kind.name := by
  induction h with
  | refl => exact Or.inl hn
  | draw entropy _ ih => exact ih hn
  | digest kind _ ih =>
      rcases names_getOrCreate _ _ _ _ _ n hn with hold | rfl
      · exact ih hold
      · exact Or.inr ⟨kind, rfl⟩
  | @mac before kind key _ ih =>
      have hsame : (openMacPool kind key before).2.pools = before.pools := by
        unfold openMacPool
        dsimp only
        split <;> rfl
      rw [hsame] at hn
      exact ih hn

variable {t : Session} {es : List Event}

theorem Part.names (h : Part s es t) (n : String) (hn : n ∈ t.provider.state.pools.names) :
    n ∈ s.provider.state.pools.names ∨ (∃ kind : Digest.Kind, n = kind.name)
      ∨ .seeded n ∈ es := by
  cases h with
  | prepare _ state => exact (names_opens state n hn).imp id Or.inl
  | seed name type _ _ state =>
      rw [state] at hn
      rcases names_getOrCreate _ _ _ _ _ n hn with hold | rfl
      · exact Or.inl hold
      · exact Or.inr (Or.inr (by simp))
  | call source data _ _ state =>
      rw [state, names_exchanges (exchanges_compute source data _)] at hn
      exact Or.inl hn
  | miss source f _ borrowed =>
      have hmid := names_exchanges (exchanges_borrow source s.provider.state)
      rw [borrowed] at hmid
      rw [hmid] at hn
      exact Or.inl hn
  | @start source loan st item dest borrowed _ _ =>
      have hmid := names_exchanges (exchanges_borrow source s.provider.state)
      rw [borrowed] at hmid
      rw [names_keep] at hn
      exact Or.inl (hmid ▸ hn)
  | fill dest item _ _ =>
      rw [names_keep] at hn
      exact Or.inl hn
  | discard name =>
      rw [names_discard] at hn
      exact Or.inl hn
  | feed _ _ _ _ => exact Or.inl hn
  | @close name old item _ _ _ =>
      have hsame := names_release old s.provider.state
      exact Or.inl (hsame ▸ hn)

theorem Parts.names (h : Parts s es t) (n : String) (hn : n ∈ t.provider.state.pools.names) :
    n ∈ s.provider.state.pools.names ∨ (∃ kind : Digest.Kind, n = kind.name)
      ∨ .seeded n ∈ es := by
  induction h with
  | nil => exact Or.inl hn
  | snoc _ hpart ih =>
      rcases hpart.names n hn with hold | hkind | hseeded
      · exact (ih hold).imp id (Or.imp id (List.mem_append_left _))
      · exact Or.inr (Or.inl hkind)
      · exact Or.inr (Or.inr (List.mem_append_right _ hseeded))

/-! ## Every run -/

theorem run_append (before after : List Command) (s : Session) :
    (run (before ++ after) s).2 = (run after (run before s).2).2 := by
  induction before generalizing s with
  | nil => rfl
  | cons c rest ih => exact ih (s.step c).2

/-- **The contexts of MAC keys are isolated.**

Start the provider in software on any executor, with pools of any capacity, and carry out any
commands. Take any key that is in a slot by then, imported or generated, and go on with any commands:
calls, functions that are started, fed, finished, closed, run or left behind, of this key and of
others. Everything that was made with the key works as if nothing else was there. The pools that are
found by name are those of digests, besides those that were made from outside. -/
theorem keyed_contexts_isolated (executor : Executor) (entropy : Entropy) (capacity : Nat)
    (before after : List Command) (name : String) (k : HmacKey) (drawn : Bool)
    (hkey : (run before (start (software (State.start executor entropy capacity)))).2.item? name
      = some (.key (.hmac k) drawn)) :
    let s₀ := start (software (State.start executor entropy capacity))
    let w := watch (before ++ after) (s₀, .blank)
    w.1 = (run (before ++ after) s₀).2 ∧ Keyed k w.1 w.2
      ∧ ∀ n ∈ w.1.provider.state.pools.names,
          (∃ kind : Digest.Kind, n = kind.name) ∨ .seeded n ∈ history (before ++ after) s₀ := by
  intro s₀ w
  have hsession : w.1 = (run (before ++ after) s₀).2 := watch_session _ s₀ .blank
  have hstart : s₀.Sound := sound_start executor entropy capacity
  have hmid : (run before s₀).2.Sound := (parts_run hstart before).sound hstart
  have hparts := parts_run hstart (before ++ after)
  have hend : w.1.Sound := by
    rw [hsession]
    exact hparts.sound hstart
  -- the key was kept when it was seen, and its pool is there from then on
  have hkept : k.Kept (run before s₀).2.provider.state := hmid _ _ (Slots.mem_of_get? hkey)
  have hlater : (run before s₀).2.provider.state.Continues w.1.provider.state := by
    rw [hsession, run_append]
    exact (parts_run hmid after).continues
  have htracked : Tracked w.1 w.2 := tracked_watch (tracked_start executor entropy capacity) _
  have hcoded : w.2.Coded := coded_watch (fun _ _ h => absurd h (by simp [Ledger.blank])) hstart _
  refine ⟨hsession, keyed_of_kept htracked hend hcoded (hkept.continues hlater), fun n hn => ?_⟩
  rw [hsession] at hn
  rcases hparts.names n hn with hold | hnew
  · exact absurd hold (by simp [s₀, start, software, State.start, Pool.Directory.empty,
      Pool.Directory.names])
  · exact hnew

/-- Two keys with the same bytes, and a function of each that was fed. -/
theorem keyed_contexts_isolated_twins :
    let s₀ := start (software (State.start .inPlace (.seeded []) 1))
    let before : List Command := [.importHmac (some "k") "SHA-256" .raw (.plain [1, 2, 3])]
    let after : List Command := [.importHmac (some "twin") "SHA-256" .raw (.plain [1, 2, 3]),
      .signer "k" (some "s") .create none none, .startSigning "s" (some "f"),
      .signer "twin" (some "t") .create none none, .startSigning "t" (some "g"),
      .update "f" (.plain [4, 5]), .update "g" (.plain [6])]
    let k : HmacKey := ⟨.sha256, [1, 2, 3], 0⟩
    let w := watch (before ++ after) (s₀, .blank)
    (run before s₀).2.item? "k" = some (.key (.hmac k) false)
      ∧ w.1.request? w.2 (.finish "f" (.plain [7]) none)
        = some ⟨.sign ⟨.mac 0, .mac, 32⟩, [4, 5, 7], none⟩
      ∧ Keyed k w.1 w.2 := by
  refine ⟨rfl, rfl, ?_⟩
  exact (keyed_contexts_isolated .inPlace (.seeded []) 1 _ _ "k" _ false rfl).2.1

end PooledCrypto.Session
