import PooledCrypto.Proofs.Watching

/-!
# Whose input an answer depends on

Hashers, signers and verifiers of one digest share a pool, and so do all functions they start. The
contexts go round among them, and come back with whatever was left inside. Still every answer is a
function of one message: the one given to the call, or the chunks fed to that very function.

A `Request` is what a command asks for, with its message as the ledger knows it. `Answered` says what
the answer is, in terms of the plain digest of the message. There is no mention of pools, of other
functions or of chunks in it, and that is the point.
-/

namespace PooledCrypto.Session

open Provider

/-- What a command asks for, of which message, and where the bytes that come of it are kept. -/
structure Request where
  errand : Errand
  message : Bytes
  dest : Option String

/-- The value is what the errand makes of the code of its message, and so is what was kept. -/
def Request.Answered (r : Request) (code : Bytes) (v : Value) (after : Session) : Prop :=
  ∃ out drawn, r.errand.result code = .ok out ∧ v = r.errand.say drawn out
    ∧ ∀ b name, out = .bytes b → r.dest = some name → after.item? name = some (.data ⟨b, drawn⟩)

/-- The entry of a slot that holds an open function. -/
def entry? (s : Session) (l : Ledger) (name : String) : Option Entry :=
  match s.item? name with
  | some item => if item.isOpen then l name else none
  | none => none

/-- What a command asks for: of its own bytes if it is one call, else of all that its function was
fed with its own bytes at the end. -/
def request? (s : Session) (l : Ledger) : Command → Option Request
  | .hash on data _ dest =>
    match s.item? on, s.data? data with
    | some (.hasher o), some d => some ⟨.hash o.core, d.bytes, dest⟩
    | _, _ => none
  | .sign on data _ dest =>
    match s.item? on, s.data? data with
    | some (.signer o _), some d => some ⟨.sign o.core, d.bytes, dest⟩
    | _, _ => none
  | .verify on data signature _ =>
    match s.item? on, s.data? data, s.data? signature with
    | some (.verifier o), some d, some sig => some ⟨.verify o.core sig.bytes, d.bytes, none⟩
    | _, _, _ => none
  | .finish on data dest =>
    match s.entry? l on, s.data? data with
    | some e, some d => some ⟨e.errand, e.fed.flatten ++ d.bytes, dest⟩
    | _, _ => none
  | .complete on dest => (s.entry? l on).map fun e => ⟨e.errand, e.fed.flatten, dest⟩
  | .run on chunks last =>
    match s.entry? l on, chunks.mapM s.data?, s.dataOr? last with
    | some e, some ds, some d =>
      some ⟨e.errand, e.fed.flatten ++ (ds.map (·.bytes)).flatten ++ d.bytes, none⟩
    | _, _, _ => none
  | _ => none

/-- What a function gives when it is fed chunks and a last one. -/
def Item.feed? (item : Item) (chunks : List Bytes) (last : Bytes) :
    Option (Except Error Errand.Result) :=
  match item with
  | .hashing f _ => some ((f.feed chunks last).1.map fun out => .bytes out.2)
  | .signing f _ => some ((f.feed chunks last).1.map fun out => .bytes out.2)
  | .verifying f => some ((f.feed chunks last).1.map fun out => .verdict out.2)
  | _ => none

variable {s s' : Session} {l : Ledger} {c : Command} {v : Value} {item : Item} {loan : Loan}
  {errand : Errand} {kind : Digest.Kind} {message : Bytes} {st : State} {lent : List Loan}

/-- No answer shows anything of what the shared contexts were used for before. -/
structure Isolated (s : Session) (l : Ledger) : Prop where
  /-- A command that succeeds is answered by what its errand makes of the plain digest of its own
  message, and what it keeps is the same. -/
  answers : ∀ (c : Command) (r : Request) (kind : Digest.Kind) (v : Value),
    s.request? l c = some r → r.errand.source = .digest kind → (s.step c).1.outcome = .value v →
      r.Answered (kind.digest r.message) v (s.step c).2
  /-- So it is where a signature is demanded to be valid. -/
  demands : ∀ (on : String) (data signature : Recipe) (o : Operation Verifier) (d sig : Datum)
    (kind : Digest.Kind) (v : Value), s.item? on = some (.verifier o) → s.data? data = some d →
      s.data? signature = some sig → o.core.source = .digest kind →
      (s.step (.verifyOrFail on data signature)).1.outcome = .value v →
        o.core.scheme.verify (kind.digest d.bytes) sig.bytes = true
  /-- An open function has an entry. However it is fed from now on, it gives exactly what its
  errand makes of the digest of its whole message, and so does one call with that message. -/
  functions : ∀ (on : String) (item : Item), s.item? on = some item → item.isOpen = true →
    ∃ entry, l on = some entry ∧ ∀ (kind : Digest.Kind), entry.errand.source = .digest kind →
      ∀ (chunks : List Bytes) (last : Bytes),
        let message := entry.fed.flatten ++ chunks.flatten ++ last
        item.feed? chunks last = some (entry.errand.result (kind.digest message))
          ∧ (entry.errand.oneShot message s.provider.state).1
              = (entry.errand.result (kind.digest message)).mapError Failure.error
  /-- A context of a digest's pool, idle or lent, is in one place and is one of that digest. -/
  separate : ∀ (kind : Digest.Kind) (pool : Pool Digest.Context),
    s.provider.state.pools.pool? kind.name .digest = some pool →
      let all := pool.idle ++ s.loans.filterMap (·.digest? kind.name)
      (all.map (·.serial)).Nodup ∧ ∀ h ∈ all, h.value.kind = kind
  /-- A context that is borrowed next has taken in nothing, whoever used it before. -/
  fresh : ∀ (kind : Digest.Kind) (loan : Loan),
    (borrow (.digest kind) s.provider.state).1 = .ok loan → loan.Took (.digest kind) []

/-! ## What a source computes -/

/-- All that the contexts of a source ever give, in a call or after a loan, is a function of the
message. -/
structure Computes (st : State) (lent : List Loan) (source : Source) (code : Bytes → Bytes) :
    Prop where
  call : ∀ message out, (compute source message st).1 = .ok out → out = code message
  /-- Whatever is done to a lent context, it gives the code of what it took in. -/
  lent : ∀ own ∈ lent, ∀ loan : Loan, loan.reset = own.reset →
    ∀ message, loan.Took source message → loan.finish.1 = code message

/-- **A digest's contexts compute the plain digest**, whatever the pool went through before. -/
theorem computes_digest (ha : Accounts st lent) (kind : Digest.Kind) :
    Computes st lent (.digest kind) kind.digest where
  call message out h := by
    obtain ⟨loan, htook, rfl⟩ := compute_ok ha h
    exact htook.finish_digest
  lent _ _ _ _ _ htook := htook.finish_digest

variable {source : Source} {code : Bytes → Bytes}

/-! ## One call -/

/-- One call computes a code and makes something of it. -/
theorem oneShot_eq (errand : Errand) (message : Bytes) (st : State) :
    (errand.oneShot message st).1
      = (compute errand.source message st).1.bind fun code =>
          (errand.result code).mapError Failure.error := by
  cases errand with
  | hash h => exact Action.fst_bind _ _ _
  | sign signer =>
      refine (Action.fst_bind _ _ _).trans ?_
      rw [show (signer.sign message st).1 = _ from Action.fst_bind _ _ _]
      show _ = (compute signer.source message st).1.bind fun code =>
        ((signer.scheme.sign code).map Errand.Result.bytes).mapError Failure.error
      cases (compute signer.source message st).1 with
      | error f => rfl
      | ok code =>
          dsimp only [Except.bind]
          rw [Action.ofExcept_apply]
          cases signer.scheme.sign code <;> rfl
  | verify v signature =>
      refine (Action.fst_bind _ _ _).trans ?_
      rw [show (v.verify message signature st).1 = _ from Action.fst_bind _ _ _]
      show _ = (compute v.source message st).1.bind fun code =>
        .ok (Errand.Result.verdict (v.scheme.verify code signature))
      cases (compute v.source message st).1 <;> rfl

theorem oneShot_ok {out : Errand.Result} (hc : Computes st lent errand.source code)
    (h : (errand.oneShot message st).1 = .ok out) : errand.result (code message) = .ok out := by
  rw [oneShot_eq] at h
  cases hcall : (compute errand.source message st).1 with
  | error f =>
      rw [hcall] at h
      exact absurd h (by simp [Except.bind])
  | ok computed =>
      rw [hcall] at h
      rw [← hc.call message computed hcall]
      cases hr : errand.result computed with
      | error e =>
          simp [Except.bind, hr] at h
      | ok r =>
          simpa [Except.bind, hr] using h

/-- A call that gets a context gives what the errand makes of the code. -/
theorem oneShot_of_borrow {st' : State} (hc : Computes st lent errand.source code)
    (hb : borrow errand.source st = (.ok loan, st')) :
    (errand.oneShot message st).1 = (errand.result (code message)).mapError Failure.error := by
  rw [oneShot_eq]
  rcases compute_cases errand.source message st with ⟨f, st₁, hf, _⟩ | ⟨own, st₁, _, hout⟩
  · rw [hb] at hf
    exact absurd (congrArg Prod.fst hf) (by simp)
  · have hcode := hc.call message _ (congrArg Prod.fst hout)
    rw [hout, hcode]
    rfl

/-- While a function of the source lives, a call of the source cannot fail to get a context. -/
theorem oneShot_of_lent {taken : Bytes} (ha : Accounts st lent)
    (hc : Computes st lent errand.source code) (hl : loan ∈ lent)
    (ht : loan.Took errand.source taken) :
    (errand.oneShot message st).1 = (errand.result (code message)).mapError Failure.error := by
  -- the pool cannot have run dry for good: it has lent a context
  obtain ⟨other, st', hb⟩ := ha.borrow_succeeds hl ht
  exact oneShot_of_borrow hc hb

/-! ## Answers to calls -/

/-- A command that gives a value was carried out. -/
theorem carryOut?_of_value (h : (s.step c).1.outcome = .value v) :
    s.carryOut? c = some (s.step c) := by
  unfold step at h ⊢
  split at h
  · rename_i hfits
    rw [if_pos hfits]
    cases hdone : s.carryOut? c with
    | none =>
        rw [hdone] at h
        exact absurd h (by simp [Answer.refusal])
    | some done => rfl
  · exact absurd h (by simp)

theorem plainly_value {work : Work} (h : (plainly work s).1.outcome = .value v) :
    work s = (.ok v, (plainly work s).2) := by
  unfold plainly at h ⊢
  rcases hout : work s with ⟨f | w, after⟩
  · rw [hout] at h
    exact absurd h (by simp)
  · rw [hout] at h
    obtain rfl := Outcome.value.inj h
    rfl

/-- Bytes that are kept are found in their slot. -/
theorem item?_of_keep {dest : Option String} {d : Datum} {r : Except Failure Unit} {name : String}
    (h : keep dest (.data d) s = (r, s')) (hd : dest = some name) :
    s'.item? name = some (.data d) := by
  subst hd
  obtain rfl : _ = s' := congrArg Prod.snd h
  exact Slots.get?_put_self

variable {o : Operation Hasher} {shape : Shape} {d sig : Datum} {dest : Option String}

theorem answered_hash (hc : Computes s.provider.state lent (.digest o.core.kind) code)
    (h : (do
      let digest ← onState (o.call shape (o.core.hash d.bytes))
      keepData dest ⟨digest, d.drawn⟩) s = (.ok v, s')) :
    Request.Answered ⟨.hash o.core, d.bytes, dest⟩ (code d.bytes) v s' := by
  obtain ⟨digest, s₁, hcall, hkeep⟩ := Action.bind_eq_ok h
  obtain rfl := hc.call d.bytes digest (call_ok (congrArg Prod.fst hcall))
  obtain ⟨_, s₂, hkept, hsaid⟩ := Action.bind_eq_ok hkeep
  obtain rfl := Except.ok.inj (congrArg Prod.fst hsaid)
  obtain rfl : s₂ = s' := congrArg Prod.snd hsaid
  refine ⟨.bytes _, d.drawn, rfl, rfl, ?_⟩
  rintro b name hb hd
  obtain rfl := Errand.Result.bytes.inj hb
  exact item?_of_keep hkept hd

theorem answered_sign {o : Operation Signer} {drawn : Bool}
    (hc : Computes s.provider.state lent o.core.source code)
    (h : (do
      let signature ← onState (o.call shape (o.core.sign d.bytes))
      let kept : Datum := ⟨signature, drawn || d.drawn⟩
      keep dest (.data kept)
      return signatureValue o.core.scheme kept) s = (.ok v, s')) :
    Request.Answered ⟨.sign o.core, d.bytes, dest⟩ (code d.bytes) v s' := by
  obtain ⟨signature, s₁, hcall, hkeep⟩ := Action.bind_eq_ok h
  have hshot : ((Errand.sign o.core).oneShot d.bytes s.provider.state).1
      = .ok (.bytes signature) := by
    refine (Action.fst_bind _ _ _).trans ?_
    rw [call_ok (congrArg Prod.fst hcall)]
    rfl
  obtain ⟨_, s₂, hkept, hsaid⟩ := Action.bind_eq_ok hkeep
  obtain rfl := Except.ok.inj (congrArg Prod.fst hsaid)
  obtain rfl : s₂ = s' := congrArg Prod.snd hsaid
  refine ⟨.bytes signature, drawn || d.drawn, oneShot_ok hc hshot, rfl, ?_⟩
  rintro b name hb hd
  obtain rfl := Errand.Result.bytes.inj hb
  exact item?_of_keep hkept hd

theorem answered_verify {o : Operation Verifier}
    (hc : Computes s.provider.state lent o.core.source code)
    (h : (do
      return Value.flag (← onState (o.call shape (o.core.verify d.bytes sig.bytes)))) s
        = (.ok v, s')) :
    Request.Answered ⟨.verify o.core sig.bytes, d.bytes, none⟩ (code d.bytes) v s' := by
  obtain ⟨verdict, s₁, hcall, hsaid⟩ := Action.bind_eq_ok h
  have hshot : ((Errand.verify o.core sig.bytes).oneShot d.bytes s.provider.state).1
      = .ok (.verdict verdict) := by
    refine (Action.fst_bind _ _ _).trans ?_
    rw [call_ok (congrArg Prod.fst hcall)]
    rfl
  obtain rfl := Except.ok.inj (congrArg Prod.fst hsaid)
  refine ⟨.verdict verdict, false, oneShot_ok hc hshot, rfl, ?_⟩
  rintro b name _ hd
  exact absurd hd (by simp)

/-! ## Answers of functions -/

variable {entry : Entry} {answer : Answer} {on : String} {taken : Bytes}

theorem took_foldl (chunks : List Bytes) (loan : Loan) (taken : Bytes)
    (ht : loan.Took source taken) :
    (chunks.foldl (fun loan chunk => loan.update chunk) loan).Took source
      (taken ++ chunks.flatten) := by
  induction chunks generalizing loan taken with
  | nil => simpa using ht
  | cons chunk rest ih =>
      have hrest := ih _ _ (ht.update chunk)
      simpa using hrest

/-- What a context makes of its chunks is what the errand makes of the code of them all. -/
theorem conclude_code (hc : Computes st lent errand.source code) (hl : loan ∈ lent)
    (ht : loan.Took errand.source taken) (chunks : List Bytes) (last : Bytes) :
    errand.conclude (chunks.foldl (fun loan chunk => loan.update chunk) loan) last
      = errand.result (code (taken ++ chunks.flatten ++ last)) := by
  have htook := (took_foldl chunks loan taken ht).update last
  have hreset := (Loan.reset_update _ last).trans (Loan.reset_foldl chunks loan)
  unfold Errand.conclude
  rw [hc.lent loan hl _ hreset _ htook]

/-- What is known of an open function: its context is lent, and took in what is entered. -/
theorem Tracked.opened (ht : Tracked s l) (hg : s.slots.get? on = some item)
    (ho : item.isOpen = true) (he : l on = some entry) :
    ∃ loan ∈ s.loans, entry.errand.Open loan item
      ∧ loan.Took entry.errand.source entry.fed.flatten := by
  have hm := Slots.mem_of_get? hg
  obtain ⟨own, loan, hown, hopen, htook⟩ := ht.tended on item hm ho
  obtain rfl : own = entry := Option.some.inj (hown.symm.trans he)
  exact ⟨loan, List.mem_filterMap.mpr ⟨_, hm, hopen.loan?⟩, hopen, htook⟩

/-- A slot has an entry exactly if it holds an open function. -/
theorem entry?_eq_some (h : s.entry? l on = some entry) :
    ∃ item, s.slots.get? on = some item ∧ item.isOpen = true ∧ l on = some entry := by
  unfold entry? at h
  split at h
  · rename_i item hg
    split at h
    · rename_i ho
      exact ⟨item, hg, ho, h⟩
    · exact absurd h (by simp)
  · exact absurd h (by simp)

theorem answered_feedLast {last : Datum} {dest : Option String} (ht : Tracked s l)
    (hg : s.slots.get? on = some item) (ho : item.isOpen = true) (he : l on = some entry)
    (hc : Computes s.provider.state s.loans entry.errand.source code)
    (h : feedLast s on item last dest = some (answer, s')) (hv : answer.outcome = .value v) :
    Request.Answered ⟨entry.errand, entry.fed.flatten ++ last.bytes, dest⟩
      (code (entry.fed.flatten ++ last.bytes)) v s' := by
  obtain ⟨loan, hl, hopen, htook⟩ := ht.opened hg ho he
  obtain ⟨item', drawn, _, _, hfed⟩ := hopen.feedLast s on last dest
  have hconclude := conclude_code hc hl htook [] last.bytes
  simp only [List.foldl_nil, List.flatten_nil, List.append_nil] at hconclude
  rw [hfed] at h
  cases hend : entry.errand.conclude loan last.bytes with
  | error e =>
      rw [hend] at h
      obtain rfl := congrArg Prod.fst (Option.some.inj h)
      exact absurd hv (by simp [fed])
  | ok out =>
      rw [hend] at h hconclude
      obtain ⟨rfl, rfl⟩ := Prod.mk.inj (Option.some.inj h)
      refine ⟨out, drawn, hconclude.symm, (Outcome.value.inj hv).symm, ?_⟩
      rintro b name rfl hd
      obtain rfl : dest = some name := hd
      exact Slots.get?_put_self

theorem answered_run {chunks : List Datum} {last : Datum} (ht : Tracked s l)
    (hg : s.slots.get? on = some item) (ho : item.isOpen = true) (he : l on = some entry)
    (hc : Computes s.provider.state s.loans entry.errand.source code)
    (h : runFunction s on item chunks last = some (answer, s'))
    (hv : answer.outcome = .value v) :
    Request.Answered
      ⟨entry.errand, entry.fed.flatten ++ (chunks.map (·.bytes)).flatten ++ last.bytes, none⟩
      (code (entry.fed.flatten ++ (chunks.map (·.bytes)).flatten ++ last.bytes)) v s' := by
  obtain ⟨loan, hl, hopen, htook⟩ := ht.opened hg ho he
  obtain ⟨item', drawn, _, _, hall⟩ := hopen.feedAll chunks last
  rw [conclude_code hc hl htook] at hall
  cases hr : entry.errand.result
      (code (entry.fed.flatten ++ (chunks.map (·.bytes)).flatten ++ last.bytes)) with
  | error e =>
      rw [hr] at hall
      obtain ⟨_, houtcome⟩ := runFunction_eq_discard hall h
      rw [hv] at houtcome
      exact absurd houtcome (by simp [fed, failing, Except.map])
  | ok out =>
      rw [hr] at hall
      obtain ⟨_, houtcome⟩ := runFunction_eq_discard hall h
      rw [hv] at houtcome
      refine ⟨out, drawn, hr, Outcome.value.inj houtcome, ?_⟩
      rintro b name _ hd
      exact absurd hd (by simp)

theorem feed?_of_open (ho : errand.Open loan item) (chunks : List Bytes) (last : Bytes) :
    item.feed? chunks last
      = some (errand.conclude (chunks.foldl (fun loan chunk => loan.update chunk) loan)
          last) := by
  cases errand with
  | hash h =>
      obtain ⟨drawn, rfl⟩ := ho
      unfold Item.feed?
      dsimp only
      rw [Streaming.Function.feed_of_absorbs loan_absorbs, loan_finish]
      rfl
  | sign signer =>
      obtain ⟨drawn, rfl⟩ := ho
      unfold Item.feed? Errand.conclude Errand.result
      dsimp only
      rw [Streaming.Function.feed_of_absorbs signing_absorbs, foldl_signing, signing_finish]
      cases signer.scheme.sign _ <;> rfl
  | verify v signature =>
      obtain rfl := ho
      unfold Item.feed?
      dsimp only
      rw [Streaming.Function.feed_of_absorbs verifying_absorbs, foldl_verifying,
        verifying_finish]
      rfl

/-! ## Every answer -/

/-- How requests are carried out: in one call, or by the function in a slot. -/
inductive Carried (s : Session) (l : Ledger) :
    Command → Request → Option (Answer × Session) → Prop
  | hash {on : String} {data : Recipe} {o : Operation Hasher} {d : Datum} (shape : Shape)
      (dest : Option String) (found : s.item? on = some (.hasher o)) :
      Carried s l (.hash on data shape dest) ⟨.hash o.core, d.bytes, dest⟩
        (some (plainly (do
          let digest ← onState (o.call shape (o.core.hash d.bytes))
          keepData dest ⟨digest, d.drawn⟩) s))
  | sign {on : String} {data : Recipe} {o : Operation Signer} {drawn : Bool} {d : Datum}
      (shape : Shape) (dest : Option String) (found : s.item? on = some (.signer o drawn)) :
      Carried s l (.sign on data shape dest) ⟨.sign o.core, d.bytes, dest⟩
        (some (plainly (do
          let signature ← onState (o.call shape (o.core.sign d.bytes))
          let kept : Datum := ⟨signature, drawn || d.drawn⟩
          keep dest (.data kept)
          return signatureValue o.core.scheme kept) s))
  | verify {on : String} {data signature : Recipe} {o : Operation Verifier} {d sig : Datum}
      (shape : Shape) (found : s.item? on = some (.verifier o)) :
      Carried s l (.verify on data signature shape) ⟨.verify o.core sig.bytes, d.bytes, none⟩
        (some (plainly (do
          return .flag (← onState (o.call shape (o.core.verify d.bytes sig.bytes)))) s))
  | last {c : Command} {on : String} {item : Item} {entry : Entry} (last : Datum)
      (dest : Option String) (found : s.slots.get? on = some item) (opened : item.isOpen = true)
      (entered : l on = some entry) :
      Carried s l c ⟨entry.errand, entry.fed.flatten ++ last.bytes, dest⟩
        (feedLast s on item last dest)
  | run {c : Command} {on : String} {item : Item} {entry : Entry} (chunks : List Datum)
      (last : Datum) (found : s.slots.get? on = some item) (opened : item.isOpen = true)
      (entered : l on = some entry) :
      Carried s l c
        ⟨entry.errand, entry.fed.flatten ++ (chunks.map (·.bytes)).flatten ++ last.bytes, none⟩
        (runFunction s on item chunks last)

theorem carried_of_request {r : Request} (hr : s.request? l c = some r) :
    Carried s l c r (s.carryOut? c) := by
  unfold request? at hr
  -- one case a command that can be answered; each is read back from slots and ledger
  split at hr
  · rename_i on data shape dest
    split at hr
    · rename_i o d hitem hdata
      obtain rfl := Option.some.inj hr
      have hwork : s.carryOut? (.hash on data shape dest) = some (plainly (do
          let digest ← onState (o.call shape (o.core.hash d.bytes))
          keepData dest ⟨digest, d.drawn⟩) s) := by
        simp [carryOut?, prepareLook, prepareKey, prepareMake, prepareCall, hitem, hdata]
      rw [hwork]
      exact .hash shape dest hitem
    · exact absurd hr (by simp)
  · rename_i on data shape dest
    split at hr
    · rename_i o drawn d hitem hdata
      obtain rfl := Option.some.inj hr
      have hwork : s.carryOut? (.sign on data shape dest) = some (plainly (do
          let signature ← onState (o.call shape (o.core.sign d.bytes))
          let kept : Datum := ⟨signature, drawn || d.drawn⟩
          keep dest (.data kept)
          return signatureValue o.core.scheme kept) s) := by
        simp [carryOut?, prepareLook, prepareKey, prepareMake, prepareCall, hitem, hdata]
      rw [hwork]
      exact .sign shape dest hitem
    · exact absurd hr (by simp)
  · rename_i on data signature shape
    split at hr
    · rename_i o d sig hitem hdata hsig
      obtain rfl := Option.some.inj hr
      have hwork : s.carryOut? (.verify on data signature shape) = some (plainly (do
          return .flag (← onState (o.call shape (o.core.verify d.bytes sig.bytes)))) s) := by
        simp [carryOut?, prepareLook, prepareKey, prepareMake, prepareCall, hitem, hdata, hsig]
      rw [hwork]
      exact .verify shape hitem
    · exact absurd hr (by simp)
  · rename_i on data dest
    split at hr
    · rename_i entry last hentry hdata
      obtain rfl := Option.some.inj hr
      obtain ⟨item, hg, ho, he⟩ := entry?_eq_some hentry
      have hfeed : s.carryOut? (.finish on data dest) = feedLast s on item last dest := by
        show ((s.item? on).bind fun item => (s.data? data).bind fun last =>
          feedLast s on item last dest) = _
        rw [show s.item? on = some item from hg, hdata]
        rfl
      rw [hfeed]
      exact .last last dest hg ho he
    · exact absurd hr (by simp)
  · rename_i on dest
    obtain ⟨entry, hentry, rfl⟩ := Option.map_eq_some_iff.mp hr
    obtain ⟨item, hg, ho, he⟩ := entry?_eq_some hentry
    have hfeed : s.carryOut? (.complete on dest) = feedLast s on item ⟨[], false⟩ dest := by
      show ((s.item? on).bind fun item => feedLast s on item ⟨[], false⟩ dest) = _
      rw [show s.item? on = some item from hg]
      rfl
    -- to complete is to finish with nothing
    rw [hfeed, ← List.append_nil entry.fed.flatten]
    exact .last ⟨[], false⟩ dest hg ho he
  · rename_i on chunks last
    split at hr
    · rename_i entry ds d hentry hchunks hlast
      obtain rfl := Option.some.inj hr
      obtain ⟨item, hg, ho, he⟩ := entry?_eq_some hentry
      have hrun : s.carryOut? (.run on chunks last) = runFunction s on item ds d := by
        show ((s.item? on).bind fun item => (chunks.mapM s.data?).bind fun ds =>
          (s.dataOr? last).bind fun d => runFunction s on item ds d) = _
        rw [show s.item? on = some item from hg, hchunks, hlast]
        rfl
      rw [hrun]
      exact .run ds d hg ho he
    · exact absurd hr (by simp)
  · exact absurd hr (by simp)

theorem answered_step {r : Request} (ht : Tracked s l) (hr : s.request? l c = some r)
    (hc : Computes s.provider.state s.loans r.errand.source code)
    (hv : (s.step c).1.outcome = .value v) : r.Answered (code r.message) v (s.step c).2 := by
  have hdone := carryOut?_of_value hv
  generalize s.step c = done at hdone hv ⊢
  have hcarried := carried_of_request hr
  rw [hdone] at hcarried
  generalize hsome : some done = out at hcarried
  cases hcarried with
  | hash shape dest found =>
      obtain rfl := Option.some.inj hsome
      exact answered_hash hc (plainly_value hv)
  | sign shape dest found =>
      obtain rfl := Option.some.inj hsome
      exact answered_sign hc (plainly_value hv)
  | verify shape found =>
      obtain rfl := Option.some.inj hsome
      exact answered_verify hc (plainly_value hv)
  | last last dest found opened entered =>
      exact answered_feedLast ht found opened entered hc hsome.symm hv
  | run chunks last found opened entered =>
      exact answered_run ht found opened entered hc hsome.symm hv

theorem carryOut?_verifyOrFail {o : Operation Verifier} {data signature : Recipe}
    (hitem : s.item? on = some (.verifier o)) (hdata : s.data? data = some d)
    (hsig : s.data? signature = some sig) :
    s.carryOut? (.verifyOrFail on data signature) = some (plainly (do
      onState (o.core.verifyOrFail d.bytes sig.bytes)
      return .nothing) s) := by
  simp [carryOut?, prepareLook, prepareKey, prepareMake, prepareCall, hitem, hdata, hsig]

theorem demanded_step {o : Operation Verifier} {data signature : Recipe}
    (hitem : s.item? on = some (.verifier o)) (hdata : s.data? data = some d)
    (hsig : s.data? signature = some sig)
    (hc : Computes s.provider.state s.loans o.core.source code)
    (hv : (s.step (.verifyOrFail on data signature)).1.outcome = .value v) :
    o.core.scheme.verify (code d.bytes) sig.bytes = true := by
  have hdone := carryOut?_of_value hv
  rw [carryOut?_verifyOrFail hitem hdata hsig] at hdone
  rw [← Option.some.inj hdone] at hv
  obtain ⟨_, s₁, hcall, _⟩ := Action.bind_eq_ok (plainly_value hv)
  have hdemand : (o.core.verifyOrFail d.bytes sig.bytes s.provider.state).1 = .ok () :=
    congrArg Prod.fst hcall
  rcases hverify : o.core.verify d.bytes sig.bytes s.provider.state with ⟨f | verdict, st⟩
  · rw [Verifier.verifyOrFail, Action.bind_of_error hverify] at hdemand
    exact absurd hdemand (by simp)
  · have hshot : ((Errand.verify o.core sig.bytes).oneShot d.bytes s.provider.state).1
        = .ok (.verdict verdict) := by
      refine (Action.fst_bind _ _ _).trans ?_
      rw [hverify]
      rfl
    have hverdict : (Errand.verify o.core sig.bytes).result (code d.bytes)
        = .ok (.verdict verdict) := oneShot_ok hc hshot
    -- an unfavourable verdict would have failed
    rw [Verifier.verifyOrFail, Action.bind_of_ok hverify] at hdemand
    cases verdict with
    | true => exact Errand.Result.verdict.inj (Except.ok.inj hverdict)
    | false => exact absurd hdemand (by simp [Action.fail])

theorem isolated_of_tracked (ht : Tracked s l) : Isolated s l where
  answers c r kind v hr hk hv :=
    answered_step ht hr (hk ▸ computes_digest ht.accounts kind) hv
  demands on data signature o d sig kind v hitem hdata hsig hk hv :=
    demanded_step hitem hdata hsig (hk ▸ computes_digest ht.accounts kind) hv
  functions on item hg ho := by
    obtain ⟨entry, _, he, _, _⟩ := ht.tended on item (Slots.mem_of_get? hg) ho
    refine ⟨entry, he, fun kind hk chunks last => ?_⟩
    obtain ⟨loan, hl, hopen, htook⟩ := ht.opened hg ho he
    have hc : Computes s.provider.state s.loans entry.errand.source kind.digest :=
      hk ▸ computes_digest ht.accounts kind
    refine ⟨?_, oneShot_of_lent ht.accounts hc hl htook⟩
    rw [feed?_of_open hopen, conclude_code hc hl htook]
  separate kind pool hp := by
    have horder := ht.accounts.digest kind.name pool hp
    exact ⟨horder.apart, fun h hm => Digest.Kind.name_injective (horder.sound h hm)⟩
  fresh kind loan hb := (borrow_ok ht.accounts (Prod.ext hb rfl)).2

/-- **Pooled digest contexts are isolated.**

Start the provider in software on any executor, with pools of any capacity, and carry out any
commands in any order: calls, functions that are started, fed, finished, closed, run or left behind,
keys, ciphers, and pools that were made ahead. Whatever comes next is answered from its own message
alone. The ledger only watches: the session is the one that the run leads to. -/
theorem pooled_digests_isolated (executor : Executor) (entropy : Entropy) (capacity : Nat)
    (commands : List Command) :
    let s₀ := start (software (State.start executor entropy capacity))
    let w := watch commands (s₀, .blank)
    w.1 = (run commands s₀).2 ∧ Isolated w.1 w.2 := by
  intro s₀ w
  have hstart : Tracked s₀ .blank := tracked_start executor entropy capacity
  have hend : Tracked w.1 w.2 := tracked_watch hstart commands
  exact ⟨watch_session commands s₀ .blank, isolated_of_tracked hend⟩

end PooledCrypto.Session
