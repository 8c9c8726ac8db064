import PooledCrypto.Proofs.Feeding
import PooledCrypto.Proofs.Tracking

/-!
# The ledger follows the session

Starting a function makes an entry, and an update that succeeds adds its chunk. A final chunk, a
release, a run and the loss of the slot end a function's errand, and its entry is of no account from
then on. With the commands that are quiet this covers all commands (`tracked_step`), hence every run
(`tracked_watch`).
-/

namespace PooledCrypto.Session

open Provider
open PooledCrypto.Action (Keeps)

variable {s s' : Session} {l l' : Ledger} {item item' : Item} {loan : Loan} {errand : Errand}
  {answer : Answer} {on : String} {dest : Option String}

/-! ## Starting -/

/-- Starting is borrowing, and then keeping what works on the loan. -/
theorem startWith_cases {α : Type} (source : Source) (make : Loan → α) (wrap : α → Item)
    (dest : Option String) (s : Session) :
    (∃ f st, borrow source s.provider.state = (.error f, st)
      ∧ plainly (startWith source make wrap dest) s
          = (⟨.failure f, none⟩, { s with provider.state := st }))
      ∨ ∃ loan st, borrow source s.provider.state = (.ok loan, st)
        ∧ plainly (startWith source make wrap dest) s
            = (⟨.value .nothing, none⟩,
                (keep dest (wrap (make loan)) { s with provider.state := st }).2) := by
  rcases hb : borrow source s.provider.state with ⟨f | loan, st⟩
  · have hmade : onState (do let loan ← borrow source; return make loan) s
        = (.error f, { s with provider.state := st }) := by
      unfold onState
      rw [Action.bind_of_error hb]
    refine Or.inl ⟨f, st, rfl, ?_⟩
    rw [plainly, startWith, Action.bind_of_error hmade]
  · have hmade : onState (do let loan ← borrow source; return make loan) s
        = (.ok (make loan), { s with provider.state := st }) := by
      unfold onState
      rw [Action.bind_of_ok hb]
      rfl
    refine Or.inr ⟨loan, st, rfl, ?_⟩
    rw [plainly, startWith, Action.bind_of_ok hmade]
    cases dest <;> rfl

/-- A function that is started is entered; if it cannot be, nothing is. -/
theorem tracked_begin {α : Type} (ht : Tracked s l) (errand : Errand) (make : Loan → α)
    (wrap : α → Item) (hopen : ∀ loan, errand.Open loan (wrap (make loan)))
    (dest : Option String) :
    let done := plainly (startWith errand.source make wrap dest) s
    Tracked done.2 (match done.1.outcome with
      | .value _ => l.enter dest errand
      | _ => l) := by
  intro done
  rcases startWith_cases errand.source make wrap dest s with
    ⟨f, st, hb, hout⟩ | ⟨loan, st, hb, hout⟩
  · have hdone : done = _ := hout
    -- nothing was borrowed, nothing is kept and nothing is entered
    rw [hdone]
    exact ⟨borrow_error ht.accounts hb, ht.names, ht.tended⟩
  · have hdone : done = _ := hout
    rw [hdone]
    obtain ⟨hacc, htook⟩ := borrow_ok ht.accounts hb
    refine tracked_keep (l := l) ht.names ht.tended ?_ ?_ ?_
    · rw [(hopen loan).loan?]
      exact hacc
    · intro n hn
      simp [Ledger.enter, hn]
    · intro n hn _
      exact ⟨⟨errand, []⟩, loan, by simp [Ledger.enter, hn], hopen loan, htook⟩

/-! ## Feeding -/

theorem tracked_store (ht : Tracked s l) (name : String) (d : Datum) :
    Tracked (s.store name (.data d)) l :=
  keeps_keep (some name) rfl rfl s ht

/-- A function that was not open keeps its loan; what is entered for it does not matter. -/
theorem tracked_idle (ht : Tracked s l) (hg : s.slots.get? on = some item)
    (hi : Idles item item') (hrest : ∀ n, n ≠ on → l' n = l n) :
    Tracked (s.update on item') l' := by
  refine tracked_update ht hg (congrArg _ hi.2) hrest fun hopen => ?_
  exact absurd hopen (by simp [hi.1])

theorem tracked_feedChunk {chunk : Datum} (ht : Tracked s l) (hg : s.slots.get? on = some item)
    (h : feedChunk s on item chunk = some (answer, s')) :
    Tracked s' (match answer.outcome with
      | .value _ => l.feed on chunk.bytes
      | _ => l) := by
  have hother : ∀ n, n ≠ on → l.feed on chunk.bytes n = l n := fun n hn => by
    simp [Ledger.feed, hn]
  cases ho : item.isOpen with
  | true =>
      obtain ⟨entry, loan, hentry, hopen, htook⟩ :=
        ht.tended on item (Slots.mem_of_get? hg) ho
      obtain ⟨item', hopen', hfed⟩ := hopen.feedChunk s on chunk
      rw [hfed] at h
      obtain ⟨rfl, rfl⟩ := Prod.mk.inj (Option.some.inj h)
      -- the ledger gets the chunk, and the context has taken the same chunk in
      refine tracked_update ht hg ?_ hother fun _ => ?_
      · rw [hopen'.loan?, hopen.loan?]
        exact congrArg some (loan.reset_update chunk.bytes)
      · refine ⟨⟨entry.errand, entry.fed ++ [chunk.bytes]⟩, _, ?_, hopen', ?_⟩
        · show l.feed on chunk.bytes on = _
          simp [Ledger.feed, hentry]
        · simpa using htook.update chunk.bytes
  | false =>
      -- no open function, so nothing is tended here and any entry will do
      obtain ⟨item', hi, rfl⟩ := feedChunk_idles ho h
      split
      · exact tracked_idle ht hg hi hother
      · exact tracked_idle ht hg hi fun _ _ => rfl

theorem tracked_keepResult (ht : Tracked s l) (dest : Option String) (drawn : Bool)
    (r : Errand.Result) : Tracked (Errand.keepResult dest drawn r s) l := by
  cases r with
  | verdict b => exact ht
  | bytes b =>
      cases dest with
      | none => exact ht
      | some name => exact tracked_store ht name _

theorem tracked_feedLast {last : Datum} (ht : Tracked s l) (hg : s.slots.get? on = some item)
    (h : feedLast s on item last dest = some (answer, s')) : Tracked s' l := by
  cases ho : item.isOpen with
  | true =>
      obtain ⟨entry, loan, hentry, hopen, htook⟩ :=
        ht.tended on item (Slots.mem_of_get? hg) ho
      obtain ⟨item', drawn, hshut, hloan, hfed⟩ := hopen.feedLast s on last dest
      -- the context stays lent until the function is released
      have hmid : Tracked (s.update on item') l := by
        refine tracked_update ht hg ?_ (fun _ _ => rfl) fun hopen => ?_
        · rw [hloan, hopen.loan?]
          exact congrArg some ((Loan.reset_finish _).trans (loan.reset_update last.bytes))
        · exact absurd hopen (by simp [hshut])
      rw [hfed] at h
      cases hc : entry.errand.conclude loan last.bytes with
      | error e =>
          rw [hc] at h
          obtain rfl := congrArg Prod.snd (Option.some.inj h)
          exact hmid
      | ok r =>
          rw [hc] at h
          obtain rfl := congrArg Prod.snd (Option.some.inj h)
          exact tracked_keepResult hmid dest drawn r
  | false =>
      obtain ⟨item', hi, rfl | ⟨name, d, rfl⟩⟩ := feedLast_idles ho h
      · exact tracked_idle ht hg hi fun _ _ => rfl
      · exact tracked_store (tracked_idle ht hg hi fun _ _ => rfl) name d

/-- What an item had borrowed goes back, and an item without a loan takes its place. -/
theorem tracked_release (ht : Tracked s l) (hg : s.slots.get? on = some item)
    (hloan : item'.loan? = none) (hshut : item'.isOpen = false) :
    Tracked (update { s with provider.state := item.release s.provider.state } on item') l where
  accounts := by
    have hacc := accounts_vacate on [] ht.names ht.accounts
    unfold discard at hacc
    rw [hg] at hacc
    show Accounts _ ((s.slots.put on item').filterMap (·.2.loan?))
    rw [loans_put, hloan]
    exact hacc
  names := Slots.names_put ht.names
  tended n i hm := by
    rcases List.mem_cons.mp hm with heq | hm
    · obtain ⟨rfl, rfl⟩ := Prod.mk.inj heq
      exact fun hopen => absurd hopen (by simp [hshut])
    · exact (tended_erase ht.tended n i hm).1

theorem tracked_close (ht : Tracked s l) (hg : s.slots.get? on = some item)
    (h : closeFunction s on item = some (answer, s')) : Tracked s' l := by
  cases item with
  | hashing f drawn =>
      obtain rfl := congrArg Prod.snd (Option.some.inj h)
      exact tracked_release ht hg rfl rfl
  | signing f drawn =>
      obtain rfl := congrArg Prod.snd (Option.some.inj h)
      exact tracked_release ht hg rfl rfl
  | verifying f =>
      obtain rfl := congrArg Prod.snd (Option.some.inj h)
      exact tracked_release ht hg rfl rfl
  | encrypting f drawn =>
      obtain rfl := congrArg Prod.snd (Option.some.inj h)
      exact tracked_release ht hg rfl rfl
  | decrypting f =>
      obtain rfl := congrArg Prod.snd (Option.some.inj h)
      exact tracked_release ht hg rfl rfl
  | _ => exact absurd h (by simp [closeFunction])

/-- A run feeds the function in its place and then takes it out, which releases it. -/
theorem runFunction_eq_discard {chunks : List Datum} {last : Datum} {r : Except Error Value}
    (hfed : feedAll item chunks last = some (r, item'))
    (h : runFunction s on item chunks last = some (answer, s')) :
    s' = (s.update on item').discard on
      ∧ answer.outcome = (fed (failing r) .closed).outcome := by
  unfold runFunction at h
  rw [hfed] at h
  have herase : (s.slots.put on item').erase on = s.slots.erase on := by
    simp [Slots.put, Slots.erase]
  have hsame : (s.update on item').discard on
      = { s with slots := s.slots.erase on, provider.state := item'.release s.provider.state } := by
    unfold discard update
    dsimp only
    rw [Slots.get?_put_self, herase]
  rw [hsame]
  cases r with
  | ok v =>
      obtain ⟨rfl, rfl⟩ := Prod.mk.inj (Option.some.inj h)
      exact ⟨rfl, rfl⟩
  | error e =>
      obtain ⟨rfl, rfl⟩ := Prod.mk.inj (Option.some.inj h)
      exact ⟨rfl, rfl⟩

theorem tracked_run {chunks : List Datum} {last : Datum} (ht : Tracked s l)
    (hg : s.slots.get? on = some item)
    (h : runFunction s on item chunks last = some (answer, s')) : Tracked s' l := by
  cases hfed : feedAll item chunks last with
  | none =>
      unfold runFunction at h
      rw [hfed] at h
      exact absurd h (by simp)
  | some out =>
      obtain ⟨r, item'⟩ := out
      obtain ⟨rfl, _⟩ := runFunction_eq_discard hfed h
      -- whatever the run came to, the function holds its own loan when it is discarded
      refine tracked_discard ?_ on
      cases ho : item.isOpen with
      | true =>
          obtain ⟨entry, loan, _, hopen, _⟩ := ht.tended on item (Slots.mem_of_get? hg) ho
          obtain ⟨shut, drawn, hshut, hloan, hall⟩ := hopen.feedAll chunks last
          rw [hall] at hfed
          obtain rfl := congrArg Prod.snd (Option.some.inj hfed)
          refine tracked_update ht hg ?_ (fun _ _ => rfl) fun hopen => ?_
          · rw [hloan, hopen.loan?]
            rfl
          · exact absurd hopen (by simp [hshut])
      | false => exact tracked_idle ht hg (feedAll_idles ho hfed) fun _ _ => rfl

/-! ## Any command -/

variable {c : Command} {work : Prepared} {done : Answer × Session}

/-- The three ways in which a command is carried out: it leaves the functions alone, it starts one,
or it feeds one. -/
theorem carryOut?_cases (h : s.carryOut? c = some done) :
    (∃ work, (s.prepareLook c = some work ∨ s.prepareKey c = some work
        ∨ s.prepareMake c = some work ∨ s.prepareCall c = some work) ∧ done = work s)
      ∨ (∃ work, s.prepareStart c = some work ∧ done = work s)
      ∨ s.feed? c = some done := by
  unfold carryOut? at h
  dsimp only at h
  split at h
  · rename_i work hw
    obtain rfl := Option.some.inj h
    rcases Option.or_eq_some_iff.mp hw with hl | ⟨_, hw⟩
    · exact Or.inl ⟨work, Or.inl hl, rfl⟩
    rcases Option.or_eq_some_iff.mp hw with hk | ⟨_, hw⟩
    · exact Or.inl ⟨work, Or.inr (Or.inl hk), rfl⟩
    rcases Option.or_eq_some_iff.mp hw with hm | ⟨_, hw⟩
    · exact Or.inl ⟨work, Or.inr (Or.inr (Or.inl hm)), rfl⟩
    rcases Option.or_eq_some_iff.mp hw with hc | ⟨_, hs⟩
    · exact Or.inl ⟨work, Or.inr (Or.inr (Or.inr hc)), rfl⟩
    · exact Or.inr (Or.inl ⟨work, hs, rfl⟩)
  · exact Or.inr (Or.inr h)

/-- Nothing is written down of a command that leaves the functions alone. -/
theorem note_of_quiet (h : s.prepareLook c = some work ∨ s.prepareKey c = some work
    ∨ s.prepareMake c = some work ∨ s.prepareCall c = some work) :
    l.note s c answer = l := by
  cases c with
  | startHashing on dest => simp [prepareLook, prepareKey, prepareMake, prepareCall] at h
  | startSigning on dest => simp [prepareLook, prepareKey, prepareMake, prepareCall] at h
  | startVerifying on signature dest =>
      simp [prepareLook, prepareKey, prepareMake, prepareCall] at h
  | update on data => simp [prepareLook, prepareKey, prepareMake, prepareCall] at h
  | _ => rfl

theorem tracked_quiet (ht : Tracked s l) (h : s.prepareLook c = some work
    ∨ s.prepareKey c = some work ∨ s.prepareMake c = some work
    ∨ s.prepareCall c = some work) :
    Tracked (work s).2 (l.note s c (work s).1) := by
  rw [note_of_quiet h]
  rcases h with h | h | h | h
  · exact quiet_look (lookPrepared h) s l ht
  · exact quiet_key (keyPrepared h) s l ht
  · exact quiet_make (makePrepared h) s l ht
  · exact quiet_call (callPrepared h) s l ht

theorem tracked_starting (ht : Tracked s l) (h : StartPrepared s c work) :
    Tracked (work s).2 (l.note s c (work s).1) := by
  cases h with
  | @hashing on o hitem dest =>
      have hnote : ∀ answer, l.note s (.startHashing on dest) answer
          = match answer.outcome with
            | .value _ => l.enter dest (.hash o.core)
            | _ => l := by
        intro answer
        unfold Ledger.note
        cases answer.outcome <;> simp [hitem]
      rw [hnote]
      exact tracked_begin ht (.hash o.core) _ _ (fun loan => ⟨false, rfl⟩) dest
  | @signing on o drawn hitem dest =>
      have hnote : ∀ answer, l.note s (.startSigning on dest) answer
          = match answer.outcome with
            | .value _ => l.enter dest (.sign o.core)
            | _ => l := by
        intro answer
        unfold Ledger.note
        cases answer.outcome <;> simp [hitem]
      rw [hnote]
      exact tracked_begin ht (.sign o.core) _ _ (fun loan => ⟨drawn, rfl⟩) dest
  | @verifying on o hitem signature sig hsig dest =>
      have hnote : ∀ answer, l.note s (.startVerifying on signature dest) answer
          = match answer.outcome with
            | .value _ => l.enter dest (.verify o.core sig.bytes)
            | _ => l := by
        intro answer
        unfold Ledger.note
        cases answer.outcome <;> simp [hitem, hsig]
      rw [hnote]
      exact tracked_begin ht (.verify o.core sig.bytes) _ _ (fun loan => rfl) dest
  | encrypting =>
      -- ciphers borrow nothing, so there is no entry to make
      refine quiet_plainly (fun l => ?_) s l ht
      refine (keeps_onState ((opening_startEncrypting _ _ _).balanced)).bind fun f => ?_
      exact (keeps_keep _ rfl rfl).bind fun _ => Action.keeps_pure _
  | decrypting =>
      refine quiet_plainly (fun l => ?_) s l ht
      exact (keeps_keep _ rfl rfl).bind fun _ => Action.keeps_pure _

theorem tracked_feed (ht : Tracked s l) (h : s.feed? c = some done) :
    Tracked done.2 (l.note s c done.1) := by
  obtain ⟨answer, s'⟩ := done
  unfold feed? at h
  split at h
  · -- a chunk
    rename_i on data
    obtain ⟨item, hitem, h⟩ := Option.bind_eq_some_iff.mp h
    obtain ⟨chunk, hchunk, h⟩ := Option.bind_eq_some_iff.mp h
    have hnote : l.note s (.update on data) answer = match answer.outcome with
        | .value _ => l.feed on chunk.bytes
        | _ => l := by
      unfold Ledger.note
      cases answer.outcome <;> simp [hchunk]
    rw [hnote]
    exact tracked_feedChunk ht hitem h
  · -- a last chunk
    obtain ⟨item, hitem, h⟩ := Option.bind_eq_some_iff.mp h
    obtain ⟨last, _, h⟩ := Option.bind_eq_some_iff.mp h
    exact tracked_feedLast ht hitem h
  · obtain ⟨item, hitem, h⟩ := Option.bind_eq_some_iff.mp h
    exact tracked_feedLast ht hitem h
  · obtain ⟨item, hitem, h⟩ := Option.bind_eq_some_iff.mp h
    exact tracked_close ht hitem h
  · obtain ⟨item, _, h⟩ := Option.bind_eq_some_iff.mp h
    obtain ⟨stage, _, h⟩ := Option.bind_eq_some_iff.mp h
    obtain rfl := congrArg Prod.snd (Option.some.inj h)
    exact ht
  · obtain ⟨item, hitem, h⟩ := Option.bind_eq_some_iff.mp h
    obtain ⟨chunks, _, h⟩ := Option.bind_eq_some_iff.mp h
    obtain ⟨last, _, h⟩ := Option.bind_eq_some_iff.mp h
    exact tracked_run ht hitem h
  · exact absurd h (by simp)

/-- **Every command leads from a tracked session to a tracked session.** -/
theorem tracked_step (ht : Tracked s l) (c : Command) :
    Tracked (s.step c).2 (l.note s c (s.step c).1) := by
  unfold step
  split
  · cases hdone : s.carryOut? c with
    | none =>
        have hnote : l.note s c .refusal = l := by
          unfold Ledger.note
          split <;> simp_all [Answer.refusal]
        exact hnote.symm ▸ ht
    | some done =>
        rcases carryOut?_cases hdone with ⟨work, hw, rfl⟩ | ⟨work, hw, rfl⟩ | hf
        · exact tracked_quiet ht hw
        · exact tracked_starting ht (startPrepared hw)
        · exact tracked_feed ht hf
  · -- there was no room for the bytes that the command asks for
    have hnote : l.note s c ⟨.failure .unwound, none⟩ = l := by
      unfold Ledger.note
      split <;> simp_all
    exact hnote.symm ▸ ht

/-- **So does every run.** -/
theorem tracked_watch (ht : Tracked s l) (commands : List Command) :
    Tracked (watch commands (s, l)).1 (watch commands (s, l)).2 := by
  induction commands generalizing s l with
  | nil => exact ht
  | cons c rest ih => exact ih (tracked_step ht c)

end PooledCrypto.Session
