import PooledCrypto.Proofs.Accounts
import PooledCrypto.Provider.Agreement

/-!
# Operations that give back what they borrow

Calling an operation once leaves nothing borrowed, whether it succeeds or fails and whoever does the
work. What is left for the accounts to follow is then the streaming functions alone.

An executor may drop a call or spoil its answer, but it makes none up: an answer that a caller gets
is that of the work itself (`call_ok`).
-/

namespace PooledCrypto.Provider

open Curve (P256.PublicKey P256.PrivateKey)

variable {α β κ : Type} {work : Action State α} {s s' : State}

theorem balanced_pure (x : α) : Balanced (pure x : Action State α) := fun _ => Action.keeps_pure x

theorem balanced_fail (e : Error) : Balanced (Action.fail e : Action State α) :=
  fun _ => Action.keeps_fail e

theorem balanced_ofExcept (r : Except Error α) : Balanced (Action.ofExcept r) :=
  fun _ => Action.keeps_ofExcept r

/-- Nothing is left borrowed between two steps, so nothing is after both. -/
theorem Balanced.bind {next : α → Action State β} (hw : Balanced work)
    (hn : ∀ x, Balanced (next x)) : Balanced (work >>= next) :=
  fun lent => (hw lent).bind fun x => hn x lent

theorem balanced_make (core : κ) : Balanced (Operation.make core) := fun _ _ ha => ha

/-- To offload work is to run it or not, and to tell the caller what the executor says of it. -/
theorem offload_apply (executor : Executor) (work : Action State α) (s : State) :
    offload executor work s =
      ((match executor.execute (Executor.ending (work s).1) with
        | .ok (.ok value) => (.ok value : Except Failure α)
        | .ok (.error e) => .error (.error e)
        | .error f => .error f),
        if executor.adaptor.runs then (work s).2 else s) := rfl

/-- Where the work is done makes no difference to what is kept. -/
theorem Balanced.call (hw : Balanced work) (o : Operation κ) (shape : Shape) :
    Balanced (o.call shape work) := by
  intro lent s ha
  cases shape with
  | direct => exact hw lent s ha
  | offloaded =>
      rw [Operation.call, offload_apply]
      dsimp only
      split
      · exact hw lent s ha
      · exact ha

/-- An executor gives no answers but those of the work. -/
theorem execute_ending_ok {executor : Executor} {r : Except Failure α} {v : α}
    (h : executor.execute (Executor.ending r) = .ok (.ok v)) : r = .ok v := by
  unfold Executor.execute at h
  cases r with
  | ok w =>
      split at h
      · exact absurd h (by simp)
      · cases hruns : executor.adaptor.runs with
        | false => simp [hruns] at h
        | true => simpa [hruns, Executor.ending, Executor.Ending.value?] using h
  | error f =>
      exfalso
      split at h
      · exact absurd h (by simp)
      · cases hruns : executor.adaptor.runs with
        | false => simp [hruns] at h
        | true => cases f <;> simp [hruns, Executor.ending, Executor.Ending.value?] at h

/-- An answer that a caller gets is that of the work itself. -/
theorem call_ok {o : Operation κ} {shape : Shape} {v : α}
    (h : (o.call shape work s).1 = .ok v) : (work s).1 = .ok v := by
  cases shape with
  | direct => exact h
  | offloaded =>
      rw [Operation.call, offload_apply] at h
      dsimp only at h
      split at h
      · rename_i w hw
        obtain rfl := Except.ok.inj h
        exact execute_ending_ok hw
      · exact absurd h (by simp)
      · exact absurd h (by simp)

/-! ## One-shot calls -/

theorem balanced_hash (h : Hasher) (data : Bytes) : Balanced (h.hash data) :=
  balanced_compute _ _

theorem balanced_sign (signer : Signer) (data : Bytes) : Balanced (signer.sign data) :=
  (balanced_compute _ _).bind fun _ => balanced_ofExcept _

theorem balanced_verify (v : Verifier) (data signature : Bytes) :
    Balanced (v.verify data signature) :=
  (balanced_compute _ _).bind fun _ => balanced_pure _

/-- A verdict that becomes an error has borrowed no more than one that is told. -/
theorem balanced_verifyOrFail (v : Verifier) (data signature : Bytes) :
    Balanced (v.verifyOrFail data signature) := by
  refine (balanced_verify v data signature).bind fun valid => ?_
  cases valid with
  | true => exact balanced_pure ()
  | false => exact balanced_fail _

/-- An agreement has nothing to borrow. -/
theorem balanced_exchange (o : Operation Agreement) (shape : Shape) (peer : Peer) :
    Balanced (Agreement.exchange o shape peer) :=
  (balanced_ofExcept _).bind fun _ => (balanced_ofExcept _).call o shape

end PooledCrypto.Provider
