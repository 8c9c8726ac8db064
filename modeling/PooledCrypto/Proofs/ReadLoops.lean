import Mathlib.Logic.Relation
import PooledCrypto.FileTool.Hashing
import PooledCrypto.Proofs.Feeding

/-!
# Reading through one buffer

A file is read and hashed in pieces through one buffer. A piece goes over the beginning of the
buffer, and nothing but that beginning is fed. So what earlier pieces left behind is never looked
at: feeding what was read is feeding the pieces themselves (`feedPieces_eq_updateAll`), and hashing
them is hashing the whole content at once (`hashPieces_eq_hash`).

`ReadLoop` is the loop before it is known how the content will be cut. At each read the reader
decides anew how much it gives. Every such loop ends, it ends at the end of the file and nowhere
before, and what it leaves to do is what there was to do at first: finishing the function with all
that is unread (`ReadLoop.Run.finish_eq`). The loops are the ways to cut the content
(`ReadLoop.done_iff`), so nothing is lost by looking at the pieces only.
-/

namespace PooledCrypto

/-! ## Loans -/

namespace Provider

theorem Loan.update_append (loan : Loan) (a b : Bytes) :
    loan.update (a ++ b) = (loan.update a).update b := by
  cases loan with
  | digest pool handle =>
      show Loan.digest pool ⟨handle.serial, handle.value.update (a ++ b)⟩ = _
      rw [Digest.Context.update_append]
      rfl
  | mac pool handle =>
      show Loan.mac pool ⟨handle.serial, handle.value.update (a ++ b)⟩ = _
      rw [Mac.Context.update_append]
      rfl

/-- Taking in pieces and a last one is taking in all of them at once. -/
theorem Loan.foldl_update (pieces : List Bytes) (loan : Loan) (last : Bytes) :
    (pieces.foldl (fun loan piece => loan.update piece) loan).update last
      = loan.update (pieces.flatten ++ last) := by
  induction pieces generalizing loan with
  | nil => rfl
  | cons piece rest ih =>
      rw [List.foldl_cons, ih, List.flatten_cons, List.append_assoc,
        Loan.update_append loan piece]

end Provider

namespace FileTool

open Provider (Hasher HashFunction Loan Source)
open Streaming (Function)

variable {buffer buffer' content : Bytes} {f f' : HashFunction} {pieces : List Bytes} {limit : Nat}
  {loan : Loan}

/-! ## Pieces -/

/-- A way to cut a content into pieces that are not empty and not longer than asked for. -/
structure Cuts (limit : Nat) (content : Bytes) (pieces : List Bytes) : Prop where
  whole : pieces.flatten = content
  sizes : ∀ piece ∈ pieces, 0 < piece.length ∧ piece.length ≤ limit

theorem Reader.cuts (reader : Reader) (h : 0 < limit) (content : Bytes) :
    Cuts limit content (reader.cut limit content) :=
  ⟨reader.flatten_cut limit content h, fun piece hp =>
    reader.length_of_mem_cut limit content piece h hp⟩

/-- Some reader cuts the content this way. -/
theorem Cuts.reader (h : Cuts limit content pieces) :
    ∃ reader : Reader, reader.cut limit content = pieces := by
  classical
  let cut (asked : Nat) (whole : Bytes) : List Bytes :=
    if asked = limit ∧ whole = content then pieces else Reader.full.cut asked whole
  have hcuts : ∀ asked whole, 0 < asked → Cuts asked whole (cut asked whole) := by
    intro asked whole hpos
    by_cases hown : asked = limit ∧ whole = content
    · obtain ⟨rfl, rfl⟩ := hown
      simpa [cut] using h
    · simpa [cut, hown] using Reader.full.cuts hpos whole
  exact ⟨⟨cut, fun asked whole hpos => (hcuts asked whole hpos).whole,
    fun asked whole piece hpos hp => (hcuts asked whole hpos).sizes piece hp⟩, by simp [cut]⟩

/-- Of the buffer, what was just read is fed and nothing else. -/
theorem feedPieces_cons (piece : Bytes) (rest : List Bytes) (buffer : Bytes) (f : HashFunction) :
    feedPieces (piece :: rest) buffer f
      = match f.update piece with
        | (.ok (), f) => feedPieces rest (piece ++ buffer.drop piece.length) f
        | (.error e, f) => (.error e, f) := by
  rcases hupdate : f.update piece with ⟨e | ⟨⟩, g⟩
  · rw [feedPieces, List.take_left, hupdate]
  · rw [feedPieces, List.take_left, hupdate]

/-- **Feeding what was read is feeding the pieces**, whatever was in the buffer before. -/
theorem feedPieces_eq_updateAll (pieces : List Bytes) (buffer : Bytes) (f : HashFunction) :
    feedPieces pieces buffer f
      = ((f.updateAll pieces).1.map fun _ => (), (f.updateAll pieces).2) := by
  induction pieces generalizing buffer f with
  | nil => rfl
  | cons piece rest ih =>
      rw [feedPieces_cons, Function.updateAll]
      rcases f.update piece with ⟨e | out, f⟩
      · rfl
      · dsimp only
        rw [ih]
        rcases f.updateAll rest with ⟨e | outs, f⟩ <;> rfl

theorem feedPieces_opened (pieces : List Bytes) (buffer : Bytes) (loan : Loan) :
    feedPieces pieces buffer ⟨.opened, some loan⟩
      = (.ok (), ⟨.opened, some (pieces.foldl (fun loan piece => loan.update piece) loan)⟩) := by
  rw [feedPieces_eq_updateAll, Function.updateAll_of_absorbs Session.loan_absorbs]
  rfl

/-- **Hashing pieces is hashing their content at once.** The two are one action: they give the same
digest or the same error, and they leave the same behind. -/
theorem hashPieces_eq_hash (h : Hasher) (pieces : List Bytes) :
    hashPieces h pieces = h.hash pieces.flatten := by
  funext s
  unfold hashPieces Hasher.hash Provider.compute
  rcases hb : Provider.borrow (.digest h.kind) s with ⟨e | loan, s'⟩
  · have hstart : h.start s = (.error e, s') := Action.bind_of_error hb
    rw [Action.bind_of_error hstart, Action.bind_of_error hb]
  · have hstart : h.start s = (.ok ⟨.opened, some loan⟩, s') := Action.bind_of_ok hb
    rw [Action.bind_of_ok hstart, Action.bind_of_ok hb, feedPieces_opened]
    dsimp only
    rw [Function.complete, Function.finish_opened, Session.loan_finish, Loan.foldl_update,
      List.append_nil]
    rfl

/-! ## The loop -/

/-- The loop between two reads. -/
structure ReadLoop where
  /-- What is left of the file. -/
  unread : Bytes
  buffer : Bytes
  function : HashFunction

namespace ReadLoop

/-- A read that gives something: as much as the reader likes, but no more than is left, nor than the
buffer holds. The bytes go over the beginning of the buffer, and that beginning is fed. -/
inductive Step : ReadLoop → ReadLoop → Prop
  | read {unread buffer : Bytes} {f f' : HashFunction} {count : Nat} (some : 0 < count)
      (there : count ≤ unread.length) (fits : count ≤ buffer.length)
      (fed : f.update ((unread.take count ++ buffer.drop count).take count) = (.ok (), f')) :
      Step ⟨unread, buffer, f⟩ ⟨unread.drop count, unread.take count ++ buffer.drop count, f'⟩

/-- Reads one after the other. -/
abbrev Run : ReadLoop → ReadLoop → Prop := Relation.ReflTransGen Step

/-- There is a buffer to read into, and the function can be fed. -/
structure Live (l : ReadLoop) : Prop where
  buffer : 0 < l.buffer.length
  function : ∃ loan, l.function = ⟨.opened, some loan⟩

variable {l l' : ReadLoop}

theorem take_overwritten {unread buffer : Bytes} {count : Nat} (there : count ≤ unread.length) :
    (unread.take count ++ buffer.drop count).take count = unread.take count :=
  List.take_left' (List.length_take_of_le there)

theorem length_overwritten {unread buffer : Bytes} {count : Nat} (there : count ≤ unread.length)
    (fits : count ≤ buffer.length) :
    (unread.take count ++ buffer.drop count).length = buffer.length := by
  rw [List.length_append, List.length_take_of_le there, List.length_drop]
  omega

/-- A read takes something away from the file. -/
theorem Step.length_lt (h : Step l l') : l'.unread.length < l.unread.length := by
  cases h with
  | read some there fits fed =>
      dsimp only
      rw [List.length_drop]
      omega

theorem Step.length_buffer (h : Step l l') : l'.buffer.length = l.buffer.length := by
  cases h with
  | read some there fits fed => exact length_overwritten there fits

/-- **The loop ends**: there is no endless row of reads. -/
theorem wellFounded_step : WellFounded fun l' l : ReadLoop => Step l l' :=
  Subrelation.wf Step.length_lt (measure fun l : ReadLoop => l.unread.length).wf

theorem Step.live (hl : l.Live) (h : Step l l') : l'.Live := by
  refine ⟨h.length_buffer ▸ hl.buffer, ?_⟩
  obtain ⟨loan, hloan⟩ := hl.function
  cases h with
  | read some there fits fed =>
      obtain rfl := hloan
      rw [Function.update_opened, Session.loan_absorbs] at fed
      exact ⟨_, (congrArg Prod.snd fed).symm⟩

/-- What is left to do is the same after a read. -/
theorem Step.finish_eq (hl : l.Live) (h : Step l l') :
    l'.function.finish l'.unread = l.function.finish l.unread := by
  obtain ⟨loan, hloan⟩ := hl.function
  cases h with
  | @read unread buffer f f' count some there fits fed =>
      obtain rfl := hloan
      rw [take_overwritten there, Function.update_opened, Session.loan_absorbs] at fed
      obtain rfl : f' = _ := (congrArg Prod.snd fed).symm
      simp only [Function.finish_opened, Session.loan_finish]
      rw [← Loan.update_append, List.take_append_drop]

/-- The loop goes on as long as something is left. -/
theorem Live.step_iff (hl : l.Live) : (∃ l', Step l l') ↔ l.unread ≠ [] := by
  obtain ⟨loan, hloan⟩ := hl.function
  have hbuffer := hl.buffer
  obtain ⟨unread, buffer, f⟩ := l
  obtain rfl : f = _ := hloan
  constructor
  · rintro ⟨l', h⟩ hdone
    have := h.length_lt
    simp [show unread = [] from hdone] at this
  · intro hsome
    have hpos : 0 < unread.length := List.length_pos_iff.mpr hsome
    exact ⟨_, .read Nat.one_pos hpos hbuffer rfl⟩

theorem Run.live (hl : l.Live) (h : Run l l') : l'.Live := by
  induction h with
  | refl => exact hl
  | tail _ hstep ih => exact hstep.live ih

theorem Run.finish_eq (hl : l.Live) (h : Run l l') :
    l'.function.finish l'.unread = l.function.finish l.unread := by
  induction h with
  | refl => rfl
  | tail hrun hstep ih => exact (hstep.finish_eq (Run.live hl hrun)).trans ih

/-- **Where the loop has ended, completing the function is finishing it with the whole content.** -/
theorem Run.complete_eq (hl : l.Live) (h : Run l l') (hend : ∀ next, ¬ Step l' next) :
    l'.unread = [] ∧ l'.function.complete = l.function.finish l.unread := by
  by_cases hdone : l'.unread = []
  · refine ⟨hdone, ?_⟩
    rw [← Run.finish_eq hl h, hdone]
    rfl
  · obtain ⟨next, hnext⟩ := (Run.live hl h).step_iff.mpr hdone
    exact absurd hnext (hend next)

/-- What the loop does is to feed pieces. -/
theorem Run.exists_pieces (h : Run l ⟨[], buffer', f'⟩) :
    ∃ pieces, Cuts l.buffer.length l.unread pieces
      ∧ feedPieces pieces l.buffer l.function = (.ok (), f') := by
  induction h using Relation.ReflTransGen.head_induction_on with
  | refl => exact ⟨[], ⟨rfl, by simp⟩, rfl⟩
  | @head l next hstep _ ih =>
      obtain ⟨rest, hcuts, hfed⟩ := ih
      have hlength := hstep.length_buffer
      cases hstep with
      | @read unread buffer f f' count some there fits fed =>
          have hpiece : (unread.take count).length = count := List.length_take_of_le there
          refine ⟨unread.take count :: rest, ⟨?_, ?_⟩, ?_⟩
          · rw [List.flatten_cons, hcuts.whole, List.take_append_drop]
          · rw [List.forall_mem_cons, hpiece]
            exact ⟨⟨some, fits⟩, hlength ▸ hcuts.sizes⟩
          · rw [take_overwritten there] at fed
            rw [feedPieces_cons, fed, hpiece]
            exact hfed

/-- Whatever the pieces are, there is a loop that feeds them. -/
theorem run_of_pieces (h : Cuts buffer.length content pieces)
    (hfed : feedPieces pieces buffer f = (.ok (), f')) :
    ∃ buffer', Run ⟨content, buffer, f⟩ ⟨[], buffer', f'⟩ := by
  induction pieces generalizing content buffer f with
  | nil =>
      obtain rfl : [] = content := h.whole
      obtain rfl : f = f' := congrArg Prod.snd hfed
      exact ⟨buffer, .refl⟩
  | cons piece rest ih =>
      obtain ⟨⟨hsome, hfits⟩, hrest⟩ := List.forall_mem_cons.mp h.sizes
      have hcontent : piece ++ rest.flatten = content := h.whole
      have htake : content.take piece.length = piece := by rw [← hcontent, List.take_left]
      have hdrop : content.drop piece.length = rest.flatten := by rw [← hcontent, List.drop_left]
      have hthere : piece.length ≤ content.length := by
        rw [← hcontent, List.length_append]
        omega
      rw [feedPieces_cons] at hfed
      rcases hupdate : f.update piece with ⟨e | ⟨⟩, g⟩
      · rw [hupdate] at hfed
        exact absurd (congrArg Prod.fst hfed) (by simp)
      · rw [hupdate] at hfed
        -- a piece is written over the front of the buffer, whose length stays, so the next ones fit
        -- too
        have hlength := length_overwritten hthere hfits
        rw [htake] at hlength
        have hcuts : Cuts (piece ++ buffer.drop piece.length).length rest.flatten rest :=
          ⟨rfl, hlength ▸ hrest⟩
        obtain ⟨buffer', hrun⟩ := ih hcuts hfed
        have hstep : Step ⟨content, buffer, f⟩
            ⟨content.drop piece.length, content.take piece.length ++ buffer.drop piece.length, g⟩ :=
          .read hsome hthere hfits (by rw [take_overwritten hthere, htake]; exact hupdate)
        rw [hdrop, htake] at hstep
        exact ⟨buffer', hrun.head hstep⟩

/-- **The loops to the end of a file are the ways to cut it.** -/
theorem done_iff : (∃ buffer', Run ⟨content, buffer, f⟩ ⟨[], buffer', f'⟩)
    ↔ ∃ pieces, Cuts buffer.length content pieces ∧ feedPieces pieces buffer f = (.ok (), f') :=
  ⟨fun ⟨_, h⟩ => Run.exists_pieces h, fun ⟨_, h, hfed⟩ => run_of_pieces h hfed⟩

end ReadLoop
end FileTool
end PooledCrypto
