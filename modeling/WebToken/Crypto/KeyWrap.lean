import WebToken.Crypto.Aes

/-!
# AES key wrap

A key is cut into half blocks, and a check of eight bytes is put in front. Each step encrypts the
check together with the first half block, numbers the new check and puts the other half last; six
rounds over all half blocks bring them back into their order. Unwrapping goes the steps backwards
and looks whether the check it began with comes out.

* `KeyWrap.unwrap?_eq_some_iff` : unwrapping accepts exactly what wrapping a key of at least two
  half blocks produces.
-/

namespace WebToken

namespace Crypto

namespace KeyWrap

open Aes (Block Cipher)

/-- Bytes in a half block. -/
def halfBytes : Nat := 8

/-- The check that wrapping begins with. -/
def initial : Bytes := List.replicate halfBytes 0xA6

/-- The check, and the half blocks in the order in which they are next met. -/
structure State where
  check : Bytes
  queue : List Bytes
  deriving Repr, DecidableEq

/-- The step with number `t`. -/
def step (cipher : Cipher) (t : Nat) (s : State) : State :=
  match s.queue with
  | [] => s
  | half :: rest =>
    let b := (cipher.encrypt (.ofBytes (s.check ++ half))).bytes
    ⟨Bytes.xor (b.take halfBytes) (Bytes.ofNat halfBytes t), rest ++ [b.drop halfBytes]⟩

/-- The step with number `t`, backwards. -/
def unstep (cipher : Cipher) (t : Nat) (s : State) : State :=
  match s.queue.getLast? with
  | none => s
  | some half =>
    let b := (cipher.decrypt
      (.ofBytes (Bytes.xor s.check (Bytes.ofNat halfBytes t) ++ half))).bytes
    ⟨b.take halfBytes, b.drop halfBytes :: s.queue.dropLast⟩

/-- The numbers of the steps for `n` half blocks. -/
def steps (n : Nat) : List Nat := List.range' 1 (6 * n)

/-- All steps of a list, one after the other. -/
def run (cipher : Cipher) (ts : List Nat) (s : State) : State :=
  ts.foldl (fun s t => step cipher t s) s

/-- All steps of a list backwards, beginning with the last. -/
def unrun (cipher : Cipher) (ts : List Nat) (s : State) : State :=
  ts.foldr (unstep cipher) s

/-- The state that a string spells: its first eight bytes are the check. -/
def State.ofBytes (b : Bytes) : State :=
  ⟨b.take halfBytes, Bytes.chunks halfBytes (b.drop halfBytes)⟩

/-- The check and the half blocks in their order. -/
def State.bytes (s : State) : Bytes := s.check ++ s.queue.flatten

/-- A key wrapped under another. -/
def wrap (kek key : Bytes) : Bytes :=
  (run (.ofKey kek) (steps (key.length / halfBytes)) (.ofBytes (initial ++ key))).bytes

/-- The key that was wrapped under another, if the check comes out. -/
def unwrap? (kek wrapped : Bytes) : Option Bytes :=
  if wrapped.length < 3 * halfBytes ∨ wrapped.length % halfBytes ≠ 0 then none
  else
    let s := unrun (.ofKey kek) (steps (wrapped.length / halfBytes - 1)) (.ofBytes wrapped)
    if s.check = initial then some s.queue.flatten else none

/-! ## Wrapping and unwrapping undo each other -/

/-- Whether the check and all half blocks have their length. -/
def State.WellFormed (s : State) : Prop :=
  s.check.length = halfBytes ∧ ∀ half ∈ s.queue, half.length = halfBytes

/-- A block is found again in two halves that have their length. -/
theorem Block.bytes_ofBytes_append {a half : Bytes} (ha : a.length = halfBytes)
    (hh : half.length = halfBytes) : (Block.ofBytes (a ++ half)).bytes = a ++ half :=
  Block.bytes_ofBytes (by rw [List.length_append, ha, hh]; rfl)

theorem State.WellFormed.step {s : State} (h : s.WellFormed) (cipher : Cipher) (t : Nat) :
    (step cipher t s).WellFormed := by
  unfold KeyWrap.step
  split
  · exact h
  · next half rest hq =>
    refine ⟨by simp [halfBytes, Aes.blockBytes], ?_⟩
    intro x hx
    rw [List.mem_append, List.mem_singleton] at hx
    rcases hx with hx | rfl
    · exact h.2 x (by rw [hq]; exact List.mem_cons_of_mem _ hx)
    · simp [halfBytes, Aes.blockBytes]

theorem State.WellFormed.unstep {s : State} (h : s.WellFormed) (cipher : Cipher) (t : Nat) :
    (unstep cipher t s).WellFormed := by
  unfold KeyWrap.unstep
  split
  · exact h
  · refine ⟨by simp [halfBytes, Aes.blockBytes], ?_⟩
    intro x hx
    rw [List.mem_cons] at hx
    rcases hx with rfl | hx
    · simp [halfBytes, Aes.blockBytes]
    · exact h.2 x (List.dropLast_subset _ hx)

theorem length_queue_step (cipher : Cipher) (t : Nat) (s : State) :
    (step cipher t s).queue.length = s.queue.length := by
  unfold step
  split
  · rfl
  · next half rest hq => simp [hq]

theorem length_queue_unstep (cipher : Cipher) (t : Nat) (s : State) :
    (unstep cipher t s).queue.length = s.queue.length := by
  unfold unstep
  split
  · rfl
  · next half hq =>
    have : s.queue ≠ [] := by rintro he; simp [he] at hq
    have := List.length_pos_iff.2 this
    simp only [List.length_cons, List.length_dropLast]
    omega

/-- A step backwards undoes the step. -/
theorem unstep_step {s : State} (h : s.WellFormed) (cipher : Cipher) (t : Nat) :
    unstep cipher t (step cipher t s) = s := by
  obtain ⟨check, queue⟩ := s
  cases queue with
  | nil => rfl
  | cons half rest =>
    have hc : check.length = halfBytes := h.1
    have hh : half.length = halfBytes := h.2 half (by simp)
    simp only [step, unstep, List.getLast?_append, List.getLast?_singleton, Option.some_or,
      List.dropLast_concat]
    rw [Bytes.xor_xor_cancel (by simp [halfBytes, Aes.blockBytes]), List.take_append_drop,
      Block.ofBytes_bytes, Aes.decrypt_encrypt, Block.bytes_ofBytes_append hc hh, ← hc,
      List.take_left, List.drop_left]

/-- A step undoes the step backwards. -/
theorem step_unstep {s : State} (h : s.WellFormed) (cipher : Cipher) (t : Nat) :
    step cipher t (unstep cipher t s) = s := by
  obtain ⟨check, queue⟩ := s
  rcases List.eq_nil_or_concat queue with rfl | ⟨rest, half, rfl⟩
  · rfl
  · have hc : check.length = halfBytes := h.1
    have hh : half.length = halfBytes := h.2 half (by simp)
    have hx : (Bytes.xor check (Bytes.ofNat halfBytes t)).length = halfBytes := by
      simp [hc]
    simp only [step, unstep, List.concat_eq_append, List.getLast?_append,
      List.getLast?_singleton, Option.some_or, List.dropLast_concat]
    rw [List.take_append_drop, Block.ofBytes_bytes, Aes.encrypt_decrypt,
      Block.bytes_ofBytes_append hx hh, List.take_left' hx, List.drop_left' hx,
      Bytes.xor_xor_cancel (by simp [hc])]

theorem unrun_run {s : State} (h : s.WellFormed) (cipher : Cipher) (ts : List Nat) :
    unrun cipher ts (run cipher ts s) = s := by
  induction ts generalizing s with
  | nil => rfl
  | cons t ts ih =>
    rw [run, List.foldl_cons, ← run, unrun, List.foldr_cons, ← unrun, ih (h.step cipher t),
      unstep_step h]

theorem State.WellFormed.run {s : State} (h : s.WellFormed) (cipher : Cipher) (ts : List Nat) :
    (run cipher ts s).WellFormed := by
  induction ts generalizing s with
  | nil => exact h
  | cons t ts ih => exact ih (h.step cipher t)

theorem State.WellFormed.unrun {s : State} (h : s.WellFormed) (cipher : Cipher)
    (ts : List Nat) : (unrun cipher ts s).WellFormed := by
  induction ts with
  | nil => exact h
  | cons t ts ih => exact ih.unstep cipher t

theorem run_unrun {s : State} (h : s.WellFormed) (cipher : Cipher) (ts : List Nat) :
    run cipher ts (unrun cipher ts s) = s := by
  induction ts with
  | nil => rfl
  | cons t ts ih =>
    rw [unrun, List.foldr_cons, ← unrun, run, List.foldl_cons, ← run,
      step_unstep (h.unrun cipher ts), ih]

theorem length_queue_run (cipher : Cipher) (ts : List Nat) (s : State) :
    (run cipher ts s).queue.length = s.queue.length := by
  induction ts generalizing s with
  | nil => rfl
  | cons t ts ih => rw [run, List.foldl_cons, ← run, ih, length_queue_step]

theorem length_queue_unrun (cipher : Cipher) (ts : List Nat) (s : State) :
    (unrun cipher ts s).queue.length = s.queue.length := by
  induction ts with
  | nil => rfl
  | cons t ts ih => rw [unrun, List.foldr_cons, ← unrun, length_queue_unstep, ih]

/-! ## Whole keys -/

theorem State.WellFormed.length_bytes {s : State} (h : s.WellFormed) :
    s.bytes.length = halfBytes * (s.queue.length + 1) := by
  rw [State.bytes, List.length_append, h.1, List.length_flatten, List.map_congr_left h.2,
    List.map_const', List.sum_replicate_nat]
  simp only [halfBytes]
  omega

/-- A state is found again in its bytes. -/
theorem State.WellFormed.ofBytes_bytes {s : State} (h : s.WellFormed) :
    State.ofBytes s.bytes = s := by
  rw [State.ofBytes, State.bytes, List.take_left' h.1, List.drop_left' h.1,
    Bytes.chunks_flatten (by decide) h.2]

theorem State.bytes_ofBytes (b : Bytes) : (State.ofBytes b).bytes = b := by
  rw [State.ofBytes, State.bytes, Bytes.flatten_chunks (by decide), List.take_append_drop]

theorem State.wellFormed_ofBytes {b : Bytes} (hl : halfBytes ≤ b.length)
    (hm : b.length % halfBytes = 0) : (State.ofBytes b).WellFormed := by
  refine ⟨by rw [State.ofBytes, List.length_take]; omega, fun x hx => ?_⟩
  refine Bytes.length_of_mem_chunks ?_ hx
  rw [List.length_drop, ← Nat.mod_eq_sub_mod hl, hm]

/-- A wrapped key is eight bytes longer than the key. -/
theorem length_wrap (kek : Bytes) {key : Bytes} (hk : key.length % halfBytes = 0) :
    (wrap kek key).length = halfBytes + key.length := by
  have hl : (initial ++ key).length = halfBytes + key.length := by simp [initial]
  have hwf : (State.ofBytes (initial ++ key)).WellFormed :=
    State.wellFormed_ofBytes (by rw [hl]; omega) (by rw [hl, Nat.add_mod_left, hk])
  rw [wrap, (hwf.run _ _).length_bytes, length_queue_run, ← hwf.length_bytes,
    State.bytes_ofBytes, hl]

/-- Unwrapping accepts exactly what wrapping a key of two or more half blocks produces. -/
theorem unwrap?_eq_some_iff {kek wrapped key : Bytes} :
    unwrap? kek wrapped = some key ↔
      2 * halfBytes ≤ key.length ∧ key.length % halfBytes = 0 ∧ wrap kek key = wrapped := by
  constructor
  · intro h
    simp only [unwrap?] at h
    split at h
    · cases h
    · next hl =>
      simp only [not_or, Nat.not_lt, Decidable.not_not] at hl
      split at h
      · next hc =>
        have hwf := State.wellFormed_ofBytes (b := wrapped) (by omega) hl.2
        have hu := hwf.unrun (.ofKey kek) (steps (wrapped.length / halfBytes - 1))
        have hlen : halfBytes + key.length = wrapped.length := by
          rw [← State.bytes_ofBytes wrapped, hwf.length_bytes,
            ← length_queue_unrun (.ofKey kek) (steps (wrapped.length / halfBytes - 1)),
            ← hu.length_bytes, State.bytes, hc, Option.some.inj h]
          simp [initial]
        have hk : key.length / halfBytes = wrapped.length / halfBytes - 1 := by
          rw [← hlen, Nat.add_div_left _ (by decide)]; rfl
        have hs : State.ofBytes (initial ++ key) =
            unrun (.ofKey kek) (steps (wrapped.length / halfBytes - 1)) (.ofBytes wrapped) := by
          rw [← hu.ofBytes_bytes, State.bytes, hc, Option.some.inj h]
        refine ⟨by omega, by rw [← hl.2, ← hlen, Nat.add_mod_left], ?_⟩
        rw [wrap, hk, hs, run_unrun hwf, State.bytes_ofBytes]
      · cases h
  · rintro ⟨hl, hm, rfl⟩
    have hlen := length_wrap kek hm
    have hi : (initial ++ key).length = halfBytes + key.length := by simp [initial]
    have hwf : (State.ofBytes (initial ++ key)).WellFormed :=
      State.wellFormed_ofBytes (by rw [hi]; omega) (by rw [hi, Nat.add_mod_left, hm])
    have hn : (wrap kek key).length / halfBytes - 1 = key.length / halfBytes := by
      rw [hlen, Nat.add_div_left _ (by decide)]; rfl
    rw [unwrap?, if_neg (by rw [hlen, Nat.add_mod_left]; omega)]
    simp only [hn]
    rw [wrap, (hwf.run _ _).ofBytes_bytes, unrun_run hwf]
    simp [State.ofBytes, List.take_left' (show initial.length = halfBytes from rfl),
      List.drop_left' (show initial.length = halfBytes from rfl), Bytes.flatten_chunks
      (show 0 < halfBytes by decide)]

end KeyWrap

end Crypto

end WebToken
