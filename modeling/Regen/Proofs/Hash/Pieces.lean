import Regen.Hash.Sha256

/-! # Messages in pieces

    What a hasher knows after some pieces depends on the message that they make up, not on where
    it was cut: the words after its full blocks, the bytes behind them and its length
    (`Hasher.After`).  Each further piece keeps this, and the digest is read off it. -/

namespace Regen.Sha256

section blocks
variable {s : Words} {message more : List UInt8}

/-! ## Blocks -/

/-- One block first, and then the others. -/
theorem absorbBlocks_succ (count : Nat) : absorbBlocks (count + 1) s message =
    absorbBlocks count (absorb s (message.take 64)) (message.drop 64) := rfl

/-- The bytes behind the blocks that are taken in do not matter. -/
theorem absorbBlocks_append {count : Nat} (h : 64 * count ≤ message.length) :
    absorbBlocks count s (message ++ more) = absorbBlocks count s message := by
  induction count generalizing s message with
  | zero => rfl
  | succ count ih =>
    have hblock : 64 ≤ message.length := by omega
    rw [absorbBlocks_succ, absorbBlocks_succ, List.take_append_of_le_length hblock,
      List.drop_append_of_le_length hblock]
    apply ih
    rw [List.length_drop]
    omega

/-- Some blocks first, and then the others. -/
theorem absorbBlocks_add (first others : Nat) :
    absorbBlocks (first + others) s message =
      absorbBlocks others (absorbBlocks first s message) (message.drop (64 * first)) := by
  induction first generalizing s message with
  | zero =>
    rw [Nat.zero_add, Nat.mul_zero, List.drop_zero]
    rfl
  | succ first ih =>
    rw [Nat.succ_add, absorbBlocks_succ, absorbBlocks_succ, ih, List.drop_drop]
    congr 2
    omega

/-- **Going on behind the full blocks** of a message is starting again with all of it. -/
theorem absorbBlocks_behind (s : Words) (message more : List UInt8) :
    absorbBlocks ((message ++ more).length / 64) s (message ++ more) =
      absorbBlocks ((message.drop (64 * (message.length / 64)) ++ more).length / 64)
        (absorbBlocks (message.length / 64) s message)
        (message.drop (64 * (message.length / 64)) ++ more) := by
  have hfull : 64 * (message.length / 64) ≤ message.length := Nat.mul_div_le _ _
  have hcount : (message ++ more).length / 64 = message.length / 64 +
      (message.drop (64 * (message.length / 64)) ++ more).length / 64 := by
    rw [List.length_append, List.length_append, List.length_drop]
    omega
  rw [hcount, absorbBlocks_add, absorbBlocks_append hfull, List.drop_append_of_le_length hfull]

end blocks

/-! ## Pieces -/

namespace Hasher

/-- **A hasher is behind a message**: it took in the full blocks, and holds the bytes behind them
    and the length. -/
structure After (h : Hasher) (message : List UInt8) : Prop where
  words : h.words = absorbBlocks (message.length / 64) start message
  rest : h.rest = message.drop (64 * (message.length / 64))
  length : h.length = message.length

section pieces
variable {h : Hasher} {message : List UInt8}

theorem after_empty : After .empty [] := ⟨rfl, rfl, rfl⟩

/-- One more piece. -/
theorem After.update (hafter : h.After message) (piece : List UInt8) :
    (h.update piece).After (message ++ piece) := by
  have hfull : 64 * (message.length / 64) ≤ message.length := Nat.mul_div_le _ _
  refine ⟨?_, ?_, ?_⟩
  · rw [absorbBlocks_behind, ← hafter.rest, ← hafter.words]
    rfl
  · -- The bytes that were held are dropped with the blocks that they are now part of.
    have hrest : h.rest ++ piece = (message ++ piece).drop (64 * (message.length / 64)) := by
      rw [hafter.rest, List.drop_append_of_le_length hfull]
    have hcount : 64 * (message.length / 64) +
        64 * (((message ++ piece).length - 64 * (message.length / 64)) / 64) =
          64 * ((message ++ piece).length / 64) := by
      rw [List.length_append]
      omega
    rw [Hasher.update]
    dsimp only
    rw [hrest, List.drop_drop, List.length_drop, hcount]
  · rw [List.length_append, ← hafter.length]
    rfl

/-- All further pieces. -/
theorem After.foldl_update (hafter : h.After message) (pieces : List (List UInt8)) :
    (pieces.foldl Hasher.update h).After (message ++ pieces.flatten) := by
  induction pieces generalizing h message with
  | nil => simpa using hafter
  | cons piece pieces ih =>
    rw [List.foldl_cons, List.flatten_cons, ← List.append_assoc]
    exact ih (hafter.update piece)

theorem After.digest_eq (hafter : h.After message) : h.digest = Sha256.digest message := by
  rw [Sha256.digest, absorbBlocks_behind, ← hafter.rest, ← hafter.words, ← hafter.length]
  rfl

/-- **The digest of pieces is that of the message** that they make up. -/
theorem digest_foldl_update (pieces : List (List UInt8)) :
    (pieces.foldl Hasher.update .empty).digest = Sha256.digest pieces.flatten :=
  (after_empty.foldl_update pieces).digest_eq

end pieces

end Hasher

end Regen.Sha256
