import Mathlib.Data.List.TakeWhile
import Regen.Text.Lines
import Regen.Text.Utf8

/-! # UTF-8 both ways

    Decoding gives back every text that was encoded.  A character of one to four bytes is taken
    off the front whatever stands behind it, so the text follows by induction. -/

namespace Regen.Text

theorem toNat_toUInt8 {n : Nat} (h : n < 256) : n.toUInt8.toNat = n := by
  rw [Nat.toUInt8, UInt8.toNat_ofNat', Nat.mod_eq_of_lt h]

/-- The code points of characters leave out the halves of surrogate pairs. -/
theorem toNat_bounds (c : Char) :
    c.toNat < 0xD800 ∨ 0xE000 ≤ c.toNat ∧ c.toNat < 0x110000 := by
  have h := c.valid
  simp only [UInt32.isValidChar, Nat.isValidChar] at h
  show c.val.toNat < _ ∨ _ ≤ c.val.toNat ∧ c.val.toNat < _
  omega

theorem isContinuation_toUInt8 {n : Nat} (h : 0x80 ≤ n ∧ n < 0xC0) :
    isContinuation n.toUInt8 = true := by
  simp [isContinuation, toNat_toUInt8 (by omega : n < 256), h]

/-- A continuation fits every first byte, but for the five bytes that narrow it down. -/
theorem secondFits_of_bounds {a b : Nat} (ha : a < 256) (hb : 0x80 ≤ b ∧ b < 0xC0)
    (h₁ : a = 0xE0 → 0xA0 ≤ b) (h₂ : a = 0xED → b < 0xA0) (h₃ : a = 0xF0 → 0x90 ≤ b)
    (h₄ : a = 0xF4 → b < 0x90) : secondFits a.toUInt8 b.toUInt8 = true := by
  rw [secondFits, isContinuation_toUInt8 hb, Bool.true_and, toNat_toUInt8 ha,
    toNat_toUInt8 (by omega)]
  split
  · exact decide_eq_true (h₁ rfl)
  · exact decide_eq_true (h₂ rfl)
  · exact decide_eq_true (h₃ rfl)
  · exact decide_eq_true (h₄ rfl)
  · rfl

/-- The bytes behind the first one fit it if the second one does and the others continue. -/
theorem fittingTail_append {first second : UInt8} {more rest : List UInt8}
    (hsecond : secondFits first second = true) (hmore : ∀ b ∈ more, isContinuation b = true) :
    fittingTail first (second :: more).length (second :: more ++ rest) =
      (second :: more).length := by
  have htake : (more ++ rest).take more.length = more := List.take_left
  have hall : more.takeWhile isContinuation = more := List.takeWhile_eq_self_iff.mpr hmore
  simp [fittingTail, hsecond, htake, hall, Nat.add_comm]

section decoding
variable (fuel place : Nat) (rest : List UInt8)

/-- A character whose bytes fit is taken off the front. -/
theorem decodeFrom_cons {first : UInt8} {tail : List UInt8}
    (hlength : sequenceLength first = tail.length + 1)
    (hfits : tail = [] ∨ fittingTail first tail.length (tail ++ rest) = tail.length) :
    decodeFrom (fuel + 1) place (first :: tail ++ rest) =
      (decodeFrom fuel (place + tail.length + 1) rest).map
        (Char.ofNat (codePoint first tail) :: ·) := by
  have hgood : ¬(if tail.length = 0 then 0 else fittingTail first tail.length (tail ++ rest)) <
      tail.length := by
    rcases hfits with rfl | hfits
    · simp
    · rw [hfits]
      split
      · omega
      · omega
  rw [List.cons_append, decodeFrom]
  simp only [hlength, hgood, if_false, List.take_left, List.drop_left]
  rfl

/-- **A character is decoded as itself**, whatever stands behind it. -/
theorem decodeFrom_encodeChar (c : Char) :
    decodeFrom (fuel + 1) place (encodeChar c ++ rest) =
      (decodeFrom fuel (place + (encodeChar c).length) rest).map (c :: ·) := by
  have hbounds := toNat_bounds c
  have hself : Char.ofNat c.toNat = c := Char.ofNat_toNat c
  unfold encodeChar
  generalize c.toNat = n at hbounds hself
  dsimp only
  split
  · -- One byte.
    have hfirst := toNat_toUInt8 (by omega : n < 256)
    have hlength : sequenceLength n.toUInt8 = 1 := by
      simp only [sequenceLength, hfirst]
      rw [if_pos (by omega)]
    have hcode : codePoint n.toUInt8 [] = n := by simp [codePoint, hfirst]
    have h := decodeFrom_cons fuel place rest hlength (.inl rfl)
    rw [hcode, hself] at h
    exact h
  split
  · -- Two bytes.
    have hfirst := toNat_toUInt8 (by omega : 0xC0 + n / 0x40 < 256)
    have hlast := toNat_toUInt8 (by omega : 0x80 + n % 0x40 < 256)
    have hlength : sequenceLength (0xC0 + n / 0x40).toUInt8 = 2 := by
      simp only [sequenceLength, hfirst]
      rw [if_neg (by omega), if_neg (by omega), if_pos (by omega)]
    have hsecond : secondFits (0xC0 + n / 0x40).toUInt8 (0x80 + n % 0x40).toUInt8 = true :=
      secondFits_of_bounds (by omega) (by omega) (by omega) (by omega) (by omega) (by omega)
    have hcode : codePoint (0xC0 + n / 0x40).toUInt8 [(0x80 + n % 0x40).toUInt8] = n := by
      simp only [codePoint, List.length_cons, List.length_nil, List.foldl_cons, List.foldl_nil,
        hfirst, hlast]
      omega
    have hmore : ∀ b ∈ ([] : List UInt8), isContinuation b = true :=
      fun _ h => absurd h List.not_mem_nil
    have h := decodeFrom_cons fuel place rest hlength
      (.inr (fittingTail_append hsecond hmore))
    rw [hcode, hself] at h
    exact h
  split
  · -- Three bytes.
    have hfirst := toNat_toUInt8 (by omega : 0xE0 + n / 0x1000 < 256)
    have hmiddle := toNat_toUInt8 (by omega : 0x80 + n / 0x40 % 0x40 < 256)
    have hlast := toNat_toUInt8 (by omega : 0x80 + n % 0x40 < 256)
    have hlength : sequenceLength (0xE0 + n / 0x1000).toUInt8 = 3 := by
      simp only [sequenceLength, hfirst]
      rw [if_neg (by omega), if_neg (by omega), if_neg (by omega), if_pos (by omega)]
    have hsecond :
        secondFits (0xE0 + n / 0x1000).toUInt8 (0x80 + n / 0x40 % 0x40).toUInt8 = true :=
      secondFits_of_bounds (by omega) (by omega) (by omega) (by omega) (by omega) (by omega)
    have hcode : codePoint (0xE0 + n / 0x1000).toUInt8
        [(0x80 + n / 0x40 % 0x40).toUInt8, (0x80 + n % 0x40).toUInt8] = n := by
      simp only [codePoint, List.length_cons, List.length_nil, List.foldl_cons, List.foldl_nil,
        hfirst, hmiddle, hlast]
      omega
    have hmore : ∀ b ∈ [(0x80 + n % 0x40).toUInt8], isContinuation b = true := by
      intro b hb
      rw [List.mem_singleton.mp hb]
      exact isContinuation_toUInt8 (by omega)
    have h := decodeFrom_cons fuel place rest hlength
      (.inr (fittingTail_append hsecond hmore))
    rw [hcode, hself] at h
    exact h
  · -- Four bytes.
    have hfirst := toNat_toUInt8 (by omega : 0xF0 + n / 0x40000 < 256)
    have hmiddle := toNat_toUInt8 (by omega : 0x80 + n / 0x1000 % 0x40 < 256)
    have hthird := toNat_toUInt8 (by omega : 0x80 + n / 0x40 % 0x40 < 256)
    have hlast := toNat_toUInt8 (by omega : 0x80 + n % 0x40 < 256)
    have hlength : sequenceLength (0xF0 + n / 0x40000).toUInt8 = 4 := by
      simp only [sequenceLength, hfirst]
      rw [if_neg (by omega), if_neg (by omega), if_neg (by omega), if_neg (by omega),
        if_pos (by omega)]
    have hsecond :
        secondFits (0xF0 + n / 0x40000).toUInt8 (0x80 + n / 0x1000 % 0x40).toUInt8 = true :=
      secondFits_of_bounds (by omega) (by omega) (by omega) (by omega) (by omega) (by omega)
    have hcode : codePoint (0xF0 + n / 0x40000).toUInt8
        [(0x80 + n / 0x1000 % 0x40).toUInt8, (0x80 + n / 0x40 % 0x40).toUInt8,
          (0x80 + n % 0x40).toUInt8] = n := by
      simp only [codePoint, List.length_cons, List.length_nil, List.foldl_cons, List.foldl_nil,
        hfirst, hmiddle, hthird, hlast]
      omega
    have hmore : ∀ b ∈ [(0x80 + n / 0x40 % 0x40).toUInt8, (0x80 + n % 0x40).toUInt8],
        isContinuation b = true := by
      intro b hb
      simp only [List.mem_cons, List.not_mem_nil, or_false] at hb
      rcases hb with rfl | rfl
      · exact isContinuation_toUInt8 (by omega)
      · exact isContinuation_toUInt8 (by omega)
    have h := decodeFrom_cons fuel place rest hlength
      (.inr (fittingTail_append hsecond hmore))
    rw [hcode, hself] at h
    exact h

end decoding

theorem decodeFrom_encodeUtf8 {cs : List Char} {fuel place : Nat} (hfuel : cs.length ≤ fuel) :
    decodeFrom fuel place (encodeUtf8 cs) = .ok cs := by
  induction cs generalizing fuel place with
  | nil => cases fuel <;> rfl
  | cons c cs ih =>
    match fuel with
    | 0 => simp at hfuel
    | fuel + 1 =>
      rw [List.length_cons] at hfuel
      show decodeFrom (fuel + 1) place (encodeChar c ++ encodeUtf8 cs) = _
      rw [decodeFrom_encodeChar, ih (by omega)]
      rfl

theorem length_le_length_encodeUtf8 (cs : List Char) : cs.length ≤ (encodeUtf8 cs).length := by
  induction cs with
  | nil => exact Nat.le_refl 0
  | cons c cs ih =>
    have hchar : 0 < (encodeChar c).length := by
      unfold encodeChar
      dsimp only
      split
      · simp
      split
      · simp
      split
      · simp
      · simp
    show _ ≤ (encodeChar c ++ encodeUtf8 cs).length
    rw [List.length_append, List.length_cons]
    omega

/-- **Decoding undoes encoding.** -/
theorem decodeUtf8_encodeUtf8 (cs : List Char) : decodeUtf8 (encodeUtf8 cs) = .ok cs :=
  decodeFrom_encodeUtf8 (length_le_length_encodeUtf8 cs)

/-! ## Texts that are spelled out -/

/-- A byte array is listed from its end. -/
theorem toList_loop (bs : ByteArray) (i : Nat) (r : List UInt8) :
    ByteArray.toList.loop bs i r = r.reverse ++ bs.data.toList.drop i := by
  fun_induction ByteArray.toList.loop bs i r with
  | case1 i r h ih =>
    have hi : i < bs.data.toList.length := by simpa using h
    rw [ih, List.drop_eq_getElem_cons hi]
    simp [ByteArray.get!, h]
  | case2 i r h =>
    rw [List.drop_eq_nil_of_le (by simpa using Nat.le_of_not_lt h)]
    simp

theorem utf8EncodeChar_eq (c : Char) : String.utf8EncodeChar c = encodeChar c := by
  have hc := toNat_bounds c
  have hval : c.val.toNat = c.toNat := rfl
  unfold String.utf8EncodeChar encodeChar
  dsimp only
  rw [hval]
  generalize c.toNat = n at hc ⊢
  by_cases h₁ : n < 0x80
  · rw [if_pos (by omega), if_pos h₁]
  · rw [if_neg (by omega), if_neg h₁]
    by_cases h₂ : n < 0x800
    · rw [if_pos (by omega), if_pos h₂, Nat.mod_eq_of_lt (by omega : n / 64 < 0x20),
        Nat.add_comm (n / 64), Nat.add_comm (n % 0x40)]
    · rw [if_neg (by omega), if_neg h₂]
      by_cases h₃ : n < 0x10000
      · rw [if_pos (by omega), if_pos h₃, Nat.mod_eq_of_lt (by omega : n / 4096 < 0x10),
          Nat.add_comm (n / 4096), Nat.add_comm (n / 64 % 0x40), Nat.add_comm (n % 0x40)]
      · rw [if_neg (by omega), if_neg h₃, Nat.mod_eq_of_lt (by omega : n / 262144 < 0x08),
          Nat.add_comm (n / 262144), Nat.add_comm (n / 4096 % 0x40), Nat.add_comm (n / 64 % 0x40),
          Nat.add_comm (n % 0x40)]

/-- **The bytes of a text whose characters are given.**  A literal stands for its characters, so
    this spares an evaluation of the byte array behind it. -/
theorem toUTF8_toList {s : String} {cs : List Char} (h : s = String.ofList cs) :
    s.toUTF8.toList = encodeUtf8 cs := by
  have hencode : String.utf8EncodeChar = encodeChar := funext utf8EncodeChar_eq
  subst h
  rw [String.toUTF8, ByteArray.toList, toList_loop]
  simp [List.utf8Encode, hencode, encodeUtf8]

/-- The characters of a text that is spelled out. -/
theorem toList_eq {s : String} {cs : List Char} (h : s = String.ofList cs) : s.toList = cs := by
  rw [h, String.toList_ofList]

/-! ## Line ends -/

/-- A text without carriage returns is kept as it is. -/
theorem unifyNewlines_of_not_mem {cs : List Char} (h : '\r' ∉ cs) : unifyNewlines cs = cs := by
  induction cs with
  | nil => rfl
  | cons c cs ih =>
    rw [List.mem_cons, not_or] at h
    rw [unifyNewlines, ih h.2]
    · exact fun _ heq => absurd heq.symm h.1
    · exact fun heq => absurd heq.symm h.1

end Regen.Text
