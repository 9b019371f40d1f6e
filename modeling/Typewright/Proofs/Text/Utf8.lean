import Mathlib.Data.List.Basic
import Typewright.Text.Utf8

/-!
# Texts as bytes and back

The bytes of a text are those of its characters one after the other (`Utf8.encode_eq`). Reading
them gives back the text (`Utf8.decode_encode`): a step reads the bytes of one character
(`Utf8.step_bytes`), with a case for each length that the bytes of a character have. No other bytes
are read as a text (`Utf8.decode_eq_ok_iff`), since a step that gives a character has read its bytes
(`Utf8.bytesOf_append_of_step`).
-/

namespace Typewright.Text.Utf8

/-- The bytes of a character. -/
def bytesOf (c : Char) : List UInt8 :=
  String.utf8EncodeChar c

theorem toList_loop (bytes : ByteArray) (place : Nat) (read : List UInt8) :
    ByteArray.toList.loop bytes place read = read.reverse ++ bytes.data.toList.drop place := by
  fun_induction ByteArray.toList.loop bytes place read with
  | case1 place read inside ih =>
    have bound : place < bytes.data.toList.length := inside
    rw [ih, List.drop_eq_getElem_cons bound]
    simp [ByteArray.get!, getElem!_pos, inside]
  | case2 place read outside =>
    have bound : bytes.data.toList.length ≤ place := Nat.le_of_not_lt outside
    rw [List.drop_eq_nil_of_le bound, List.append_nil]

theorem encode_ofList (letters : List Char) :
    encode (String.ofList letters) = letters.flatMap bytesOf := by
  rw [encode, String.toUTF8_eq_toByteArray, String.toByteArray_ofList, List.utf8Encode,
    ByteArray.toList, toList_loop, List.toList_data_toByteArray]
  rfl

theorem encode_eq (text : String) : encode text = text.toList.flatMap bytesOf := by
  rw [← encode_ofList, String.ofList_toList]

/-- The code of a character leaves out the surrogates. -/
theorem toNat_cases (c : Char) : c.toNat < 0xD800 ∨ 0xDFFF < c.toNat ∧ c.toNat < 0x110000 :=
  c.valid

theorem ofNat_of_eq {c : Char} {n : Nat} (same : n = c.toNat) : Char.ofNat n = c := by
  rw [same, Char.ofNat_toNat]

section

variable {c : Char}

theorem bytesOf_of_le (one : c.toNat ≤ 0x7F) : bytesOf c = [UInt8.ofNat c.toNat] :=
  if_pos one

theorem bytesOf_of_le_two (long : 0x7F < c.toNat) (two : c.toNat ≤ 0x7FF) :
    bytesOf c =
      [UInt8.ofNat (c.toNat / 64 % 32 + 0xC0), UInt8.ofNat (c.toNat % 64 + 0x80)] :=
  (if_neg (Nat.not_le.2 long)).trans (if_pos two)

theorem bytesOf_of_le_three (long : 0x7FF < c.toNat) (three : c.toNat ≤ 0xFFFF) :
    bytesOf c =
      [UInt8.ofNat (c.toNat / 4096 % 16 + 0xE0), UInt8.ofNat (c.toNat / 64 % 64 + 0x80),
        UInt8.ofNat (c.toNat % 64 + 0x80)] :=
  (if_neg (by change ¬ c.toNat ≤ _; omega)).trans
    ((if_neg (Nat.not_le.2 long)).trans (if_pos three))

theorem bytesOf_of_lt (long : 0xFFFF < c.toNat) :
    bytesOf c =
      [UInt8.ofNat (c.toNat / 262144 % 8 + 0xF0), UInt8.ofNat (c.toNat / 4096 % 64 + 0x80),
        UInt8.ofNat (c.toNat / 64 % 64 + 0x80), UInt8.ofNat (c.toNat % 64 + 0x80)] :=
  (if_neg (by change ¬ c.toNat ≤ _; omega)).trans
    ((if_neg (by change ¬ c.toNat ≤ _; omega)).trans (if_neg (Nat.not_le.2 long)))

end

theorem toNat_ofNat {n : Nat} (small : n < 256) : (UInt8.ofNat n).toNat = n :=
  UInt8.toNat_ofNat_of_lt' small

/-- The bytes of a character that takes more than one are no ASCII. -/
theorem le_of_mem_bytesOf {c : Char} (long : 0x7F < c.toNat) {b : UInt8} (member : b ∈ bytesOf c) :
    0x80 ≤ b.toNat := by
  have value (n low : Nat) (least : 0x80 ≤ low) (small : n + low < 256) :
      0x80 ≤ (UInt8.ofNat (n + low)).toNat := by
    rw [toNat_ofNat small]
    omega
  by_cases two : c.toNat ≤ 0x7FF
  · rw [bytesOf_of_le_two long two, List.mem_cons, List.mem_singleton] at member
    rcases member with rfl | rfl <;> exact value _ _ (by omega) (by omega)
  by_cases three : c.toNat ≤ 0xFFFF
  · rw [bytesOf_of_le_three (by omega) three, List.mem_cons, List.mem_cons, List.mem_singleton]
      at member
    rcases member with rfl | rfl | rfl <;> exact value _ _ (by omega) (by omega)
  · rw [bytesOf_of_lt (by omega), List.mem_cons, List.mem_cons, List.mem_cons, List.mem_singleton]
      at member
    rcases member with rfl | rfl | rfl | rfl <;> exact value _ _ (by omega) (by omega)

theorem inRange_iff {b : UInt8} (low high : UInt8) :
    (decide (low ≤ b) && decide (b ≤ high)) = true ↔
      low.toNat ≤ b.toNat ∧ b.toNat ≤ high.toNat := by
  simp [UInt8.le_iff_toNat_le]

theorem not_inRange {b : UInt8} (low high : UInt8) (above : high.toNat < b.toNat) :
    ¬(decide (low ≤ b) && decide (b ≤ high)) = true :=
  fun inside => Nat.not_le.2 above ((inRange_iff low high).1 inside).2

theorem isTail_iff {b : UInt8} : isTail b = true ↔ 0x80 ≤ b.toNat ∧ b.toNat ≤ 0xBF :=
  inRange_iff 0x80 0xBF

theorem isTail_ofNat (n : Nat) : isTail (UInt8.ofNat (n % 64 + 0x80)) = true := by
  have value := toNat_ofNat (n := n % 64 + 0x80) (by omega)
  rw [isTail_iff, value]
  omega

theorem payload_ofNat (n : Nat) : payload (UInt8.ofNat (n % 64 + 0x80)) = n % 64 := by
  rw [payload, toNat_ofNat (by omega)]
  omega

section

variable {first second third fourth : UInt8}

theorem not_ascii (long : 0x80 ≤ first.toNat) : ¬ first < 0x80 :=
  fun small => Nat.not_le.2 (UInt8.lt_iff_toNat_lt.1 small) long

theorem step_one (small : first.toNat < 0x80) (rest : List UInt8) :
    step first rest = .char (Char.ofNat first.toNat) rest := by
  unfold step
  rw [if_pos (UInt8.lt_iff_toNat_lt.2 small)]

theorem step_two (least : 0xC2 ≤ first.toNat) (most : first.toNat ≤ 0xDF)
    (tail : isTail second = true) (rest : List UInt8) :
    step first (second :: rest) =
      .char (Char.ofNat (first.toNat % 32 * 64 + payload second)) rest := by
  unfold step
  rw [if_neg (not_ascii (by omega)), if_pos ((inRange_iff 0xC2 0xDF).2 ⟨least, most⟩)]
  dsimp only
  rw [if_pos tail]

theorem step_three (least : 0xE0 ≤ first.toNat) (most : first.toNat ≤ 0xEF)
    (follows : isSecond first second = true) (tail : isTail third = true) (rest : List UInt8) :
    step first (second :: third :: rest) =
      .char (Char.ofNat ((first.toNat % 16 * 64 + payload second) * 64 + payload third)) rest := by
  unfold step
  rw [if_neg (not_ascii (by omega)), if_neg (not_inRange 0xC2 0xDF least),
    if_pos ((inRange_iff 0xE0 0xEF).2 ⟨least, most⟩)]
  dsimp only
  rw [follows, if_neg (by simp), if_pos tail]

theorem step_four (least : 0xF0 ≤ first.toNat) (most : first.toNat ≤ 0xF4)
    (follows : isSecond first second = true) (tail : isTail third = true)
    (last : isTail fourth = true) (rest : List UInt8) :
    step first (second :: third :: fourth :: rest) =
      .char (Char.ofNat (((first.toNat % 8 * 64 + payload second) * 64 + payload third) * 64 +
        payload fourth)) rest := by
  have long : 0xDF < first.toNat := by omega
  unfold step
  rw [if_neg (not_ascii (by omega)), if_neg (not_inRange 0xC2 0xDF long),
    if_neg (not_inRange 0xE0 0xEF least), if_pos ((inRange_iff 0xF0 0xF4).2 ⟨least, most⟩)]
  dsimp only
  rw [follows, if_neg (by simp), tail, if_neg (by simp), if_pos last]

/-- A byte that may follow a start byte, by the bounds that the start byte sets. -/
theorem isSecond_of (tail : isTail second = true)
    (notOverlong : first.toNat = 0xE0 → 0xA0 ≤ second.toNat)
    (noSurrogate : first.toNat = 0xED → second.toNat ≤ 0x9F)
    (notOverlongEither : first.toNat = 0xF0 → 0x90 ≤ second.toNat)
    (notPast : first.toNat = 0xF4 → second.toNat ≤ 0x8F) : isSecond first second = true := by
  obtain ⟨low, high⟩ := isTail_iff.1 tail
  unfold isSecond
  split
  · next same => exact (inRange_iff 0xA0 0xBF).2 ⟨notOverlong (by rw [same]; rfl), high⟩
  split
  · next same => exact (inRange_iff 0x80 0x9F).2 ⟨low, noSurrogate (by rw [same]; rfl)⟩
  split
  · next same => exact (inRange_iff 0x90 0xBF).2 ⟨notOverlongEither (by rw [same]; rfl), high⟩
  split
  · next same => exact (inRange_iff 0x80 0x8F).2 ⟨low, notPast (by rw [same]; rfl)⟩
  · exact tail

end

/-- A step reads the bytes of a character. -/
theorem step_bytes (c : Char) (rest : List UInt8) :
    ∃ first more, bytesOf c = first :: more ∧ step first (more ++ rest) = .char c rest := by
  have range := toNat_cases c
  by_cases one : c.toNat ≤ 0x7F
  · have value := toNat_ofNat (n := c.toNat) (by omega)
    refine ⟨_, _, bytesOf_of_le one, ?_⟩
    rw [List.nil_append, step_one (by omega), ofNat_of_eq value]
  by_cases two : c.toNat ≤ 0x7FF
  · have value := toNat_ofNat (n := c.toNat / 64 % 32 + 0xC0) (by omega)
    refine ⟨_, _, bytesOf_of_le_two (by omega) two, ?_⟩
    rw [List.singleton_append, step_two (by omega) (by omega) (isTail_ofNat _), payload_ofNat,
      value, @ofNat_of_eq c _ (by omega)]
  by_cases three : c.toNat ≤ 0xFFFF
  · have value := toNat_ofNat (n := c.toNat / 4096 % 16 + 0xE0) (by omega)
    have next := toNat_ofNat (n := c.toNat / 64 % 64 + 0x80) (by omega)
    have follows : isSecond (UInt8.ofNat (c.toNat / 4096 % 16 + 0xE0))
        (UInt8.ofNat (c.toNat / 64 % 64 + 0x80)) = true := by
      apply isSecond_of (isTail_ofNat _) <;> rw [value, next] <;> omega
    refine ⟨_, _, bytesOf_of_le_three (by omega) three, ?_⟩
    rw [List.cons_append, List.singleton_append, step_three (by omega) (by omega) follows
      (isTail_ofNat _), payload_ofNat, payload_ofNat, value, @ofNat_of_eq c _ (by omega)]
  · have value := toNat_ofNat (n := c.toNat / 262144 % 8 + 0xF0) (by omega)
    have next := toNat_ofNat (n := c.toNat / 4096 % 64 + 0x80) (by omega)
    have follows : isSecond (UInt8.ofNat (c.toNat / 262144 % 8 + 0xF0))
        (UInt8.ofNat (c.toNat / 4096 % 64 + 0x80)) = true := by
      apply isSecond_of (isTail_ofNat _) <;> rw [value, next] <;> omega
    refine ⟨_, _, bytesOf_of_lt (by omega), ?_⟩
    rw [List.cons_append, List.cons_append, List.singleton_append, step_four (by omega) (by omega)
      follows (isTail_ofNat _) (isTail_ofNat _), payload_ofNat, payload_ofNat, payload_ofNat, value,
      @ofNat_of_eq c _ (by omega)]

theorem decodeFrom_bytes (letters : List Char) {fuel : Nat} (offset : Nat)
    (enough : letters.length ≤ fuel) :
    decodeFrom fuel offset (letters.flatMap bytesOf) = .ok letters := by
  induction letters generalizing fuel offset with
  | nil => cases fuel <;> rfl
  | cons c letters ih =>
    cases fuel with
    | zero => simp at enough
    | succ fuel =>
      obtain ⟨first, more, bytes, read⟩ := step_bytes c (letters.flatMap bytesOf)
      rw [List.flatMap_cons, bytes, List.cons_append, decodeFrom, read]
      dsimp only
      rw [ih _ (by simpa using enough)]
      rfl

theorem length_le_flatMap (letters : List Char) :
    letters.length ≤ (letters.flatMap bytesOf).length := by
  induction letters with
  | nil => exact Nat.le_refl _
  | cons c letters ih =>
    obtain ⟨first, more, bytes, _⟩ := step_bytes c []
    rw [List.flatMap_cons, List.length_append, List.length_cons, bytes, List.length_cons]
    omega

/-- Reading the bytes of a text gives the text. -/
theorem decode_encode (text : String) : decode (encode text) = .ok text := by
  rw [decode, encode_eq, decodeFrom_bytes _ _ (length_le_flatMap _)]
  exact congrArg Except.ok String.ofList_toList

/-! ## Reading back -/

theorem toNat_char {n : Nat} (valid : n < 0xD800 ∨ 0xDFFF < n ∧ n < 0x110000) :
    (Char.ofNat n).toNat = n := by
  rw [Char.ofNat, dif_pos valid]
  rfl

theorem ofNat_eq {n : Nat} {b : UInt8} (same : n = b.toNat) : UInt8.ofNat n = b := by
  rw [same, UInt8.ofNat_toNat]

theorem add_payload {b : UInt8} (tail : isTail b = true) : payload b + 0x80 = b.toNat := by
  obtain ⟨least, most⟩ := isTail_iff.1 tail
  rw [payload]
  omega

/-- The bounds that a start byte sets for the byte after it. -/
theorem bounds_of_isSecond {first second : UInt8} (follows : isSecond first second = true) :
    isTail second = true ∧ (first.toNat = 0xE0 → 0xA0 ≤ second.toNat) ∧
      (first.toNat = 0xED → second.toNat ≤ 0x9F) ∧ (first.toNat = 0xF0 → 0x90 ≤ second.toNat) ∧
      (first.toNat = 0xF4 → second.toNat ≤ 0x8F) := by
  rw [isTail_iff]
  simp only [isSecond, isTail, ← UInt8.toNat_inj, UInt8.le_iff_toNat_le,
    UInt8.reduceToNat] at follows
  split_ifs at follows
  all_goals simp only [Bool.and_eq_true, decide_eq_true_iff] at follows
  all_goals omega

section

variable {first second third last : UInt8}

theorem bytesOf_one (small : first.toNat < 0x80) : bytesOf (Char.ofNat first.toNat) = [first] := by
  have value := toNat_char (n := first.toNat) (by omega)
  rw [bytesOf_of_le (by omega), value, UInt8.ofNat_toNat]

theorem bytesOf_two (least : 0xC2 ≤ first.toNat) (most : first.toNat ≤ 0xDF)
    (tail : isTail second = true) :
    bytesOf (Char.ofNat (first.toNat % 32 * 64 + payload second)) = [first, second] := by
  have inside := add_payload tail
  have bound := (isTail_iff.1 tail).2
  have value := toNat_char (n := first.toNat % 32 * 64 + payload second) (by omega)
  rw [bytesOf_of_le_two (by omega) (by omega), value, @ofNat_eq _ first (by omega),
    @ofNat_eq _ second (by omega)]

theorem bytesOf_three (least : 0xE0 ≤ first.toNat) (most : first.toNat ≤ 0xEF)
    (follows : isSecond first second = true) (tail : isTail third = true) :
    bytesOf (Char.ofNat ((first.toNat % 16 * 64 + payload second) * 64 + payload third)) =
      [first, second, third] := by
  obtain ⟨secondTail, notOverlong, noSurrogate, -, -⟩ := bounds_of_isSecond follows
  have inside := add_payload secondTail
  have bound := (isTail_iff.1 secondTail).2
  have insideThird := add_payload tail
  have boundThird := (isTail_iff.1 tail).2
  have value := toNat_char
    (n := (first.toNat % 16 * 64 + payload second) * 64 + payload third) (by omega)
  rw [bytesOf_of_le_three (by omega) (by omega), value, @ofNat_eq _ first (by omega),
    @ofNat_eq _ second (by omega), @ofNat_eq _ third (by omega)]

theorem bytesOf_four (least : 0xF0 ≤ first.toNat) (most : first.toNat ≤ 0xF4)
    (follows : isSecond first second = true) (tail : isTail third = true)
    (lastTail : isTail last = true) :
    bytesOf (Char.ofNat (((first.toNat % 8 * 64 + payload second) * 64 + payload third) * 64 +
      payload last)) = [first, second, third, last] := by
  obtain ⟨secondTail, -, -, notOverlong, notPast⟩ := bounds_of_isSecond follows
  have inside := add_payload secondTail
  have bound := (isTail_iff.1 secondTail).2
  have insideThird := add_payload tail
  have boundThird := (isTail_iff.1 tail).2
  have insideLast := add_payload lastTail
  have boundLast := (isTail_iff.1 lastTail).2
  have value := toNat_char
    (n := ((first.toNat % 8 * 64 + payload second) * 64 + payload third) * 64 + payload last)
    (by omega)
  rw [bytesOf_of_lt (by omega), value, @ofNat_eq _ first (by omega),
    @ofNat_eq _ second (by omega), @ofNat_eq _ third (by omega), @ofNat_eq _ last (by omega)]

end

/-- A character that is read stands there with its bytes. -/
theorem bytesOf_append_of_step {first : UInt8} {rest more : List UInt8} {c : Char}
    (read : step first rest = .char c more) : bytesOf c ++ more = first :: rest := by
  -- the steps that end in a fault are no characters
  revert read
  fun_cases step first rest <;> intro read <;> cases read
  case case1 small =>
    rw [bytesOf_one (UInt8.lt_iff_toNat_lt.1 small)]
    rfl
  case case3 inside second tail =>
    obtain ⟨least, most⟩ := (inRange_iff 0xC2 0xDF).1 inside
    rw [bytesOf_two least most tail]
    rfl
  case case8 inside second follows third tail =>
    obtain ⟨least, most⟩ := (inRange_iff 0xE0 0xEF).1 inside
    rw [bytesOf_three least most (by simpa using follows) tail]
    rfl
  case case15 inside second follows third tail last lastTail =>
    obtain ⟨least, most⟩ := (inRange_iff 0xF0 0xF4).1 inside
    rw [bytesOf_four least most (by simpa using follows) (by simpa using tail) lastTail]
    rfl

theorem flatMap_bytesOf_of_decodeFrom {fuel offset : Nat} {bytes : List UInt8} {letters : List Char}
    (enough : bytes.length ≤ fuel) (decoded : decodeFrom fuel offset bytes = .ok letters) :
    letters.flatMap bytesOf = bytes := by
  induction fuel generalizing offset bytes letters with
  | zero =>
    cases decoded
    exact (List.length_eq_zero_iff.1 (Nat.le_zero.1 enough)).symm
  | succ fuel ih =>
    cases bytes with
    | nil =>
      cases decoded
      rfl
    | cons first rest =>
      rw [decodeFrom] at decoded
      split at decoded
      · next c more read =>
        have whole := bytesOf_append_of_step read
        obtain ⟨_, _, shape, -⟩ := step_bytes c []
        have shorter := congrArg List.length whole
        rw [shape] at shorter
        simp only [List.cons_append, List.length_cons, List.length_append] at shorter enough
        cases inner : decodeFrom fuel (offset + (1 + rest.length - more.length)) more with
        | error failure =>
          rw [inner] at decoded
          cases decoded
        | ok chars =>
          rw [inner] at decoded
          cases decoded
          rw [List.flatMap_cons, ih (by omega) inner, whole]
      · cases decoded

/-- Bytes are read as a text exactly if they are its bytes. -/
theorem decode_eq_ok_iff {bytes : List UInt8} {text : String} :
    decode bytes = .ok text ↔ encode text = bytes := by
  constructor
  · intro decoded
    rw [decode] at decoded
    cases read : decodeFrom bytes.length 0 bytes with
    | error failure =>
      rw [read] at decoded
      cases decoded
    | ok letters =>
      rw [read] at decoded
      cases decoded
      rw [encode_ofList, flatMap_bytesOf_of_decodeFrom (Nat.le_refl _) read]
  · rintro rfl
    exact decode_encode text

end Typewright.Text.Utf8
