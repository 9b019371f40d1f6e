/-!
# UTF-8

Reading bytes as UTF-8. `Utf8.step` reads one character or says what is wrong at the first byte,
and how many bytes the fault spans; `Utf8.decode?` refuses faults, `Utf8.decodeLossy` puts a
replacement character for each. Overlong forms, surrogates and code points past the last one
are faults of their first two bytes already, so that a fault spans the longest beginning of a
character that was readable.
-/

namespace Typewright.Text.Utf8

/-- What can be wrong with a byte sequence. -/
inductive Fault
  | startByte
  | continuationByte
  | endOfData
  deriving DecidableEq, Repr

/-- The wording of a fault. -/
def Fault.message : Fault → String
  | .startByte => "invalid start byte"
  | .continuationByte => "invalid continuation byte"
  | .endOfData => "unexpected end of data"

/-- The outcome of reading at the front of a byte sequence. -/
inductive Step
  | char (c : Char) (rest : List UInt8)
  | fault (fault : Fault) (width : Nat) (rest : List UInt8)

/-- Continuation bytes. -/
def isTail (b : UInt8) : Bool :=
  0x80 ≤ b && b ≤ 0xBF

/-- Whether a byte may follow the given start byte of a longer character. -/
def isSecond (first second : UInt8) : Bool :=
  if first = 0xE0 then 0xA0 ≤ second && second ≤ 0xBF
  else if first = 0xED then 0x80 ≤ second && second ≤ 0x9F
  else if first = 0xF0 then 0x90 ≤ second && second ≤ 0xBF
  else if first = 0xF4 then 0x80 ≤ second && second ≤ 0x8F
  else isTail second

/-- The payload of a continuation byte. -/
def payload (b : UInt8) : Nat :=
  b.toNat % 64

/-- Reads the character that begins with the given byte. -/
def step (first : UInt8) (rest : List UInt8) : Step :=
  if first < 0x80 then .char (Char.ofNat first.toNat) rest
  else if 0xC2 ≤ first && first ≤ 0xDF then
    match rest with
    | [] => .fault .endOfData 1 []
    | b :: rest' =>
      if isTail b then .char (Char.ofNat (first.toNat % 32 * 64 + payload b)) rest'
      else .fault .continuationByte 1 rest
  else if 0xE0 ≤ first && first ≤ 0xEF then
    match rest with
    | [] => .fault .endOfData 1 []
    | b :: rest₁ =>
      if !isSecond first b then .fault .continuationByte 1 rest
      else match rest₁ with
        | [] => .fault .endOfData 2 []
        | c :: rest₂ =>
          if isTail c then
            .char (Char.ofNat ((first.toNat % 16 * 64 + payload b) * 64 + payload c)) rest₂
          else .fault .continuationByte 2 rest₁
  else if 0xF0 ≤ first && first ≤ 0xF4 then
    match rest with
    | [] => .fault .endOfData 1 []
    | b :: rest₁ =>
      if !isSecond first b then .fault .continuationByte 1 rest
      else match rest₁ with
        | [] => .fault .endOfData 2 []
        | c :: rest₂ =>
          if !isTail c then .fault .continuationByte 2 rest₁
          else match rest₂ with
            | [] => .fault .endOfData 3 []
            | d :: rest₃ =>
              if isTail d then
                .char (Char.ofNat
                  (((first.toNat % 8 * 64 + payload b) * 64 + payload c) * 64 + payload d)) rest₃
              else .fault .continuationByte 3 rest₂
  else .fault .startByte 1 rest

/-- Where decoding stopped and why: the offset of the first faulty byte, the number of bytes that
the fault spans, and the first of them. -/
structure Failure where
  offset : Nat
  width : Nat
  byte : UInt8
  fault : Fault
  deriving DecidableEq, Repr

/-- The characters of a byte sequence without faults. The fuel bounds the number of
characters. -/
def decodeFrom : Nat → Nat → List UInt8 → Except Failure (List Char)
  | 0, _, _ => .ok []
  | _ + 1, _, [] => .ok []
  | fuel + 1, offset, first :: rest =>
    match step first rest with
    | .char c more => do
      let chars ← decodeFrom fuel (offset + (1 + rest.length - more.length)) more
      return c :: chars
    | .fault fault width _ => .error ⟨offset, width, first, fault⟩

/-- Decodes a byte sequence, or says where it is not UTF-8. -/
def decode (bytes : List UInt8) : Except Failure String :=
  (decodeFrom bytes.length 0 bytes).map String.ofList

/-- The characters of a byte sequence, with U+FFFD for each fault. The fuel bounds the number of
characters. -/
def decodeLossyFrom : Nat → List UInt8 → List Char
  | 0, _ => []
  | _ + 1, [] => []
  | fuel + 1, first :: rest =>
    match step first rest with
    | .char c more => c :: decodeLossyFrom fuel more
    | .fault _ _ more => Char.ofNat 0xFFFD :: decodeLossyFrom fuel more

/-- Decodes a byte sequence, putting U+FFFD for each fault. -/
def decodeLossy (bytes : List UInt8) : String :=
  String.ofList (decodeLossyFrom bytes.length bytes)

/-- The bytes of a text. -/
def encode (text : String) : List UInt8 :=
  text.toUTF8.toList

end Typewright.Text.Utf8
