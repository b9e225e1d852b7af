import ApiScaffold.Text.Quoted

/-! UTF-8: texts as bytes, and the fault at which bytes stop being a text. -/
namespace ApiScaffold.Text

inductive Utf8Defect where
  | invalidStart
  | invalidContinuation
  | unexpectedEnd
  deriving DecidableEq, Repr

def Utf8Defect.message : Utf8Defect → String
  | .invalidStart => "invalid start byte"
  | .invalidContinuation => "invalid continuation byte"
  | .unexpectedEnd => "unexpected end of data"

/-- The first defect of a byte sequence: where it starts and the bytes at fault. -/
structure Utf8Fault where
  position : Nat
  bytes : List UInt8
  defect : Utf8Defect
  deriving DecidableEq, Repr

/-- The bytes that may follow a lead byte; `none` if no sequence starts with it. The first of them
has the narrower range that excludes overlong forms, surrogates and code points above U+10FFFF. -/
def continuations (lead : UInt8) : Option (List (UInt8 × UInt8)) :=
  if lead < 0x80 then some []
  else if lead < 0xc2 then none
  else if lead < 0xe0 then some [(0x80, 0xbf)]
  else if lead < 0xf0 then
    some [(if lead = 0xe0 then 0xa0 else 0x80, if lead = 0xed then 0x9f else 0xbf), (0x80, 0xbf)]
  else if lead < 0xf5 then
    some [(if lead = 0xf0 then 0x90 else 0x80, if lead = 0xf4 then 0x8f else 0xbf),
      (0x80, 0xbf), (0x80, 0xbf)]
  else none

/-- The first defect of bytes that are no text and start at `position`. `taken` holds the bytes of a
sequence already begun, which still wants a byte in each range of `wanted`. -/
def findUtf8Fault (position : Nat) (taken : List UInt8) :
    (wanted : List (UInt8 × UInt8)) → List UInt8 → Utf8Fault
  | _, [] => ⟨position, taken, .unexpectedEnd⟩
  | [], b :: rest =>
    match continuations b with
    | none => ⟨position + taken.length, [b], .invalidStart⟩
    | some wanted => findUtf8Fault (position + taken.length) [b] wanted rest
  | (low, high) :: wanted, b :: rest =>
    if low ≤ b ∧ b ≤ high then findUtf8Fault position (taken ++ [b]) wanted rest
    else ⟨position, taken, .invalidContinuation⟩

def utf8Fault (bytes : ByteArray) : Utf8Fault :=
  findUtf8Fault 0 [] [] bytes.data.toList

/-- One byte at fault is shown, more are only counted. -/
def Utf8Fault.message (fault : Utf8Fault) : String :=
  let place :=
    match fault.bytes with
    | [b] => s!"byte 0x{String.ofList (hexDigits 2 b.toNat)} in position {fault.position}"
    | bytes => s!"bytes in position {fault.position}-{fault.position + bytes.length - 1}"
  s!"'utf-8' codec can't decode {place}: {fault.defect.message}"

def decode (bytes : ByteArray) : Except Utf8Fault String :=
  if h : bytes.IsValidUTF8 then .ok (String.fromUTF8 bytes h) else .error (utf8Fault bytes)

def encode (s : String) : ByteArray :=
  s.toUTF8

@[simp] theorem decode_encode (s : String) : decode (encode s) = .ok s := by
  simp [decode, encode, String.fromUTF8, s.isValidUTF8]

theorem encode_of_decode {bytes : ByteArray} {s : String} (h : decode bytes = .ok s) :
    encode s = bytes := by
  rw [decode] at h
  split at h
  · rw [← Except.ok.inj h]
    rfl
  · cases h

end ApiScaffold.Text
