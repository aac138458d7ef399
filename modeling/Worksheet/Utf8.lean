/-! Text of arbitrary bytes. Well-formed sequences become their characters, and each longest part
that begins a sequence but does not complete it becomes one replacement character. -/

namespace Worksheet.Utf8

def replacement : Char := Char.ofNat 0xFFFD

/-- A sequence that has begun: how many bytes are missing, the bits so far, and the range of the
next byte. -/
structure Started where
  missing : Nat
  value : Nat
  low : Nat
  high : Nat

def lead (b : Nat) : List Char × Option Started :=
  if b < 0x80 then ([Char.ofNat b], none)
  else if b < 0xC2 then ([replacement], none)
  else if b < 0xE0 then ([], some ⟨1, b - 0xC0, 0x80, 0xBF⟩)
  else if b = 0xE0 then ([], some ⟨2, 0, 0xA0, 0xBF⟩)
  else if b = 0xED then ([], some ⟨2, 0xD, 0x80, 0x9F⟩)
  else if b < 0xF0 then ([], some ⟨2, b - 0xE0, 0x80, 0xBF⟩)
  else if b = 0xF0 then ([], some ⟨3, 0, 0x90, 0xBF⟩)
  else if b < 0xF4 then ([], some ⟨3, b - 0xF0, 0x80, 0xBF⟩)
  else if b = 0xF4 then ([], some ⟨3, 4, 0x80, 0x8F⟩)
  else ([replacement], none)

/-- One more byte. A byte that does not go on with a sequence cuts it and begins anew. -/
def step (started : Option Started) (b : Nat) : List Char × Option Started :=
  match started with
  | none => lead b
  | some sequence =>
      if sequence.low ≤ b ∧ b ≤ sequence.high then
        let value := 64 * sequence.value + (b - 0x80)
        if sequence.missing = 1 then ([Char.ofNat value], none)
        else ([], some ⟨sequence.missing - 1, value, 0x80, 0xBF⟩)
      else (replacement :: (lead b).1, (lead b).2)

def chars (started : Option Started) : List UInt8 → List Char
  | [] => if started.isSome then [replacement] else []
  | b :: rest => (step started b.toNat).1 ++ chars (step started b.toNat).2 rest

def text (bytes : ByteArray) : String := String.ofList (chars none bytes.toList)

end Worksheet.Utf8
