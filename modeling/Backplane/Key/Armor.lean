import Backplane.Data.Chunks
import Backplane.Text.Base64

/-!
# `Backplane.Key.Armor`: bytes in a labelled text envelope

An armoured text holds base 64 in lines of 64 characters between a `BEGIN`
and an `END` line that carry a label. Text in front of the `BEGIN` line is
skipped, and one more line end may stand behind the last line; the reader
is strict about everything else.
-/

set_option autoImplicit false

namespace Backplane.Key.Armor

/-- Characters in a line. -/
def lineWidth : Nat := 64

/-- What stands in front of the label of the first line. -/
def beginMark : List Char := "-----BEGIN ".toList

/-- What stands in front of the label of the last line. -/
def endMark : List Char := "-----END ".toList

/-- What stands behind either label. -/
def closeMark : List Char := "-----".toList

/-- The armoured text of a byte string. -/
def encode (label : String) (bytes : List UInt8) : String :=
  let lines := chunks lineWidth (Text.Base64.encodeChars .standard .always bytes)
  String.ofList <|
    beginMark ++ label.toList ++ closeMark ++ '\n'
      :: (lines.flatMap fun l => l ++ ['\n'])
        ++ endMark ++ label.toList ++ closeMark ++ ['\n']

/-- The text behind the mark of the first line, which stands at the front
or behind a line feed. -/
def afterPreamble? (cs : List Char) : Option (List Char) :=
  match beginMark.isPrefixOf? cs with
  | some rest => some rest
  | none => go cs
where
  go : List Char → Option (List Char)
    | [] => none
    | c :: rest =>
      if c = '\x00' then none
      else if c = '\n' then
        match beginMark.isPrefixOf? rest with
        | some rest => some rest
        | none => go rest
      else go rest

/-- The text behind one line end: a line feed, a carriage return, or
both. -/
def afterLineEnd? : List Char → Option (List Char)
  | '\r' :: '\n' :: rest => some rest
  | '\r' :: rest => some rest
  | '\n' :: rest => some rest
  | _ => none

/-- The text in front of one line end. -/
def beforeLineEnd? (cs : List Char) : Option (List Char) :=
  match cs.reverse with
  | '\n' :: '\r' :: rest => some rest.reverse
  | '\n' :: rest => some rest.reverse
  | '\r' :: rest => some rest.reverse
  | _ => none

theorem length_of_afterLineEnd? {cs rest : List Char} (h : afterLineEnd? cs = some rest) :
    rest.length < cs.length := by
  unfold afterLineEnd? at h
  split at h
  · simp only [Option.some.injEq] at h
    rw [← h]
    simp only [List.length_cons]
    omega
  · simp only [Option.some.injEq] at h
    rw [← h]
    simp only [List.length_cons]
    omega
  · simp only [Option.some.injEq] at h
    rw [← h]
    simp only [List.length_cons]
    omega
  · simp at h

/-- The lines of a text. All but the last one are full, and a line end
behind the last one does not count, so that an empty line may follow the
full ones. -/
def lines? (cs : List Char) : Option (List (List Char)) :=
  if cs.isEmpty then some []
  else if cs.length ≤ lineWidth then some [(beforeLineEnd? cs).getD cs]
  else
    match h : afterLineEnd? (cs.drop lineWidth) with
    | none => none
    | some rest =>
      have := length_of_afterLineEnd? h
      (lines? rest).map (cs.take lineWidth :: ·)
termination_by cs.length
decreasing_by simp only [List.length_drop] at this; omega

/-- Whether no line but the last one, be it empty, holds padding. -/
def padsLast (lines : List (List Char)) : Bool := lines.dropLast.all fun l => !l.contains '='

/-- The base-64 text between the first and the last line of a label. -/
def enclosed? (label : String) (cs : List Char) : Option (List Char) := do
  let cs ← afterPreamble? cs
  let cs ← (label.toList ++ closeMark).isPrefixOf? cs
  let cs ← afterLineEnd? cs
  let cs := (beforeLineEnd? cs).getD cs
  let cs ← (endMark ++ label.toList ++ closeMark).isSuffixOf? cs
  beforeLineEnd? cs

/-- The bytes of an armoured text that carries a label. -/
def decode? (label : String) (text : String) : Option (List UInt8) := do
  let lines ← lines? (← enclosed? label text.toList)
  if padsLast lines then
    (Text.Base64.decode .standard .always (String.ofList lines.flatten).toUTF8.data.toList).toOption
  else none

end Backplane.Key.Armor
