import RelayFleet.Json.Decoder

/-!
# JSON texts in bytes

Bytes that are no text may hold a JSON value all the same: a string that nobody asks for is not
looked into. So a byte that is part of no character makes the string that it stands in one that is
no text, as half of a surrogate pair does, and breaks the text off wherever else it stands.
-/

namespace RelayFleet.Json

/-- The characters of the bytes from a place on; `none` is a byte that begins no character. -/
def charsFrom (bytes : ByteArray) (i : Nat) : List (Option Char) :=
  if i < bytes.size then
    match bytes.utf8DecodeChar? i with
    | some c => some c :: charsFrom bytes (i + c.utf8Size)
    | none => none :: charsFrom bytes (i + 1)
  else []
termination_by bytes.size - i
decreasing_by
  · have := c.utf8Size_pos
    omega
  · omega

/-- The bytes of characters, behind others, are read as these characters. -/
theorem charsFrom_utf8Encode (before : ByteArray) (cs : List Char) :
    charsFrom (before ++ cs.utf8Encode) before.size = cs.map some := by
  induction cs generalizing before with
  | nil =>
    rw [charsFrom, if_neg (by simp)]
    rfl
  | cons c cs ih =>
    have hsize : [c].utf8Encode.size = c.utf8Size := by simp [List.utf8Encode_singleton]
    have hmore : before.size < (before ++ (c :: cs).utf8Encode).size := by
      have := c.utf8Size_pos
      rw [List.utf8Encode_cons, ByteArray.size_append, ByteArray.size_append, hsize]
      omega
    have hchar : (before ++ (c :: cs).utf8Encode).utf8DecodeChar? before.size = some c := by
      rw [ByteArray.utf8DecodeChar?_eq_utf8DecodeChar?_extract,
        ByteArray.extract_append_eq_right rfl ByteArray.size_append,
        List.utf8DecodeChar?_utf8Encode_cons]
    have hrest := ih (before ++ [c].utf8Encode)
    rw [ByteArray.append_assoc, ← List.utf8Encode_cons, ByteArray.size_append, hsize] at hrest
    rw [charsFrom, if_pos hmore, hchar, List.map_cons, ← hrest]

/-- Reads a byte that is part of no character. Outside of strings it is as good as a character that
JSON does not allow anywhere. -/
def Mode.stepByte : Mode → List Token × Mode
  | .string _ | .afterHigh _ _ => ([], .string none)
  | m => m.step '\x00'

/-- Takes a character or a byte that is part of none. -/
def Reader.take (r : Reader) : Option Char → Reader
  | some c => r.step c
  | none =>
    let (tokens, mode) := r.mode.stepByte
    ⟨mode, tokens.foldl Builder.step r.builder⟩

/-- Reads the bytes of a text. -/
def readBytes (bytes : ByteArray) : Document :=
  ((charsFrom bytes 0).foldl Reader.take Reader.start).finish.document

/-- Bytes that are a text are read as this text. -/
theorem readBytes_toUTF8 (text : String) : readBytes text.toUTF8 = read text.toList := by
  have hchars : charsFrom text.toUTF8 0 = text.toList.map some := by
    have := charsFrom_utf8Encode .empty text.toList
    rwa [ByteArray.empty_append, String.utf8Encode_toList] at this
  rw [readBytes, hchars, List.foldl_map]
  rfl

/-- Decodes the bytes of a whole text. -/
def Decoder.runBytes {α : Type} (d : Decoder α) (bytes : ByteArray) : Except Fault α :=
  d.decode (readBytes bytes)

/-- Bytes that are a text are decoded as this text. -/
theorem Decoder.runBytes_toUTF8 {α : Type} (d : Decoder α) (text : String) :
    d.runBytes text.toUTF8 = d.run text.toList := by
  rw [runBytes, readBytes_toUTF8, run]

end RelayFleet.Json
