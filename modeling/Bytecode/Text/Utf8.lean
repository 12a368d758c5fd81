/-!
# UTF-8

Reading bytes as characters, one at a time, over the character decoder of the core library.

* `decode`: the longest run of whole characters at the start of the bytes, and the bytes after it;
* `decode_encode`: the bytes of any characters are read back, with nothing left over.
-/

namespace Bytecode.Text

/-- The character whose bytes are at the start of `bytes`. No character has more than four. -/
def firstChar? (bytes : List UInt8) : Option Char :=
  (bytes.take 4).toByteArray.utf8DecodeChar? 0

/-- The characters before the first bytes that are none, after `done` in reverse, and those bytes. -/
def decodeOnto (done : List Char) : List UInt8 → List Char × List UInt8
  | [] => (done.reverse, [])
  | b :: bytes =>
    match firstChar? (b :: bytes) with
    | some c => decodeOnto (c :: done) (bytes.drop (c.utf8Size - 1))
    | none => (done.reverse, b :: bytes)
termination_by bytes => bytes.length

/-- The longest run of whole characters at the start, and what follows it. -/
def decode (bytes : List UInt8) : List Char × List UInt8 := decodeOnto [] bytes

def encode (cs : List Char) : List UInt8 := cs.flatMap String.utf8EncodeChar

theorem encode_cons (c : Char) (cs : List Char) :
    encode (c :: cs) = String.utf8EncodeChar c ++ encode cs := rfl

@[simp]
theorem encode_append (cs ds : List Char) : encode (cs ++ ds) = encode cs ++ encode ds :=
  List.flatMap_append

theorem firstChar?_encode (c : Char) (rest : List UInt8) :
    firstChar? (String.utf8EncodeChar c ++ rest) = some c := by
  have h : (String.utf8EncodeChar c).length ≤ 4 := by
    rw [String.length_utf8EncodeChar]; exact c.utf8Size_le_four
  rw [firstChar?, List.take_append, List.take_of_length_le h, List.toByteArray_append]
  exact ByteArray.utf8DecodeChar?_utf8EncodeChar_append

theorem decodeOnto_encode (cs done : List Char) :
    decodeOnto done (encode cs) = (done.reverse ++ cs, []) := by
  induction cs generalizing done with
  | nil => simp [encode, decodeOnto]
  | cons c cs ih =>
    have hlen := String.length_utf8EncodeChar c
    have hpos := c.utf8Size_pos
    have hfirst := firstChar?_encode c (encode cs)
    rw [encode_cons]
    cases hb : String.utf8EncodeChar c with
    | nil => rw [hb] at hlen; simp at hlen; omega
    | cons b bs =>
      rw [hb] at hlen hfirst
      simp only [List.cons_append, List.length_cons] at hlen hfirst ⊢
      rw [decodeOnto, hfirst]
      have hdrop : (bs ++ encode cs).drop (c.utf8Size - 1) = encode cs := by
        rw [← hlen, Nat.add_sub_cancel]; simp
      simp only [hdrop]
      rw [ih]; simp

theorem decode_encode (cs : List Char) : decode (encode cs) = (cs, []) := decodeOnto_encode cs []

end Bytecode.Text
