import ClassScript.Text.Quoted
/-!
# Reading literals back

A literal is decoded to the text it was made of (`decode_encode`). Inside of it there is no line break
(`newline_not_mem_quote`), and a quote or a backslash stands only behind a backslash.
-/

namespace ClassScript.Quoted

/-! ## Hexadecimal digits -/

theorem hexValue_hexDigit : ∀ n, n < 16 → hexValue (hexDigit n) = some n := by decide

/-! ## Decoding -/

/-- The characters that have a letter for their spelling, or none. -/
def hasLetter (c : Char) : Bool := ['"', '\\', '\n', '\r', '\t', '\x08', '\x0c'].contains c

theorem encodeChar_eq {c : Char} (h : hasLetter c = false) : encodeChar c =
    if c.toNat < 32 then ['\\', 'u', '0', '0', hexDigit (c.toNat / 16), hexDigit (c.toNat % 16)]
    else [c] := by
  simp only [hasLetter, List.contains_cons, List.contains_nil, Bool.or_false, Bool.or_eq_false_iff,
    beq_eq_false_iff_ne] at h
  simp [encodeChar, h]

theorem decode_encodeChar (c : Char) (r : List Char) :
    decode (encodeChar c ++ r) = (decode r).map (c :: ·) := by
  cases hletter : hasLetter c with
  | true =>
    simp only [hasLetter, List.contains_iff_mem, List.mem_cons, List.not_mem_nil, or_false] at hletter
    rcases hletter with rfl | rfl | rfl | rfl | rfl | rfl | rfl <;> rfl
  | false =>
    rw [encodeChar_eq hletter]
    split
    · next h =>
      have hc : Char.ofNat (16 * (c.toNat / 16) + c.toNat % 16) = c := by
        rw [Nat.div_add_mod, Char.ofNat_toNat]
      simp only [List.cons_append, List.nil_append]
      rw [decode, hexValue_hexDigit (c.toNat / 16) (by omega), hexValue_hexDigit (c.toNat % 16) (by omega)]
      cases decode r <;> simp [hc]
    · rw [List.singleton_append, decode.eq_def]
      split <;> simp_all [hasLetter]

/-- A literal gives back its text. -/
theorem decode_encode (cs : List Char) : decode (encode cs) = some cs := by
  induction cs with
  | nil => rfl
  | cons c cs ih => rw [encode, List.flatMap_cons, ← encode, decode_encodeChar, ih, Option.map_some]

/-! ## Line breaks -/

theorem hexDigit_ne_newline : ∀ n, n < 16 → hexDigit n ≠ '\n' := by decide

theorem newline_not_mem_encodeChar (c : Char) : '\n' ∉ encodeChar c := by
  cases hletter : hasLetter c with
  | true =>
    simp only [hasLetter, List.contains_iff_mem, List.mem_cons, List.not_mem_nil, or_false] at hletter
    rcases hletter with rfl | rfl | rfl | rfl | rfl | rfl | rfl <;> decide
  | false =>
    rw [encodeChar_eq hletter]
    split
    · have hhigh := hexDigit_ne_newline (c.toNat / 16) (by omega)
      have hlow := hexDigit_ne_newline (c.toNat % 16) (by omega)
      simp [hhigh.symm, hlow.symm]
    · rintro (_ | ⟨_, ⟨⟩⟩)
      cases hletter

/-- A literal is on one line. -/
theorem newline_not_mem_quote (s : String) : '\n' ∉ (quote s).toList := by
  simp [quote, encode, newline_not_mem_encodeChar]

end ClassScript.Quoted
