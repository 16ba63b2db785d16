import Mathlib

/-!
application/x-www-form-urlencoded: pairs of texts as one ASCII text and back, for
any encoding of characters as bytes that can be decoded and keeps ASCII.
-/

namespace FormUrlEncoded

def isSafe (c : Char) : Bool := c.isAlphanum || c == '*' || c == '-' || c == '.' || c == '_'

def hexDigit (n : Nat) : Char := if n < 10 then Char.ofNat (48 + n) else Char.ofNat (55 + n)

def hexValue (c : Char) : Option Nat :=
  if '0' ≤ c && c ≤ '9' then some (c.toNat - 48)
  else if 'A' ≤ c && c ≤ 'F' then some (c.toNat - 55)
  else if 'a' ≤ c && c ≤ 'f' then some (c.toNat - 87)
  else none

def escapeByte (byte : Nat) : List Char :=
  if byte = 32 then ['+']
  else if isSafe (Char.ofNat byte) then [Char.ofNat byte]
  else ['%', hexDigit (byte / 16), hexDigit (byte % 16)]

section Pairs
variable (bytes : Char → List Nat) (decode : List Nat → List Char)

def escape (text : List Char) : List Char := (text.flatMap bytes).flatMap escapeByte

/-- A percent sign that two hexadecimal digits do not follow stands for itself. -/
def unescape : List Char → List Nat
  | '%' :: high :: low :: rest =>
      match hexValue high, hexValue low with
      | some h, some l => (16 * h + l) :: unescape rest
      | _, _ => bytes '%' ++ unescape (high :: low :: rest)
  | c :: rest => (if c == '+' then [32] else bytes c) ++ unescape rest
  | [] => []

def writePair (pair : List Char × List Char) : List Char :=
  escape bytes pair.1 ++ '=' :: escape bytes pair.2

def serialise (pairs : List (List Char × List Char)) : List Char :=
  ['&'].intercalate (pairs.map (writePair bytes))

def readPair (part : List Char) : List Char × List Char :=
  (decode (unescape bytes (part.takeWhile (· != '='))),
    decode (unescape bytes ((part.dropWhile (· != '=')).drop 1)))

def parse (text : List Char) : List (List Char × List Char) :=
  ((text.splitOn '&').filter fun part => !part.isEmpty).map (readPair bytes decode)

end Pairs

theorem hexValue_digit : ∀ n < 16, hexValue (hexDigit n) = some n := by decide

theorem hexDigit_plain : ∀ n < 16, hexDigit n ≠ '&' ∧ hexDigit n ≠ '=' := by decide

theorem safe_plain {c : Char} (safe : isSafe c = true) :
    c ≠ '%' ∧ c ≠ '+' ∧ c ≠ '&' ∧ c ≠ '=' := by
  refine ⟨?_, ?_, ?_, ?_⟩ <;>
  · rintro rfl
    revert safe
    decide

theorem safe_ascii {c : Char} (safe : isSafe c = true) : c.toNat < 128 := by
  simp only [isSafe, Char.isAlphanum, Char.isAlpha, Char.isUpper, Char.isLower, Char.isDigit,
    Bool.or_eq_true, Bool.and_eq_true, decide_eq_true_eq, beq_iff_eq] at safe
  rcases safe with ((((((⟨_, high⟩ | ⟨_, high⟩) | ⟨_, high⟩) | rfl) | rfl) | rfl) | rfl)
  · exact Nat.lt_of_le_of_lt high (by decide)
  · exact Nat.lt_of_le_of_lt high (by decide)
  · exact Nat.lt_of_le_of_lt high (by decide)
  all_goals decide

theorem escapeByte_plain {byte : Nat} (small : byte < 256) {c : Char}
    (member : c ∈ escapeByte byte) : c ≠ '&' ∧ c ≠ '=' := by
  unfold escapeByte at member
  split at member
  · rw [List.mem_singleton] at member
    subst member
    decide
  · split at member
    · rename_i safe
      rw [List.mem_singleton] at member
      subst member
      exact (safe_plain safe).2.2
    · simp only [List.mem_cons, List.not_mem_nil, or_false] at member
      rcases member with rfl | rfl | rfl
      · decide
      · exact hexDigit_plain _ (by omega)
      · exact hexDigit_plain _ (by omega)

section RoundTrip
variable {bytes : Char → List Nat} {decode : List Nat → List Char}
  (back : ∀ text, decode (text.flatMap bytes) = text)
  (small : ∀ c, ∀ byte ∈ bytes c, byte < 256)
  (ascii : ∀ c, c.toNat < 128 → bytes c = [c.toNat])

theorem unescape_plain {c : Char} (percent : c ≠ '%') (rest : List Char) :
    unescape bytes (c :: rest) = (if c == '+' then [32] else bytes c) ++ unescape bytes rest :=
  unescape.eq_2 bytes c rest fun _ _ _ same _ => percent same

include ascii in
theorem unescape_byte {byte : Nat} (bound : byte < 256) (rest : List Char) :
    unescape bytes (escapeByte byte ++ rest) = byte :: unescape bytes rest := by
  unfold escapeByte
  split
  · rename_i space
    subst space
    rw [List.singleton_append, unescape_plain (by decide)]
    rfl
  · split
    · rename_i safe
      obtain ⟨percent, plus, _⟩ := safe_plain safe
      have code : (Char.ofNat byte).toNat = byte := by
        rw [Char.toNat_ofNat, if_pos (Or.inl (Nat.lt_trans bound (by decide)))]
      rw [List.singleton_append, unescape_plain percent, if_neg (by simpa using plus),
        ascii _ (safe_ascii safe), code]
      rfl
    · have high := hexValue_digit (byte / 16) (by omega)
      have low := hexValue_digit (byte % 16) (by omega)
      have whole : 16 * (byte / 16) + byte % 16 = byte := by omega
      simp only [List.cons_append, List.nil_append, unescape, high, low, whole]

include ascii in
theorem unescape_escape {codes : List Nat} (bound : ∀ byte ∈ codes, byte < 256) :
    unescape bytes (codes.flatMap escapeByte) = codes := by
  induction codes with
  | nil => rfl
  | cons byte rest ih =>
      rw [List.flatMap_cons, unescape_byte ascii (bound byte (by simp)),
        ih fun other member => bound other (List.mem_cons_of_mem _ member)]

include back small ascii in
theorem decode_escape (text : List Char) : decode (unescape bytes (escape bytes text)) = text := by
  have bound : ∀ byte ∈ text.flatMap bytes, byte < 256 := by
    intro byte member
    obtain ⟨c, _, listed⟩ := List.mem_flatMap.mp member
    exact small c byte listed
  rw [escape, unescape_escape ascii bound, back]

include small in
theorem escape_plain (text : List Char) : '&' ∉ escape bytes text ∧ '=' ∉ escape bytes text := by
  have plain : ∀ c ∈ escape bytes text, c ≠ '&' ∧ c ≠ '=' := by
    intro c member
    obtain ⟨byte, encoded, escaped⟩ := List.mem_flatMap.mp member
    obtain ⟨d, _, listed⟩ := List.mem_flatMap.mp encoded
    exact escapeByte_plain (small d byte listed) escaped
  exact ⟨fun member => (plain _ member).1 rfl, fun member => (plain _ member).2 rfl⟩

include back small ascii in
theorem readPair_write (pair : List Char × List Char) :
    readPair bytes decode (writePair bytes pair) = pair := by
  have name := (escape_plain small pair.1).2
  have whole : ∀ c ∈ escape bytes pair.1, (c != '=') = true := by
    intro c member
    exact bne_iff_ne.mpr fun same => name (same ▸ member)
  have first : (writePair bytes pair).takeWhile (· != '=') = escape bytes pair.1 := by
    rw [writePair, List.takeWhile_append_of_pos whole]
    simp
  have second : ((writePair bytes pair).dropWhile (· != '=')).drop 1 = escape bytes pair.2 := by
    rw [writePair, List.dropWhile_append_of_pos whole]
    simp
  rw [readPair, first, second, decode_escape back small ascii, decode_escape back small ascii]

include back small ascii in
theorem parse_serialise (pairs : List (List Char × List Char)) :
    parse bytes decode (serialise bytes pairs) = pairs := by
  cases pairs with
  | nil => rfl
  | cons first rest =>
      have bare : ∀ part ∈ (first :: rest).map (writePair bytes), '&' ∉ part := by
        intro part member
        obtain ⟨pair, _, rfl⟩ := List.mem_map.mp member
        simp [writePair, (escape_plain small pair.1).1, (escape_plain small pair.2).1]
      have nonempty : ∀ part ∈ (first :: rest).map (writePair bytes), (!part.isEmpty) = true := by
        intro part member
        obtain ⟨pair, _, rfl⟩ := List.mem_map.mp member
        simp [writePair]
      rw [parse, serialise, List.splitOn_intercalate _ bare (by simp),
        List.filter_eq_self.mpr nonempty, List.map_map]
      exact List.map_id'' (fun pair => readPair_write back small ascii pair) _

end RoundTrip
end FormUrlEncoded
