import Cybera.Fas

/-!
What the decoders of FasService give back: hexadecimal digits of bytes, and text
that comes as UTF-8 in base64.
-/

namespace Cybera

def base64Char (value : Nat) : Char :=
  "ABCDEFGHIJKLMNOPQRSTUVWXYZabcdefghijklmnopqrstuvwxyz0123456789+/".toList.getD value 'A'

def base64Encode : List Nat → Text
  | a :: b :: c :: rest =>
      base64Char (a / 4) :: base64Char (16 * (a % 4) + b / 16) ::
        base64Char (4 * (b % 16) + c / 64) :: base64Char (c % 64) :: base64Encode rest
  | [a, b] =>
      [base64Char (a / 4), base64Char (16 * (a % 4) + b / 16), base64Char (4 * (b % 16)), '=']
  | [a] => [base64Char (a / 4), base64Char (16 * (a % 4)), '=', '=']
  | [] => []

def utf8Char (c : Char) : List Nat :=
  let n := c.toNat
  if n < 0x80 then [n]
  else if n < 0x800 then [0xc0 + n / 64, 0x80 + n % 64]
  else if n < 0x10000 then [0xe0 + n / 4096, 0x80 + n / 64 % 64, 0x80 + n % 64]
  else [0xf0 + n / 262144, 0x80 + n / 4096 % 64, 0x80 + n / 64 % 64, 0x80 + n % 64]

def utf8Encode (text : Text) : List Nat := text.flatMap utf8Char

theorem hexValue_digit : ∀ n < 16, hexValue (Nat.digitChar n) = some n := by decide

theorem hexDecode_encode {bytes : List Nat} (small : ∀ byte ∈ bytes, byte < 256) :
    hexDecode (hexEncode bytes) = bytes := by
  induction bytes with
  | nil => rfl
  | cons byte rest ih =>
      have bound := small byte List.mem_cons_self
      have others := ih fun other member => small other (List.mem_cons_of_mem _ member)
      have high := hexValue_digit (byte / 16 % 16) (by omega)
      have low := hexValue_digit (byte % 16) (by omega)
      have whole : 16 * (byte / 16 % 16) + byte % 16 = byte := by omega
      have split : hexEncode (byte :: rest) = Nat.digitChar (byte / 16 % 16) ::
        Nat.digitChar (byte % 16) :: hexEncode rest := rfl
      simp only [split, hexDecode, high, low, whole, others]

@[simp] theorem base64Value_char :
    ∀ n < 64, base64Value (base64Char n) = some n := by decide +kernel

theorem base64Char_ne : ∀ n < 64, base64Char n ≠ '=' := by decide +kernel

/-- By induction on the groups of three bytes. -/
theorem base64Decode_encode {bytes : List Nat} (small : ∀ byte ∈ bytes, byte < 256) :
    base64Decode (base64Encode bytes) = bytes := by
  have taken : ∀ n < 64, ∀ rest : Text, (base64Char n :: rest).takeWhile (· != '=') =
      base64Char n :: rest.takeWhile (· != '=') := by
    intro n bound rest
    rw [List.takeWhile_cons_of_pos (by simpa using base64Char_ne n bound)]
  unfold base64Decode
  fun_induction base64Encode bytes with
  | case1 a b c rest ih =>
      simp only [List.mem_cons, forall_eq_or_imp] at small
      obtain ⟨ha, hb, hc, others⟩ := small
      have first : a / 4 < 64 := by omega
      have second : 16 * (a % 4) + b / 16 < 64 := by omega
      have third : 4 * (b % 16) + c / 64 < 64 := by omega
      have fourth : c % 64 < 64 := by omega
      rw [taken _ first, taken _ second, taken _ third, taken _ fourth]
      simp only [List.filterMap_cons, base64Value_char _ first, base64Value_char _ second,
        base64Value_char _ third, base64Value_char _ fourth, base64Bytes, ih others,
        List.cons.injEq, and_true]
      omega
  | case2 a b =>
      simp only [List.mem_cons, List.not_mem_nil, or_false, forall_eq_or_imp, forall_eq] at small
      have first : a / 4 < 64 := by omega
      have second : 16 * (a % 4) + b / 16 < 64 := by omega
      have third : 4 * (b % 16) < 64 := by omega
      rw [taken _ first, taken _ second, taken _ third, List.takeWhile_cons_of_neg (by simp)]
      simp only [List.filterMap_cons, base64Value_char _ first, base64Value_char _ second,
        base64Value_char _ third, List.filterMap_nil, base64Bytes, List.cons.injEq, and_true]
      omega
  | case3 a =>
      simp only [List.mem_cons, List.not_mem_nil, or_false, forall_eq] at small
      have first : a / 4 < 64 := by omega
      have second : 16 * (a % 4) < 64 := by omega
      rw [taken _ first, taken _ second, List.takeWhile_cons_of_neg (by simp)]
      simp only [List.filterMap_cons, base64Value_char _ first, base64Value_char _ second,
        List.filterMap_nil, base64Bytes, List.cons.injEq, and_true]
      omega
  | case4 => rfl

theorem utf8Char_small (c : Char) : ∀ byte ∈ utf8Char c, byte < 256 := by
  have bound : c.toNat < 0x110000 := by
    have := c.valid
    simp only [UInt32.isValidChar, Nat.isValidChar] at this
    exact this.elim (fun low => Nat.lt_trans low (by decide)) (·.2)
  intro byte member
  unfold utf8Char at member
  simp only at member
  split at member
  · simp at member; omega
  · split at member
    · simp at member; omega
    · split at member <;> simp at member <;> omega

theorem utf8Encode_small (text : Text) : ∀ byte ∈ utf8Encode text, byte < 256 := by
  intro byte member
  obtain ⟨c, _, listed⟩ := List.mem_flatMap.mp member
  exact utf8Char_small c byte listed

theorem utf8Text_last {lower upper code x : Nat} (low : lower ≤ 0x80 + x) (high : 0x80 + x ≤ upper)
    (rest : List Nat) : utf8Text (some ⟨1, lower, upper, code⟩) ((0x80 + x) :: rest) =
      Char.ofNat (64 * code + x) :: utf8Text none rest := by
  have reduced : 0x80 + x - 0x80 = x := by omega
  simp only [utf8Text, utf8Step, low, high, decide_true, Bool.and_self, if_true,
    Nat.le_refl, reduced, List.cons_append, List.nil_append]

theorem utf8Text_more {needed lower upper code x : Nat} (low : lower ≤ 0x80 + x)
    (high : 0x80 + x ≤ upper) (rest : List Nat) :
    utf8Text (some ⟨needed + 2, lower, upper, code⟩) ((0x80 + x) :: rest) =
      utf8Text (some ⟨needed + 1, 0x80, 0xbf, 64 * code + x⟩) rest := by
  have reduced : 0x80 + x - 0x80 = x := by omega
  have several : ¬ needed + 2 ≤ 1 := by omega
  simp only [utf8Text, utf8Step, low, high, decide_true, Bool.and_self, if_true, several, if_false,
    reduced, List.nil_append]
  rfl

theorem utf8Text_lead {byte : Nat} {pending : Utf8Pending}
    (lead : utf8Lead byte = ([], some pending))
    (rest : List Nat) : utf8Text none (byte :: rest) = utf8Text (some pending) rest := by
  simp only [utf8Text, utf8Step, lead, List.nil_append]

/-- One case for each number of bytes. -/
theorem utf8Text_char (c : Char) (rest : List Nat) :
    utf8Text none (utf8Char c ++ rest) = c :: utf8Text none rest := by
  have valid : c.toNat < 0xd800 ∨ 0xdfff < c.toNat ∧ c.toNat < 0x110000 := c.valid
  have back : Char.ofNat c.toNat = c := Char.ofNat_toNat c
  generalize counted : c.toNat = n at valid back
  unfold utf8Char
  simp only [counted]
  split
  · rename_i small
    simp [utf8Text, utf8Step, utf8Lead, small, back]
  · rename_i more
    split
    · rename_i small
      have lead : utf8Lead (0xc0 + n / 64) = ([], some ⟨1, 0x80, 0xbf, n / 64⟩) := by
        have known : 0xc0 + n / 64 - 0xc0 = n / 64 := by omega
        unfold utf8Lead
        rw [if_neg (by omega), if_pos (by simp; omega), known]
      have code : 64 * (n / 64) + n % 64 = n := by omega
      rw [List.cons_append, utf8Text_lead lead, List.cons_append,
        utf8Text_last (by omega) (by omega), code, back]
      rfl
    · rename_i more
      split
      · rename_i small
        have lead : utf8Lead (0xe0 + n / 4096) = ([], some ⟨2,
            if n / 4096 = 0 then 0xa0 else 0x80, if n / 4096 = 13 then 0x9f else 0xbf,
              n / 4096⟩) := by
          have known : 0xe0 + n / 4096 - 0xe0 = n / 4096 := by omega
          have first : (0xe0 + n / 4096 == 0xe0) = decide (n / 4096 = 0) := by
            rw [Bool.eq_iff_iff]; simp
          have surrogate : (0xe0 + n / 4096 == 0xed) = decide (n / 4096 = 13) := by
            rw [Bool.eq_iff_iff]; simp; omega
          unfold utf8Lead
          rw [if_neg (by omega), if_neg (by simp; omega), if_pos (by simp; omega), known, first,
            surrogate]
          simp
        have code : 64 * (64 * (n / 4096) + n / 64 % 64) + n % 64 = n := by omega
        rw [List.cons_append, utf8Text_lead lead, List.cons_append,
          utf8Text_more (by split <;> omega) (by split <;> omega), List.cons_append,
          utf8Text_last (by omega) (by omega), code, back]
        rfl
      · have lead : utf8Lead (0xf0 + n / 262144) = ([], some ⟨3,
            if n / 262144 = 0 then 0x90 else 0x80, if n / 262144 = 4 then 0x8f else 0xbf,
              n / 262144⟩) := by
          have known : 0xf0 + n / 262144 - 0xf0 = n / 262144 := by omega
          have first : (0xf0 + n / 262144 == 0xf0) = decide (n / 262144 = 0) := by
            rw [Bool.eq_iff_iff]; simp
          have final : (0xf0 + n / 262144 == 0xf4) = decide (n / 262144 = 4) := by
            rw [Bool.eq_iff_iff]; simp; omega
          unfold utf8Lead
          rw [if_neg (by omega), if_neg (by simp; omega), if_neg (by simp; omega),
            if_pos (by simp; omega), known, first, final]
          simp
        have code : 64 * (64 * (64 * (n / 262144) + n / 4096 % 64) + n / 64 % 64) + n % 64 = n := by
          omega
        rw [List.cons_append, utf8Text_lead lead, List.cons_append,
          utf8Text_more (by split <;> omega) (by split <;> omega), List.cons_append,
          utf8Text_more (by omega) (by omega), List.cons_append,
          utf8Text_last (by omega) (by omega), code, back]
        rfl

theorem utf8Decode_encode (text : Text) : utf8Decode (utf8Encode text) = text := by
  unfold utf8Decode utf8Encode
  induction text with
  | nil => rfl
  | cons c rest ih => rw [List.flatMap_cons, utf8Text_char, ih]

theorem utf8Encode_injective {first second : Text} (same : utf8Encode first = utf8Encode second) :
    first = second := by
  rw [← utf8Decode_encode first, same, utf8Decode_encode]

end Cybera
