import Mathlib

/-!
JSON of objects whose values are strings: the text that JSON.stringify makes of the
members, and the members that JSON.parse reads from a text.
-/

namespace JsonText

def hexDigit (n : Nat) : Char := Nat.digitChar n

def hexValue (c : Char) : Option Nat :=
  if '0' ≤ c && c ≤ '9' then some (c.toNat - 48)
  else if 'a' ≤ c && c ≤ 'f' then some (c.toNat - 87)
  else if 'A' ≤ c && c ≤ 'F' then some (c.toNat - 55)
  else none

/-- The characters that have an escape of two characters, with its letter. -/
def shortEscapes : List (Char × Char) :=
  [('\x22', '\x22'), ('\x5c', '\x5c'), ('\x08', 'b'), ('\x09', 't'), ('\x0a', 'n'), ('\x0c', 'f'),
    ('\x0d', 'r')]

def letterOf (c : Char) : Option Char := shortEscapes.lookup c

def escapeChar (c : Char) : List Char :=
  match letterOf c with
  | some letter => ['\x5c', letter]
  | none =>
      if c.toNat < 32 then
        ['\x5c', 'u', '0', '0', hexDigit (c.toNat / 16), hexDigit (c.toNat % 16)]
      else [c]

def writeString (text : List Char) : List Char :=
  '\x22' :: (text.flatMap escapeChar ++ ['\x22'])

def writeMember (entry : List Char × List Char) : List Char :=
  writeString entry.1 ++ ':' :: writeString entry.2

/-- JSON.stringify -/
def stringify (members : List (List Char × List Char)) : List Char :=
  '\x7b' :: ([','].intercalate (members.map writeMember) ++ ['\x7d'])

def hexFour : List Char → Option (Nat × List Char)
  | a :: b :: c :: d :: rest => do
      let first ← hexValue a
      let second ← hexValue b
      let third ← hexValue c
      let fourth ← hexValue d
      pure (4096 * first + 256 * second + 16 * third + fourth, rest)
  | _ => none

/-- A surrogate without its other half is no character: such a text is not read. -/
def readUnicode (text : List Char) : Option (Char × List Char) := do
  let (unit, rest) ← hexFour text
  if 0xd800 ≤ unit && unit ≤ 0xdbff then
    match rest with
    | '\x5c' :: 'u' :: more => do
        let (low, rest) ← hexFour more
        if 0xdc00 ≤ low && low ≤ 0xdfff then
          pure (Char.ofNat (0x10000 + 1024 * (unit - 0xd800) + (low - 0xdc00)), rest)
        else none
    | _ => none
  else if 0xdc00 ≤ unit && unit ≤ 0xdfff then none
  else pure (Char.ofNat unit, rest)

def unescapeChar (letter : Char) : Option Char :=
  if letter == '/' then some letter
  else (shortEscapes.find? fun entry => entry.2 == letter).map Prod.fst

def readChar : List Char → Option (Char × List Char)
  | '\x5c' :: 'u' :: rest => readUnicode rest
  | '\x5c' :: c :: rest => (unescapeChar c).map fun char => (char, rest)
  | c :: rest => if c.toNat < 32 || c == '\x5c' then none else some (c, rest)
  | [] => none

/-- The rest of a string after its opening quote. Every round reads a character. -/
def readString : Nat → List Char → Option (List Char × List Char)
  | _, '\x22' :: rest => some ([], rest)
  | rounds + 1, text => do
      let (c, rest) ← readChar text
      let (more, rest) ← readString rounds rest
      pure (c :: more, rest)
  | 0, _ => none

def isWhite (c : Char) : Bool := c == ' ' || c == '\x09' || c == '\x0a' || c == '\x0d'

def expect (sign : Char) (text : List Char) : Option (List Char) :=
  match text.dropWhile isWhite with
  | c :: rest => if c == sign then some rest else none
  | [] => none

def readMember (text : List Char) : Option ((List Char × List Char) × List Char) := do
  let text ← expect '\x22' text
  let (name, text) ← readString text.length text
  let text ← expect ':' text
  let text ← expect '\x22' text
  let (value, text) ← readString text.length text
  pure ((name, value), text)

def readMembers : Nat → List Char → Option (List (List Char × List Char) × List Char)
  | rounds + 1, text => do
      let (entry, text) ← readMember text
      match expect ',' text with
      | some text => do
          let (more, text) ← readMembers rounds text
          pure (entry :: more, text)
      | none => do
          let text ← expect '\x7d' text
          pure ([entry], text)
  | 0, _ => none

/-- JSON.parse, of a text that is an object with nothing but strings in it. -/
def parse (text : List Char) : Option (List (List Char × List Char)) := do
  let text ← expect '\x7b' text
  match expect '\x7d' text with
  | some text => if text.all isWhite then some [] else none
  | none => do
      let (members, text) ← readMembers text.length text
      if text.all isWhite then some members else none

/-- The last member of a name is the one that counts. -/
def get (members : List (List Char × List Char)) (name : List Char) : Option (List Char) :=
  members.reverse.lookup name

theorem hexValue_digit : ∀ n < 16, hexValue (hexDigit n) = some n := by decide

theorem expect_sign {sign : Char} (solid : isWhite sign = false) (rest : List Char) :
    expect sign (sign :: rest) = some rest := by
  simp [expect, solid]

theorem expect_other {sign c : Char} (solid : isWhite c = false) (other : c ≠ sign)
    (rest : List Char) : expect sign (c :: rest) = none := by
  simp [expect, solid, other]

theorem shortEscapes_read : ∀ entry ∈ shortEscapes,
    unescapeChar entry.2 = some entry.1 ∧ entry.2 ≠ 'u' := by decide

theorem unescapeChar_letter {c letter : Char} (short : letterOf c = some letter) :
    unescapeChar letter = some c ∧ letter ≠ 'u' := by
  refine shortEscapes_read (c, letter) ?_
  obtain ⟨before, after, split, _⟩ := List.lookup_eq_some_iff.mp short
  rw [split]
  simp

theorem readChar_letter {letter c : Char} (letters : unescapeChar letter = some c)
    (plain : letter ≠ 'u') (rest : List Char) :
    readChar ('\x5c' :: letter :: rest) = some (c, rest) := by
  rw [readChar, letters]
  · rfl
  · exact plain

theorem readChar_control {c : Char} (control : c.toNat < 32) (rest : List Char) :
    readChar ('\x5c' :: 'u' :: '0' :: '0' :: hexDigit (c.toNat / 16) :: hexDigit (c.toNat % 16) ::
      rest) = some (c, rest) := by
  have zero : hexValue '0' = some 0 := by decide
  have third := hexValue_digit (c.toNat / 16) (by omega)
  have fourth := hexValue_digit (c.toNat % 16) (by omega)
  have whole : 16 * (c.toNat / 16) + c.toNat % 16 = c.toNat := by omega
  have unit : hexFour ('0' :: '0' :: hexDigit (c.toNat / 16) :: hexDigit (c.toNat % 16) :: rest) =
      some (c.toNat, rest) := by
    simp [hexFour, zero, third, fourth, whole]
  have low : ¬ 0xd800 ≤ c.toNat := by omega
  have low' : ¬ 0xdc00 ≤ c.toNat := by omega
  simp [readChar, readUnicode, unit, low, low']

theorem readChar_plain {c : Char} (visible : ¬ c.toNat < 32) (plain : c ≠ '\x5c')
    (rest : List Char) : readChar (c :: rest) = some (c, rest) := by
  have solid : (decide (c.toNat < 32) || c == '\x5c') = false := by simp [visible, plain]
  unfold readChar
  split
  · rename_i same
    exact absurd (List.cons.inj same).1 plain
  · rename_i same
    exact absurd (List.cons.inj same).1 plain
  · rename_i same
    cases same
    rw [solid]
    rfl
  · contradiction

theorem letterOf_none {c : Char} (long : letterOf c = none) : c ≠ '\x22' ∧ c ≠ '\x5c' := by
  constructor <;>
  · rintro rfl
    revert long
    decide

theorem readChar_escape (c : Char) (rest : List Char) :
    readChar (escapeChar c ++ rest) = some (c, rest) := by
  unfold escapeChar
  cases short : letterOf c with
  | some letter =>
      obtain ⟨letters, plain⟩ := unescapeChar_letter short
      exact readChar_letter letters plain rest
  | none =>
      by_cases control : c.toNat < 32
      · simp only [if_pos control]
        exact readChar_control control rest
      · simp only [if_neg control]
        exact readChar_plain control (letterOf_none short).2 rest

theorem escapeChar_head (c : Char) :
    ∃ first more, escapeChar c = first :: more ∧ first ≠ '\x22' := by
  unfold escapeChar
  cases short : letterOf c with
  | some letter => exact ⟨_, _, rfl, by decide⟩
  | none =>
      by_cases control : c.toNat < 32
      · simp only [if_pos control]
        exact ⟨_, _, rfl, by decide⟩
      · simp only [if_neg control]
        exact ⟨c, [], rfl, (letterOf_none short).1⟩

theorem readString_quote (rounds : Nat) (rest : List Char) :
    readString rounds ('\x22' :: rest) = some ([], rest) := by
  cases rounds <;> rfl

theorem readString_more {rounds : Nat} {first : Char} (open' : first ≠ '\x22') (more : List Char) :
    readString (rounds + 1) (first :: more) = (readChar (first :: more)).bind fun char =>
      (readString rounds char.2).bind fun text => some (char.1 :: text.1, text.2) := by
  refine readString.eq_2 (first :: more) rounds ?_
  rintro rest same
  exact open' (List.cons.inj same).1

/-- By induction on the value, a round for each of its characters. -/
theorem readString_escaped (value rest : List Char) {rounds : Nat}
    (enough : value.length ≤ rounds) :
    readString rounds (value.flatMap escapeChar ++ '\x22' :: rest) = some (value, rest) := by
  induction value generalizing rounds with
  | nil => exact readString_quote rounds rest
  | cons c value ih =>
      obtain ⟨rounds, rfl⟩ := Nat.exists_eq_add_of_le' (Nat.lt_of_lt_of_le (Nat.succ_pos _) enough)
      obtain ⟨first, more, written, open'⟩ := escapeChar_head c
      have read := readChar_escape c (value.flatMap escapeChar ++ '\x22' :: rest)
      rw [written, List.cons_append] at read
      rw [List.flatMap_cons, List.append_assoc, written, List.cons_append, readString_more open',
        read]
      simp [ih (Nat.le_of_succ_le_succ enough)]

theorem readString_write (value rest : List Char) :
    expect '\x22' (writeString value ++ rest) = some (value.flatMap escapeChar ++ '\x22' :: rest) ∧
      readString (value.flatMap escapeChar ++ '\x22' :: rest).length
        (value.flatMap escapeChar ++ '\x22' :: rest) = some (value, rest) := by
  constructor
  · rw [writeString, List.cons_append, List.append_assoc, List.singleton_append]
    exact expect_sign (by decide) _
  · refine readString_escaped value rest ?_
    have long : value.length ≤ (value.flatMap escapeChar).length := by
      induction value with
      | nil => exact Nat.le_refl _
      | cons c value ih =>
          obtain ⟨first, more, written, _⟩ := escapeChar_head c
          simp only [List.flatMap_cons, List.length_append, List.length_cons, written]
          omega
    simp only [List.length_append]
    omega

theorem readMember_write (entry : List Char × List Char) (rest : List Char) :
    readMember (writeMember entry ++ rest) = some (entry, rest) := by
  obtain ⟨name, value⟩ := entry
  obtain ⟨quote, read⟩ := readString_write name (':' :: (writeString value ++ rest))
  obtain ⟨quote', read'⟩ := readString_write value rest
  have colon : expect ':' (':' :: (writeString value ++ rest)) = some (writeString value ++ rest) :=
    expect_sign (by decide) _
  rw [readMember, writeMember, List.append_assoc, List.cons_append, quote]
  simp only [Option.bind_eq_bind, Option.bind_some, read, colon, quote', read']
  rfl

/-- By induction on the members, a round for each. -/
theorem readMembers_write (members : List (List Char × List Char)) (nonempty : members ≠ [])
    (rest : List Char) {rounds : Nat} (enough : members.length ≤ rounds) :
    readMembers rounds ([','].intercalate (members.map writeMember) ++ '\x7d' :: rest) =
      some (members, rest) := by
  induction members generalizing rounds with
  | nil => exact absurd rfl nonempty
  | cons entry others ih =>
      obtain ⟨rounds, rfl⟩ := Nat.exists_eq_add_of_le' (Nat.lt_of_lt_of_le (Nat.succ_pos _) enough)
      cases others with
      | nil =>
          have read := readMember_write entry ('\x7d' :: rest)
          have last : expect ',' ('\x7d' :: rest) = none := expect_other (by decide) (by decide) _
          have closed : expect '\x7d' ('\x7d' :: rest) = some rest := expect_sign (by decide) _
          rw [List.map_singleton, List.intercalate_singleton, readMembers, read]
          simp only [Option.bind_eq_bind, Option.bind_some, last, closed]
          rfl
      | cons next others =>
          have onward := ih (by simp) (Nat.le_of_succ_le_succ enough)
          have read := readMember_write entry
            (',' :: ([','].intercalate ((next :: others).map writeMember) ++ '\x7d' :: rest))
          have comma : expect ',' (',' :: ([','].intercalate ((next :: others).map writeMember) ++
              '\x7d' :: rest)) = some _ := expect_sign (by decide) _
          rw [List.map_cons, List.map_cons, List.intercalate_cons_cons, ← List.map_cons,
            List.append_assoc, List.append_assoc, List.singleton_append, readMembers, read]
          simp only [Option.bind_eq_bind, Option.bind_some, comma, onward]
          rfl

theorem members_length (members : List (List Char × List Char)) :
    members.length ≤ ([','].intercalate (members.map writeMember)).length := by
  induction members with
  | nil => exact Nat.le_refl _
  | cons entry others ih =>
      cases others with
      | nil => simp [writeMember, writeString]
      | cons next others =>
          rw [List.map_cons, List.map_cons, List.intercalate_cons_cons, ← List.map_cons]
          simp only [List.length_append, List.length_cons] at ih ⊢
          omega

theorem parse_stringify (members : List (List Char × List Char)) :
    parse (stringify members) = some members := by
  have opened : ∀ rest, expect '\x7b' ('\x7b' :: rest) = some rest :=
    fun rest => expect_sign (by decide) rest
  cases members with
  | nil => decide
  | cons entry others =>
      have quoted : ∃ more, [','].intercalate ((entry :: others).map writeMember) ++ ['\x7d'] =
          '\x22' :: more := by
        cases others <;> simp [writeMember, writeString]
      obtain ⟨more, starts⟩ := quoted
      have inside : expect '\x7d' ('\x22' :: more) = none := expect_other (by decide) (by decide) _
      have enough : (entry :: others).length ≤ ('\x22' :: more).length := by
        rw [← starts, List.length_append]
        exact Nat.le_trans (members_length _) (Nat.le_add_right _ _)
      have read := readMembers_write (entry :: others) (by simp) [] enough
      rw [starts] at read
      rw [parse, stringify, starts, opened]
      simp only [Option.bind_eq_bind, Option.bind_some, inside, read]
      rfl

end JsonText
