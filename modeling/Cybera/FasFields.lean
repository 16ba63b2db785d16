import Cybera.Encoding

/-!
The fields of a FAS blob. decode splits at every ',' and '&', also inside a
value, and a later field of the same name wins.
-/

namespace Cybera

def renderField (field : Text × Text) : Text := field.1 ++ '=' :: field.2

/-- key=value pairs joined by ', ' -/
def joinFields : List (Text × Text) → Text
  | [] => []
  | [field] => renderField field
  | field :: next :: rest => renderField field ++ ',' :: ' ' :: joinFields (next :: rest)

def fasBlob (fields : List (Text × Text)) : Text := base64Encode (utf8Encode (joinFields fields))

def setsField (name part : Text) : Option Text :=
  match part.dropWhile (· != '=') with
  | [] => none
  | _ :: value =>
      let key := part.takeWhile (· != '=')
      if key.isEmpty then none else if trim key == name then some (trim value) else none

/-- The parts of a field that follows another one. -/
def partsOf (field : Text × Text) : List Text := splitFields [] true (renderField field)

/-- What the parts of the fields set `name` to at last. -/
def injected (name : Text) (fields : List (Text × Text)) : Option Text :=
  ((fields.flatMap partsOf).filterMap (setsField name)).getLast?

def clientIdentity : List Text := ["clientip".toList, "clientmac".toList, "hid".toList]

/-- decode puts the MAC in lower case. -/
def readAs (lower : Text → Text) (name value : Text) : Text :=
  if name = "clientmac".toList then lower value else value

/-- The fields behind clientip, clientmac and hid set none of them to anything
else, neither by their keys nor inside their values. -/
def Isolated (lower : Text → Text) (fields : List (Text × Text)) : Prop :=
  ∀ name ∈ clientIdentity, ∀ before value after, fields = before ++ (name, value) :: after →
    ∀ text, injected name after = some text → readAs lower name text = readAs lower name value

/-- The field is there, with a value that is not empty, without delimiters and
without outer blanks. -/
structure CarriesField (fields : List (Text × Text)) (name value : Text) : Prop where
  member : (name, value) ∈ fields
  nonempty : value ≠ []
  bare : ',' ∉ value ∧ '&' ∉ value
  trimmed : trim value = value

section Fields

theorem lookup_apart {entry : Text × Text} {name : Text} (rest : List (Text × Text))
    (apart : name ≠ entry.1) : (entry :: rest).lookup name = rest.lookup name := by
  rw [List.lookup_cons, beq_eq_false_iff_ne.mpr apart]

theorem lookup_mapSet (map : List (Text × Text)) (key value name : Text) :
    (mapSet map key value).lookup name =
      if name = key then some value else map.lookup name := by
  unfold mapSet
  by_cases same : name = key
  · subst same
    rw [if_pos rfl]
    split
    · rename_i present
      induction map with
      | nil => cases present
      | cons entry rest ih =>
          by_cases here : entry.1 = name
          · simp [here]
          · have later : rest.any (fun entry => entry.1 == name) = true := by
              simpa [here] using present
            rw [List.map_cons, if_neg (by simpa using here), lookup_apart _ (Ne.symm here)]
            exact ih later
    · rename_i absent
      have none' : map.lookup name = none := by
        refine List.lookup_eq_none_iff.mpr fun entry member => bne_iff_ne.mpr fun same => absent ?_
        exact List.any_eq_true.mpr ⟨entry, member, beq_iff_eq.mpr same.symm⟩
      rw [List.lookup_append, none', Option.none_or, List.lookup_cons_self]
  · rw [if_neg same]
    split
    · rename_i present
      clear present
      induction map with
      | nil => rfl
      | cons entry rest ih =>
          rw [List.map_cons]
          by_cases here : entry.1 = key
          · rw [if_pos (by simpa using here), lookup_apart _ same,
              lookup_apart _ (here ▸ same), ih]
          · rw [if_neg (by simpa using here), List.lookup_cons, List.lookup_cons, ih]
    · rw [List.lookup_append, lookup_apart _ same, List.lookup_nil, Option.or_none]

theorem lookup_setField (fields : List (Text × Text)) (part name : Text) :
    (setField fields part).lookup name = (setsField name part).or (fields.lookup name) := by
  unfold setField setsField
  cases part.dropWhile (· != '=') with
  | nil => rfl
  | cons separator value =>
      simp only
      split
      · rfl
      · rw [lookup_mapSet]
        by_cases same : name = trim (part.takeWhile (· != '='))
        · simp [← same]
        · simp [same, Ne.symm same]

theorem lookup_parts (fields : List (Text × Text)) (parts : List Text) (name : Text) :
    (parts.foldl setField fields).lookup name =
      ((parts.filterMap (setsField name)).getLast?).or (fields.lookup name) := by
  induction parts generalizing fields with
  | nil => rfl
  | cons part rest ih =>
      rw [List.foldl_cons, ih, lookup_setField]
      cases sets : setsField name part with
      | none => simp [sets]
      | some value =>
          cases last : (rest.filterMap (setsField name)).getLast? <;>
            simp [sets, List.getLast?_cons, last]

theorem splitFields_comma (current : Text) (afterSeparator : Bool) (text rest : Text) :
    splitFields current afterSeparator (text ++ ',' :: rest) =
      splitFields current afterSeparator text ++ splitFields [] true rest := by
  induction text generalizing current afterSeparator with
  | nil => simp [splitFields, show isBlank ',' = false by decide]
  | cons c text ih =>
      simp only [List.cons_append, splitFields]
      split
      · exact ih _ _
      · split
        · rw [ih, List.cons_append]
        · exact ih _ _

theorem splitFields_joined (afterSeparator : Bool) (field : Text × Text)
    (rest : List (Text × Text)) :
    splitFields [] afterSeparator (joinFields (field :: rest)) =
      splitFields [] afterSeparator (renderField field) ++ rest.flatMap partsOf := by
  induction rest generalizing field afterSeparator with
  | nil => simp [joinFields]
  | cons next rest ih =>
      have blank : splitFields [] true (' ' :: joinFields (next :: rest)) =
          splitFields [] true (joinFields (next :: rest)) := by
        rw [splitFields, if_pos (by decide)]
      rw [joinFields, splitFields_comma, blank, ih, List.flatMap_cons]
      rfl

theorem splitFields_bare (current : Text) (afterSeparator : Bool) (text : Text)
    (bare : ',' ∉ text ∧ '&' ∉ text)
    (head : afterSeparator = true → ∀ c ∈ text.head?, isBlank c = false) :
    splitFields current afterSeparator text = [current.reverse ++ text] := by
  induction text generalizing current afterSeparator with
  | nil => simp [splitFields]
  | cons c text ih =>
      simp only [List.mem_cons, not_or] at bare
      have plain : ¬ (c == ',' || c == '&') = true := by
        simp [Ne.symm bare.1.1, Ne.symm bare.2.1]
      have nonblank : ¬ (afterSeparator && isBlank c) = true := by
        cases afterSeparator with
        | false => simp
        | true => simp [head rfl c rfl]
      rw [splitFields, if_neg nonblank, if_neg plain,
        ih (c :: current) false ⟨bare.1.2, bare.2.2⟩ (by simp)]
      simp

theorem identity_named {name : Text} (known : name ∈ clientIdentity) :
    name ≠ [] ∧ trim name = name ∧ '=' ∉ name ∧ ',' ∉ name ∧ '&' ∉ name ∧
      ∀ c ∈ name.head?, isBlank c = false := by
  have first : ∀ name ∈ clientIdentity, ∀ c ∈ name.head?, isBlank c = false := by
    intro name known c first
    simp only [clientIdentity, List.mem_cons, List.not_mem_nil, or_false] at known
    obtain rfl | rfl | rfl := known <;> cases first <;> decide
  have rest : ∀ name ∈ clientIdentity,
      name ≠ [] ∧ trim name = name ∧ '=' ∉ name ∧ ',' ∉ name ∧ '&' ∉ name := by decide
  obtain ⟨nonempty, trimmed, equals, comma, ampersand⟩ := rest name known
  exact ⟨nonempty, trimmed, equals, comma, ampersand, first name known⟩

theorem takeWhile_name {name : Text} (value : Text) (bare : '=' ∉ name) :
    (name ++ '=' :: value).takeWhile (· != '=') = name ∧
      (name ++ '=' :: value).dropWhile (· != '=') = '=' :: value := by
  have all : ∀ c ∈ name, (c != '=') = true := by
    intro c member
    rw [bne_iff_ne]
    rintro rfl
    exact bare member
  rw [List.takeWhile_append_of_pos all, List.dropWhile_append_of_pos all]
  simp

theorem carried_part {fields : List (Text × Text)} {name value : Text}
    (known : name ∈ clientIdentity) (carries : CarriesField fields name value)
    (afterSeparator : Bool) :
    (splitFields [] afterSeparator (renderField (name, value))).filterMap (setsField name) =
      [value] := by
  obtain ⟨nonempty, trimmed, bare, comma, ampersand, head⟩ := identity_named known
  obtain ⟨takes, drops⟩ := takeWhile_name value bare
  have whole : splitFields [] afterSeparator (renderField (name, value)) =
      [name ++ '=' :: value] := by
    refine splitFields_bare [] afterSeparator _ ?_ fun _ c member => ?_
    · simp [renderField, comma, ampersand, carries.bare.1, carries.bare.2]
    · cases name with
      | nil => exact absurd rfl nonempty
      | cons first rest => exact head c member
  have sets : setsField name (name ++ '=' :: value) = some value := by
    simp only [setsField, drops, takes, trimmed, carries.trimmed, beq_self_eq_true, if_true]
    rw [if_neg (by simpa using nonempty)]
  rw [whole, List.filterMap_cons, sets]
  rfl

theorem getField_carried {name : String} {value : Text} {before after : List (Text × Text)}
    (known : name.toList ∈ clientIdentity)
    (carries : CarriesField (before ++ (name.toList, value) :: after) name.toList value) :
    getField ((splitFields [] false (joinFields (before ++ (name.toList, value) :: after))).foldl
      setField []) name = (injected name.toList after).getD value := by
  have last : ∀ earlier : List Text, ∀ afterSeparator,
      ((earlier ++ (splitFields [] afterSeparator (renderField (name.toList, value)) ++
        after.flatMap partsOf)).filterMap (setsField name.toList)).getLast? =
          some ((injected name.toList after).getD value) := by
    intro earlier afterSeparator
    rw [List.filterMap_append, List.filterMap_append, carried_part known carries]
    unfold injected
    cases final : ((after.flatMap partsOf).filterMap (setsField name.toList)).getLast? <;>
      simp [List.getLast?_append, List.getLast?_cons, final]
  have found :
      ((splitFields [] false (joinFields (before ++ (name.toList, value) :: after))).filterMap
      (setsField name.toList)).getLast? = some ((injected name.toList after).getD value) := by
    cases before with
    | nil =>
        rw [List.nil_append, splitFields_joined]
        exact last [] false
    | cons field before =>
        rw [List.cons_append, splitFields_joined, List.flatMap_append, List.flatMap_cons,
          ← List.append_assoc]
        exact last _ true
  simp [getField, lookup_parts, found]

theorem decode_blob (lower : Text → Text) (fields : List (Text × Text)) (ctx : FasClientContext) :
    FasService.decode lower (fasBlob fields) = .ok ctx ↔
      ctx.clientip ≠ [] ∧ ctx.clientmac ≠ [] ∧ ctx.hid ≠ [] ∧
      let read := getField ((splitFields [] false (joinFields fields)).foldl setField [])
      ctx = ⟨⟨read "clientip", lower (read "clientmac"), read "hid"⟩, read "gatewayname",
        read "originurl"⟩ := by
  unfold FasService.decode fasBlob
  simp only [base64Decode_encode (utf8Encode_small _), utf8Decode_encode]
  split
  · rename_i missing
    constructor
    · rintro ⟨⟩
    · rintro ⟨ip, mac, hid, rfl⟩
      simp only [Bool.or_eq_true, List.isEmpty_iff, or_assoc] at missing
      rcases missing with empty | empty | empty
      · exact absurd empty ip
      · exact absurd empty mac
      · exact absurd empty hid
  · rename_i given
    simp only [Bool.or_eq_true, List.isEmpty_iff, or_assoc, not_or] at given
    rw [Except.ok.injEq]
    constructor
    · rintro rfl
      exact ⟨given.1, given.2.1, given.2.2, rfl⟩
    · rintro ⟨_, _, _, rfl⟩
      rfl

theorem distinct_value {fields before after : List (Text × Text)} {name value other : Text}
    (distinct : (fields.map Prod.fst).Nodup) (member : (name, value) ∈ fields)
    (split : fields = before ++ (name, other) :: after) : other = value := by
  have listed : (name, other) ∈ fields := by
    rw [split]
    exact List.mem_append_right _ List.mem_cons_self
  exact congrArg Prod.snd (List.inj_on_of_nodup_map distinct listed member rfl)

/-- Reading a carried field gives its value exactly if nothing behind it says otherwise. -/
theorem read_iff {lower : Text → Text} {fields : List (Text × Text)} {name : String} {value : Text}
    (known : name.toList ∈ clientIdentity) (distinct : (fields.map Prod.fst).Nodup)
    (carries : CarriesField fields name.toList value) :
    readAs lower name.toList
      (getField ((splitFields [] false (joinFields fields)).foldl setField [])
      name) = readAs lower name.toList value ↔
    ∀ before value' after, fields = before ++ (name.toList, value') :: after →
      ∀ text, injected name.toList after = some text →
        readAs lower name.toList text = readAs lower name.toList value' := by
  constructor
  · intro reads before value' after split text sets
    obtain rfl := distinct_value distinct carries.member split
    subst split
    rwa [getField_carried known carries, sets] at reads
  · intro isolated
    obtain ⟨before, after, split⟩ := List.append_of_mem carries.member
    subst split
    rw [getField_carried known carries]
    cases sets : injected name.toList after with
    | none => rfl
    | some text => exact isolated before value after rfl text sets

theorem carried_isolated {lower : Text → Text} (kept : ∀ text, text ≠ [] → lower text ≠ [])
    {fields : List (Text × Text)} (distinct : (fields.map Prod.fst).Nodup) {ip mac hid : Text}
    (carriesIp : CarriesField fields "clientip".toList ip)
    (carriesMac : CarriesField fields "clientmac".toList mac)
    (carriesHid : CarriesField fields "hid".toList hid) :
    (∃ ctx, FasService.decode lower (fasBlob fields) = .ok ctx ∧
      ctx.toClientContext = ⟨ip, lower mac, hid⟩) ↔ Isolated lower fields := by
  have asIp : ∀ text, readAs lower "clientip".toList text = text := fun text => if_neg (by decide)
  have asMac : ∀ text, readAs lower "clientmac".toList text = lower text := fun text => if_pos rfl
  have asHid : ∀ text, readAs lower "hid".toList text = text := fun text => if_neg (by decide)
  have readIp := @read_iff lower fields "clientip" ip (by decide) distinct carriesIp
  have readMac := @read_iff lower fields "clientmac" mac (by decide) distinct carriesMac
  have readHid := @read_iff lower fields "hid" hid (by decide) distinct carriesHid
  have isolates : Isolated lower fields ↔
      getField ((splitFields [] false (joinFields fields)).foldl setField []) "clientip" = ip ∧
      lower (getField ((splitFields [] false (joinFields fields)).foldl setField []) "clientmac") =
        lower mac ∧
      getField ((splitFields [] false (joinFields fields)).foldl setField []) "hid" = hid := by
    rw [asIp, asIp] at readIp
    rw [asMac, asMac] at readMac
    rw [asHid, asHid] at readHid
    rw [readIp, readMac, readHid]
    constructor
    · intro isolated
      exact ⟨isolated _ (by decide), isolated _ (by decide), isolated _ (by decide)⟩
    · rintro ⟨clientip, clientmac, hid⟩ name known
      simp only [clientIdentity, List.mem_cons, List.not_mem_nil, or_false] at known
      obtain rfl | rfl | rfl := known
      · exact clientip
      · exact clientmac
      · exact hid
  rw [isolates]
  constructor
  · rintro ⟨ctx, decoded, same⟩
    obtain ⟨_, _, _, rfl⟩ := (decode_blob lower fields ctx).mp decoded
    simp only [ClientContext.mk.injEq] at same
    exact same
  · rintro ⟨sameIp, sameMac, sameHid⟩
    refine ⟨_, (decode_blob lower fields _).mpr ⟨?_, ?_, ?_, rfl⟩, ?_⟩
    · simpa only [sameIp] using carriesIp.nonempty
    · simpa only [sameMac] using kept mac carriesMac.nonempty
    · simpa only [sameHid] using carriesHid.nonempty
    · simp only [sameIp, sameMac, sameHid]

end Fields

/-- decode returns the three values as they were carried exactly if no field
behind them sets one of them again. -/
theorem fields_isolated_iff (lower : Text → Text) (kept : ∀ text, text ≠ [] → lower text ≠ [])
    (fields : List (Text × Text)) (distinct : (fields.map Prod.fst).Nodup) (ip mac hid : Text)
    (carriesIp : CarriesField fields "clientip".toList ip)
    (carriesMac : CarriesField fields "clientmac".toList mac)
    (carriesHid : CarriesField fields "hid".toList hid) :
    (∃ ctx, FasService.decode lower (fasBlob fields) = .ok ctx ∧
      ctx.toClientContext = ⟨ip, lower mac, hid⟩) ↔ Isolated lower fields :=
  carried_isolated kept distinct carriesIp carriesMac carriesHid

/-- The phone's identity in front of the page that it wanted to see. -/
def visiting (originurl : Text) : List (Text × Text) :=
  [("clientip".toList, phoneIp), ("clientmac".toList, phoneMac), ("hid".toList, ['h']),
    ("originurl".toList, originurl)]

theorem visiting_carries (originurl : Text) :
    CarriesField (visiting originurl) "clientip".toList phoneIp ∧
      CarriesField (visiting originurl) "clientmac".toList phoneMac ∧
      CarriesField (visiting originurl) "hid".toList ['h'] := by
  refine ⟨⟨?_, ?_, ?_, ?_⟩, ⟨?_, ?_, ?_, ?_⟩, ⟨?_, ?_, ?_, ?_⟩⟩ <;>
    first | decide | simp [visiting]

def plainPage : Text := "http://a.b/?q=1".toList

theorem visiting_decodes : FasService.decode toLowerCase (fasBlob (visiting plainPage)) =
    .ok ⟨⟨phoneIp, phoneMac, ['h']⟩, [], plainPage⟩ := by decide +kernel

theorem lower_kept (text : Text) (nonempty : text ≠ []) : toLowerCase text ≠ [] := by
  simpa [toLowerCase] using nonempty

theorem fields_isolated_visiting : Isolated toLowerCase (visiting plainPage) := by
  obtain ⟨ip, mac, hid⟩ := visiting_carries plainPage
  exact (fields_isolated_iff toLowerCase lower_kept _ (by decide) _ _ _ ip mac hid).mp
    ⟨_, visiting_decodes, by decide⟩

def namingPage : Text := "http://a.b/?q=1&clientmac=aa:bb:cc:dd:ee:00".toList

theorem page_chooses_mac : ((visiting namingPage).map Prod.fst).Nodup ∧
    CarriesField (visiting namingPage) "clientmac".toList phoneMac ∧
    FasService.decode toLowerCase (fasBlob (visiting namingPage)) =
      .ok ⟨⟨phoneIp, tabletMac, ['h']⟩, [], "http://a.b/?q=1".toList⟩ ∧
    ¬ ∃ ctx, FasService.decode toLowerCase (fasBlob (visiting namingPage)) = .ok ctx ∧
      ctx.toClientContext = ⟨phoneIp, toLowerCase phoneMac, ['h']⟩ := by
  have decoded : FasService.decode toLowerCase (fasBlob (visiting namingPage)) =
      .ok ⟨⟨phoneIp, tabletMac, ['h']⟩, [], "http://a.b/?q=1".toList⟩ := by decide +kernel
  refine ⟨by decide, (visiting_carries namingPage).2.1, decoded, ?_⟩
  rintro ⟨ctx, found, same⟩
  rw [decoded, Except.ok.injEq] at found
  subst found
  exact absurd same (by decide)

end Cybera
