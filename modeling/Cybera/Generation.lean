import Cybera.Collections
import Cybera.Commands
import Cybera.Cutoff
import Cybera.Redemption

/-!
VouchersService.generate by itself: whatever the random bytes are, the loop ends
as soon as they have offered enough new codes, and then the batch is exactly
what was asked for, and can be redeemed.
-/

namespace Cybera

open Collections Interleaving

/-- A voucher has the code. -/
def Known (rows : Store) (code : Text) : Prop :=
  ∃ id, ∃ v : VoucherRow, rows .vouchers id = some v ∧ v.code = code

/-- Vouchers with the codes in `made` have been added to `base`, and nothing else. -/
structure Generated (config : Config) (actor : AuthUser) (dto : GenerateVouchersDto)
    (base : Store) (made : List (Nat × Text)) (rows : Store) : Prop where
  ids : (made.map Prod.fst).Nodup
  empty : ∀ entry ∈ made, base .vouchers entry.1 = none
  vouchers : ∀ id, rows .vouchers id =
    ((made.lookup id).map (newVoucher config actor dto)).or (base .vouchers id)
  others : ∀ table, table ≠ .vouchers → rows table = base table

section Rows
variable {config : Config} {actor : AuthUser} {dto : GenerateVouchersDto} {base rows : Store}
  {made : List (Nat × Text)} {id : Nat} {code : Text}

theorem generated_nothing (base : Store) : Generated config actor dto base [] base :=
  ⟨List.nodup_nil, by simp, by simp, fun _ _ => rfl⟩

theorem generated_known (generated : Generated config actor dto base made rows) (code : Text) :
    Known rows code ↔ Known base code ∨ code ∈ made.map Prod.snd := by
  constructor
  · rintro ⟨id, v, present, rfl⟩
    rw [generated.vouchers] at present
    cases found : made.lookup id with
    | none => exact Or.inl ⟨id, v, by simpa [found] using present, rfl⟩
    | some code =>
        obtain rfl : newVoucher config actor dto code = v := by simpa [found] using present
        exact Or.inr (List.mem_map_of_mem ((lookup_iff_mem generated.ids).mp found))
  · rintro (⟨id, v, present, rfl⟩ | member)
    · refine ⟨id, v, ?_, rfl⟩
      cases found : made.lookup id with
      | none => simp [generated.vouchers, found, present]
      | some code =>
          have empty := generated.empty _ ((lookup_iff_mem generated.ids).mp found)
          cases present.symm.trans empty
    · obtain ⟨⟨id, _⟩, listed, rfl⟩ := List.mem_map.mp member
      refine ⟨id, newVoucher config actor dto _, ?_, rfl⟩
      simp [generated.vouchers, (lookup_iff_mem generated.ids).mpr listed]

theorem generated_create (generated : Generated config actor dto base made rows) (code : Text)
    (empty : rows .vouchers id = none) :
    Generated config actor dto base (made ++ [(id, code)])
      (RowLock.runEntry Act.run rows (create .vouchers id (newVoucher config actor dto code))) := by
  have unused : made.lookup id = none := by
    rw [generated.vouchers] at empty
    simpa using (Option.or_eq_none_iff.mp empty).1
  have unlisted : ∀ entry ∈ made, entry.1 ≠ id := by
    rintro ⟨_, code⟩ member rfl
    cases unused.symm.trans ((lookup_iff_mem generated.ids).mpr member)
  constructor
  · rw [List.map_append]
    refine List.nodup_append.mpr ⟨generated.ids, by simp, ?_⟩
    intro key member other last
    obtain ⟨entry, listed, rfl⟩ := List.mem_map.mp member
    simp only [List.map_cons, List.map_nil, List.mem_singleton] at last
    exact last ▸ unlisted entry listed
  · intro entry member
    rcases List.mem_append.mp member with old | new
    · exact generated.empty entry old
    · rw [generated.vouchers] at empty
      rw [List.mem_singleton.mp new]
      exact (Option.or_eq_none_iff.mp empty).2
  · intro key
    rw [List.lookup_append]
    by_cases same : key = id
    · subst same
      simp [unused]
    · rw [create_key _ _ _ _ _ same, generated.vouchers]
      have other : [(id, code)].lookup key = none := List.lookup_eq_none_iff.mpr (by simp [same])
      rw [other, Option.or_none]
  · intro table different
    funext key
    rw [create_table _ _ _ _ _ _ different, generated.others table different]

theorem generated_listed (generated : Generated config actor dto base made rows)
    (new : ∀ code ∈ made.map Prod.snd, ¬ Known base code) {v : VoucherRow} :
    rows .vouchers id = some v ∧ v.code ∈ made.map Prod.snd ↔
      ∃ code, (id, code) ∈ made ∧ v = newVoucher config actor dto code := by
  rw [generated.vouchers]
  constructor
  · rintro ⟨present, listed⟩
    cases found : made.lookup id with
    | none =>
        have before : base .vouchers id = some v := by simpa [found] using present
        exact absurd ⟨id, v, before, rfl⟩ (new _ listed)
    | some code =>
        obtain rfl : newVoucher config actor dto code = v := by simpa [found] using present
        exact ⟨code, (lookup_iff_mem generated.ids).mp found, rfl⟩
  · rintro ⟨code, member, rfl⟩
    rw [(lookup_iff_mem generated.ids).mpr member]
    exact ⟨rfl, List.mem_map_of_mem member⟩

end Rows

/-! The characters of a code. -/
section Codes

/-- Twelve characters of the alphabet in groups of four. -/
def Shaped (code : Text) : Prop := code.length = 14 ∧ ∀ c ∈ code, c ∈ '-' :: codeAlphabet

/-- The same letters in upper or lower case. -/
def Casing (code typed : Text) : Prop :=
  List.Forall₂ (fun c t => t = c.toUpper ∨ t = c.toLower) code typed

theorem codeChar (b : Nat) : codeAlphabet.getD (b % codeAlphabet.length) 'A' ∈ codeAlphabet := by
  have bound : b % codeAlphabet.length < codeAlphabet.length := Nat.mod_lt _ (by decide)
  rw [List.getD_eq_getElem _ _ bound]
  exact List.getElem_mem bound

theorem generateCode_shaped {bytes : List Nat} (length : bytes.length = 12) :
    Shaped (generateCode bytes) := by
  constructor
  · simp [generateCode, length]
  · intro c member
    have drawn : ∀ c ∈ bytes.map fun b => codeAlphabet.getD (b % codeAlphabet.length) 'A',
        c ∈ '-' :: codeAlphabet := by
      intro c member
      obtain ⟨b, _, rfl⟩ := List.mem_map.mp member
      exact List.mem_cons_of_mem _ (codeChar b)
    simp only [generateCode, List.mem_append, List.mem_cons] at member
    rcases member with (first | rfl | second) | rfl | third
    · exact drawn c (List.mem_of_mem_take first)
    · exact List.mem_cons_self
    · exact drawn c (List.mem_of_mem_drop (List.mem_of_mem_take second))
    · exact List.mem_cons_self
    · exact drawn c (List.mem_of_mem_drop (List.mem_of_mem_take third))

theorem alphabet_listed : codeAlphabet =
    ['A', 'B', 'C', 'D', 'E', 'F', 'G', 'H', 'J', 'K', 'L', 'M', 'N', 'P', 'Q', 'R', 'S', 'T', 'U',
      'V', 'W', 'X', 'Y', 'Z', '2', '3', '4', '5', '6', '7', '8', '9'] := by
  decide

theorem casing_char : ∀ c ∈ '-' :: codeAlphabet, ∀ t ∈ [c.toUpper, c.toLower],
    isCodeChar t = true ∧ isBlank t = false ∧ t.toUpper = c := by
  simp [alphabet_listed, isCodeChar, isBlank]

theorem trim_unblank {text : Text} (solid : ∀ c ∈ text, isBlank c = false) : trim text = text := by
  have whole : ∀ {text : Text}, (∀ c ∈ text, isBlank c = false) →
      text.dropWhile isBlank = text := by
    intro text solid
    cases text with
    | nil => rfl
    | cons c rest => simp [solid c (by simp)]
  rw [trim, whole solid, whole (by simpa using solid), List.reverse_reverse]

theorem casing_accepted {code typed : Text} (shaped : Shaped code) (casing : Casing code typed) :
    ∃ dto : RedeemVoucherDto, dto.code = typed ∧ toUpperCase (trim typed) = code := by
  have chars : ∀ {code typed : Text}, (∀ c ∈ code, c ∈ '-' :: codeAlphabet) → Casing code typed →
      (∀ t ∈ typed, isCodeChar t = true ∧ isBlank t = false) ∧ toUpperCase typed = code := by
    intro code typed inside casing
    induction casing with
    | nil => simp [toUpperCase]
    | @cons c t _ _ same _ ih =>
        obtain ⟨rest, upper⟩ := ih fun c member => inside c (by simp [member])
        obtain ⟨valid, solid, back⟩ := casing_char c (inside c (by simp)) t (by simpa using same)
        refine ⟨?_, by rw [← upper, toUpperCase, List.map_cons, back]; rfl⟩
        intro t member
        rcases List.mem_cons.mp member with rfl | member
        · exact ⟨valid, solid⟩
        · exact rest t member
  obtain ⟨accepted, upper⟩ := chars shaped.2 casing
  have length : typed.length = 14 := casing.length_eq ▸ shaped.1
  refine ⟨⟨typed, ?_, by omega, by omega⟩, rfl, ?_⟩
  · exact List.all_eq_true.mpr fun t member => (accepted t member).1
  · rw [trim_unblank fun t member => (accepted t member).2, upper]

end Codes

/-- The code that is made of the bytes, when random bytes were asked for. -/
def Event.drawnCode (event : Event) : Option Text :=
  match event.cmd, event.answer with
  | .randomBytes _, .ok bytes => some (generateCode bytes)
  | _, _ => none

/-- The codes drawn in between, one for each time that random bytes were asked for. -/
def drawn (before after : World) : List Text :=
  (after.hist.drop before.hist.length).filterMap Event.drawnCode

def Cmd.Undrawn : Cmd → Prop
  | .randomBytes _ => False
  | _ => True

section Draws
variable {config : Config} {thread : Nat} {first world after : World} {began : Option Time}
  {rows : Store} {draws : List Text}

theorem drawn_event (grown : first.hist <+: world.hist) {event : Event}
    (hist : after.hist = world.hist ++ [event]) :
    first.hist <+: after.hist ∧
      drawn first after = drawn first world ++ event.drawnCode.toList := by
  refine ⟨hist ▸ grown.trans (List.prefix_append _ _), ?_⟩
  rw [drawn, hist, List.drop_append_of_le_length grown.length_le, List.filterMap_append]
  cases found : event.drawnCode <;> simp [drawn, found]

theorem alone_undrawn {α : Type} {post : Except Failure α → World → Prop} (program : Program α)
    (uses : program.Uses Cmd.Undrawn) (grown : first.hist <+: world.hist)
    (sure : Surely (server config) Choice.Works thread post program world) :
    Surely (server config) Choice.Works thread (fun outcome after => post outcome after ∧
      first.hist <+: after.hist ∧ drawn first after = drawn first world) program world := by
  refine surely_kept ?_ program uses world ⟨grown, rfl⟩ sure
  intro cmd choice before answer after undrawn executed ⟨grown, same⟩
  obtain ⟨_, _, hist, _⟩ := exec_cases executed
  obtain ⟨grown', drawn'⟩ := drawn_event grown hist
  have none' : (before.eventOf thread cmd choice answer).drawnCode = none := by
    cases cmd with
    | randomBytes count => exact absurd undrawn id
    | _ => rfl
  rw [none', same] at drawn'
  exact ⟨grown', by simpa using drawn'⟩

theorem randomCodes_alone (count : Nat) (grown : first.hist <+: world.hist)
    (solo : Solo thread first began rows [] world) :
    Alone config thread (fun codes after => codes.length = count ∧ (∀ code ∈ codes, Shaped code) ∧
        first.hist <+: after.hist ∧ drawn first after = drawn first world ++ codes ∧
        Solo thread first began rows [] after)
      (randomCodes count) world := by
  induction count generalizing world with
  | zero => exact ⟨rfl, by simp, grown, by simp, solo⟩
  | succ count ih =>
      refine surely_bind _ _ _ (alone_randomBytes solo 12) ?_
      rintro bytes w1 ⟨length, ⟨choice, hist⟩, solo1⟩
      obtain ⟨grown1, drawn1⟩ := drawn_event grown hist
      refine surely_bind _ _ _ (ih grown1 solo1) ?_
      rintro others w2 ⟨length', shaped, grown2, drawn2, solo2⟩
      refine ⟨by simp [length'], ?_, grown2, ?_, solo2⟩
      · intro code member
        rcases List.mem_cons.mp member with rfl | member
        · exact generateCode_shaped length
        · exact shaped code member
      · rw [drawn2, drawn1, List.append_assoc]
        rfl

end Draws

section Loop
variable {config : Config} {thread : Nat} {first world : World} {now : Time} {actor : AuthUser}
  {dto : GenerateVouchersDto} {base rows : Store} {made : List (Nat × Text)} {draws : List Text}

/-- The foreign key of created_by refuses whoever has no account. -/
def Ownerless (actor : AuthUser) (base : Store) (error : Failure) : Prop :=
  error = .query ∧ base .users actor.id = none

/-- The loop's invariant: the codes so far are the new ones among the draws. -/
structure Filling (config : Config) (actor : AuthUser) (dto : GenerateVouchersDto) (base : Store)
    (draws codes : List Text) (rows : Store) : Prop where
  kept : Collected (Known base) draws codes
  generated : ∃ made, codes = made.map Prod.snd ∧ Generated config actor dto base made rows
  owned : ∀ code ∈ codes, (base .users actor.id).isSome

theorem insertCode_alone {codes : List Text} (code : Text)
    (filling : Filling config actor dto base draws codes rows)
    (solo : Solo thread first (some now) rows [] world) :
    Surely (server config) Choice.Works thread (Branch
        (fun found after => found.toList.length ≤ 1 ∧ ∃ rows',
          Filling config actor dto base (draws ++ [code]) (codes ++ found.toList) rows' ∧
            Solo thread first (some now) rows' [] after)
        (fun error _ => Ownerless actor base error))
      (do
        let inserted ← insertOrSkip .vouchers fun _ => newVoucher config actor dto code
        pure (inserted.map fun voucher => voucher.2.code)) world := by
  obtain ⟨kept, ⟨made, rfl, generated⟩, owned⟩ := filling
  have same : World.resolves rows .vouchers (newVoucher config actor dto code) =
      (base .users actor.id).isSome := by
    simp [World.resolves, references, newVoucher, generated.others .users]
  refine surely_then _ _ _ (surely_mono ?_ _ _ (surely_insertOrSkip solo _))
  rintro (error | inserted) after reached
  · obtain ⟨rfl, unlinked⟩ := reached
    rw [same] at unlinked
    exact ⟨rfl, by simpa using unlinked⟩
  obtain ⟨rfl, solo', id, v, present, clash⟩ | ⟨id, rfl, ⟨empty, linked, single⟩, solo'⟩ := reached
  · have known : Known rows code := ⟨id, v, present, beq_iff_eq.mp clash⟩
    refine ⟨by simp, rows, ⟨?_, ⟨made, by simp, generated⟩, by simpa using owned⟩, solo'⟩
    simpa using collected_skip kept ((generated_known generated code).mp known)
  · have unknown : ¬ Known rows code := by
      rintro ⟨key, v, present, rfl⟩
      simpa [conflicts, newVoucher] using single key v present
    rw [generated_known generated] at unknown
    refine ⟨by simp, _, ⟨?_, ⟨_, ?_, generated_create generated code empty⟩, ?_⟩, solo'⟩
    · exact collected_take kept (fun known => unknown (Or.inl known)) fun old =>
        unknown (Or.inr old)
    · simp [newVoucher]
    · exact fun _ _ => same ▸ linked

theorem insertBatch_alone {codes : List Text} (batch : List Text)
    (stored : dto.storable config = true)
    (filling : Filling config actor dto base draws codes rows)
    (solo : Solo thread first none rows [] world) :
    Surely (server config) Choice.Works thread (Branch
        (fun found after => found.length ≤ batch.length ∧ ∃ rows',
          Filling config actor dto base (draws ++ batch) (codes ++ found) rows' ∧
            Solo thread first none rows' [] after)
        (fun error _ => Ownerless actor base error))
      (insertBatch config actor dto batch) world := by
  rw [insertBatch, if_pos stored]
  refine surely_tx solo _ ?_
  intro opened now inside
  -- the INSERT has come through the codes `seen`
  let loop (rest found : List Text) (w : World) : Prop := ∃ seen rows', seen ++ rest = batch ∧
    found.length ≤ seen.length ∧ Filling config actor dto base (draws ++ seen)
      (codes ++ found) rows' ∧ Solo thread first (some now) rows' [] w
  have entry : loop batch [] opened :=
    ⟨[], rows, rfl, Nat.le_refl _, by simpa using filling, inside⟩
  refine surely_mono ?_ _ _ (surely_collect (fun error _ => Ownerless actor base error) loop _ ?_
    batch [] opened entry)
  · rintro (error | found) closing reached
    · exact fun _ _ => reached
    obtain ⟨seen, rows', split, fewer, filling', solo'⟩ := reached
    rw [List.append_nil] at split
    rw [List.nil_append] at fewer filling'
    exact ⟨rows', [], solo', fun after solo'' => ⟨split ▸ fewer, rows', split ▸ filling', solo''⟩⟩
  · rintro code rest found w ⟨seen, rows', split, fewer, filling', solo'⟩
    refine surely_mono ?_ _ _ (insertCode_alone code filling' solo')
    rintro (error | added) after reached
    · exact reached
    obtain ⟨single, rows'', filling'', solo''⟩ := reached
    refine ⟨seen ++ [code], rows'', by rw [← split, List.append_assoc]; rfl, ?_, ?_, solo''⟩
    · rw [List.length_append, List.length_append, List.length_singleton]
      omega
    · simpa only [List.append_assoc] using filling''

/-- Why a call throws: it has been given too few new codes, or its foreign key fails. -/
def Unfilled (actor : AuthUser) (dto : GenerateVouchersDto) (base : Store) (draws : List Text)
    (rounds : Nat) (error : Failure) : Prop :=
  (error = .attempts ∧ ¬ Offers (Known base) dto.count draws ∧ rounds ≤ draws.length) ∨
    Ownerless actor base error

/-- The loop ends with `count` codes, or has been given too few new ones in all its rounds. -/
theorem generateLoop_alone (attempts : Nat) {codes : List Text}
    (stored : dto.storable config = true)
    (filling : Filling config actor dto first.db.store (drawn first world) codes rows)
    (shaped : ∀ code ∈ drawn first world, Shaped code) (grown : first.hist <+: world.hist)
    (within : codes.length ≤ dto.count) (solo : Solo thread first none rows [] world) :
    Surely (server config) Choice.Works thread (Branch
        (fun codes after => codes.length = dto.count ∧ (∀ code ∈ codes, Shaped code) ∧
          first.hist <+: after.hist ∧ ∃ rows',
            Filling config actor dto first.db.store (drawn first after) codes rows' ∧
              Solo thread first none rows' [] after)
        (fun error after => Unfilled actor dto first.db.store (drawn first after)
          ((drawn first world).length + attempts) error))
      (generateLoop config actor dto attempts codes) world := by
  have enough : ∀ {world codes rows}, ¬ codes.length < dto.count → codes.length ≤ dto.count →
      Filling config actor dto first.db.store (drawn first world) codes rows →
      (∀ code ∈ drawn first world, Shaped code) →
        codes.length = dto.count ∧ ∀ code ∈ codes, Shaped code := by
    intro world codes rows full within filling shaped
    exact ⟨by omega, fun code member => shaped code ((filling.kept.mem code).mp member).1⟩
  -- on the rounds; what has been drawn is read off the history, so each round extends it
  induction attempts generalizing world codes rows with
  | zero =>
      unfold generateLoop
      split
      · rename_i short
        refine Or.inl ⟨rfl, ?_, Nat.le_refl _⟩
        rw [collected_offers filling.kept]
        omega
      · rename_i full
        obtain ⟨count, shaped'⟩ := enough full within filling shaped
        exact ⟨count, shaped', grown, rows, filling, solo⟩
  | succ attempts ih =>
      unfold generateLoop
      split
      · rename_i short
        refine surely_then _ _ _ (surely_mono ?_ _ _ (randomCodes_alone _ grown solo))
        rintro (_ | batch) w1 reached
        · exact absurd reached id
        obtain ⟨asked, shaped1, grown1, drawn1, solo1⟩ := reached
        have uses : (insertBatch config actor dto batch).Uses Cmd.Undrawn :=
          uses_insertBatch actor dto batch trivial trivial trivial fun _ => trivial
        refine surely_then _ _ _ (surely_mono ?_ _ _
          (alone_undrawn _ uses grown1 (insertBatch_alone batch stored filling solo1)))
        rintro (error | found) w2 ⟨reached, grown2, drawn2⟩
        · exact Or.inr reached
        obtain ⟨fewer, rows', filling', solo2⟩ := reached
        rw [drawn1] at drawn2
        rw [← drawn2] at filling'
        have all : ∀ code ∈ drawn first w2, Shaped code := by
          intro code member
          rw [drawn2] at member
          exact (List.mem_append.mp member).elim (shaped code) (shaped1 code)
        -- a batch is as long as what is missing, so it brings no code too many
        have within' : (codes ++ found).length ≤ dto.count := by
          rw [List.length_append]
          omega
        refine surely_mono ?_ _ _ (ih filling' all grown2 within' solo2)
        rintro (error | codes') after reached
        · rcases reached with ⟨same, refused, rounds⟩ | ownerless
          · refine Or.inl ⟨same, refused, Nat.le_trans ?_ rounds⟩
            rw [drawn2, List.length_append]
            omega
          · exact Or.inr ownerless
        · exact reached
      · rename_i full
        obtain ⟨count, shaped'⟩ := enough full within filling shaped
        exact ⟨count, shaped', grown, rows, filling, solo⟩

/-- The rows are the vouchers that were asked for, and nothing else has changed. -/
structure BatchOf (config : Config) (dto : GenerateVouchersDto) (before after : Store)
    (rows : List (Nat × VoucherRow)) : Prop where
  count : rows.length = dto.count
  distinct : (rows.map fun row => row.2.code).Nodup
  new : ∀ id v, (id, v) ∈ rows → before .vouchers id = none ∧ ¬ Known before v.code
  stored : ∀ id v, (id, v) ∈ rows → after .vouchers id = some v
  given : ∀ id v, (id, v) ∈ rows → v.status = .unused ∧ v.durationMinutes = dto.durationMinutes ∧
    v.deviceLimit = dto.deviceLimit ∧ v.expiresAt = dto.expiresAt.bind config.timestamptz
  untouched : ∀ id, (∀ v, (id, v) ∉ rows) → after .vouchers id = before .vouchers id
  others : ∀ table, table ≠ .vouchers → after table = before table

theorem batch_listed {codes : List Text} {view : View}
    (filling : Filling config actor dto base draws codes rows) (count : codes.length = dto.count)
    (shows : view.Shows rows) :
    BatchOf config dto base rows (Query.eval view (.vouchersByCodes codes)) ∧
      ∀ id v, (id, v) ∈ Query.eval view (.vouchersByCodes codes) →
        v.code ∈ codes ∧ v.redeemedBy = none ∧ (base .users v.createdBy).isSome := by
  obtain ⟨kept, ⟨made, rfl, generated⟩, owned⟩ := filling
  have listed : ∀ id v, (id, v) ∈ Query.eval view (.vouchersByCodes (made.map Prod.snd)) ↔
      ∃ code, (id, code) ∈ made ∧ v = newVoucher config actor dto code := by
    intro id v
    rw [← generated_listed generated fun code member => ((kept.mem code).mp member).2]
    refine (List.mem_insertionSort _).trans (mem_scan.trans ?_)
    rw [shows.same, List.contains_iff_mem]
    constructor
    · rintro ⟨_, present, member⟩
      exact ⟨present, member⟩
    · rintro ⟨present, member⟩
      exact ⟨shows.numbered .vouchers id (Option.isSome_of_eq_some present), present, member⟩
  -- the SELECT orders the rows by code, so it lists the ids of `made` in another order
  have ids : ((Query.eval view (.vouchersByCodes (made.map Prod.snd))).map Prod.fst).Nodup :=
    ((List.perm_insertionSort _ _).map Prod.fst).nodup_iff.mpr (scan_once view .vouchers _)
  have same : ((Query.eval view (.vouchersByCodes (made.map Prod.snd))).map Prod.fst).Perm
      (made.map Prod.fst) := by
    refine (List.perm_ext_iff_of_nodup ids generated.ids).mpr ?_
    intro id
    simp only [List.mem_map, Prod.exists, exists_and_right, exists_eq_right, listed]
    constructor
    · rintro ⟨_, code, member, _⟩
      exact ⟨code, member⟩
    · rintro ⟨code, member⟩
      exact ⟨_, code, member, rfl⟩
  refine ⟨⟨?_, ?_, ?_, ?_, ?_, ?_, generated.others⟩, ?_⟩
  · rw [← count, List.length_map, ← List.length_map (f := Prod.fst), same.length_eq,
      List.length_map]
  · refine (List.Nodup.of_map _ ids).map_on ?_
    rintro ⟨id, _⟩ member ⟨key, _⟩ member' equal
    obtain ⟨code, first, rfl⟩ := (listed _ _).mp member
    obtain ⟨code', second, rfl⟩ := (listed _ _).mp member'
    have entry := List.inj_on_of_nodup_map kept.once first second equal
    cases entry
    rfl
  · intro id v member
    obtain ⟨code, inside, rfl⟩ := (listed id v).mp member
    have drawn : code ∈ made.map Prod.snd := List.mem_map_of_mem inside
    exact ⟨generated.empty _ inside, ((kept.mem code).mp drawn).2⟩
  · intro id v member
    obtain ⟨code, inside, rfl⟩ := (listed id v).mp member
    rw [generated.vouchers, (lookup_iff_mem generated.ids).mpr inside]
    rfl
  · intro id v member
    obtain ⟨code, _, rfl⟩ := (listed id v).mp member
    exact ⟨rfl, rfl, rfl, rfl⟩
  · intro id unlisted
    have absent : made.lookup id = none := by
      cases found : made.lookup id with
      | none => rfl
      | some code =>
          have inside := (lookup_iff_mem generated.ids).mp found
          exact absurd ((listed id _).mpr ⟨code, inside, rfl⟩) (unlisted _)
    rw [generated.vouchers, absent]
    rfl
  · intro id v member
    obtain ⟨code, inside, rfl⟩ := (listed id v).mp member
    have taken : code ∈ made.map Prod.snd := List.mem_map_of_mem inside
    exact ⟨taken, rfl, owned code taken⟩

theorem generate_alone (attempts : Nat) (stored : dto.storable config = true)
    (solo : Solo thread first none first.db.store [] first) :
    Surely (server config) Choice.Works thread (Branch
        (fun reply after => ∃ rows, reply = .vouchers rows ∧
          Offers (Known first.db.store) dto.count (drawn first after) ∧
          BatchOf config dto first.db.store after.db.store rows ∧
          (∀ id v, (id, v) ∈ rows →
            Shaped v.code ∧ v.redeemedBy = none ∧ (first.db.store .users v.createdBy).isSome) ∧
          Solo thread first none after.db.store [] after)
        (fun error after =>
          Unfilled actor dto first.db.store (drawn first after) attempts error))
      (VouchersService.generate config actor dto attempts) first := by
  have nothing : drawn first first = [] := by simp [drawn]
  have start : Filling config actor dto first.db.store (drawn first first) [] first.db.store := by
    rw [nothing]
    exact ⟨collected_nothing, ⟨[], rfl, generated_nothing _⟩, by simp⟩
  refine surely_then _ _ _ (surely_mono ?_ _ _ (generateLoop_alone attempts stored start
    (by simp [nothing]) (List.prefix_refl _) (Nat.zero_le _) solo))
  rintro (error | codes) w1 reached
  · have unfilled : Unfilled actor dto first.db.store (drawn first w1)
        ((drawn first first).length + attempts) error := reached
    rw [nothing, List.length_nil, Nat.zero_add] at unfilled
    exact unfilled
  obtain ⟨count, shaped, grown, rows, filling, solo1⟩ := reached
  have rest : Alone config thread (fun reply after => ∃ view : View, view.Shows rows ∧
      reply = Reply.vouchers (Query.eval view (.vouchersByCodes codes)) ∧
      Solo thread first none rows [] after) (do
        AuditService.log (some actor.id) "voucher.generate"
        let rows ← select (.vouchersByCodes codes)
        pure (Reply.vouchers rows)) w1 := by
    refine surely_bind _ _ _ (alone_log solo1 _ _) ?_
    intro _ w2 solo2
    refine surely_bind _ _ _ (alone_query solo2 _) ?_
    rintro _ w3 ⟨solo3, view, rfl, shows⟩
    exact ⟨view, shows, rfl, solo3⟩
  have uses : (do
      AuditService.log (some actor.id) "voucher.generate"
      let rows ← select (.vouchersByCodes codes)
      pure (Reply.vouchers rows) : Program Reply).Uses Cmd.Undrawn :=
    Prog.uses_bind (uses_audit trivial) fun _ =>
      Prog.uses_bind (uses_select trivial) fun _ => trivial
  refine surely_mono ?_ _ _ (alone_undrawn _ uses grown rest)
  rintro (_ | reply) after ⟨reached, _, same⟩
  · exact absurd reached id
  obtain ⟨view, shows, rfl, solo'⟩ := reached
  obtain ⟨batch, listed⟩ := batch_listed filling count shows
  refine ⟨_, rfl, ?_, ?_, ?_, ?_⟩
  · rw [same, collected_offers filling.kept]
    exact count.ge
  · exact solo'.store ▸ batch
  · intro id v member
    exact ⟨shaped _ (listed id v member).1, (listed id v member).2⟩
  · exact solo'.store ▸ solo'

theorem generate_refused (attempts : Nat) (refused : dto.storable config = false)
    (solo : Solo thread first none rows [] world) :
    Surely (server config) Choice.Works thread (Branch (fun _ _ => False)
        (fun _ after => Solo thread first none rows [] after))
      (VouchersService.generate config actor dto attempts) world := by
  have missing : ([] : List Text).length < dto.count := dto.countRange.1
  cases attempts with
  | zero =>
      unfold VouchersService.generate generateLoop
      rw [if_pos missing]
      exact solo
  | succ attempts =>
      unfold VouchersService.generate generateLoop
      rw [if_pos missing]
      obtain ⟨events, same, _⟩ := solo.hist
      have grown : first.hist <+: world.hist := ⟨events, same.symm⟩
      refine surely_then _ _ _ (surely_then _ _ _ (surely_mono ?_ _ _
        (randomCodes_alone _ grown solo)))
      rintro (_ | batch) after reached
      · exact absurd reached id
      obtain ⟨_, _, _, _, solo'⟩ := reached
      have stops : insertBatch config actor dto batch = .raise .query := by
        rw [insertBatch, if_neg (by simp [refused])]
      simp only [Branch, Prog.bind_eq, stops, Prog.raise_bind]
      exact solo'

end Loop

section Redeeming
variable {config : Config} {thread : Nat} {first world : World} {now : Time} {rows : Store}
  {id : Nat} {v : VoucherRow} {account : UserRow}

theorem voucherByCode_single {view : View} (shows : view.Shows rows)
    (present : rows .vouchers id = some v)
    (single : ∀ key, ∀ w : VoucherRow, rows .vouchers key = some w → w.code = v.code → key = id) :
    Query.eval view (.voucherByCode v.code) = some id := by
  have listed : (id, v) ∈ view.scan .vouchers fun w => w.code == v.code :=
    mem_scan.mpr ⟨shows.numbered .vouchers id (Option.isSome_of_eq_some present),
      shows.same ▸ present, beq_self_eq_true _⟩
  cases found : view.scan .vouchers fun w => w.code == v.code with
  | nil => rw [found] at listed; cases listed
  | cons head rest =>
      have member : head ∈ view.scan .vouchers fun w => w.code == v.code := by simp [found]
      obtain ⟨_, stored, same⟩ := mem_scan.mp member
      rw [shows.same] at stored
      simp [Query.eval, found, single _ _ stored (by simpa using same)]

theorem selectVoucher_alone (solo : Solo thread first (some now) rows [] world)
    (present : rows .vouchers id = some v)
    (single : ∀ key, ∀ w : VoucherRow, rows .vouchers key = some w → w.code = v.code → key = id) :
    Alone config thread (fun found after => found = some (id, v) ∧
      Solo thread first (some now) rows [] after) (selectVoucherForUpdate v.code) world := by
  refine surely_bind _ _ _ (alone_query solo _) ?_
  rintro _ w1 ⟨solo1, view, rfl, shows⟩
  rw [voucherByCode_single shows present single]
  refine surely_bind _ _ _ (alone_lock solo1 v present) ?_
  rintro _ w2 ⟨rfl, solo2⟩
  exact ⟨rfl, solo2⟩

/-- The voucher has expired by the time of `after`. -/
def Overdue (v : VoucherRow) (error : Failure) (after : World) : Prop :=
  error = .badRequest "Voucher expired" ∧ ∃ expiresAt ∈ v.expiresAt, expiresAt < after.clock

theorem expireOnTouch_alone (solo : Solo thread first (some now) rows [] world)
    (present : rows .vouchers id = some v) (linked : World.resolves rows .vouchers v = true) :
    Surely (server config) Choice.Works thread
      (Branch (fun _ after => Solo thread first (some now) rows [] after) (Overdue v))
      (expireOnTouch id v) world := by
  unfold expireOnTouch
  split
  · exact solo
  rename_i expiresAt expires
  refine surely_bind _ _ _ (alone_dateNow solo) ?_
  rintro date w1 ⟨solo1, _, passed⟩
  split
  · rename_i expired
    refine surely_bind _ _ _ (alone_update (solo1.since passed) v present linked) ?_
    intro _ w2 solo2
    exact ⟨rfl, expiresAt, expires, Int.lt_of_lt_of_le expired solo2.clock⟩
  · exact solo1

/-- What a redemption that finds the voucher comes to. -/
def Redeems (user : AuthUser) (id : Nat) (v : VoucherRow) : Except Failure Reply → World → Prop :=
  Branch
    (fun reply after => reply = .redeemed v.durationMinutes v.deviceLimit ∧
      ∃ w : VoucherRow, after.db.store .vouchers id = some w ∧ w.status = .redeemed ∧
        w.redeemedBy = some user.id)
    (Overdue v)

theorem redeem_alone (user : AuthUser) (dto : RedeemVoucherDto)
    (solo : Solo thread first none rows [] world) (present : rows .vouchers id = some v)
    (single : ∀ key, ∀ w : VoucherRow, rows .vouchers key = some w → w.code = v.code → key = id)
    (unused : v.status = .unused) (typed : toUpperCase (trim dto.code) = v.code)
    (linked : World.resolves rows .vouchers v = true) (owner : rows .users user.id = some account) :
    Surely (server config) Choice.Works thread (Redeems user id v)
      (VouchersService.redeem user dto) world := by
  have redeemed : (v.status == .redeemed) = false := by rw [unused]; rfl
  have expired : (v.status == .expired) = false := by rw [unused]; rfl
  refine surely_then _ _ _ (surely_tx solo _ ?_)
  intro w1 now solo1
  simp only [typed]
  refine surely_bind _ _ _ (selectVoucher_alone solo1 present single) ?_
  rintro _ w2 ⟨rfl, solo2⟩
  simp only [Prog.orThrow, Prog.throwIf, redeemed, expired, Prog.bind_eq, Prog.done_bind,
    Bool.false_eq_true, if_false]
  refine surely_then _ _ _ (surely_mono ?_ _ _ (expireOnTouch_alone solo2 present linked))
  rintro (error | _) w3 reached
  · obtain ⟨same, expiresAt, expires, passed⟩ := reached
    exact fun after later => ⟨same, expiresAt, expires, Int.lt_of_lt_of_le passed later⟩
  -- redeemed_by is a foreign key as well
  have linked' : World.resolves rows .vouchers (Op.run .vouchers (.redeem user.id) now v) =
      true := by
    have creator : (rows .users v.createdBy).isSome := by
      simp only [World.resolves, references, List.all_cons, Bool.and_eq_true] at linked
      exact linked.1
    simp [World.resolves, references, Op.run, VoucherOp.run, creator, owner]
  refine surely_bind _ _ _ (alone_update reached v present linked') ?_
  intro _ w4 solo4
  have owner4 : RowLock.runEntry Act.run rows (alter .vouchers id (.redeem user.id) now) .users
      user.id = some account := by
    simp [owner]
  refine surely_bind _ _ _
    (alone_update solo4 account owner4 (by simp [World.resolves, references])) ?_
  intro _ w5 solo5
  refine ⟨_, [], solo5, ?_⟩
  intro w6 solo6
  refine surely_bind _ _ _ (alone_log solo6 _ _) ?_
  intro _ w7 solo7
  refine ⟨rfl, Op.run .vouchers (.redeem user.id) now v, ?_, rfl, rfl⟩
  rw [solo7.store]
  simp [present]

end Redeeming

structure Idle (world : World) : Prop where
  sound : RowLock.Sound Act.run world.db
  quiet : ∀ thread, world.db.txns thread = none

section Batch
variable {config : Config} {thread : Nat} {first world : World} {rows : Store}

theorem idle_solo (idle : Idle world) : Solo thread world none world.db.store [] world := by
  refine ⟨⟨fun other _ => idle.quiet other, ?_, ?_, ?_, ?_⟩, ⟨[], by simp⟩, Int.le_refl _⟩
  · intro table id holder held
    have opened := idle.sound.owned holder table id held
    rw [idle.quiet holder] at opened
    cases opened
  · simp [idle.quiet thread]
  · exact RowLock.view_outside (idle.quiet thread)
  · intro table id present
    by_contra beyond
    rw [(idle.sound.unused table id (not_lt.mp beyond)).1] at present
    cases present

theorem solo_idle (solo : Solo thread first none rows [] world)
    (sound : RowLock.Sound Act.run world.db) : Idle world := by
  refine ⟨sound, ?_⟩
  intro other
  by_cases same : other = thread
  · subst same
    simpa using solo.db.inside
  · exact solo.db.others other same

theorem valid_idle (valid : Valid world) : Idle world := by
  refine ⟨⟨?_, ?_, ?_, ?_, ?_⟩, valid.quiet⟩
  · simp [valid.unlocked]
  · simp [valid.quiet]
  · simp [valid.quiet]
  · simp [valid.quiet]
  · intro table id beyond
    refine ⟨?_, valid.unlocked table id⟩
    by_contra present
    exact absurd (valid.numbered table id (Option.ne_none_iff_isSome.mp present))
      (not_lt.mpr beyond)

theorem generate_idle (actor : AuthUser) (dto : GenerateVouchersDto) (attempts : Nat)
    (idle : Idle first) {post : Except Failure Reply → World → Prop}
    (sure : Surely (server config) Choice.Works thread post
      (VouchersService.generate config actor dto attempts) first) :
    Surely (server config) Choice.Works thread
      (fun outcome after => post outcome after ∧ RowLock.Sound Act.run after.db)
      (VouchersService.generate config actor dto attempts) first :=
  surely_kept (fun _ _ _ _ _ _ executed sound => dbStep_sound sound (exec_cases executed).2.2.2)
    _ (generate_uses actor dto attempts) first idle.sound sure

theorem batch_single {dto : GenerateVouchersDto} {before after : Store}
    {batch : List (Nat × VoucherRow)} {id key : Nat} {v w : VoucherRow}
    (given : BatchOf config dto before after batch) (member : (id, v) ∈ batch)
    (present : after .vouchers key = some w) (same : w.code = v.code) : key = id := by
  by_cases listed : ∃ other, (key, other) ∈ batch
  · obtain ⟨other, member'⟩ := listed
    obtain rfl : w = other := Option.some.inj (present.symm.trans (given.stored key other member'))
    have entry := List.inj_on_of_nodup_map given.distinct member' member same
    exact congrArg Prod.fst entry
  · have old := given.untouched key fun other member' => listed ⟨other, member'⟩
    exact absurd ⟨key, w, old ▸ present, same⟩ (given.new id v member).2

/-- Whoever has an account and types the code, in capital or small letters,
redeems the voucher unless it has expired. -/
def Redeemable (config : Config) (pool : ServerPool) (id : Nat) (v : VoucherRow) : Prop :=
  ∀ typed, Casing v.code typed → ∃ dto : RedeemVoucherDto, dto.code = typed ∧
    ∀ user : AuthUser, (pool.state.db.store .users user.id).isSome →
      ∀ choices : Nat → Choice, (∀ n, (choices n).Works) →
        ∃ steps final, run (server config) pool (.start (.redeem user dto) ::
            (List.range steps).map fun n => .advance pool.threads.length (choices n)) = some final ∧
          ∃ outcome, answerOf final pool.threads.length = some outcome ∧
            Redeems user id v outcome final.state

theorem batch_redeemable {pool : ServerPool} {dto : GenerateVouchersDto} {before : Store}
    {batch : List (Nat × VoucherRow)} {id : Nat} {v : VoucherRow} (idle : Idle pool.state)
    (given : BatchOf config dto before pool.state.db.store batch) (member : (id, v) ∈ batch)
    (shaped : Shaped v.code) (owner : (pool.state.db.store .users v.createdBy).isSome)
    (untouched : v.redeemedBy = none) : Redeemable config pool id v := by
  intro typed casing
  obtain ⟨redeemed, same, normal⟩ := casing_accepted shaped casing
  refine ⟨redeemed, same, ?_⟩
  intro user known choices works
  obtain ⟨account, present⟩ := Option.isSome_iff_exists.mp known
  have idle' : Idle (pool.state.start (.redeem user redeemed)) := ⟨idle.sound, idle.quiet⟩
  have linked : World.resolves pool.state.db.store .vouchers v = true := by
    simp [World.resolves, references, owner, untouched]
  refine call_run (.redeem user redeemed) pool ?_ choices works
  exact redeem_alone user redeemed (idle_solo idle') (given.stored id v member)
    (fun key w found code => batch_single given member found code) (given.given id v member).1
    (same ▸ normal) linked present

end Batch

/-- Run by itself, generate ends as soon as the random bytes have offered enough
new codes, and then the batch is exactly what was asked for; with parameters that
the columns do not take it throws and inserts nothing. -/
theorem generate_exact (config : Config) (pool : ServerPool) (idle : Idle pool.state)
    (actor : AuthUser) (dto : GenerateVouchersDto) (attempts : Nat)
    (choices : Nat → Choice) (works : ∀ n, (choices n).Works) :
    ∃ steps final, run (server config) pool (.start (.generate actor dto attempts) ::
        (List.range steps).map fun n => .advance pool.threads.length (choices n)) = some final ∧
      (dto.storable config = true →
        (∃ rows, answerOf final pool.threads.length = some (.ok (.vouchers rows)) ∧
          Offers (Known pool.state.db.store) dto.count (drawn pool.state final.state) ∧
          BatchOf config dto pool.state.db.store final.state.db.store rows ∧
          ∀ id v, (id, v) ∈ rows → Redeemable config final id v) ∨
        ∃ error, answerOf final pool.threads.length = some (.error error) ∧
          Unfilled actor dto pool.state.db.store (drawn pool.state final.state) attempts error) ∧
      (dto.storable config = false →
        (∃ error, answerOf final pool.threads.length = some (.error error)) ∧
          final.state.db.store = pool.state.db.store) := by
  have idle' : Idle (pool.state.start (.generate actor dto attempts)) := ⟨idle.sound, idle.quiet⟩
  cases stored : dto.storable config with
  | false =>
      obtain ⟨steps, final, ran, outcome, answered, reached⟩ := call_run
        (.generate actor dto attempts) pool
        (generate_refused attempts stored (idle_solo idle')) choices works
      refine ⟨steps, final, ran, by simp, fun _ => ?_⟩
      cases outcome with
      | error error =>
          have solo : Solo _ _ _ _ _ final.state := reached
          exact ⟨⟨error, answered⟩, solo.store⟩
      | ok reply => exact absurd reached id
  | true =>
      obtain ⟨steps, final, ran, outcome, answered, reached, sound⟩ := call_run
        (.generate actor dto attempts) pool (generate_idle actor dto attempts idle'
          (generate_alone attempts stored (idle_solo idle'))) choices works
      refine ⟨steps, final, ran, fun _ => ?_, by simp⟩
      cases outcome with
      | error error => exact Or.inr ⟨error, answered, reached⟩
      | ok reply =>
          obtain ⟨rows, rfl, offers, batch, codes, solo⟩ := reached
          refine Or.inl ⟨rows, answered, offers, batch, ?_⟩
          intro id v member
          obtain ⟨shaped, untouched, owner⟩ := codes id v member
          have owner' : (final.state.db.store .users v.createdBy).isSome := by
            rw [batch.others .users (by decide)]
            exact owner
          exact batch_redeemable (solo_idle solo sound) batch member shaped owner' untouched

theorem generate_exact_crowded : ∃ steps final, run (server shop) ⟨crowded, []⟩
        (.start (.generate guest hourVoucher 1) ::
          (List.range steps).map fun _ => .advance 0 {}) = some final ∧
      ((∃ rows, answerOf final 0 = some (.ok (.vouchers rows)) ∧
          Offers (Known crowded.db.store) hourVoucher.count (drawn crowded final.state) ∧
          BatchOf shop hourVoucher crowded.db.store final.state.db.store rows ∧
          ∀ id v, (id, v) ∈ rows → Redeemable shop final id v) ∨
        ∃ error, answerOf final 0 = some (.error error) ∧
          Unfilled guest hourVoucher crowded.db.store (drawn crowded final.state) 1 error) := by
  obtain ⟨steps, final, ran, stored, _⟩ := generate_exact shop ⟨crowded, []⟩
    (valid_idle crowded_valid) guest hourVoucher 1 (fun _ => {}) (fun _ => rfl)
  exact ⟨steps, final, ran, stored (by decide)⟩

/-- 2^31 minutes, one more than an INT holds. -/
def agesVoucher : GenerateVouchersDto where
  count := 1
  durationMinutes := 2147483648
  deviceLimit := 2
  expiresAt := none
  countRange := hourVoucher.countRange
  durationMin := by decide
  limitMin := hourVoucher.limitMin

/-- The DTO admits the parameters, and generate throws and commits nothing. -/
theorem ages_refused : ∃ before after : ServerPool, Reached shop before ∧
    run (server shop) before ([.start (.generate staff agesVoucher 1)] ++ steps 1 1) =
      some after ∧
    answerOf after 1 = some (.error .query) ∧
    after.state.db.log.length = before.state.db.log.length := by
  obtain ⟨before, after, reached, ran, _, _, seen⟩ := plays_show shop opening
    ([.start (.generate staff agesVoucher 1)] ++ steps 1 1)
    (fun before after => (answerOf after 1,
      after.state.db.log.length == before.state.db.log.length))
    (some (.error .query), true) (by decide +kernel)
  obtain ⟨answer, same⟩ := Prod.mk.inj seen
  exact ⟨before, after, reached, ran, answer, beq_iff_eq.mp same⟩

end Cybera
