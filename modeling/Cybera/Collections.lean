import Mathlib

/-!
Lists that name each thing once: looking up a key, cutting a sorted list, and
drawing until there are enough different items that nobody had.
-/

namespace Collections

section Lookup
variable {α β : Type} [BEq α] [LawfulBEq α] {entries : List (α × β)} {key : α} {value : β}

theorem lookup_iff_mem (once : (entries.map Prod.fst).Nodup) :
    entries.lookup key = some value ↔ (key, value) ∈ entries := by
  rw [List.lookup_eq_some_iff]
  constructor
  · rintro ⟨before, after, split, _⟩
    simp [split]
  · intro member
    obtain ⟨before, after, split⟩ := List.append_of_mem member
    refine ⟨before, after, split, ?_⟩
    rw [split, List.map_append, List.map_cons, List.nodup_append] at once
    intro other earlier
    have apart := once.2.2 other.1 (List.mem_map_of_mem earlier) key (by simp)
    simpa using apart.symm

end Lookup

section Sorted
variable {α : Type} [LinearOrder α]

theorem split_below {first items : List α} {other : α → Bool}
    (others : ∀ item, other item = true ↔ item ∉ first) (sorted : items.Pairwise (· < ·))
    (below : first.Pairwise (· < ·)) (among : ∀ item ∈ first, item ∈ items)
    (above : ∀ later ∈ items, later ∉ first → ∀ item ∈ first, item < later) :
    first ++ items.filter other = items := by
  have joined : (first ++ items.filter other).Pairwise (· < ·) := by
    refine List.pairwise_append.mpr ⟨below, sorted.filter _, ?_⟩
    intro item member later rest
    obtain ⟨listed, new⟩ := List.mem_filter.mp rest
    exact above later listed ((others later).mp new) item member
  have same : (first ++ items.filter other).Perm items := by
    have once : ∀ {list : List α}, list.Pairwise (· < ·) → list.Nodup :=
      fun ordered => ordered.imp fun less => ne_of_lt less
    refine (List.perm_ext_iff_of_nodup (once joined) (once sorted)).mpr ?_
    intro item
    rw [List.mem_append, List.mem_filter, others]
    constructor
    · rintro (member | ⟨member, _⟩)
      · exact among item member
      · exact member
    · intro member
      by_cases old : item ∈ first
      · exact Or.inl old
      · exact Or.inr ⟨member, old⟩
  exact same.eq_of_pairwise (fun _ _ _ _ less more => absurd more (lt_asymm less)) joined sorted

end Sorted

section Drawing
variable {α : Type} {taken : α → Prop} {draws kept : List α} {item : α}

/-- Among the draws are `count` different items that were not taken. -/
def Offers (taken : α → Prop) (count : Nat) (draws : List α) : Prop :=
  ∃ picks : List α, picks.Nodup ∧ picks.length = count ∧ ∀ pick ∈ picks, pick ∈ draws ∧ ¬ taken pick

/-- Each draw that was not taken is kept, once. -/
structure Collected (taken : α → Prop) (draws kept : List α) : Prop where
  once : kept.Nodup
  mem : ∀ item, item ∈ kept ↔ item ∈ draws ∧ ¬ taken item

theorem collected_nothing : Collected taken [] [] := ⟨List.nodup_nil, by simp⟩

theorem collected_skip (holds : Collected taken draws kept) (known : taken item ∨ item ∈ kept) :
    Collected taken (draws ++ [item]) kept := by
  refine ⟨holds.once, ?_⟩
  intro other
  rw [holds.mem, List.mem_append, List.mem_singleton]
  constructor
  · rintro ⟨drawn, free⟩
    exact ⟨Or.inl drawn, free⟩
  · rintro ⟨drawn | rfl, free⟩
    · exact ⟨drawn, free⟩
    · exact (holds.mem _).mp (known.resolve_left free)

theorem collected_take (holds : Collected taken draws kept) (free : ¬ taken item)
    (new : item ∉ kept) :
    Collected taken (draws ++ [item]) (kept ++ [item]) := by
  constructor
  · refine List.nodup_append.mpr ⟨holds.once, by simp, ?_⟩
    rintro other member _ last rfl
    exact new (List.mem_singleton.mp last ▸ member)
  · intro other
    simp only [List.mem_append, List.mem_singleton, holds.mem]
    constructor
    · rintro (⟨drawn, free'⟩ | rfl)
      · exact ⟨Or.inl drawn, free'⟩
      · exact ⟨Or.inr rfl, free⟩
    · rintro ⟨drawn | rfl, free'⟩
      · exact Or.inl ⟨drawn, free'⟩
      · exact Or.inr rfl

theorem collected_offers (holds : Collected taken draws kept) (count : Nat) :
    Offers taken count draws ↔ count ≤ kept.length := by
  constructor
  · rintro ⟨picks, once, rfl, offered⟩
    exact (once.subperm fun pick member => (holds.mem pick).mpr (offered pick member)).length_le
  · intro enough
    refine ⟨kept.take count, holds.once.sublist (List.take_sublist _ _), by simpa using enough, ?_⟩
    intro pick member
    exact (holds.mem pick).mp (List.mem_of_mem_take member)

end Drawing
end Collections
