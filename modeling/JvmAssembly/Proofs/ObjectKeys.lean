/-
JvmAssembly/Proofs/ObjectKeys.lean

The keys of an object, and what becomes of pairs that repeat one.

An object keeps its pairs as they are written.  Its entries are the first occurrences of
the keys and its duplicates are the repetitions (`entries_eq`, `duplicates_eq`), so that
everything about keys follows from facts about lists: no pair is lost, the keys are
distinct, and a key is looked up among the entries with the same result as among all pairs.

When the pairs are read one by one, each is put into one of two containers, and its key is
compared with those of the entries so far only (`Object.Parts`).  At the end the containers
are the two views:

    Parts.ofPairs object.pairs = ⟨object.entries, object.duplicates⟩.
-/
import JvmAssembly.Element.Container
import JvmAssembly.Proofs.Repetition

namespace JvmAssembly

variable {α : Type}

namespace Object

/-! ### Entries and duplicates -/

/-- Behind some pairs, the entries and the duplicates go on with what is new and what is not,
if the keys in hand are those of the pairs in front. -/
theorem parts_append {seen : List String} {front : List (Entry α)}
    (h : ∀ key, key ∈ seen ↔ key ∈ front.map Entry.keyText) (pairs : List (Entry α)) :
    firstsBy Entry.keyText (front ++ pairs)
        = firstsBy Entry.keyText front ++ firstsAfter seen pairs
      ∧ repeatsBy Entry.keyText (front ++ pairs)
        = repeatsBy Entry.keyText front ++ repeatsAfter seen pairs := by
  induction pairs generalizing seen front with
  | nil => simp [firstsAfter, repeatsAfter]
  | cons pair rest ih =>
    have hsplit : front ++ pair :: rest = front ++ [pair] ++ rest := by simp
    have hpair : pair.key.text ∈ seen ↔ pair.keyText ∈ front.map Entry.keyText := h pair.keyText
    unfold firstsAfter repeatsAfter
    by_cases hseen : pair.key.text ∈ seen
    · -- the key is in hand, and stays there
      have hkeys : ∀ key, key ∈ seen ↔ key ∈ (front ++ [pair]).map Entry.keyText := by
        intro key
        rw [h, List.map_append, List.mem_append, List.map_singleton, List.mem_singleton]
        refine (or_iff_left_of_imp ?_).symm
        rintro rfl
        exact hpair.mp hseen
      obtain ⟨hfirsts, hrepeats⟩ := ih hkeys
      rw [hsplit, hfirsts, hrepeats, firstsBy_concat, repeatsBy_concat]
      simp [hseen, hpair.mp hseen]
    · -- the key is new, and goes in hand
      have hkeys : ∀ key, key ∈ pair.key.text :: seen
          ↔ key ∈ (front ++ [pair]).map Entry.keyText := by
        intro key
        rw [List.mem_cons, h, List.map_append, List.mem_append, List.map_singleton,
          List.mem_singleton, or_comm]
        rfl
      obtain ⟨hfirsts, hrepeats⟩ := ih hkeys
      rw [hsplit, hfirsts, hrepeats, firstsBy_concat, repeatsBy_concat]
      simp [hseen, mt hpair.mpr hseen]

/-- The entries are the pairs whose key is that of no earlier pair. -/
theorem entries_eq (object : Object α) : object.entries = firstsBy Entry.keyText object.pairs :=
  (@parts_append α [] [] (fun _ => .rfl) object.pairs).1.symm

/-- The duplicates are the pairs whose key is that of an earlier pair. -/
theorem duplicates_eq (object : Object α) :
    object.duplicates = repeatsBy Entry.keyText object.pairs :=
  (@parts_append α [] [] (fun _ => .rfl) object.pairs).2.symm

/-- Each pair of an object is the first of its key or a duplicate. -/
theorem perm_entries_duplicates (object : Object α) :
    (object.entries ++ object.duplicates).Perm object.pairs := by
  rw [entries_eq, duplicates_eq]
  exact perm_firstsBy_repeatsBy Entry.keyText object.pairs

/-! ### Keys -/

theorem keys_eq (object : Object α) : object.keys = object.entries.map Entry.keyText := rfl

/-- Among the keys there is no repetition. -/
theorem nodup_keys (object : Object α) : object.keys.Nodup := by
  rw [keys_eq, entries_eq]
  exact nodup_map_firstsBy Entry.keyText object.pairs

/-- There are as many entries as there are different keys among the pairs. -/
theorem size_eq (object : Object α) :
    object.size = (object.pairs.map Entry.keyText).toFinset.card := by
  unfold size
  rw [entries_eq, length_firstsBy]

/-- A key is not found exactly if no pair has it. -/
theorem get?_eq_none_iff_keyText {object : Object α} {key : String} :
    object.get? key = none ↔ key ∉ object.pairs.map Entry.keyText := by
  unfold get?
  rw [List.find?_eq_none, List.mem_map]
  simp [Entry.keyText]

theorem contains_iff_keyText {object : Object α} {key : String} :
    object.contains key ↔ key ∈ object.pairs.map Entry.keyText := by
  unfold contains
  rw [← not_iff_not, ← get?_eq_none_iff_keyText]
  simp

theorem contains_of_value? {object : Object α} {key : String} {a : α}
    (h : object.value? key = some a) : object.contains key := by
  obtain ⟨pair, hpair, -⟩ := Option.bind_eq_some_iff.mp h
  unfold contains
  rw [hpair]
  rfl

/-- A key is looked up with the first pair that has it. -/
theorem get?_eq_some_iff_first {object : Object α} {key : String} {pair : Entry α} :
    object.get? key = some pair
      ↔ ∃ front back, object.pairs = front ++ pair :: back ∧ pair.keyText = key
        ∧ key ∉ front.map Entry.keyText := by
  unfold get?
  rw [List.find?_eq_some_iff_append]
  constructor
  · rintro ⟨hkey, front, back, hpairs, hfront⟩
    refine ⟨front, back, hpairs, beq_iff_eq.mp hkey, fun hmem => ?_⟩
    obtain ⟨earlier, hearlier, hsame⟩ := List.mem_map.mp hmem
    have hother : earlier.keyText ≠ key := by simpa [Entry.keyText] using hfront earlier hearlier
    exact hother hsame
  · rintro ⟨front, back, hpairs, hkey, hfront⟩
    refine ⟨beq_iff_eq.mpr hkey, front, back, hpairs, fun earlier hearlier => ?_⟩
    have hother : earlier.keyText ≠ key := fun hsame =>
      hfront (List.mem_map.mpr ⟨earlier, hearlier, hsame⟩)
    simpa [Entry.keyText] using hother

/-- The entries answer for all pairs. -/
theorem get?_eq_find?_entries (object : Object α) (key : String) :
    object.get? key = object.entries.find? fun entry => entry.keyText == key := by
  rw [entries_eq, find?_firstsBy]
  rfl

/-- As many keys as there are names, and each of the names: these are all keys. -/
theorem keys_complete_iff (object : Object α) {names : List String} (hnames : names.Nodup) :
    (object.size = names.length ∧ ∀ key ∈ names, object.contains key)
      ↔ (object.pairs.map Entry.keyText).toFinset = names.toFinset := by
  rw [size_eq, ← List.toFinset_card_of_nodup hnames]
  simp only [contains_iff_keyText]
  constructor
  · -- the names are among the keys, and there is no room for another key
    rintro ⟨hcard, hcontains⟩
    have hsubset : names.toFinset ⊆ (object.pairs.map Entry.keyText).toFinset := by
      intro key hkey
      exact List.mem_toFinset.mpr (hcontains key (List.mem_toFinset.mp hkey))
    exact (Finset.eq_of_subset_of_card_le hsubset (Nat.le_of_eq hcard)).symm
  · intro heq
    refine ⟨by rw [heq], fun key hkey => ?_⟩
    rw [← List.mem_toFinset, heq, List.mem_toFinset]
    exact hkey

/-! ### Reading pairs one by one -/

namespace Parts

/-- One step: the entries so far have all the keys so far, so that it is enough to look at
them. -/
theorem insert_parts (pairs : List (Entry α)) (pair : Entry α) :
    (⟨firstsBy Entry.keyText pairs, repeatsBy Entry.keyText pairs⟩ : Parts α).insert pair
      = ⟨firstsBy Entry.keyText (pairs ++ [pair]), repeatsBy Entry.keyText (pairs ++ [pair])⟩ := by
  have hany : ((firstsBy Entry.keyText pairs).any fun entry => entry.keyText == pair.keyText)
      ↔ pair.keyText ∈ pairs.map Entry.keyText := by
    rw [← mem_map_firstsBy]
    simp
  unfold insert
  rw [firstsBy_concat, repeatsBy_concat]
  by_cases h : pair.keyText ∈ pairs.map Entry.keyText
  · simp only [if_pos (hany.mpr h), if_pos h, List.append_nil]
  · simp only [if_neg (mt hany.mp h), if_neg h, List.append_nil]

/-- All steps, one after the other. -/
theorem ofPairs_eq (pairs : List (Entry α)) :
    ofPairs pairs = ⟨firstsBy Entry.keyText pairs, repeatsBy Entry.keyText pairs⟩ := by
  induction pairs using List.reverseRecOn with
  | nil => rfl
  | append_singleton pairs pair ih =>
    unfold ofPairs at ih ⊢
    rw [List.foldl_concat, ih, insert_parts]

end Parts

end Object

/-- **An object parts its pairs without loss.**  The entries are the pairs whose key is that of
no earlier pair, and the duplicates are all other pairs, each in the order of the source;
together they are all the pairs, and they are what is built when the pairs are read one by
one.  The keys are those of the entries, without repetition.  A key is looked up with the
first pair of the source that has it, which is the entry for it, and without result exactly
if there is no such pair.  The size is the number of different keys. -/
theorem object_parts_pairs (object : Object α) :
    object.entries = firstsBy Entry.keyText object.pairs
      ∧ object.duplicates = repeatsBy Entry.keyText object.pairs
      ∧ (object.entries ++ object.duplicates).Perm object.pairs
      ∧ Object.Parts.ofPairs object.pairs = ⟨object.entries, object.duplicates⟩
      ∧ object.keys.Nodup
      ∧ object.keys = object.entries.map Entry.keyText
      ∧ (∀ (key : String) (pair : Entry α), object.get? key = some pair
        ↔ ∃ front back, object.pairs = front ++ pair :: back ∧ pair.keyText = key
          ∧ key ∉ front.map Entry.keyText)
      ∧ (∀ key : String, object.get? key = none ↔ key ∉ object.pairs.map Entry.keyText)
      ∧ (∀ key : String,
        object.get? key = object.entries.find? fun entry => entry.keyText == key)
      ∧ object.size = (object.pairs.map Entry.keyText).toFinset.card := by
  refine ⟨object.entries_eq, object.duplicates_eq, object.perm_entries_duplicates, ?_,
    object.nodup_keys, object.keys_eq, ?_, ?_, object.get?_eq_find?_entries, object.size_eq⟩
  · rw [Object.Parts.ofPairs_eq, object.entries_eq, object.duplicates_eq]
  · intro key pair
    exact Object.get?_eq_some_iff_first
  · intro key
    exact Object.get?_eq_none_iff_keyText

end JvmAssembly
