/-
JvmAssembly/Proofs/Repetition.lean

First occurrences and repetitions in a list.

The members of a list have keys.  A member is a repetition if a member in front of it has
the same key, and otherwise it is the first occurrence of its key.  Both notions are about
places, and

    firstsBy key as,   repeatsBy key as

are the members of `as` at such places, in their order.

One more member at the end goes behind the one or the other, and leaves what was there as
it is (`firstsBy_concat`, `repeatsBy_concat`).  Everything else follows from this step by
induction from the end of the list: nothing is lost, the first occurrences have every key
once, and a key is looked up among them with the same result as in the whole list.
-/
import Mathlib.Data.Finset.Card

namespace JvmAssembly

variable {α κ : Type}

/-! ### Members by what stands in front of them -/

/-- The members of a list for which something holds that may depend on the members in front. -/
def selected (holds : List α → α → Bool) (as : List α) : List α :=
  (as.zipIdx.filter fun (a, index) => holds (as.take index) a).map Prod.fst

/-- Whether the last member is selected depends on all the others, and they do not depend on it. -/
theorem selected_concat (holds : List α → α → Bool) (as : List α) (a : α) :
    selected holds (as ++ [a]) = selected holds as ++ if holds as a then [a] else [] := by
  -- a member at the end is in front of no other
  have hfront : ∀ member ∈ as.zipIdx,
      holds ((as ++ [a]).take member.2) member.1 = holds (as.take member.2) member.1 := by
    intro member hmember
    have hindex : member.2 < as.length := by
      simpa using List.snd_lt_of_mem_zipIdx hmember
    rw [List.take_append_of_le_length (Nat.le_of_lt hindex)]
  unfold selected
  rw [List.zipIdx_append, List.filter_append, List.map_append, List.filter_congr hfront]
  congr 1
  cases h : holds as a <;> simp [h]

variable [DecidableEq κ] {key : α → κ}

/-- Whether a member in front has the same key. -/
def isRepeat (key : α → κ) (front : List α) (a : α) : Bool :=
  key a ∈ front.map key

/-- The members that are the first with their key. -/
def firstsBy (key : α → κ) (as : List α) : List α :=
  selected (fun front a => !isRepeat key front a) as

/-- The members that are not the first with their key. -/
def repeatsBy (key : α → κ) (as : List α) : List α :=
  selected (isRepeat key) as

/-- A last member is a first one if its key is new. -/
theorem firstsBy_concat (as : List α) (a : α) :
    firstsBy key (as ++ [a]) = firstsBy key as ++ if key a ∈ as.map key then [] else [a] := by
  unfold firstsBy
  rw [selected_concat]
  by_cases h : key a ∈ as.map key <;> simp [isRepeat, h]

/-- A last member is a repetition if its key is not new. -/
theorem repeatsBy_concat (as : List α) (a : α) :
    repeatsBy key (as ++ [a]) = repeatsBy key as ++ if key a ∈ as.map key then [a] else [] := by
  unfold repeatsBy
  rw [selected_concat]
  by_cases h : key a ∈ as.map key <;> simp [isRepeat, h]

/-! ### Nothing is lost -/

/-- Every member is a first occurrence or a repetition, and not both. -/
theorem perm_firstsBy_repeatsBy (key : α → κ) (as : List α) :
    (firstsBy key as ++ repeatsBy key as).Perm as := by
  induction as using List.reverseRecOn with
  | nil => exact .nil
  | append_singleton as a ih =>
    rw [firstsBy_concat, repeatsBy_concat]
    split
    · rw [List.append_nil, ← List.append_assoc]
      exact ih.append_right [a]
    · rw [List.append_nil, List.append_assoc]
      exact List.perm_middle.trans ((ih.cons a).trans (List.perm_append_singleton a as).symm)

/-- There is no repetition exactly if the keys are distinct. -/
theorem repeatsBy_eq_nil_iff (key : α → κ) (as : List α) :
    repeatsBy key as = [] ↔ (as.map key).Nodup := by
  induction as using List.reverseRecOn with
  | nil => exact iff_of_true rfl List.nodup_nil
  | append_singleton as a ih =>
    rw [repeatsBy_concat, List.append_eq_nil_iff, ih, List.map_append, List.map_singleton,
      ← List.concat_eq_append, List.nodup_concat, and_comm]
    simp

/-- With distinct keys, every member is a first occurrence. -/
theorem firstsBy_of_nodup {as : List α} (h : (as.map key).Nodup) : firstsBy key as = as := by
  induction as using List.reverseRecOn with
  | nil => rfl
  | append_singleton as a ih =>
    rw [List.map_append, List.map_singleton, ← List.concat_eq_append, List.nodup_concat] at h
    rw [firstsBy_concat, if_neg h.1, ih h.2]

/-! ### Keys -/

/-- The first occurrences have all the keys. -/
theorem mem_map_firstsBy {as : List α} {k : κ} :
    k ∈ (firstsBy key as).map key ↔ k ∈ as.map key := by
  induction as using List.reverseRecOn with
  | nil => rfl
  | append_singleton as a ih =>
    rw [firstsBy_concat, List.map_append, List.mem_append, ih, List.map_append, List.mem_append]
    split
    · next hmem =>
      refine or_congr_right' fun hnew => ?_
      simp only [List.map_nil, List.not_mem_nil, List.map_singleton, List.mem_singleton, false_iff]
      rintro rfl
      exact hnew hmem
    · rfl

/-- The first occurrences have no key twice. -/
theorem nodup_map_firstsBy (key : α → κ) (as : List α) : ((firstsBy key as).map key).Nodup := by
  induction as using List.reverseRecOn with
  | nil => exact List.nodup_nil
  | append_singleton as a ih =>
    rw [firstsBy_concat]
    split
    · rwa [List.append_nil]
    · next hnew =>
      rw [List.map_append, List.map_singleton, ← List.concat_eq_append]
      exact ih.concat (mt mem_map_firstsBy.mp hnew)

/-- There are as many first occurrences as there are keys. -/
theorem length_firstsBy (key : α → κ) (as : List α) :
    (firstsBy key as).length = (as.map key).toFinset.card := by
  have hkeys : ((firstsBy key as).map key).toFinset = (as.map key).toFinset := by
    ext k
    rw [List.mem_toFinset, List.mem_toFinset, mem_map_firstsBy]
  calc (firstsBy key as).length
      = ((firstsBy key as).map key).length := (List.length_map key).symm
    _ = ((firstsBy key as).map key).toFinset.card :=
      (List.toFinset_card_of_nodup (nodup_map_firstsBy key as)).symm
    _ = (as.map key).toFinset.card := by rw [hkeys]

/-- A key is found among the first occurrences exactly where it is found in the list. -/
theorem find?_firstsBy (key : α → κ) (as : List α) (k : κ) :
    (firstsBy key as).find? (fun a => key a == k) = as.find? fun a => key a == k := by
  induction as using List.reverseRecOn with
  | nil => rfl
  | append_singleton as a ih =>
    rw [firstsBy_concat, List.find?_append, List.find?_append, ih]
    split
    · next hmem =>
      -- the repetition is not found either, since the first occurrence stands in front of it
      rw [List.find?_singleton, List.find?_nil]
      split
      · next hkey =>
        obtain ⟨first, hfirst, hsame⟩ := List.mem_map.mp hmem
        have hfound : (as.find? fun a => key a == k).isSome :=
          List.find?_isSome.mpr ⟨first, hfirst, by rwa [hsame]⟩
        rw [Option.or_of_isSome hfound, Option.or_of_isSome hfound]
      · rfl
    · rfl

end JvmAssembly
