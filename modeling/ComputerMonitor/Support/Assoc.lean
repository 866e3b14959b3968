import Mathlib

/-! Ordered maps as association lists: `std::map` with its entries in the order of their keys. -/

namespace ComputerMonitor.Assoc

variable {κ ν : Type*}

def keys (ms : List (κ × ν)) : List κ := ms.map (·.1)

@[simp] theorem keys_nil : keys ([] : List (κ × ν)) = [] := rfl

@[simp] theorem keys_cons (m : κ × ν) (ms : List (κ × ν)) : keys (m :: ms) = m.1 :: keys ms := rfl

variable [DecidableEq κ]

def find (k : κ) : List (κ × ν) → Option ν
  | [] => none
  | (k', v) :: ms => if k' = k then some v else find k ms

def erase (k : κ) (ms : List (κ × ν)) : List (κ × ν) := ms.filter fun m => m.1 ≠ k

theorem find_eq_none_iff {k : κ} {ms : List (κ × ν)} : find k ms = none ↔ k ∉ keys ms := by
  induction ms with
  | nil => simp [find]
  | cons m ms ih =>
    rw [find]
    split_ifs with h
    · simp [h]
    · simp [ih, Ne.symm h]

theorem mem_of_find {k : κ} {v : ν} {ms : List (κ × ν)} (h : find k ms = some v) : (k, v) ∈ ms := by
  induction ms with
  | nil => cases h
  | cons m ms ih =>
    obtain ⟨k', w⟩ := m
    rw [find] at h
    split_ifs at h with hk
    · cases h
      simp [hk]
    · exact List.mem_cons_of_mem _ (ih h)

variable [LT κ] [DecidableLT κ]

/-- Insertion at the key's place, over the old value if there is one. -/
def insert (k : κ) (v : ν) : List (κ × ν) → List (κ × ν)
  | [] => [(k, v)]
  | (k', v') :: ms =>
    if k < k' then (k, v) :: (k', v') :: ms
    else if k = k' then (k, v) :: ms
    else (k', v') :: insert k v ms

/-- `std::map::emplace`, which leaves the value of a key that is there. -/
def emplace (k : κ) (v : ν) (ms : List (κ × ν)) : List (κ × ν) :=
  if (find k ms).isSome then ms else insert k v ms

theorem find_insert (k : κ) (v : ν) (ms : List (κ × ν)) (j : κ) :
    find j (insert k v ms) = if k = j then some v else find j ms := by
  induction ms with
  | nil => simp [insert, find]
  | cons m ms ih =>
    obtain ⟨k', w⟩ := m
    rw [insert]
    by_cases hlt : k < k'
    · rw [if_pos hlt, find]
    · by_cases heq : k = k'
      · subst heq
        simp only [hlt, find, if_true, if_false]
        split_ifs <;> rfl
      · simp only [hlt, heq, find, ih, if_false]
        by_cases hj : k = j
        · subst hj
          simp [Ne.symm heq]
        · simp [hj]

/-- Inserting a new key adds that entry and keeps the others. -/
theorem insert_perm {k : κ} {ms : List (κ × ν)} (h : k ∉ keys ms) (v : ν) :
    (insert k v ms).Perm ((k, v) :: ms) := by
  induction ms with
  | nil => rfl
  | cons m ms ih =>
    rw [keys_cons, List.mem_cons, not_or] at h
    rw [insert]
    split_ifs with hlt heq
    · rfl
    · exact absurd heq h.1
    · exact ((ih h.2).cons m).trans (.swap (k, v) m ms)

theorem keys_insert {k : κ} {ms : List (κ × ν)} (h : k ∉ keys ms) (v : ν) :
    (keys (insert k v ms)).Perm (k :: keys ms) :=
  (insert_perm h v).map _

theorem mem_insert {k : κ} {v : ν} {ms : List (κ × ν)} {m : κ × ν} (h : m ∈ insert k v ms) :
    m = (k, v) ∨ m ∈ ms := by
  induction ms with
  | nil => exact .inl (List.mem_singleton.mp h)
  | cons n ms ih =>
    rw [insert] at h
    split_ifs at h
    · exact List.mem_cons.mp h
    · rcases List.mem_cons.mp h with h | h
      · exact .inl h
      · exact .inr (List.mem_cons_of_mem _ h)
    · rcases List.mem_cons.mp h with h | h
      · exact .inr (h ▸ List.mem_cons_self)
      · exact (ih h).imp_right (List.mem_cons_of_mem _)

/-- The entries of `ps`, one after the other. -/
def insertAll (ps ms : List (κ × ν)) : List (κ × ν) := ps.foldl (fun ms p => insert p.1 p.2 ms) ms

@[simp] theorem insertAll_nil (ms : List (κ × ν)) : insertAll [] ms = ms := rfl

@[simp] theorem insertAll_cons (p : κ × ν) (ps ms : List (κ × ν)) :
    insertAll (p :: ps) ms = insertAll ps (insert p.1 p.2 ms) := rfl

theorem insertAll_append (ps qs ms : List (κ × ν)) :
    insertAll (ps ++ qs) ms = insertAll qs (insertAll ps ms) := by
  rw [insertAll, List.foldl_append, insertAll, insertAll]

/-- Entries with new and distinct keys are all added. -/
theorem insertAll_perm {ps ms : List (κ × ν)} (h : (keys ps ++ keys ms).Nodup) :
    (insertAll ps ms).Perm (ps ++ ms) := by
  induction ps generalizing ms with
  | nil => rfl
  | cons p ps ih =>
    rw [keys_cons, List.cons_append] at h
    have hp : p.1 ∉ keys ms := fun hp => (List.nodup_cons.mp h).1 (List.mem_append_right _ hp)
    have hkeys : (keys ps ++ keys (insert p.1 p.2 ms)).Perm (p.1 :: (keys ps ++ keys ms)) :=
      ((keys_insert hp p.2).append_left _).trans List.perm_middle
    rw [insertAll_cons]
    exact ((ih (hkeys.nodup_iff.mpr h)).trans ((insert_perm hp p.2).append_left ps)).trans
      List.perm_middle

theorem keys_insertAll {ps ms : List (κ × ν)} (h : (keys ps ++ keys ms).Nodup) :
    (keys (insertAll ps ms)).Perm (keys ps ++ keys ms) := by
  rw [keys, keys, keys, ← List.map_append]
  exact (insertAll_perm h).map _

theorem find_insertAll_of_notMem {ps ms : List (κ × ν)} {j : κ} (h : j ∉ keys ps) :
    find j (insertAll ps ms) = find j ms := by
  induction ps generalizing ms with
  | nil => rfl
  | cons p ps ih =>
    rw [keys_cons, List.mem_cons, not_or] at h
    rw [insertAll_cons, ih h.2, find_insert, if_neg (Ne.symm h.1)]

/-- Distinct keys keep their own values. -/
theorem find_insertAll_of_mem {ps ms : List (κ × ν)} (hnd : (keys ps).Nodup) {k : κ} {v : ν}
    (h : (k, v) ∈ ps) : find k (insertAll ps ms) = some v := by
  induction ps generalizing ms with
  | nil => cases h
  | cons p ps ih =>
    rw [keys_cons, List.nodup_cons] at hnd
    rw [insertAll_cons]
    rcases List.mem_cons.mp h with rfl | h
    · rw [find_insertAll_of_notMem hnd.1, find_insert, if_pos rfl]
    · exact ih hnd.2 h

theorem find_insertAll {ps ms : List (κ × ν)} (hnd : (keys ps).Nodup) (j : κ) :
    find j (insertAll ps ms) = (find j ps).or (find j ms) := by
  cases h : find j ps with
  | none => exact find_insertAll_of_notMem (find_eq_none_iff.mp h)
  | some v => exact find_insertAll_of_mem hnd (mem_of_find h)

theorem mem_insertAll {ps ms : List (κ × ν)} {m : κ × ν} (h : m ∈ insertAll ps ms) :
    m ∈ ps ∨ m ∈ ms := by
  induction ps generalizing ms with
  | nil => exact .inr h
  | cons p ps ih =>
    rcases ih h with h | h
    · exact .inl (List.mem_cons_of_mem _ h)
    · rcases mem_insert h with rfl | h
      · exact .inl List.mem_cons_self
      · exact .inr h

/-- A key behind all others is inserted at the end. -/
theorem insert_last {k : κ} {ms : List (κ × ν)} (h : ∀ j ∈ keys ms, ¬k < j ∧ k ≠ j) (v : ν) :
    insert k v ms = ms ++ [(k, v)] := by
  induction ms with
  | nil => rfl
  | cons m ms ih =>
    have hm := h m.1 (by simp)
    have := ih fun j hj => h j (by simp [hj])
    rw [insert, if_neg hm.1, if_neg hm.2, this]
    rfl

/-- Entries in the order of their keys come out as they went in. -/
theorem insertAll_sorted {ps : List (κ × ν)}
    (h : (keys ps).Pairwise fun a b => ¬b < a ∧ b ≠ a) : insertAll ps [] = ps := by
  induction ps using List.reverseRecOn with
  | nil => rfl
  | append_singleton ps p ih =>
    rw [keys, List.map_append, List.pairwise_append] at h
    rw [insertAll_append, ih h.1, insertAll_cons, insertAll_nil, insert_last]
    intro j hj
    exact h.2.2 j hj p.1 (by simp)

theorem mem_keys_insert {k j : κ} {v : ν} {ms : List (κ × ν)} (h : j ∈ keys (insert k v ms)) :
    j = k ∨ j ∈ keys ms := by
  obtain ⟨m, hm, rfl⟩ := List.mem_map.mp h
  rcases mem_insert hm with rfl | hm
  · exact .inl rfl
  · exact .inr (List.mem_map.mpr ⟨m, hm, rfl⟩)

/-- Insertion keeps the keys in their order. -/
theorem sorted_insert (htrans : ∀ a b c : κ, a < b → b < c → a < c)
    (htri : ∀ a b : κ, ¬a < b → a ≠ b → b < a) (k : κ) (v : ν) {ms : List (κ × ν)}
    (h : (keys ms).Pairwise (· < ·)) : (keys (insert k v ms)).Pairwise (· < ·) := by
  induction ms with
  | nil => simp [insert]
  | cons m ms ih =>
    rw [keys_cons, List.pairwise_cons] at h
    rw [insert]
    split_ifs with hlt heq
    · simp only [keys_cons, List.pairwise_cons, List.mem_cons, forall_eq_or_imp]
      exact ⟨⟨hlt, fun j hj => htrans _ _ _ hlt (h.1 j hj)⟩, h⟩
    · rw [keys_cons, List.pairwise_cons]
      exact ⟨heq ▸ h.1, h.2⟩
    · rw [keys_cons, List.pairwise_cons]
      refine ⟨fun j hj => ?_, ih h.2⟩
      rcases mem_keys_insert hj with rfl | hj
      · exact htri _ _ hlt heq
      · exact h.1 j hj

theorem sorted_insertAll (htrans : ∀ a b c : κ, a < b → b < c → a < c)
    (htri : ∀ a b : κ, ¬a < b → a ≠ b → b < a) (ps : List (κ × ν)) {ms : List (κ × ν)}
    (h : (keys ms).Pairwise (· < ·)) : (keys (insertAll ps ms)).Pairwise (· < ·) := by
  induction ps generalizing ms with
  | nil => exact h
  | cons p ps ih => exact ih (sorted_insert htrans htri p.1 p.2 h)

end ComputerMonitor.Assoc
