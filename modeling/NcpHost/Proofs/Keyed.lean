import Mathlib.Data.List.Sort

/-! Lists of entries with a key: what looking up finds after entries are added, changed or taken
out. -/

namespace NcpHost.Keyed

variable {κ α : Type} [BEq κ] [LawfulBEq κ] [DecidableEq κ]

theorem lookup_filter_ne (entries : List (κ × α)) (k j : κ) :
    (entries.filter fun e => e.1 != k).lookup j = if j = k then none else entries.lookup j := by
  induction entries with
  | nil => simp
  | cons e rest ih =>
    obtain ⟨i, x⟩ := e
    by_cases hi : i = k
    · rw [List.filter_cons_of_neg (by simp [hi]), ih]
      by_cases hj : j = k
      · simp [hj]
      · simp [hj, List.lookup_cons, hi, beq_false_of_ne hj]
    · rw [List.filter_cons_of_pos (by simp [hi]), List.lookup_cons, List.lookup_cons, ih]
      by_cases hji : j = i
      · simp [hji, hi]
      · simp [beq_false_of_ne hji]

theorem lookup_map_at (entries : List (κ × α)) (k : κ) (f : α → α) (j : κ) :
    (entries.map fun e => if e.1 = k then (e.1, f e.2) else e).lookup j
      = if j = k then (entries.lookup j).map f else entries.lookup j := by
  induction entries with
  | nil => simp
  | cons e rest ih =>
    obtain ⟨i, x⟩ := e
    rw [List.map_cons, List.lookup_cons]
    by_cases hi : i = k
    · by_cases hj : j = i
      · simp [hi, hj]
      · simp [hi, List.lookup_cons, beq_false_of_ne (hi ▸ hj), ih]
    · by_cases hj : j = i
      · simp [hi, hj]
      · simp [hi, List.lookup_cons, beq_false_of_ne hj, ih]

omit [DecidableEq κ] in
theorem lookup_map (entries : List (κ × α)) (f : κ → α → α) (j : κ) :
    (entries.map fun e => (e.1, f e.1 e.2)).lookup j = (entries.lookup j).map (f j) := by
  induction entries with
  | nil => rfl
  | cons e rest ih =>
    obtain ⟨i, x⟩ := e
    rw [List.map_cons, List.lookup_cons, List.lookup_cons, ih]
    cases hi : j == i with
    | true => rw [beq_iff_eq.mp hi]; rfl
    | false => rfl

theorem lookup_concat (entries : List (κ × α)) (k : κ) (x : α) (j : κ)
    (hk : entries.lookup k = none) :
    (entries ++ [(k, x)]).lookup j = if j = k then some x else entries.lookup j := by
  rw [List.lookup_append]
  by_cases hj : j = k
  · simp [hj, hk]
  · simp [hj, List.lookup_cons, beq_false_of_ne hj]

omit [DecidableEq κ] in
theorem mem_of_lookup {entries : List (κ × α)} {k : κ} {x : α} (h : entries.lookup k = some x) :
    (k, x) ∈ entries := by
  obtain ⟨before, after, rfl, -⟩ := List.lookup_eq_some_iff.mp h
  exact List.mem_append_right _ List.mem_cons_self

omit [DecidableEq κ] in
theorem lookup_of_mem {entries : List (κ × α)} (hn : (entries.map (·.1)).Nodup) {k : κ} {x : α}
    (h : (k, x) ∈ entries) : entries.lookup k = some x := by
  induction entries with
  | nil => exact absurd h List.not_mem_nil
  | cons e rest ih =>
    obtain ⟨i, y⟩ := e
    rw [List.map_cons, List.nodup_cons] at hn
    rcases List.mem_cons.mp h with he | hm
    · obtain ⟨rfl, rfl⟩ := Prod.mk.inj he
      simp
    · have hne : k ≠ i := fun e => hn.1 (e ▸ List.mem_map.mpr ⟨(k, x), hm, rfl⟩)
      rw [List.lookup_cons, beq_false_of_ne hne]
      exact ih hn.2 hm

theorem find?_key_eq_some {entries : List (Nat × α)}
    (horder : (entries.map (·.1)).Pairwise (· < ·)) (p : Nat × α → Bool) (k : Nat) :
    (entries.find? p).map (·.1) = some k
      ↔ (∃ x, (k, x) ∈ entries ∧ p (k, x) = true)
        ∧ ∀ j < k, ¬∃ x, (j, x) ∈ entries ∧ p (j, x) = true := by
  induction entries with
  | nil => simp
  | cons e rest ih =>
    obtain ⟨i, y⟩ := e
    rw [List.map_cons, List.pairwise_cons] at horder
    -- keys only grow, so an entry in front that fits is the least
    have hlater : ∀ j x, (j, x) ∈ rest → i < j := by
      intro j x hm
      exact horder.1 j (List.mem_map.mpr ⟨(j, x), hm, rfl⟩)
    cases hp : p (i, y) with
    | true =>
      rw [List.find?_cons_of_pos hp]
      simp only [Option.map_some, Option.some.injEq]
      constructor
      · rintro rfl
        refine ⟨⟨y, List.mem_cons_self, hp⟩, fun j hj => ?_⟩
        rintro ⟨x, hm, -⟩
        rcases List.mem_cons.mp hm with heq | hm
        · cases heq
          omega
        · have := hlater j x hm
          omega
      · rintro ⟨⟨x, hm, -⟩, hleast⟩
        rcases List.mem_cons.mp hm with heq | hm
        · cases heq
          rfl
        · exact absurd ⟨y, List.mem_cons_self, hp⟩ (hleast i (hlater k x hm))
    | false =>
      have hskip : ∀ j, (∃ x, (j, x) ∈ (i, y) :: rest ∧ p (j, x) = true)
          ↔ ∃ x, (j, x) ∈ rest ∧ p (j, x) = true := by
        intro j
        refine exists_congr fun x => and_congr_left fun hx => ?_
        rw [List.mem_cons, or_iff_right]
        rintro heq
        rw [heq, hp] at hx
        exact Bool.noConfusion hx
      rw [List.find?_cons_of_neg (by simp [hp]), ih horder.2]
      simp only [hskip]
end NcpHost.Keyed
