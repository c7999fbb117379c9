namespace TableStore

section

variable {α β γ : Type} [BEq α] [LawfulBEq α]

theorem lookup_eq_none_of_not_mem {key : α} {entries : List (α × β)}
    (h : key ∉ entries.map Prod.fst) :
    entries.lookup key = none := by
  rw [List.lookup_eq_none_iff]
  intro entry hentry
  rw [bne_iff_ne]
  exact fun heq ↦ h (List.mem_map.mpr ⟨entry, hentry, heq.symm⟩)

theorem mem_of_lookup {key : α} {value : β} {entries : List (α × β)}
    (h : entries.lookup key = some value) : (key, value) ∈ entries := by
  obtain ⟨front, back, rfl, -⟩ := List.lookup_eq_some_iff.mp h
  simp

theorem mem_names_of_lookup {key : α} {value : β} {entries : List (α × β)}
    (h : entries.lookup key = some value) : key ∈ entries.map Prod.fst :=
  List.mem_map_of_mem (mem_of_lookup h)

theorem isSome_lookup_iff {key : α} {entries : List (α × β)} :
    (entries.lookup key).isSome = true ↔ key ∈ entries.map Prod.fst := by
  constructor
  · intro h
    obtain ⟨value, hvalue⟩ := Option.isSome_iff_exists.mp h
    exact mem_names_of_lookup hvalue
  · intro h
    obtain ⟨entry, hentry, rfl⟩ := List.mem_map.mp h
    rw [List.lookup_isSome_iff]
    exact ⟨entry, hentry, by simp⟩

variable [DecidableEq α]

theorem lookup_cons_if (key other : α) (value : β) (rest : List (α × β)) :
    ((other, value) :: rest).lookup key = if key = other then some value else rest.lookup key := by
  rw [List.lookup_cons]
  by_cases h : key = other
  · simp [h]
  · rw [if_neg h, beq_false_of_ne h]

theorem lookup_filter (p : α → Bool) (entries : List (α × β)) (key : α) :
    (entries.filter fun entry ↦ p entry.1).lookup key =
      if p key = true then entries.lookup key else none := by
  induction entries with
  | nil => simp
  | cons entry rest ih =>
    obtain ⟨other, value⟩ := entry
    rw [lookup_cons_if]
    by_cases hp : p other = true
    · rw [List.filter_cons_of_pos (by exact hp), lookup_cons_if, ih]
      by_cases hkey : key = other
      · simp [hkey, hp]
      · simp [hkey]
    · rw [List.filter_cons_of_neg (by exact hp), ih]
      by_cases hkey : key = other
      · simp [hkey, hp]
      · simp [hkey]

theorem lookup_map_value (f : α → β → γ) (entries : List (α × β)) (key : α) :
    (entries.map fun entry ↦ (entry.1, f entry.1 entry.2)).lookup key =
      (entries.lookup key).map (f key) := by
  induction entries with
  | nil => rfl
  | cons entry rest ih =>
    obtain ⟨other, value⟩ := entry
    rw [List.map_cons, lookup_cons_if, lookup_cons_if, ih]
    by_cases hkey : key = other
    · simp [hkey]
    · simp [hkey]

theorem lookup_map_of_mem {name : γ → α} {value : γ → β} {xs : List γ}
    (hnodup : (xs.map name).Nodup) {x : γ} (hx : x ∈ xs) :
    (xs.map fun x ↦ (name x, value x)).lookup (name x) = some (value x) := by
  induction xs with
  | nil => cases hx
  | cons y ys ih =>
    obtain ⟨hfresh, hnodup⟩ := List.nodup_cons.mp hnodup
    rw [List.map_cons, lookup_cons_if]
    rcases List.mem_cons.mp hx with rfl | hx
    · simp
    · have hne : name x ≠ name y := fun h ↦ hfresh (h ▸ List.mem_map_of_mem hx)
      rw [if_neg hne]
      exact ih hnodup hx

theorem lookup_of_mem {entries : List (α × β)} (hnodup : (entries.map Prod.fst).Nodup)
    {entry : α × β}
    (h : entry ∈ entries) : entries.lookup entry.1 = some entry.2 := by
  have hlookup := @lookup_map_of_mem α β _ _ _ _ Prod.fst Prod.snd entries hnodup entry h
  simpa using hlookup

end

end TableStore
