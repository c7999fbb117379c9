import TableStore.Proofs.Statement.Reads

namespace TableStore

namespace ColumnDefinition

variable (column : ColumnDefinition)

def IsOpen : Constraint → Prop
  | .primaryKey => column.primaryKey = false
  | .unique => column.unique = false
  | .nullability _ => column.nullability = none

def constrained : Constraint → ColumnDefinition
  | .primaryKey => { column with primaryKey := true }
  | .unique => { column with unique := true }
  | .nullability n => { column with nullability := some n }

def openKinds : Nat :=
  (!column.primaryKey).toNat + (!column.unique).toNat + column.nullability.isNone.toNat

theorem isOpen_constrained (c d : Constraint) :
    (column.constrained c).IsOpen d ↔ column.IsOpen d ∧ c.kind ≠ d.kind := by
  cases c <;> cases d <;> simp [constrained, IsOpen, Constraint.kind]

theorem openKinds_constrained {column : ColumnDefinition} {c : Constraint} (h : column.IsOpen c) :
    (column.constrained c).openKinds + 1 = column.openKinds := by
  cases c with
  | primaryKey =>
    have h : column.primaryKey = false := h
    simp [constrained, openKinds, h]
    omega
  | unique =>
    have h : column.unique = false := h
    simp [constrained, openKinds, h]
    omega
  | nullability n =>
    have h : column.nullability = none := h
    simp [constrained, openKinds, h]

theorem foldl_constrained (constraints : List Constraint)
    (hnodup : (constraints.map Constraint.kind).Nodup) (hopen : ∀ c ∈ constraints, column.IsOpen c) :
    constraints.foldl constrained column =
      { name := column.name, type := column.type
        primaryKey := column.primaryKey || .primaryKey ∈ constraints
        unique := column.unique || .unique ∈ constraints
        nullability := column.nullability.or (constraints.findSome? Constraint.nullability?) } := by
  induction constraints generalizing column with
  | nil => simp
  | cons c cs ih =>
    rw [List.map_cons, List.nodup_cons] at hnodup
    have hrest : ∀ d ∈ cs, (column.constrained c).IsOpen d := by
      intro d hd
      rw [isOpen_constrained]
      exact ⟨hopen d (List.mem_cons_of_mem c hd), fun h ↦ hnodup.1 (h ▸ List.mem_map_of_mem hd)⟩
    rw [List.foldl_cons, ih _ hnodup.2 hrest]
    cases c with
    | nullability n =>
      have hnone : column.nullability = none := hopen _ List.mem_cons_self
      simp [constrained, List.findSome?_cons, Constraint.nullability?, hnone]
    | _ => simp [constrained, List.findSome?_cons, Constraint.nullability?]

theorem isOpen_fresh (name : String) (type : DataType) (c : Constraint) :
    IsOpen { name, type } c := by
  cases c <;> rfl

theorem foldl_constrained_fresh (name : String) (type : DataType) {constraints : List Constraint}
    (hnodup : (constraints.map Constraint.kind).Nodup) :
    constraints.foldl constrained { name, type } =
      { name, type
        primaryKey := .primaryKey ∈ constraints
        unique := .unique ∈ constraints
        nullability := constraints.findSome? Constraint.nullability? } := by
  rw [foldl_constrained _ constraints hnodup fun c _ ↦ isOpen_fresh name type c]
  simp

end ColumnDefinition

namespace Phrase

variable {tokens rest : List Token} {column found : ColumnDefinition}

def EndsColumn (rest : List Token) : Prop :=
  rest.head? = some (.symbol .comma) ∨ rest.head? = some (.symbol .rightParen)

theorem eq_cons_of_headD {t : Token} (h : tokens.headD .endOfInput = t) (ht : t ≠ .endOfInput) :
    ∃ after, tokens = t :: after := by
  cases tokens with
  | nil => exact absurd h.symm ht
  | cons _ after => exact ⟨after, congrArg (· :: after) h⟩

theorem headD_of_endsColumn (h : EndsColumn rest) :
    rest.headD .endOfInput = .symbol .comma ∨ rest.headD .endOfInput = .symbol .rightParen := by
  cases rest with
  | nil => rcases h with h | h <;> cases h
  | cons t ts => exact h.imp Option.some.inj Option.some.inj

theorem constraints_succ_sound {fuel : Nat}
    (h : constraints (fuel + 1) column tokens = .ok (found, rest)) :
    (∃ c after, column.IsOpen c ∧ tokens = c.tokens ++ after ∧
      constraints fuel (column.constrained c) after = .ok (found, rest)) ∨
    found = column ∧ tokens = rest ∧ EndsColumn rest := by
  rw [constraints, run_current_bind] at h
  split at h
  · rename_i hif
    obtain ⟨ts, rfl⟩ := eq_cons_of_headD hif.1 nofun
    rw [run_advance_bind, List.tail_cons] at h
    obtain ⟨after, rfl, hrun⟩ := keyword_bind_eq_ok.mp h
    exact .inl ⟨.primaryKey, after, eq_false_of_ne_true hif.2, rfl, hrun⟩
  split at h
  · rename_i hif
    obtain ⟨ts, rfl⟩ := eq_cons_of_headD hif.1 nofun
    exact .inl ⟨.unique, ts, eq_false_of_ne_true hif.2, rfl, h⟩
  split at h
  · rename_i hif
    obtain ⟨ts, rfl⟩ := eq_cons_of_headD hif.1 nofun
    exact .inl ⟨.nullability .null, ts, hif.2, rfl, h⟩
  split at h
  · rename_i hif
    obtain ⟨ts, rfl⟩ := eq_cons_of_headD hif.1 nofun
    rw [run_advance_bind, List.tail_cons] at h
    obtain ⟨after, rfl, hrun⟩ := keyword_bind_eq_ok.mp h
    exact .inl ⟨.nullability .notNull, after, hif.2, rfl, hrun⟩
  split at h
  · rename_i hif
    obtain ⟨rfl, rfl⟩ := run_pure_eq_ok.mp h
    refine .inr ⟨rfl, rfl, hif.imp ?_ ?_⟩
    · intro hhead
      obtain ⟨ts, rfl⟩ := eq_cons_of_headD hhead nofun
      rfl
    · intro hhead
      obtain ⟨ts, rfl⟩ := eq_cons_of_headD hhead nofun
      rfl
  · cases h

theorem constraints_succ_of_isOpen {c : Constraint} (hopen : column.IsOpen c) (fuel : Nat)
    (after : List Token) :
    constraints (fuel + 1) column (c.tokens ++ after) =
      constraints fuel (column.constrained c) after := by
  rw [constraints, run_current_bind]
  match c, hopen with
  | .primaryKey, (hopen : column.primaryKey = false) =>
    rw [if_pos (by simp [Constraint.tokens, hopen])]
    rfl
  | .unique, (hopen : column.unique = false) =>
    rw [if_neg (by simp [Constraint.tokens]), if_pos (by simp [Constraint.tokens, hopen])]
    rfl
  | .nullability .null, (hopen : column.nullability = none) =>
    rw [if_neg (by simp [Constraint.tokens]), if_neg (by simp [Constraint.tokens]),
      if_pos (by simp [Constraint.tokens, hopen])]
    rfl
  | .nullability .notNull, (hopen : column.nullability = none) =>
    rw [if_neg (by simp [Constraint.tokens]), if_neg (by simp [Constraint.tokens]),
      if_neg (by simp [Constraint.tokens]), if_pos (by simp [Constraint.tokens, hopen])]
    rfl

theorem constraints_succ_of_ends (h : EndsColumn rest) (fuel : Nat) :
    constraints (fuel + 1) column rest = .ok (column, rest) := by
  have hhead := headD_of_endsColumn h
  have hother : ∀ k, rest.headD .endOfInput ≠ .keyword k := by
    intro k hk
    rcases hhead with hhead | hhead <;> cases hk.symm.trans hhead
  rw [constraints, run_current_bind, if_neg (fun hif ↦ hother _ hif.1),
    if_neg (fun hif ↦ hother _ hif.1), if_neg (fun hif ↦ hother _ hif.1),
    if_neg (fun hif ↦ hother _ hif.1), if_pos hhead]
  rfl

/-- By induction on the fuel, of which each constraint takes one unit and closes one kind. -/
theorem constraints_eq_ok {fuel : Nat} (hfuel : column.openKinds < fuel) :
    constraints fuel column tokens = .ok (found, rest) ↔
      ∃ cs : List Constraint, tokens = cs.flatMap Constraint.tokens ++ rest ∧
        (cs.map Constraint.kind).Nodup ∧ (∀ c ∈ cs, column.IsOpen c) ∧
          found = cs.foldl ColumnDefinition.constrained column ∧ EndsColumn rest := by
  induction fuel generalizing column tokens with
  | zero => omega
  | succ fuel ih =>
    constructor
    · intro h
      rcases constraints_succ_sound h with ⟨c, after, hopen, rfl, hrun⟩ | ⟨rfl, rfl, hends⟩
      · have hkinds := ColumnDefinition.openKinds_constrained hopen
        obtain ⟨cs, rfl, hnodup, hrest, rfl, hends⟩ := (ih (by omega)).mp hrun
        simp only [ColumnDefinition.isOpen_constrained] at hrest
        refine ⟨c :: cs, by simp, ?_, ?_, rfl, hends⟩
        · rw [List.map_cons, List.nodup_cons]
          refine ⟨fun hmem ↦ ?_, hnodup⟩
          obtain ⟨d, hd, hkind⟩ := List.mem_map.mp hmem
          exact (hrest d hd).2 hkind.symm
        · rintro d (_ | ⟨_, hd⟩)
          · exact hopen
          · exact (hrest d hd).1
      · exact ⟨[], rfl, .nil, nofun, rfl, hends⟩
    · rintro ⟨cs, rfl, hnodup, hopen, rfl, hends⟩
      cases cs with
      | nil => exact constraints_succ_of_ends hends fuel
      | cons c cs =>
        have hfirst := hopen c List.mem_cons_self
        have hkinds := ColumnDefinition.openKinds_constrained hfirst
        rw [List.map_cons, List.nodup_cons] at hnodup
        rw [List.flatMap_cons, List.append_assoc, constraints_succ_of_isOpen hfirst,
          ih (by omega)]
        refine ⟨cs, rfl, hnodup.2, ?_, rfl, hends⟩
        intro d hd
        rw [ColumnDefinition.isOpen_constrained]
        exact ⟨hopen d (List.mem_cons_of_mem c hd), fun h ↦ hnodup.1 (h ▸ List.mem_map_of_mem hd)⟩

theorem columnDefinition_reads :
    columnDefinition.Reads Grammar.Column fun _ rest ↦ EndsColumn rest := by
  intro tokens found rest
  rw [columnDefinition, identifier_bind_eq_ok]
  constructor
  · rintro ⟨name, middle, rfl, hrun⟩
    obtain ⟨type, after, htype, hafter⟩ := run_bind_eq_ok.mp hrun
    obtain rfl := dataType_eq_ok.mp htype
    obtain ⟨cs, rfl, hnodup, -, rfl, hends⟩ := (constraints_eq_ok (Nat.lt_succ_self 3)).mp hafter
    rw [ColumnDefinition.foldl_constrained_fresh name type hnodup]
    exact ⟨_, rfl, .mk name type hnodup, hends⟩
  · rintro ⟨front, rfl, ⟨name, type, hnodup⟩, hends⟩
    rw [← ColumnDefinition.foldl_constrained_fresh name type hnodup]
    refine ⟨name, _, rfl, run_bind_eq_ok.mpr ⟨type, _, dataType_eq_ok.mpr rfl, ?_⟩⟩
    rw [constraints_eq_ok (Nat.lt_succ_self 3)]
    exact ⟨_, rfl, hnodup, fun c _ ↦ ColumnDefinition.isOpen_fresh name type c, rfl, hends⟩

end Phrase

end TableStore
