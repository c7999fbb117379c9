import TableStore.Proofs.Statement.Column
import TableStore.Proofs.Statement.Expression

namespace TableStore

namespace Phrase

open Grammar (Condition Form Separated)

variable {tokens rest : List Token} {s : Statement}

def EndsCondition : Option Expr → List Token → Prop
  | none, rest => rest.head? ≠ some (.keyword .where)
  | some _, rest => EndsChain rest

theorem condition_reads : condition.Reads Condition EndsCondition := by
  intro tokens found rest
  rw [condition, run_bind_eq_ok]
  constructor
  · rintro ⟨isWhere, middle, hwhere, hrun⟩
    rcases acceptKeyword_eq_ok.mp hwhere with ⟨rfl, rfl⟩ | ⟨rfl, hnone, rfl⟩
    · rw [if_pos rfl] at hrun
      obtain ⟨front, e, after, rfl, hspells, hends, hpure⟩ := expression_reads.bind_eq_ok.mp hrun
      obtain ⟨rfl, rfl⟩ := run_pure_eq_ok.mp hpure
      exact ⟨_, rfl, .some hspells, hends⟩
    · obtain ⟨rfl, rfl⟩ := run_pure_eq_ok.mp hrun
      exact ⟨[], rfl, .none, hnone⟩
  · rintro ⟨front, rfl, hspells, hends⟩
    cases hspells with
    | none => exact ⟨false, rest, acceptKeyword_eq_ok.mpr (.inr ⟨rfl, hends, rfl⟩), rfl⟩
    | @some ts e h =>
      refine ⟨true, ts ++ rest, acceptKeyword_eq_ok.mpr (.inl ⟨rfl, rfl⟩), ?_⟩
      rw [if_pos rfl]
      exact expression_reads.bind_eq_ok.mpr ⟨ts, e, rest, rfl, h, hends, rfl⟩

def EndsItem (item : SelectItem) (rest : List Token) : Prop :=
  item.newName = none → rest.head? ≠ some (.keyword .as) ∧
    ∀ name, rest.head? ≠ some (.identifier name)

theorem newName_eq_ok {newName? : Option String} :
    newName tokens = .ok (newName?, rest) ↔
      (∃ name, newName? = some name ∧
        (tokens = .identifier name :: rest ∨ tokens = .keyword .as :: .identifier name :: rest)) ∨
      newName? = none ∧ tokens = rest ∧ rest.head? ≠ some (.keyword .as) ∧
        ∀ name, rest.head? ≠ some (.identifier name) := by
  rw [newName, run_current_bind]
  constructor
  · intro h
    rcases tokens with _ | ⟨t, ts⟩
    · cases h
      exact .inr ⟨rfl, rfl, nofun, nofun⟩
    · rw [List.headD_cons] at h
      cases t with
      | keyword k =>
        cases k with
        | as =>
          have hrun : (identifier >>= fun name ↦ pure (some name)) ts = .ok (newName?, rest) := h
          obtain ⟨name, after, rfl, hpure⟩ := identifier_bind_eq_ok.mp hrun
          obtain ⟨rfl, rfl⟩ := run_pure_eq_ok.mp hpure
          exact .inl ⟨name, rfl, .inr rfl⟩
        | _ =>
          cases h
          exact .inr ⟨rfl, rfl, nofun, nofun⟩
      | identifier name =>
        cases h
        exact .inl ⟨name, rfl, .inl rfl⟩
      | _ =>
        cases h
        exact .inr ⟨rfl, rfl, nofun, nofun⟩
  · rintro (⟨name, rfl, rfl | rfl⟩ | ⟨rfl, rfl, has, hname⟩)
    · rfl
    · rfl
    · rcases tokens with _ | ⟨t, ts⟩
      · rfl
      · rw [List.headD_cons]
        cases t with
        | keyword k =>
          cases k with
          | as => exact absurd rfl has
          | _ => rfl
        | identifier name => exact absurd rfl (hname name)
        | _ => rfl

theorem selectItem_reads : selectItem.Reads Grammar.Item EndsItem := by
  intro tokens item rest
  rw [selectItem, identifier_bind_eq_ok]
  constructor
  · rintro ⟨column, middle, rfl, hrun⟩
    obtain ⟨newName?, after, hname, hpure⟩ := run_bind_eq_ok.mp hrun
    obtain ⟨rfl, rfl⟩ := run_pure_eq_ok.mp hpure
    rcases newName_eq_ok.mp hname with ⟨name, rfl, rfl | rfl⟩ | ⟨rfl, rfl, hends⟩
    · exact ⟨_, rfl, .renamed column name, nofun⟩
    · exact ⟨_, rfl, .renamedAs column name, nofun⟩
    · exact ⟨_, rfl, .plain column, fun _ ↦ hends⟩
  · rintro ⟨front, rfl, hspells, hends⟩
    cases hspells with
    | plain column =>
      have hname := newName_eq_ok.mpr (.inr ⟨rfl, rfl, hends rfl⟩)
      exact ⟨column, rest, rfl, run_bind_eq_ok.mpr ⟨none, rest, hname, rfl⟩⟩
    | renamed column name => exact ⟨column, _, rfl, rfl⟩
    | renamedAs column name => exact ⟨column, _, rfl, rfl⟩

def EndsSelection : Selection → List Token → Prop
  | .all, _ => True
  | .items items, rest =>
    (∀ item ∈ items.getLast?, EndsItem item rest) ∧ rest.head? ≠ some (.symbol .comma)

theorem items_reads :
    (separated selectItem).Reads (Separated Grammar.Item) (EndsSelection <| .items ·) :=
  selectItem_reads.separated fun _ _ _ ↦ ⟨nofun, nofun⟩

theorem exists_cons_of_items {ts : List Token} {items : List SelectItem}
    (h : Separated Grammar.Item ts items) : ∃ name us, ts = .identifier name :: us := by
  cases h with
  | single h => cases h <;> exact ⟨_, _, rfl⟩
  | cons h _ => cases h <;> exact ⟨_, _, rfl⟩

theorem selection_reads : selection.Reads Grammar.Selected EndsSelection := by
  intro tokens found rest
  rw [selection, run_current_bind]
  constructor
  · intro h
    rcases tokens with _ | ⟨t, ts⟩
    · cases h
    · rw [List.headD_cons] at h
      cases t with
      | symbol s =>
        cases s with
        | star =>
          cases h
          exact ⟨_, rfl, .all, trivial⟩
        | _ => cases h
      | identifier name =>
        obtain ⟨front, items, after, hfront, hspells, hends, hpure⟩ :=
          items_reads.bind_eq_ok.mp h
        obtain ⟨rfl, rfl⟩ := run_pure_eq_ok.mp hpure
        exact ⟨front, hfront, .items hspells, hends⟩
      | _ => cases h
  · rintro ⟨front, rfl, hspells, hends⟩
    cases hspells with
    | all => rfl
    | @items _ items h =>
      obtain ⟨name, ts, rfl⟩ := exists_cons_of_items h
      rw [List.cons_append, List.headD_cons]
      exact items_reads.bind_eq_ok.mpr ⟨_, items, rest, rfl, h, hends, rfl⟩

theorem endsSelection_from (selection : Selection) (rest : List Token) :
    EndsSelection selection (.keyword .from :: rest) := by
  cases selection with
  | all => trivial
  | items items => exact ⟨fun _ _ _ ↦ ⟨nofun, nofun⟩, nofun⟩

theorem run_columnList_none (h : tokens.head? ≠ some (.symbol .leftParen)) :
    columnList tokens = .ok (none, tokens) := by
  rw [columnList, run_current_bind]
  rcases tokens with _ | ⟨t, ts⟩
  · rfl
  · rw [List.headD_cons]
    cases t with
    | symbol s =>
      cases s with
      | leftParen => exact absurd rfl h
      | _ => rfl
    | _ => rfl

theorem run_columnList_some (ts : List Token) :
    columnList (.symbol .leftParen :: ts) =
      (parenthesized (separated identifier) >>= fun names ↦ pure (some names))
        (.symbol .leftParen :: ts) := rfl

theorem parenthesizedNames_reads : (parenthesized (separated identifier)).Reads
    (fun front names ↦ ∃ ts, front = Grammar.parenthesized ts ∧ Separated Grammar.Name ts names)
    fun _ _ ↦ True :=
  identifier_reads.parenthesizedList (fun _ _ ↦ trivial) fun _ _ ↦ trivial

theorem columnList_reads : columnList.Reads Grammar.ColumnList fun columns rest ↦
    columns = none → rest.head? ≠ some (.symbol .leftParen) := by
  intro tokens columns rest
  constructor
  · intro h
    by_cases hopen : tokens.head? = some (.symbol .leftParen)
    · obtain ⟨ts, rfl⟩ := List.head?_eq_some_iff.mp hopen
      rw [run_columnList_some] at h
      obtain ⟨_, names, after, hfront, ⟨ts, rfl, hspells⟩, -, hpure⟩ :=
        parenthesizedNames_reads.bind_eq_ok.mp h
      obtain ⟨rfl, rfl⟩ := run_pure_eq_ok.mp hpure
      exact ⟨_, hfront, .some hspells, nofun⟩
    · rw [run_columnList_none hopen] at h
      cases h
      exact ⟨[], rfl, .none, fun _ ↦ hopen⟩
  · rintro ⟨front, rfl, hspells, hends⟩
    cases hspells with
    | none => exact run_columnList_none (hends rfl)
    | @some ts names h =>
      exact (run_columnList_some _).trans <| parenthesizedNames_reads.bind_eq_ok.mpr
        ⟨_, names, rest, rfl, ⟨ts, rfl, h⟩, trivial, rfl⟩

theorem change_reads : change.Reads Grammar.Change fun _ _ ↦ True := by
  intro tokens found rest
  rw [change, identifier_bind_eq_ok]
  constructor
  · rintro ⟨column, _, rfl, hrun⟩
    obtain ⟨_, rfl, hvalue⟩ := symbol_bind_eq_ok.mp hrun
    obtain ⟨front, v, _, rfl, hspells, -, hpure⟩ := literal_reads.bind_eq_ok.mp hvalue
    obtain ⟨rfl, rfl⟩ := run_pure_eq_ok.mp hpure
    exact ⟨_, rfl, .mk column hspells, trivial⟩
  · rintro ⟨front, rfl, @⟨column, ts, v, h⟩, -⟩
    refine ⟨column, _, rfl, symbol_bind_eq_ok.mpr ⟨ts ++ rest, rfl, ?_⟩⟩
    exact literal_reads.bind_eq_ok.mpr ⟨ts, v, rest, rfl, h, trivial, rfl⟩

def EndsStatement : Statement → List Token → Prop
  | .select _ _ _ condition, rest => EndsCondition condition rest
  | .update _ _ condition, rest =>
    (condition = none → rest.head? ≠ some (.symbol .comma)) ∧ EndsCondition condition rest
  | .delete _ condition, rest => EndsCondition condition rest
  | _, _ => True

theorem values_reads : (parenthesized (separated literal)).Reads
    (fun front values ↦
      ∃ ts, front = Grammar.parenthesized ts ∧ Separated Grammar.Literal ts values)
    fun _ _ ↦ True :=
  literal_reads.parenthesizedList (fun _ _ ↦ trivial) fun _ _ ↦ trivial

theorem columnDefinitions_reads : (parenthesized (separated columnDefinition)).Reads
    (fun front columns ↦
      ∃ ts, front = Grammar.parenthesized ts ∧ Separated Grammar.Column ts columns)
    fun _ _ ↦ True :=
  columnDefinition_reads.parenthesizedList (fun _ _ ↦ .inl rfl) fun _ _ ↦ .inr rfl

theorem changes_reads : (separated change).Reads (Separated Grammar.Change) fun _ rest ↦
    rest.head? ≠ some (.symbol .comma) := by
  intro tokens found rest
  rw [change_reads.separated (fun _ _ ↦ trivial) tokens found rest]
  simp only [implies_true, true_and]

theorem accept_distinct {ts : List Token} {selection : Selection}
    (h : Grammar.Selected ts selection) (distinct : Bool) :
    accept (.keyword .distinct)
      ((if distinct then [.keyword .distinct] else []) ++ (ts ++ rest)) =
        .ok (distinct, ts ++ rest) := by
  cases distinct with
  | true => exact acceptKeyword_eq_ok.mpr (.inl ⟨rfl, rfl⟩)
  | false =>
    refine acceptKeyword_eq_ok.mpr (.inr ⟨rfl, ?_, rfl⟩)
    cases h with
    | all => exact nofun
    | items h =>
      obtain ⟨name, us, rfl⟩ := exists_cons_of_items h
      exact nofun

theorem select_sound (h : select tokens = .ok (s, rest)) :
    ∃ front, tokens = front ++ rest ∧ Form front s ∧ EndsStatement s rest := by
  obtain ⟨_, rfl, h₁⟩ := keyword_bind_eq_ok.mp h
  obtain ⟨distinct, _, hdistinct, h₂⟩ := run_bind_eq_ok.mp h₁
  obtain ⟨ts, selection, _, rfl, hselected, -, h₃⟩ := selection_reads.bind_eq_ok.mp h₂
  obtain ⟨_, rfl, h₄⟩ := keyword_bind_eq_ok.mp h₃
  obtain ⟨table, _, rfl, h₅⟩ := identifier_bind_eq_ok.mp h₄
  obtain ⟨us, condition, _, rfl, hcondition, hends, h₆⟩ := condition_reads.bind_eq_ok.mp h₅
  obtain ⟨rfl, rfl⟩ := run_pure_eq_ok.mp h₆
  refine ⟨_, ?_, .select distinct table hselected hcondition, hends⟩
  rcases acceptKeyword_eq_ok.mp hdistinct with ⟨rfl, rfl⟩ | ⟨rfl, -, rfl⟩ <;> simp

theorem insert_sound (h : insert tokens = .ok (s, rest)) :
    ∃ front, tokens = front ++ rest ∧ Form front s ∧ EndsStatement s rest := by
  obtain ⟨_, rfl, h₁⟩ := keyword_bind_eq_ok.mp h
  obtain ⟨_, rfl, h₂⟩ := keyword_bind_eq_ok.mp h₁
  obtain ⟨table, _, rfl, h₃⟩ := identifier_bind_eq_ok.mp h₂
  obtain ⟨ts, columns, _, rfl, hcolumns, -, h₄⟩ := columnList_reads.bind_eq_ok.mp h₃
  obtain ⟨_, rfl, h₅⟩ := keyword_bind_eq_ok.mp h₄
  obtain ⟨_, values, _, rfl, ⟨us, rfl, hvalues⟩, -, h₆⟩ := values_reads.bind_eq_ok.mp h₅
  obtain ⟨rfl, rfl⟩ := run_pure_eq_ok.mp h₆
  exact ⟨_, by simp, .insert table hcolumns hvalues, trivial⟩

theorem createTable_sound (h : createTable tokens = .ok (s, rest)) :
    ∃ front, tokens = front ++ rest ∧ Form front s ∧ EndsStatement s rest := by
  obtain ⟨_, rfl, h₁⟩ := keyword_bind_eq_ok.mp h
  obtain ⟨_, rfl, h₂⟩ := keyword_bind_eq_ok.mp h₁
  obtain ⟨table, _, rfl, h₃⟩ := identifier_bind_eq_ok.mp h₂
  obtain ⟨_, columns, _, rfl, ⟨ts, rfl, hcolumns⟩, -, h₄⟩ :=
    columnDefinitions_reads.bind_eq_ok.mp h₃
  obtain ⟨rfl, rfl⟩ := run_pure_eq_ok.mp h₄
  exact ⟨_, by simp, .createTable table hcolumns, trivial⟩

theorem update_sound (h : update tokens = .ok (s, rest)) :
    ∃ front, tokens = front ++ rest ∧ Form front s ∧ EndsStatement s rest := by
  obtain ⟨_, rfl, h₁⟩ := keyword_bind_eq_ok.mp h
  obtain ⟨table, _, rfl, h₂⟩ := identifier_bind_eq_ok.mp h₁
  obtain ⟨_, rfl, h₃⟩ := keyword_bind_eq_ok.mp h₂
  obtain ⟨ts, changes, _, rfl, hchanges, hcomma, h₄⟩ := changes_reads.bind_eq_ok.mp h₃
  obtain ⟨us, condition, _, rfl, hcondition, hends, h₅⟩ := condition_reads.bind_eq_ok.mp h₄
  obtain ⟨rfl, rfl⟩ := run_pure_eq_ok.mp h₅
  refine ⟨_, by simp, .update table hchanges hcondition, ?_, hends⟩
  rintro rfl
  cases hcondition
  exact hcomma

theorem delete_sound (h : delete tokens = .ok (s, rest)) :
    ∃ front, tokens = front ++ rest ∧ Form front s ∧ EndsStatement s rest := by
  obtain ⟨_, rfl, h₁⟩ := keyword_bind_eq_ok.mp h
  obtain ⟨_, rfl, h₂⟩ := keyword_bind_eq_ok.mp h₁
  obtain ⟨table, _, rfl, h₃⟩ := identifier_bind_eq_ok.mp h₂
  obtain ⟨us, condition, _, rfl, hcondition, hends, h₄⟩ := condition_reads.bind_eq_ok.mp h₃
  obtain ⟨rfl, rfl⟩ := run_pure_eq_ok.mp h₄
  exact ⟨_, by simp, .delete table hcondition, hends⟩

theorem dropTable_sound (h : dropTable tokens = .ok (s, rest)) :
    ∃ front, tokens = front ++ rest ∧ Form front s ∧ EndsStatement s rest := by
  obtain ⟨_, rfl, h₁⟩ := keyword_bind_eq_ok.mp h
  obtain ⟨_, rfl, h₂⟩ := keyword_bind_eq_ok.mp h₁
  obtain ⟨table, _, rfl, h₃⟩ := identifier_bind_eq_ok.mp h₂
  obtain ⟨rfl, rfl⟩ := run_pure_eq_ok.mp h₃
  exact ⟨_, by simp, .dropTable table, trivial⟩

theorem run_body {front : List Token} (h : Form front s) (hends : EndsStatement s rest) :
    body (front ++ rest) = .ok (s, rest) := by
  rw [body, run_current_bind]
  cases h with
  | @select distinct ts us selection table condition h hcondition =>
    rw [List.cons_append, List.headD_cons]
    refine keyword_bind_eq_ok.mpr ⟨_, rfl, ?_⟩
    rw [List.append_assoc, List.append_assoc]
    refine run_bind_eq_ok.mpr ⟨distinct, _, accept_distinct h distinct, ?_⟩
    refine selection_reads.bind_eq_ok.mpr
      ⟨ts, selection, _, rfl, h, endsSelection_from selection _, ?_⟩
    refine keyword_bind_eq_ok.mpr ⟨_, rfl, identifier_bind_eq_ok.mpr ⟨table, _, rfl, ?_⟩⟩
    exact condition_reads.bind_eq_ok.mpr ⟨us, condition, rest, rfl, hcondition, hends, rfl⟩
  | @insert table ts us columns values h hvalues =>
    rw [List.cons_append, List.headD_cons]
    refine keyword_bind_eq_ok.mpr ⟨_, rfl, keyword_bind_eq_ok.mpr ⟨_, rfl, ?_⟩⟩
    refine identifier_bind_eq_ok.mpr ⟨table, _, rfl, ?_⟩
    refine columnList_reads.bind_eq_ok.mpr
      ⟨ts, columns, .keyword .values :: (Grammar.parenthesized us ++ rest), by simp, h, nofun, ?_⟩
    refine keyword_bind_eq_ok.mpr ⟨_, rfl, ?_⟩
    exact values_reads.bind_eq_ok.mpr ⟨_, values, rest, rfl, ⟨us, rfl, hvalues⟩, trivial, rfl⟩
  | @createTable table ts columns h =>
    rw [List.cons_append, List.headD_cons]
    refine keyword_bind_eq_ok.mpr ⟨_, rfl, keyword_bind_eq_ok.mpr ⟨_, rfl, ?_⟩⟩
    refine identifier_bind_eq_ok.mpr ⟨table, _, rfl, ?_⟩
    exact columnDefinitions_reads.bind_eq_ok.mpr
      ⟨_, columns, rest, rfl, ⟨ts, rfl, h⟩, trivial, rfl⟩
  | @update table ts us changes condition h hcondition =>
    rw [List.cons_append, List.headD_cons]
    refine keyword_bind_eq_ok.mpr ⟨_, rfl, identifier_bind_eq_ok.mpr ⟨table, _, rfl, ?_⟩⟩
    refine keyword_bind_eq_ok.mpr ⟨_, rfl, ?_⟩
    refine changes_reads.bind_eq_ok.mpr ⟨ts, changes, us ++ rest, by simp, h, ?_, ?_⟩
    · cases hcondition with
      | none => exact hends.1 rfl
      | some _ => exact nofun
    · exact condition_reads.bind_eq_ok.mpr
        ⟨us, condition, rest, rfl, hcondition, hends.2, rfl⟩
  | @delete table us condition hcondition =>
    rw [List.cons_append, List.headD_cons]
    refine keyword_bind_eq_ok.mpr ⟨_, rfl, keyword_bind_eq_ok.mpr ⟨_, rfl, ?_⟩⟩
    refine identifier_bind_eq_ok.mpr ⟨table, _, rfl, ?_⟩
    exact condition_reads.bind_eq_ok.mpr ⟨us, condition, rest, rfl, hcondition, hends, rfl⟩
  | dropTable table => rfl

theorem body_reads : body.Reads Form EndsStatement := by
  intro tokens s rest
  constructor
  · intro h
    rw [body, run_current_bind] at h
    rcases tokens with _ | ⟨t, ts⟩
    · cases h
    rw [List.headD_cons] at h
    cases t with
    | keyword k =>
      cases k with
      | select => exact select_sound h
      | insert => exact insert_sound h
      | create => exact createTable_sound h
      | update => exact update_sound h
      | delete => exact delete_sound h
      | drop => exact dropTable_sound h
      | _ => cases h
    | _ => cases h
  · rintro ⟨front, rfl, hform, hends⟩
    exact run_body hform hends

end Phrase

end TableStore
